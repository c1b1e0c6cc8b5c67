import Overhaul.Proofs.Reschedule.Cascade
import Overhaul.Proofs.Reschedule.Writing

/-!
# Cascades that stop half-way

When a record of a cascade cannot be written, or its caller has given up, the tasks that were moved
stay moved and are recorded, or they are moved back, as the project's policy says. Main statement:
`stopped_exact` compares a cascade that stops with the one that would have been carried out.
-/

namespace Overhaul

namespace World

/-! ### Deciding -/

/-- The service fails in all clear worlds with the store, or decides the same in all of them and
carries it out, in a world with other locks. -/
def Decides (setup : Setup) (ctx : Context) (m : Move) (s : Store) (p : Service ScheduleChange) :
    Prop :=
  (∃ e, ∀ w : World, w.Clear s → (w.serve p).1 = .error e) ∨
    ∃ d : Draft, d.Drawn True s ctx m ∧ ∀ w : World, w.Clear s →
      ∃ v : World, v.Clear s ∧ v.faults = w.faults ∧
        (w.serve p).1 = (v.serve (Service.carryOut setup d)).1 ∧
        (w.serve p).2.store = (v.serve (Service.carryOut setup d)).2.store

variable {setup : Setup} {ctx : Context} {m : Move} {s : Store}

theorem decides_of_reads {α : Type} {p : Service α} {f : α → Service ScheduleChange}
    (hp : Service.Only Step.Reads p)
    (hf : ∀ a, (∀ w : World, w.Clear s → w.serve p = (.ok a, w)) → Decides setup ctx m s (f a)) :
    Decides setup ctx m s (p >>= f) := by
  rcases serve_bind_of_reads hp f s with ⟨e, he⟩ | ⟨a, ha⟩
  · exact .inl ⟨e, fun w hw => congrArg Prod.fst (he w hw)⟩
  · rcases hf a fun w hw => (ha w hw).1 with ⟨e, he⟩ | ⟨d, hdrawn, hcarry⟩
    · refine .inl ⟨e, fun w hw => ?_⟩
      rw [(ha w hw).2]
      exact he w hw
    · refine .inr ⟨d, hdrawn, fun w hw => ?_⟩
      rw [(ha w hw).2]
      exact hcarry w hw

theorem decides_guard {c : Prop} [Decidable c] {f : Failure} {k : Unit → Service ScheduleChange}
    (h : Decides setup ctx m s (k ())) :
    Decides setup ctx m s (if c then throw f >>= k else k ()) := by
  split
  · exact .inl ⟨f, fun w _ => rfl⟩
  · exact h

/-- What is decided depends on the store alone. -/
theorem decides_reschedule : Decides setup ctx m s (Service.reschedule setup ctx m) := by
  refine decides_of_reads (Service.only_ofExcept _) fun window hwindow => decides_guard ?_
  refine decides_of_reads (Service.only_visibleTask trivial) fun t _ => decides_guard ?_
  refine decides_of_reads (Service.only_ensureOpen t) fun _ _ => ?_
  have hquiet : ({ store := s } : World).Clear s := ⟨rfl, rfl, fun _ _ => rfl⟩
  have hclear : ∀ w : World, w.Clear s → (w.take (.lock t.tenant)).2.Clear s := fun _ hw =>
    ⟨hw.store, hw.active, hw.reads⟩
  rcases serve_bind_of_reads (Service.only_draft ctx m window (Text.trimmed m.reason))
    (Service.carryOut setup) s with ⟨e, he⟩ | ⟨d, hd⟩
  · refine .inl ⟨e, fun w hw => ?_⟩
    rw [serve_locked, he _ (hclear w hw)]
  · have hdrawn : d.Drawn True s ctx m := by
      have hwithin : ({ store := s } : World).Within fun _ => True := within_of_faults_eq_nil rfl
      have hcourse := course_serve hwithin (Service.draft ctx m window (Text.trimmed m.reason))
      rw [(hd _ hquiet).1] at hcourse
      have hbetween := congrArg Prod.fst (hwindow _ hquiet)
      exact (Service.course_draft hbetween hcourse).2
    refine .inr ⟨d, hdrawn, fun w hw => ⟨_, hclear w hw, rfl, ?_⟩⟩
    rw [serve_locked, (hd _ (hclear w hw)).2]
    exact ⟨rfl, rfl⟩

/-! ### Carrying out -/

theorem serve_discard {α : Type} (w : World) (p : Service α) :
    w.serve (discard p) = ((w.serve p).1.map fun _ => (), (w.serve p).2) :=
  serve_map w (fun _ => ()) p

theorem fst_serve_writeBack (w : World) (ts : List Task) :
    (w.serve (Service.writeBack ts)).1 = .ok () := by
  induction ts generalizing w with
  | nil => rfl
  | cons t ts ih =>
      rw [Service.writeBack, serve_bind, serve_discard, serve_attempt]
      exact ih _

/-- Dealing with a cascade that stopped cannot fail. -/
theorem fst_serve_settle (w : World) (setup : Setup) (root : Task) (change : ScheduleChange)
    (done : List Task) : (w.serve (Service.settle setup root change done)).1 = .ok () := by
  unfold Service.settle
  split
  · rw [serve_discard, serve_outcome]
    rfl
  · exact fst_serve_writeBack w _

/-- A cascade that stops has moved as many tasks as could be written, and is then dealt with as the
policy says. -/
theorem serve_carryOut {w : World} {d : Draft} {sound : Prop} {ctx : Context} {m : Move}
    (hdrawn : d.Drawn sound w.store ctx m) {k : Nat} {failure : Failure} {rest : List Fault}
    (hstop : StopsAfter (k + 1) w.cancelled (w.faults .putTask) failure rest)
    (hk : k < d.shifts.length) (setup : Setup) :
    ∃ v, w.Wrote v (d.written (d.shifts.take k)) rest ∧
      (w.serve (Service.carryOut setup d)).1 = .error failure ∧
      (w.serve (Service.carryOut setup d)).2 = (v.serve
        (Service.settle setup d.root d.change ((d.shifts.take k).map Shift.before))).2 := by
  have hroot : (w.store.tasks.find? d.moved.id).isSome := by
    rw [hdrawn.id_moved, hdrawn.find?_root]
    rfl
  obtain ⟨-, w₁, _, hw₁, hwrote₁, hstop₁⟩ := answer_put_of_stopsAfter hstop hroot
  have hstored : ∀ x ∈ d.shifts, (w₁.store.tasks.find? x.after.id).isSome := by
    intro x hx
    have hfits := hdrawn.fits x hx
    rw [hwrote₁.store]
    refine Table.isSome_find?_put ?_
    rw [hfits.id_after, (Store.task?_eq_some_iff.mp hfits.found).1]
    rfl
  obtain ⟨w₂, hw₂, hwrote₂⟩ := serve_writeCascade hstop₁ hk hstored
  have hserve : w.serve (Service.carryOut setup d) =
      (.error failure, (w₂.serve (Service.settle setup d.root d.change
        ((d.shifts.take k).map Shift.before))).2) := by
    rw [Service.carryOut, serve_bind, serve_ask_of_answer hw₁]
    change w₁.serve (Service.writeCascade d.shifts >>= _) = _
    rw [serve_bind, hw₂]
    dsimp only
    rw [serve_bind]
    have hsettle := fst_serve_settle w₂ setup d.root d.change ((d.shifts.take k).map Shift.before)
    rcases hr : w₂.serve (Service.settle setup d.root d.change
      ((d.shifts.take k).map Shift.before)) with ⟨_ | _, w₃⟩
    · rw [hr] at hsettle
      cases hsettle
    · rfl
  rw [hserve]
  exact ⟨w₂, hwrote₁.trans hwrote₂, rfl, rfl⟩

end World

/-! ### What is left -/

/-- The first tasks of a cascade stay moved, each of them behind one that it waits for, and the
change is recorded with them if it can be. -/
structure Store.KeptApplied (s s' : Store) (root : Task) (change : ScheduleChange) (k : Nat)
    (appends : Prop) : Prop where
  displaced : s.Displaced s' root change.newStart change.newFinish change.nanos change.created
    (change.affected.take k)
  waits : ∀ before id after, change.affected.take k = before ++ id :: after →
    ∃ y, (y = root.id ∨ y ∈ before) ∧ s.Waits root.tenant id y
  recorded : appends → s'.changes.rows =
    s.changes.rows ++ [{ change with affected := change.affected.take k }]
  unrecorded : ¬appends → s'.changes = s.changes

/-- The touched tasks are moved back, in this order, as far as their records can be written; nothing
is recorded or announced. -/
structure Store.RolledBack (s s' : Store) (touched : List TaskId) (faults : List Fault) : Prop where
  frame : s' = { s with tasks := s'.tasks }
  restored : ∀ (i : Nat) (id : TaskId), touched[i]? = some id →
    (∀ text, faults[i]? ≠ some (Fault.fail text)) →
    s'.tasks.find? id = s.tasks.find? id
  untouched : ∀ id, id ∉ touched → s'.tasks.find? id = s.tasks.find? id
  whole : (∀ i < touched.length, ∀ text, faults[i]? ≠ some (Fault.fail text)) → s' = s

namespace Draft

variable {sound : Prop} {s : Store} {ctx : Context} {m : Move} {d : Draft}

/-- A task is moved along behind one that it waits for: the root, or one that is moved before. -/
theorem Drawn.waits (hindexed : s.Indexed) (h : d.Drawn sound s ctx m) {done : List Shift}
    (hdone : done <+: d.shifts) {before after : List TaskId} {id : TaskId}
    (hids : done.map Shift.id = before ++ id :: after) :
    ∃ y, (y = d.root.id ∨ y ∈ before) ∧ s.Waits d.root.tenant id y := by
  obtain ⟨xs, ys, rfl, rfl, hys⟩ := List.map_eq_append_iff.mp hids
  obtain ⟨x, zs, rfl, rfl, rfl⟩ := List.map_eq_cons_iff.mp hys
  obtain ⟨left, hleft⟩ := hdone
  rcases h.shifts with ⟨-, hwalk⟩ | ⟨-, hnil⟩
  · rcases hwalk.led_by hindexed xs x (zs ++ left) (by simp [← hleft]) with
      ⟨_, hnone, -⟩ | ⟨y, hy, hwaits⟩
    · cases hnone
    · exact ⟨y, hy.imp_left List.mem_singleton.mp, hwaits⟩
  · rw [hnil] at hleft
    simp at hleft

/-- What was moved is moved back, as far as the records can be written. -/
theorem Drawn.rolledBack (h : d.Drawn sound s ctx m) {done : List Shift} (hdone : done <+: d.shifts)
    (faults : List Fault) :
    s.RolledBack { s with
        tasks := (s.tasks.putAll (d.written done)).putAll (World.written faults (d.restores done)) }
      ((done.map Shift.id).reverse ++ [d.root.id]) faults := by
  have hsub := World.written_sublist faults (d.restores done)
  rw [← Drawn.map_id_restores]
  refine ⟨rfl, ?_, fun id hid => h.find?_putAll hdone hsub (.inr hid), ?_⟩
  · intro i id hid hfault
    rw [List.getElem?_map, Option.map_eq_some_iff] at hid
    obtain ⟨t, ht, rfl⟩ := hid
    exact h.find?_putAll hdone hsub (.inl (List.mem_map_of_mem (World.mem_written ht hfault)))
  · intro hfaults
    rw [List.length_map] at hfaults
    rw [World.written_eq_self hfaults, h.putAll_restores hdone]

end Draft

namespace World

variable {sound : Prop} {w v : World} {ctx : Context} {m : Move} {d : Draft} {rest : List Fault}

theorem StopsAfter.active {k : Nat} {cancelled : Bool} {faults : List Fault} {failure : Failure}
    (h : StopsAfter (k + 1) cancelled faults failure rest) : cancelled = false := by
  cases h <;> rfl

/-- What was written is kept, and recorded if it can be. -/
theorem keptApplied_of_wrote (hindexed : w.store.Indexed) (hdrawn : d.Drawn sound w.store ctx m)
    (k : Nat) (hwrote : w.Wrote v (d.written (d.shifts.take k)) rest) (setup : Setup) :
    w.store.KeptApplied (v.serve (Service.record setup (d.record (d.shifts.take k)))).2.store d.root
      (d.record d.shifts) k (w.Appends d.change.id) := by
  have hdone : d.shifts.take k <+: d.shifts := List.take_prefix k d.shifts
  have hids : (d.record d.shifts).affected.take k = (d.shifts.take k).map Shift.id :=
    (List.map_take ..).symm
  have happends : v.Appends d.change.id ↔ w.Appends d.change.id := by
    rw [Appends, Appends, hwrote.others .addChange (by decide), hwrote.store]
  obtain ⟨hrecorded, hunrecorded⟩ := store_serve_record v setup (d.record (d.shifts.take k))
  by_cases h : w.Appends d.change.id
  · obtain ⟨outbox, hstore⟩ := hrecorded (happends.mpr h)
    rw [hstore, hwrote.store]
    refine ⟨?_, ?_, fun _ => ?_, fun hnot => absurd h hnot⟩
    · rw [hids]
      exact hdrawn.displaced hdone _ outbox
    · rw [hids]
      exact fun before id after => hdrawn.waits hindexed hdone
    · rw [hids]
      exact Table.rows_put_of_find?_eq_none h.2
  · rw [hunrecorded (fun h' => h (happends.mp h')), hwrote.store]
    refine ⟨?_, ?_, fun h' => absurd h' h, fun _ => rfl⟩
    · rw [hids]
      exact hdrawn.displaced hdone w.store.changes w.store.outbox
    · rw [hids]
      exact fun before id after => hdrawn.waits hindexed hdone

/-- What was written is written back, as far as this is possible. -/
theorem rolledBack_of_wrote (hdrawn : d.Drawn sound w.store ctx m) {done : List Shift}
    (hdone : done <+: d.shifts) (hwrote : w.Wrote v (d.written done) rest) :
    w.store.RolledBack (v.serve (Service.writeBack (d.restores done))).2.store
      ((done.map Shift.id).reverse ++ [d.root.id]) rest := by
  have hstored : ∀ t ∈ d.restores done, (v.store.tasks.find? t.id).isSome := by
    intro t ht
    rw [hwrote.store]
    refine Table.isSome_find?_putAll ?_
    rw [hdrawn.find?_of_mem_restores hdone ht]
    rfl
  obtain ⟨v', _, hserve, hback⟩ := serve_writeBack hstored
  rw [hserve, hback.store, hwrote.store, hwrote.writes]
  exact hdrawn.rolledBack hdone rest

end World

/-- A cascading move that would have succeeded with nothing going wrong, but stops after some of the
tasks were moved along, fails for just that reason. Then the tasks that were moved are kept, or moved
back, as the policy says. -/
theorem stopped_exact {w : World} (hindexed : w.store.Indexed)
    (hreads : ∀ c : Call, c.Reads → w.faults c.kind = []) {setup : Setup} {ctx : Context} {m : Move}
    {change : ScheduleChange}
    (hquiet : (({ store := w.store } : World).serve (Service.reschedule setup ctx m)).1 = .ok change)
    {k : Nat} (hk : k < change.affected.length) {failure : Failure} {rest : List Fault}
    (hstop : World.StopsAfter (k + 1) w.cancelled (w.faults .putTask) failure rest) :
    (w.serve (Service.reschedule setup ctx m)).1 = .error failure ∧
    ∃ root, w.store.task? ctx.scope m.task = some root ∧
      (change.oldStart = root.start ∧ change.oldFinish = root.finish) ∧
      (m.start.inUtc? = some change.newStart ∧ m.finish.inUtc? = some change.newFinish) ∧
      match setup.settings.cascade with
      | .keepApplied =>
        w.store.KeptApplied (w.serve (Service.reschedule setup ctx m)).2.store root change k
          (w.Appends change.id)
      | .rollBack =>
        w.store.RolledBack (w.serve (Service.reschedule setup ctx m)).2.store
          ((change.affected.take k).reverse ++ [root.id]) rest := by
  have hclear : w.Clear w.store := ⟨rfl, hstop.active, hreads⟩
  have hclear₀ : ({ store := w.store } : World).Clear w.store := ⟨rfl, rfl, fun _ _ => rfl⟩
  have hdecided : World.Decides setup ctx m w.store (Service.reschedule setup ctx m) :=
    World.decides_reschedule
  rcases hdecided with ⟨e, he⟩ | ⟨d, hdrawn, hdecides⟩
  · rw [he _ hclear₀] at hquiet
    cases hquiet
  -- without mishaps the whole draft is carried out
  have hchange : change = d.record d.shifts := by
    obtain ⟨v, hv, hfaults, hr, -⟩ := hdecides _ hclear₀
    have hwithin : v.Within fun _ => True := World.within_of_faults_eq_nil hfaults
    have hcourse := World.course_serve hwithin (Service.carryOut setup d)
    rw [← hr, hquiet] at hcourse
    obtain ⟨-, hcarried⟩ := Service.course_carryOut hcourse
    exact hcarried.of_ok.1
  subst hchange
  obtain ⟨v, hv, hfaults, hresult, hstore⟩ := hdecides w hclear
  rw [← hfaults, hclear.active, ← hv.active] at hstop
  rw [← hv.store] at hdrawn hindexed ⊢
  have hk' : k < d.shifts.length := by simpa [Draft.record] using hk
  obtain ⟨v₁, hwrote, hfailure, hsettled⟩ := World.serve_carryOut hdrawn hstop hk' setup
  have hdone : d.shifts.take k <+: d.shifts := List.take_prefix k d.shifts
  have happends : w.Appends d.change.id = v.Appends d.change.id := by
    rw [World.Appends, World.Appends, hfaults, hv.store]
  refine ⟨hresult.trans hfailure, d.root, hdrawn.root, ⟨?_, ?_⟩,
    ⟨hdrawn.start, hdrawn.finish⟩, ?_⟩
  · rw [Draft.record, hdrawn.change]
  · rw [Draft.record, hdrawn.change]
  rw [hstore, hsettled, Service.settle]
  cases setup.settings.cascade with
  | keepApplied =>
      dsimp only
      have hids : ((d.shifts.take k).map Shift.before).map Task.id = (d.shifts.take k).map Shift.id :=
        List.map_map
      rw [World.serve_discard, World.serve_outcome, hids]
      change v.store.KeptApplied _ _ _ _ (w.Appends d.change.id)
      rw [happends]
      exact World.keptApplied_of_wrote hindexed hdrawn k hwrote setup
  | rollBack =>
      dsimp only
      have hids : (d.record d.shifts).affected.take k = (d.shifts.take k).map Shift.id :=
        (List.map_take ..).symm
      rw [hids]
      exact World.rolledBack_of_wrote hdrawn hdone hwrote

/-- A world in which the third record cannot be written, nor the one after it. -/
def fullDisk : World where
  store := .sample
  faults kind := if kind = .putTask then
    [.none, .none, .fail "disk full", .fail "disk still full"] else []

/-- The last task of the small store cannot be written, and then the second one cannot be written
back; the first one is back in its place all the same. -/
theorem stopped_exact_sample :
    (fullDisk.serve (Service.reschedule { settings := { cascade := .rollBack } } sampleContext
      sampleMove)).1 = .error (.store (.unavailable "disk full")) ∧
    (fullDisk.serve (Service.reschedule { settings := { cascade := .rollBack } } sampleContext
      sampleMove)).2.store.tasks.find? (.ofNat 1) = Store.sample.tasks.find? (.ofNat 1) := by
  have hok : (({ store := fullDisk.store } : World).serve (Service.reschedule
      { settings := { cascade := .rollBack } } sampleContext sampleMove)).1.map
        ScheduleChange.affected = .ok [.ofNat 2, .ofNat 3] := by cbv
  obtain ⟨change, hr, haffected⟩ := exists_of_affected hok
  have hreads : ∀ c : Call, c.Reads → fullDisk.faults c.kind = [] := by
    intro c hc
    cases c <;> first | rfl | exact hc.elim
  have hstop : World.StopsAfter 2 fullDisk.cancelled (fullDisk.faults .putTask)
      (.store (.unavailable "disk full")) [.fail "disk still full"] :=
    .written (by simp) rfl (.written (by simp) rfl (.failed _ _))
  have hone : 1 < change.affected.length := by rw [haffected]; decide
  obtain ⟨hfailure, root, hroot, -, -, hback⟩ :=
    stopped_exact Store.indexed_sample hreads hr hone hstop
  have hroot' : root.id = .ofNat 1 := Store.id_eq_of_task? hroot
  rw [haffected, hroot'] at hback
  exact ⟨hfailure, Store.RolledBack.restored hback 1 (.ofNat 1) rfl (by simp)⟩

end Overhaul
