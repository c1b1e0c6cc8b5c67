import Overhaul.Proofs.Reschedule.Cascade
import Overhaul.Proofs.Session

/-!
# The history accounts for every window

Replaying the recorded changes over the windows that the tasks had at first gives the windows that
they have. `Store.Tells` says so of two stores and the changes that were recorded in between. Main
statement: the history tells everything that happened in a session, at each point between its
requests, unless a change could not be recorded or a record not written back (`history_tells`).
-/

namespace Overhaul

/-- The window of each task. -/
def Store.windows (s : Store) (id : TaskId) : Option (Timestamp × Timestamp) :=
  (s.tasks.find? id).map fun t => (t.start, t.finish)

/-- What windows a change leaves: the task has its new one, and both ends of those that were moved
along are moved by as much as the end of that. -/
def ScheduleChange.replay (windows : TaskId → Option (Timestamp × Timestamp)) (c : ScheduleChange)
    (id : TaskId) : Option (Timestamp × Timestamp) :=
  if id = c.task then some (c.newStart, c.newFinish)
  else if id ∈ c.affected then do
    let (start, finish) ← windows id
    return (← start.shift? c.nanos, ← finish.shift? c.nanos)
  else windows id

/-- The second store has more history than the first, namely these changes, and they tell what became
of all windows: each starts from the window that its task has after the ones before it. -/
structure Store.Tells (s s' : Store) (changes : List ScheduleChange) : Prop where
  rows : s'.changes.rows = s.changes.rows ++ changes
  windows : s'.windows = changes.foldl ScheduleChange.replay s.windows
  old : ∀ before c after, changes = before ++ c :: after →
    before.foldl ScheduleChange.replay s.windows c.task = some (c.oldStart, c.oldFinish)

namespace Store

variable {s s₁ s₂ s' : Store}

theorem tells_nil (hchanges : s'.changes = s.changes) (hwindows : s'.windows = s.windows) :
    s.Tells s' [] :=
  ⟨by rw [hchanges, List.append_nil], hwindows, by simp⟩

/-- What is told first and what is told then make one story. -/
theorem Tells.append {cs cs' : List ScheduleChange} (h : s.Tells s₁ cs) (h' : s₁.Tells s₂ cs') :
    s.Tells s₂ (cs ++ cs') := by
  refine ⟨?_, ?_, ?_⟩
  · rw [h'.rows, h.rows, List.append_assoc]
  · rw [h'.windows, h.windows, List.foldl_append]
  · intro before c after hsplit
    rcases List.append_eq_append_iff.mp hsplit with ⟨more, rfl, hmore⟩ | ⟨more, hcs, hmore⟩
    · rw [List.foldl_append, ← h.windows]
      exact h'.old more c after hmore
    · cases more with
      | nil =>
          rw [List.append_nil] at hcs
          subst hcs
          rw [← h.windows]
          exact h'.old [] c after hmore.symm
      | cons e more =>
          obtain ⟨rfl, -⟩ := List.cons.inj hmore
          exact h.old before c more hcs

/-- A change that displaced tasks tells what became of their windows. -/
theorem Displaced.windows {c : ScheduleChange} {root : Task} {now : Timestamp}
    (h : s.Displaced s' root c.newStart c.newFinish c.nanos now c.affected)
    (hroot : c.task = root.id) : s'.windows = c.replay s.windows := by
  funext id
  rw [ScheduleChange.replay, hroot]
  by_cases hid : id = root.id
  · rw [if_pos hid, hid, Store.windows, h.placed]
    rfl
  · rw [if_neg hid]
    by_cases hmoved : id ∈ c.affected
    · obtain ⟨t, start, finish, ht, hstart, hfinish, ht'⟩ := h.shifted id hmoved
      rw [if_pos hmoved, Store.windows, Store.windows, ht, ht']
      simp [hstart, hfinish]
    · rw [if_neg hmoved, Store.windows, Store.windows, h.others id hid hmoved]

end Store

/-! ### What steps do to the windows and to the history -/

/-- The windows and the history are the same. -/
def Store.SameWindows (s s' : Store) : Prop := s'.changes = s.changes ∧ s'.windows = s.windows

theorem Store.sameWindows_put {s : Store} {t t' : Task} (h : s.tasks.find? t'.id = some t)
    (hstart : t'.start = t.start) (hfinish : t'.finish = t.finish) :
    s.SameWindows { s with tasks := s.tasks.put t' } := by
  refine ⟨rfl, funext fun id => ?_⟩
  simp only [Store.windows, Table.find?_put]
  split
  · rename_i hid
    rw [← hid, h]
    simp [hstart, hfinish]
  · rfl

/-- Only the calls that write a record, or add to the history, change windows or the history. -/
theorem Exchange.sameWindows {sound : CallKind → Prop} {kinds : List CallKind} {x : Exchange}
    {s s' : Store} (hx : x.step.IdleOr kinds) (hput : .putTask ∉ kinds) (hadd : .addChange ∉ kinds)
    (h : x.Carries sound s s') : s.SameWindows s' := by
  rcases hx with hidle | ⟨c, hstep, hkind⟩
  · obtain rfl := store_of_idle hidle h
    exact ⟨rfl, rfl⟩
  obtain ⟨_, e⟩ := x
  subst hstep
  cases c with
  | putTask t => exact absurd hkind hput
  | addChange c => exact absurd hkind hadd
  | setState scope id state notes now =>
      rcases carries_setState h with ⟨t', -, hset⟩ | ⟨-, rfl⟩
      · obtain ⟨t, ht, rfl, rfl⟩ := Store.setState_eq_some_iff.mp hset
        have hfound := (Store.task?_eq_some_iff.mp ht).1
        rw [← Store.id_eq_of_task? ht] at hfound
        exact Store.sameWindows_put hfound rfl rfl
      · exact ⟨rfl, rfl⟩
  | addDependency d =>
      rcases carries_addDependency h with ⟨-, hadd⟩ | ⟨_, -, rfl⟩
      · obtain ⟨-, -, -, rfl⟩ := Store.addDependency_eq_ok_iff.mp hadd
        exact ⟨rfl, rfl⟩
      · exact ⟨rfl, rfl⟩
  | removeDependency scope id =>
      rcases carries_removeDependency h with ⟨-, hremove⟩ | ⟨-, rfl⟩
      · obtain ⟨d, -, rfl⟩ := Store.removeDependency_eq_some_iff.mp hremove
        exact ⟨rfl, rfl⟩
      · exact ⟨rfl, rfl⟩
  | announce m =>
      rcases carries_announce h with ⟨-, rfl⟩ | ⟨_, -, rfl⟩
      · exact ⟨rfl, rfl⟩
      · exact ⟨rfl, rfl⟩
  | releaseParts tenant task =>
      cases h with
      | performed => exact ⟨rfl, rfl⟩
      | failed => exact ⟨rfl, rfl⟩
      | nothing _ _ _ _ hv => cases hv
  | _ =>
      obtain rfl := store_of_reads (by trivial) h
      exact ⟨rfl, rfl⟩

/-- A course that makes none of those calls leaves all windows and the history as they are. -/
theorem Program.Course.sameWindows {α : Type} {sound : CallKind → Prop} {kinds : List CallKind}
    {p : Program α} {s s' : Store} {log : List Exchange} {a : α} (h : p.Course sound s log a s')
    (hlog : ∀ x ∈ log, x.step.IdleOr kinds) (hput : .putTask ∉ kinds) (hadd : .addChange ∉ kinds) :
    s.SameWindows s' := by
  refine h.keeps (J := s.SameWindows) (fun x hx s₁ s₂ hcarries hs₁ => ?_) ⟨rfl, rfl⟩
  have hsame := Exchange.sameWindows (hlog x hx) hput hadd hcarries
  exact ⟨hsame.1.trans hs₁.1, hsame.2.trans hs₁.2⟩

/-- The history only ever grows, and at its end. -/
theorem Exchange.changes_prefix {sound : CallKind → Prop} {x : Exchange} {s s' : Store}
    (h : x.Carries sound s s') : s.changes.rows <+: s'.changes.rows := by
  obtain ⟨st, e⟩ := x
  cases st with
  | call c =>
      by_cases hput : c.kind = .putTask
      · cases c with
        | putTask t =>
            rcases carries_putTask h with ⟨-, rfl⟩ | ⟨_, -, rfl⟩ <;> exact List.prefix_rfl
        | _ => cases hput
      by_cases hadd : c.kind = .addChange
      · cases c with
        | addChange c =>
            rcases carries_addChange h with ⟨-, hnew, rfl⟩ | ⟨_, -, rfl⟩
            · rw [Table.rows_put_of_find?_eq_none hnew]
              exact List.prefix_append _ _
            · exact List.prefix_rfl
        | _ => cases hadd
      have hkind : Step.IdleOr [c.kind] (.call c) := Step.idleOr_call (by simp)
      have hsame := sameWindows hkind (by simpa using Ne.symm hput) (by simpa using Ne.symm hadd) h
      exact hsame.1 ▸ List.prefix_rfl
  | _ =>
      obtain rfl := store_of_idle (by trivial) h
      exact List.prefix_rfl

/-! ### What requests do to them -/

/-- No change was lost to the history, and whatever had to be written back was written back. -/
structure Settled (log : List Exchange) : Prop where
  recorded : ∀ c cause, (⟨.call (.addChange c), .error cause⟩ : Exchange) ∉ log
  restored : ¬Unrestored log

/-- What is carried out is told by at most one change. -/
theorem Draft.Carried.tells {sound : Prop} {s s' : Store} {ctx : Context} {m : Move} {d : Draft}
    {log : List Exchange} {r : Except Failure ScheduleChange} (hdrawn : d.Drawn sound s ctx m)
    (hlog : Settled log) (h : d.Carried s log r s') : ∃ cs, s.Tells s' cs := by
  cases h with
  | refused failure => exact ⟨[], Store.tells_nil rfl rfl⟩
  | @recorded done _ outbox hdone _ hnew =>
      have hdisplaced := hdrawn.displaced hdone (s.changes.put (d.record done)) outbox
      have htask : (d.record done).task = d.root.id := by rw [Draft.record, hdrawn.change]
      refine ⟨[d.record done], Table.rows_put_of_find?_eq_none hnew, ?_, ?_⟩
      · exact Store.Displaced.windows (c := d.record done) hdisplaced htask
      · intro before c after hsplit
        cases before with
        | nil =>
            obtain ⟨rfl, -⟩ := List.cons.inj hsplit
            rw [htask, List.foldl_nil, Store.windows, hdrawn.find?_root, Draft.record, hdrawn.change]
            rfl
        | cons e before => simp at hsplit
  | unrecorded failure hdone hmem => exact absurd hmem (hlog.recorded _ _)
  | restored failure hdone hback hall =>
      obtain rfl := hall.resolve_right hlog.restored
      rw [hdrawn.putAll_restores hdone]
      exact ⟨[], Store.tells_nil rfl rfl⟩

namespace World

/-- A request is told by the changes that it adds to the history. -/
theorem tells_handle (w : World) (q : Request) (hlog : Settled (w.transcriptOf q)) :
    ∃ cs, w.store.Tells (w.handle q).2.store cs := by
  rcases q.moves_or_spares with ⟨m, hop⟩ | ⟨hput, hadd⟩
  · obtain ⟨_, ⟨-, hs, -⟩ | ⟨d, hdrawn, -, hcarried⟩⟩ := w.ends_of_reschedule hop
    · rw [hs]
      exact ⟨[], Store.tells_nil rfl rfl⟩
    · exact hcarried.tells hdrawn hlog
  · obtain ⟨hchanges, hwindows⟩ :=
      (course_handle w q).sameWindows (w.idleOr_transcriptOf q) hput hadd
    exact ⟨[], Store.tells_nil hchanges hwindows⟩

/-- At each point of a request the history is some way on from where it was to where it will be. -/
theorem changes_trail {w : World} {q : Request} {cs : List ScheduleChange}
    (h : w.store.Tells (w.handle q).2.store cs) :
    ∀ v ∈ trail q.service.run (w.facing q), ∃ k ≤ cs.length,
      v.store.changes.rows = w.store.changes.rows ++ cs.take k := by
  intro v hv
  obtain ⟨hbehind, hahead⟩ := between (R := fun s s' => s.changes.rows <+: s'.changes.rows)
    (fun _ => List.prefix_rfl) (fun h h' => h.trans h') (fun _ _ _ => Exchange.changes_prefix)
    (within_facing w q) q.service.run v hv
  obtain ⟨new, hnew⟩ := hbehind
  change v.store.changes.rows <+: (w.handle q).2.store.changes.rows at hahead
  change w.store.changes.rows ++ new = v.store.changes.rows at hnew
  rw [h.rows, ← hnew, List.prefix_append_right_inj] at hahead
  refine ⟨new.length, hahead.length_le, ?_⟩
  rw [← hnew, ← List.prefix_iff_eq_take.mp hahead]

/-- The history tells everything that happened in a session, whoever asked for whatever, as long as
no change failed to be recorded and no record to be written back. At each point between requests it
accounts for the windows of all tasks, and at no point has it lost, altered or reordered anything. -/
theorem history_tells {w : World} {qs : List Request}
    (hlogs : ∀ log ∈ w.transcripts qs, Settled log) :
    ∃ cs, w.store.Tells (w.after qs).store cs ∧
      (∀ i, ∃ k, w.store.Tells (w.after (qs.take i)).store (cs.take k)) ∧
      ∀ v ∈ w.session qs, ∃ k, v.store.changes.rows = w.store.changes.rows ++ cs.take k := by
  induction qs generalizing w with
  | nil =>
      refine ⟨[], Store.tells_nil rfl rfl, fun i => ⟨0, ?_⟩, fun v hv => ⟨0, ?_⟩⟩
      · rw [List.take_nil]
        exact Store.tells_nil rfl rfl
      · rw [List.mem_singleton.mp hv]
        simp
  | cons q qs ih =>
      obtain ⟨cs, hcs⟩ := tells_handle w q (hlogs _ List.mem_cons_self)
      obtain ⟨cs', hcs', hpoints, hsession⟩ := ih fun log hlog =>
        hlogs log (List.mem_cons_of_mem _ hlog)
      refine ⟨cs ++ cs', hcs.append hcs', ?_, ?_⟩
      · intro i
        cases i with
        | zero =>
            refine ⟨0, ?_⟩
            exact Store.tells_nil rfl rfl
        | succ i =>
            obtain ⟨k, hk⟩ := hpoints i
            refine ⟨cs.length + k, ?_⟩
            rw [List.take_length_add_append]
            exact hcs.append hk
      · intro v hv
        rcases List.mem_append.mp hv with hv | hv
        · obtain ⟨k, hle, hk⟩ := changes_trail hcs v hv
          exact ⟨k, by rw [hk, List.take_append_of_le_length hle]⟩
        · obtain ⟨k, hk⟩ := hsession v hv
          refine ⟨cs.length + k, ?_⟩
          rw [hk, hcs.rows, List.take_length_add_append, List.append_assoc]

end World

/-- The call failed. -/
def Exchange.fails : Exchange → Bool
  | ⟨.call _, .error _⟩ => true
  | _ => false

/-- When no call failed at all, nothing was lost. -/
theorem settled_of_fails {log : List Exchange} (h : log.all fun x => !x.fails) : Settled log := by
  have hnot : ∀ {c : Call} {cause : CallError}, (⟨.call c, .error cause⟩ : Exchange) ∉ log := by
    intro c cause hmem
    simpa [Exchange.fails] using List.all_eq_true.mp h _ hmem
  refine ⟨fun _ _ => hnot, ?_⟩
  rintro ⟨before, x, after, rfl, -, t, cause, hmem⟩
  exact hnot (List.mem_append_right _ (List.mem_cons_of_mem _ hmem))

/-- The first task of the small store is put off, and then the second one is moved on its own. -/
def sampleRequests : List Request :=
  [{ setup := {}, ctx := sampleContext, operation := .reschedule sampleMove },
    { setup := {}, ctx := { sampleContext with fresh := 8 }, operation := .reschedule
        ⟨.ofNat 2, Store.hour 9 0, Store.hour 12 0, "hangar occupied", false⟩ }]

/-- The history tells of both moves. -/
theorem history_tells_sample :
    ∃ cs, Store.sample.Tells (({ store := .sample } : World).after sampleRequests).store cs := by
  have hlogs : (({ store := .sample } : World).transcripts sampleRequests).all
      fun log => log.all fun x => !x.fails := by cbv
  have hsettled : ∀ log ∈ ({ store := .sample } : World).transcripts sampleRequests, Settled log :=
    fun log hlog => settled_of_fails (List.all_eq_true.mp hlogs log hlog)
  obtain ⟨cs, hcs, -⟩ := World.history_tells hsettled
  exact ⟨cs, hcs⟩

end Overhaul
