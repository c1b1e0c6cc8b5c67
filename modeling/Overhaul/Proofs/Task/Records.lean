import Overhaul.Proofs.History
import Overhaul.Proofs.Reschedule.AllOrNothing
import Overhaul.Proofs.Task.Lifecycle

/-!
# What is kept of the records of tasks

Tasks are written as whole records, which were read some time before. All the same, nothing in a record
changes but the window, the state, the notes, to which is only ever added, and the time of the last
change; every window keeps a positive length, and keeps its very length unless its task is moved on
purpose. Main statement: `World.records_session`.
-/

namespace Overhaul

/-- The task ends after it starts. -/
def Task.WellTimed (t : Task) : Prop := t.start.unixNanos < t.finish.unixNanos

instance (t : Task) : Decidable t.WellTimed := inferInstanceAs (Decidable (_ < _))

/-- How long the task takes, in nanoseconds. -/
def Task.duration (t : Task) : Int := t.finish.unixNanos - t.start.unixNanos

namespace Task

/-- What the second record makes of the first: nothing is new in it but the state, the window and the
time of the last change, and more notes. -/
structure Continues (t u : Task) : Prop where
  same : u = { t with
    state := u.state, start := u.start, finish := u.finish, notes := u.notes, updated := u.updated }
  notes : ∃ more, u.notes = t.notes ++ more

/-- The two records differ at most in the window and the time of the last change, and, if the task is
to last as long as before, not in the length of the window either. -/
structure SameWork (lasts : Prop) (t u : Task) : Prop where
  same : u = { t with start := u.start, finish := u.finish, updated := u.updated }
  lasts : lasts → u.duration = t.duration

variable {lasts : Prop} {t u v : Task}

theorem Continues.refl (t : Task) : t.Continues t := ⟨rfl, "", by simp⟩

theorem Continues.trans (h : t.Continues u) (h' : u.Continues v) : t.Continues v := by
  obtain ⟨more, hmore⟩ := h.notes
  obtain ⟨more', hmore'⟩ := h'.notes
  refine ⟨?_, more ++ more', ?_⟩
  · rw [h'.same, h.same]
  · rw [hmore', hmore, String.append_assoc]

theorem SameWork.refl (t : Task) : t.SameWork lasts t := ⟨rfl, fun _ => rfl⟩

theorem SameWork.symm (h : t.SameWork lasts u) : u.SameWork lasts t :=
  ⟨by rw [h.same], fun hl => (h.lasts hl).symm⟩

theorem SameWork.trans (h : t.SameWork lasts u) (h' : u.SameWork lasts v) : t.SameWork lasts v := by
  refine ⟨?_, fun hl => (h'.lasts hl).trans (h.lasts hl)⟩
  rw [h'.same, h.same]

theorem SameWork.continues (h : t.SameWork lasts u) : t.Continues u := by
  refine ⟨?_, "", ?_⟩
  · rw [h.same]
  · rw [h.same]
    simp

/-- A task that is moved along takes as long as before. -/
theorem sameWork_of_shifted {nanos : Int} {now : Timestamp} (h : t.shifted nanos now = .ok u) :
    t.SameWork lasts u := by
  obtain ⟨start, finish, updated, hstart, hfinish, -, rfl⟩ := shifted_eq_ok_iff.mp h
  refine ⟨rfl, fun _ => ?_⟩
  have hstart' := (Timestamp.shift?_eq_some_iff.mp hstart).1
  have hfinish' := (Timestamp.shift?_eq_some_iff.mp hfinish).1
  simp only [duration]
  omega

theorem WellTimed.shifted {nanos : Int} {now : Timestamp} (ht : t.WellTimed)
    (h : t.shifted nanos now = .ok u) : u.WellTimed := by
  have hsame : t.SameWork True u := sameWork_of_shifted h
  have hlasts := hsame.lasts trivial
  simp only [WellTimed, duration] at ht hlasts ⊢
  omega

end Task

/-- To notes can only be added. -/
theorem Store.exists_withNotes (notes more : String) :
    ∃ rest, withNotes notes more = notes ++ rest := by
  unfold withNotes
  dsimp only
  split
  · exact ⟨"", by simp⟩
  · split
    · rename_i hempty
      exact ⟨_, by rw [hempty, String.empty_append]⟩
    · exact ⟨_, String.append_assoc⟩

namespace Store

/-- Every task ends after it starts. -/
def WellTimed (s : Store) : Prop := ∀ t ∈ s.tasks.rows, t.WellTimed

instance (s : Store) : Decidable s.WellTimed := inferInstanceAs (Decidable (∀ t ∈ _, _))

/-- The second store has the records of the first with what time and work made of them; the tasks in
`lasting` take as long as before. -/
structure Continues (lasting : TaskId → Prop) (s s' : Store) : Prop where
  /-- No task comes, goes or changes its place. -/
  ids : s'.tasks.rows.map Task.id = s.tasks.rows.map Task.id
  records : ∀ id t, s.tasks.find? id = some t →
    ∃ u, s'.tasks.find? id = some u ∧ t.Continues u ∧ (lasting id → u.duration = t.duration)

variable {lasting : TaskId → Prop} {s s₁ s₂ s' : Store}

theorem continues_of_tasks_eq (h : s'.tasks = s.tasks) : s.Continues lasting s' :=
  ⟨by rw [h], fun _ t ht => ⟨t, by rwa [h], .refl t, fun _ => rfl⟩⟩

theorem Continues.trans (h : s.Continues lasting s₁) (h' : s₁.Continues lasting s₂) :
    s.Continues lasting s₂ := by
  refine ⟨h'.ids.trans h.ids, fun id t ht => ?_⟩
  obtain ⟨u, hu, htu, hlasts⟩ := h.records id t ht
  obtain ⟨v, hv, huv, hlasts'⟩ := h'.records id u hu
  exact ⟨v, hv, htu.trans huv, fun hid => (hlasts' hid).trans (hlasts hid)⟩

/-- A record is written over one that it continues. -/
theorem continues_put {t u : Task} (ht : s.tasks.find? u.id = some t) (htu : t.Continues u)
    (hlasts : lasting u.id → u.duration = t.duration) :
    s.Continues lasting { s with tasks := s.tasks.put u } := by
  refine ⟨Table.keys_put (by rw [ht]; rfl), fun id v hv => ?_⟩
  simp only [Table.find?_put]
  split
  · rename_i hid
    subst hid
    rw [ht] at hv
    cases hv
    exact ⟨u, rfl, htu, hlasts⟩
  · exact ⟨v, hv, .refl v, fun _ => rfl⟩

theorem WellTimed.put {t : Task} (hs : s.WellTimed) (ht : t.WellTimed) :
    WellTimed { s with tasks := s.tasks.put t } := by
  intro r hr
  rcases Table.mem_rows_put.mp hr with rfl | ⟨hr, -⟩
  · exact ht
  · exact hs r hr

theorem WellTimed.of_task? (hs : s.WellTimed) {scope : Scope} {id : TaskId} {t : Task}
    (ht : s.task? scope id = some t) : t.WellTimed :=
  hs t (Table.find?_eq_some_iff.mp (task?_eq_some_iff.mp ht).1).1

/-- As long as its window stays, a task takes as long as before. -/
theorem duration_eq_of_windows {id : TaskId} {t u : Task} (h : s'.windows id = s.windows id)
    (ht : s.tasks.find? id = some t) (hu : s'.tasks.find? id = some u) :
    u.duration = t.duration := by
  rw [windows, windows, ht, hu, Option.map_some, Option.map_some, Option.some.injEq,
    Prod.mk.injEq] at h
  rw [Task.duration, Task.duration, h.1, h.2]

end Store

/-! ### What single steps do to the records -/

namespace Exchange

variable {sound : CallKind → Prop} {lasting : TaskId → Prop} {x : Exchange} {s s' : Store}

/-- Windows stay of positive length as long as no other record is written. -/
theorem wellTimed (hput : ∀ t, x.step = .call (.putTask t) → t.WellTimed)
    (h : x.Carries sound s s') (hs : s.WellTimed) : s'.WellTimed := by
  have hspared : x.step.SparesTasks → s'.WellTimed := by
    intro hspares
    rw [Store.WellTimed, tasks_eq hspares h]
    exact hs
  obtain ⟨st, e⟩ := x
  cases st with
  | call c =>
      cases c with
      | putTask t =>
          rcases carries_putTask h with ⟨-, rfl⟩ | ⟨_, -, rfl⟩
          · exact hs.put (hput t rfl)
          · exact hs
      | setState scope id state notes now =>
          rcases carries_setState h with ⟨t', -, hset⟩ | ⟨-, rfl⟩
          · obtain ⟨t, ht, rfl, rfl⟩ := Store.setState_eq_some_iff.mp hset
            have htimed : t.start.unixNanos < t.finish.unixNanos := hs.of_task? ht
            exact hs.put htimed
          · exact hs
      | _ => exact hspared trivial
  | _ => exact hspared trivial

/-- A step that writes no whole record adds to notes, at most. -/
theorem continues (hput : ∀ t, x.step ≠ .call (.putTask t)) (h : x.Carries sound s s') :
    s.Continues lasting s' := by
  have hspared : x.step.SparesTasks → s.Continues lasting s' := fun hspares =>
    Store.continues_of_tasks_eq (tasks_eq hspares h)
  obtain ⟨st, e⟩ := x
  cases st with
  | call c =>
      cases c with
      | putTask t => exact absurd rfl (hput t)
      | setState scope id state notes now =>
          rcases carries_setState h with ⟨t', -, hset⟩ | ⟨-, rfl⟩
          · obtain ⟨t, ht, rfl, rfl⟩ := Store.setState_eq_some_iff.mp hset
            have hfound := (Store.task?_eq_some_iff.mp ht).1
            rw [← Store.id_eq_of_task? ht] at hfound
            obtain ⟨more, hmore⟩ := Store.exists_withNotes t.notes notes
            rw [hmore]
            exact Store.continues_put hfound ⟨rfl, more, rfl⟩ fun _ => rfl
          · exact Store.continues_of_tasks_eq rfl
      | _ => exact hspared trivial
  | _ => exact hspared trivial

end Exchange

/-! ### What a move may write -/

namespace Draft

variable {sound : Prop} {s s' : Store} {ctx : Context} {m : Move} {d : Draft}

/-- The store still has a record for the work of each record that may be written, as long as the
window of that unless it is the task that is moved on purpose. -/
def Suits (d : Draft) (s : Store) : Prop :=
  ∀ t, d.Writes t →
    ∃ u, s.tasks.find? t.id = some u ∧ u.SameWork (t.id ≠ d.root.id) t

/-- Whatever may be written is about the work of the record that the store showed. -/
theorem Drawn.suits (h : d.Drawn sound s ctx m) : d.Suits s := by
  intro t ht
  rcases ht with rfl | rfl | ⟨x, hx, hxt⟩
  · refine ⟨d.root, by rw [h.id_moved]; exact h.find?_root, ?_, fun hne => absurd h.id_moved hne⟩
    rw [h.moved]
  · exact ⟨_, h.find?_root, .refl _⟩
  · have hfits := h.fits x hx
    have hfound := (Store.task?_eq_some_iff.mp hfits.found).1
    rcases hxt with rfl | rfl
    · exact ⟨_, hfound, .refl _⟩
    · refine ⟨x.before, ?_, Task.sameWork_of_shifted hfits.shifted⟩
      rw [hfits.id_after]
      exact hfound

/-- Whatever may be written ends after it starts. -/
theorem Drawn.wellTimed_of_writes (h : d.Drawn sound s ctx m) (hs : s.WellTimed) {t : Task}
    (ht : d.Writes t) : t.WellTimed := by
  rcases ht with rfl | rfl | ⟨x, hx, hxt⟩
  · rw [h.moved, Task.WellTimed]
    rw [(Timestamp.inUtc?_eq_some_iff.mp h.start).1, (Timestamp.inUtc?_eq_some_iff.mp h.finish).1]
    exact h.window
  · exact hs.of_task? h.root
  · have hfits := h.fits x hx
    have hbefore := hs.of_task? hfits.found
    rcases hxt with rfl | rfl
    · exact hbefore
    · exact hbefore.shifted hfits.shifted

theorem Suits.put (hs : d.Suits s) {t : Task} (ht : d.Writes t) :
    d.Suits { s with tasks := s.tasks.put t } := by
  intro t' ht'
  obtain ⟨u', hu', hsame'⟩ := hs t' ht'
  simp only [Table.find?_put]
  split
  · rename_i hid
    obtain ⟨u, hu, hsame⟩ := hs t ht
    rw [hid] at hu hsame
    rw [hu] at hu'
    cases hu'
    exact ⟨t, rfl, hsame.symm.trans hsame'⟩
  · exact ⟨u', hu', hsame'⟩

/-- A step of a move continues the records, and leaves it suited to what is still to be written. -/
theorem Allows.continues {sound : CallKind → Prop} {x : Exchange} (hx : d.Allows x.step)
    (hs : d.Suits s) (h : x.Carries sound s s') :
    s.Continues (· ≠ d.root.id) s' ∧ d.Suits s' := by
  have hspared : x.step.SparesTasks → s.Continues (· ≠ d.root.id) s' ∧ d.Suits s' := by
    intro hspares
    have htasks := Exchange.tasks_eq hspares h
    refine ⟨Store.continues_of_tasks_eq htasks, ?_⟩
    unfold Suits
    rw [htasks]
    exact hs
  obtain ⟨st, e⟩ := x
  cases hx with
  | idle hidle => exact hspared hidle.sparesTasks
  | put ht =>
      rcases Exchange.carries_putTask h with ⟨-, rfl⟩ | ⟨_, -, rfl⟩
      · obtain ⟨u, hu, hsame⟩ := hs _ ht
        exact ⟨Store.continues_put hu hsame.continues hsame.lasts, hs.put ht⟩
      · exact ⟨Store.continues_of_tasks_eq rfl, hs⟩
  | add ids => exact hspared trivial
  | announce m => exact hspared trivial

end Draft

/-! ### What requests do to the records -/

theorem Step.IdleOr.ne_putTask {kinds : List CallKind} {st : Step} (h : st.IdleOr kinds)
    (hput : .putTask ∉ kinds) (t : Task) : st ≠ .call (.putTask t) := by
  rintro rfl
  rcases h with hidle | ⟨c, hc, hkind⟩
  · exact hidle
  · cases hc
    exact hput hkind

/-- The request asks to move the task on purpose. -/
def Request.Moves (q : Request) (id : TaskId) : Prop :=
  ∃ m, q.operation = .reschedule m ∧ m.task = id

namespace World

/-- Some request that asks to move the task finds it in one window and leaves or shows it in another,
be it for a while. -/
def Moves (w : World) (qs : List Request) (id : TaskId) : Prop :=
  ∃ before q after, qs = before ++ q :: after ∧ q.Moves id ∧
    ∃ v ∈ trail q.service.run ((w.after before).facing q),
      v.store.windows id ≠ (w.after before).store.windows id

/-- The steps of a request write no whole record, or carry a move out. -/
theorem writes_request (w : World) (q : Request) :
    (∀ x ∈ w.transcriptOf q, ∀ t, x.step ≠ .call (.putTask t)) ∨
      ∃ d sound m, q.Moves d.root.id ∧ Draft.Drawn sound w.store q.ctx m d ∧
        ∀ x ∈ w.transcriptOf q, d.Allows x.step := by
  rcases q.moves_or_spares with ⟨m, hop⟩ | ⟨hput, -⟩
  · obtain ⟨_, ⟨-, -, hidle⟩ | ⟨d, hdrawn, hallows, -⟩⟩ := w.ends_of_reschedule hop
    · exact .inl fun x hx => Step.IdleOr.ne_putTask (.inl (hidle x hx)) List.not_mem_nil
    · exact .inr ⟨d, _, m, ⟨m, hop, (Store.id_eq_of_task? hdrawn.root).symm⟩, hdrawn, hallows⟩
  · exact .inl fun x hx => (w.idleOr_transcriptOf q x hx).ne_putTask hput

/-- No request leaves a window without length. -/
theorem wellTimed_trail {w : World} (hw : w.store.WellTimed) (q : Request) :
    ∀ v ∈ trail q.service.run (w.facing q), v.store.WellTimed := by
  refine along (within_facing w q) q.service.run (fun x hx s₁ s₂ hcarries hs₁ => ?_) hw
  refine Exchange.wellTimed (fun t hstep => ?_) hcarries hs₁
  rcases writes_request w q with hnone | ⟨d, sound, m, -, hdrawn, hallows⟩
  · exact absurd hstep (hnone x hx t)
  · have hx' := hallows x hx
    rw [hstep] at hx'
    cases hx' with
    | idle hidle => exact hidle.elim
    | put ht => exact hdrawn.wellTimed_of_writes hw ht

/-- What becomes of the records while a request is dealt with. -/
theorem continues_trail (w : World) (q : Request) :
    (trail q.service.run (w.facing q)).IsChain fun u v =>
      u.store.Continues (fun id => ¬q.Moves id) v.store := by
  have hwithin := within_facing w q
  rcases writes_request w q with hnone | ⟨d, sound, m, hmoves, hdrawn, hallows⟩
  · refine isChain_trail (J := fun log _ => ∀ x ∈ log, ∀ t, x.step ≠ .call (.putTask t)) ?_
      hwithin q.service.run hnone
    intro x log s s' hcarries hlog
    obtain ⟨hx, hlog⟩ := List.forall_mem_cons.mp hlog
    exact ⟨Exchange.continues hx hcarries, hlog⟩
  · refine isChain_trail (J := fun log s => (∀ x ∈ log, d.Allows x.step) ∧ d.Suits s) ?_
      hwithin q.service.run ⟨hallows, hdrawn.suits⟩
    rintro x log s s' hcarries ⟨hlog, hsuits⟩
    obtain ⟨hx, hlog⟩ := List.forall_mem_cons.mp hlog
    obtain ⟨hcontinues, hsuits'⟩ := hx.continues hsuits hcarries
    refine ⟨⟨hcontinues.ids, fun id t ht => ?_⟩, hlog, hsuits'⟩
    obtain ⟨u, hu, htu, hlasts⟩ := hcontinues.records id t ht
    refine ⟨u, hu, htu, fun hnot => hlasts ?_⟩
    rintro rfl
    exact hnot hmoves

/-- Whoever asks for whatever in a session, whatever fails, records that could not be written back
among it, and whenever a caller gives up: if every task ends after it starts at first, then so does
every task at each point; the tasks are the same from each point to every later one; what is recorded
of each changes in nothing but its state, its window and the time of its last change, and its notes
are only added to; and a task takes as long as before unless it is itself moved on purpose. -/
theorem records_session {w : World} (hw : w.store.WellTimed) (qs : List Request) :
    (∀ v ∈ w.session qs, v.store.WellTimed ∧
        w.store.Continues (fun id => ¬w.Moves qs id) v.store) ∧
      (w.session qs).Pairwise fun u v => u.store.Continues (fun id => ¬w.Moves qs id) v.store := by
  have htrans : Trans (fun u v : World => u.store.Continues (fun id => ¬w.Moves qs id) v.store)
      (fun u v : World => u.store.Continues (fun id => ¬w.Moves qs id) v.store)
      fun u v : World => u.store.Continues (fun id => ¬w.Moves qs id) v.store :=
    ⟨Store.Continues.trans⟩
  have hchain : (w.session qs).IsChain fun u v =>
      u.store.Continues (fun id => ¬w.Moves qs id) v.store := by
    refine isChain_session (fun u v huv => Store.continues_of_tasks_eq (by rw [huv])) ?_
    intro before q after hqs
    refine (List.IsChain.iff_mem.mp (continues_trail (w.after before) q)).imp ?_
    rintro u v ⟨hu, hv, hcontinues⟩
    refine ⟨hcontinues.ids, fun id t ht => ?_⟩
    obtain ⟨t', ht', htt', hlasts⟩ := hcontinues.records id t ht
    refine ⟨t', ht', htt', fun hnot => ?_⟩
    by_cases hmoves : q.Moves id
    · -- a move of the task itself that shows it in no other window
      have hwindow : ∀ x ∈ trail q.service.run ((w.after before).facing q),
          x.store.windows id = (w.after before).store.windows id := by
        intro x hx
        by_contra hne
        exact hnot ⟨before, q, after, hqs, hmoves, x, hx, hne⟩
      exact Store.duration_eq_of_windows ((hwindow v hv).trans (hwindow u hu).symm) ht ht'
    · exact hlasts hmoves
  have hwhole : (w :: w.session qs).Pairwise fun u v =>
      u.store.Continues (fun id => ¬w.Moves qs id) v.store := by
    refine (List.isChain_cons.mpr ⟨fun v hv => ?_, hchain⟩).pairwise
    exact Store.continues_of_tasks_eq (by rw [store_of_head?_session hv])
  obtain ⟨hfirst, hlater⟩ := List.pairwise_cons.mp hwhole
  exact ⟨fun v hv => ⟨forall_session (fun _ q hs => wellTimed_trail hs q) hw qs v hv, hfirst v hv⟩,
    hlater⟩

end World

/-- The first task of the small store is put off, and the second one with it, but the third one cannot
be written; then the second one cannot be written back. After that the second task is cancelled. -/
def sampleDelays : List Request :=
  [{ setup := sampleSetup, ctx := sampleContext
     operation := .reschedule { sampleMove with finish := Store.hour 3 1 }
     faults := fun k => if k = .putTask then
       [.none, .none, .fail "disk full", .fail "disk full"] else []
     honest := by
       intro k f hf
       split at hf
       · simp only [List.mem_cons, List.not_mem_nil, or_false] at hf
         rcases hf with rfl | rfl | rfl | rfl
         · trivial
         · trivial
         · exact id
         · exact id
       · cases hf },
    { setup := sampleSetup, ctx := { sampleContext with actor := ⟨.ofNat 1, .ofNat 1, .admin⟩ }
      operation := .transition (.ofNat 2) .cancelled
        { aircraft := .grounded, notes := " part not in ", now := Store.hour 6 0 }
      honest := Request.honest_of_nil }]

/-- The second task has come to another window, where it takes as long as it did, and to notes. -/
theorem records_session_sample : Store.sample.WellTimed ∧
    ∃ t u, Store.sample.tasks.find? (.ofNat 2) = some t ∧
      (({ store := .sample } : World).after sampleDelays).store.tasks.find? (.ofNat 2) = some u ∧
      (u.start ≠ t.start ∧ u.state = .cancelled ∧ u.notes = "part not in") ∧
      t.Continues u ∧ u.duration = t.duration := by
  have hw : Store.sample.WellTimed := by decide
  have hfirst : Store.sample.tasks.find? (.ofNat 2) = some (Store.sampleTask 2 1 0) := by cbv
  have hlast : ((({ store := .sample } : World).after sampleDelays).store.tasks.find?
      (.ofNat 2)).map (fun u => (u.start, u.state, u.notes)) =
        some (Store.hour 3 0, .cancelled, "part not in") := by cbv
  have hnot : ¬World.Moves { store := .sample } sampleDelays (.ofNat 2) := by
    rintro ⟨before, q, after, hqs, ⟨m, hm, hid⟩, -⟩
    have hmem : q ∈ sampleDelays := hqs ▸ List.mem_append_right _ List.mem_cons_self
    simp only [sampleDelays, List.mem_cons, List.not_mem_nil, or_false] at hmem
    rcases hmem with rfl | rfl
    · cases hm
      exact absurd hid (by decide)
    · cases hm
  obtain ⟨-, hcontinues⟩ := (World.records_session (w := { store := .sample }) hw sampleDelays).1 _
    (World.after_mem_session _ _)
  obtain ⟨u, hu, hcontinues, hlasts⟩ := hcontinues.records _ _ hfirst
  rw [hu, Option.map_some, Option.some.injEq, Prod.mk.injEq, Prod.mk.injEq] at hlast
  refine ⟨hw, _, u, hfirst, hu, ⟨?_, hlast.2.1, hlast.2.2⟩, hcontinues, hlasts hnot⟩
  rw [hlast.1]
  decide

end Overhaul
