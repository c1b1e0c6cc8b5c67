import Overhaul.Proofs.Dependencies.Search
import Overhaul.Proofs.Task.Window
import Overhaul.Service.Reschedule

/-!
# Planning a cascade

The tasks that a move takes along are found by a walk over those that wait for it. `Service.Walk`
says what such a walk can come back with, one case for each thing that it can meet. Main statements:
every walk meets a task once (`Walk.nodup`), takes along only open tasks that it was led to
(`Walk.led`), each of them behind one that leads to it (`Walk.led_by`), and, when no look-up goes
wrong, all of them (`Walk.closed`).
-/

namespace Overhaul

open Relation

/-- The task is visible to its tenant and not closed, so that it can be moved along. -/
def Store.Movable (s : Store) (tenant : TenantId) (id : TaskId) : Prop :=
  ∃ t, s.task? (.only tenant) id = some t ∧ t.state.isClosed = false

/-- A move of the first task takes the second one along, which waits for it. -/
def Store.Leads (s : Store) (tenant : TenantId) (a b : TaskId) : Prop :=
  s.Waits tenant b a ∧ s.Movable tenant b

/-- The task that is moved along. -/
def Shift.id (x : Shift) : TaskId := x.before.id

/-- The record of a task that can be moved along, and what is to become of it. -/
structure Shift.Fits (s : Store) (tenant : TenantId) (nanos : Int) (now : Timestamp) (x : Shift) :
    Prop where
  found : s.task? (.only tenant) x.id = some x.before
  isOpen : x.before.state.isClosed = false
  shifted : x.before.shifted nanos now = .ok x.after

theorem Shift.Fits.movable {s : Store} {tenant : TenantId} {nanos : Int} {now : Timestamp}
    {x : Shift} (h : x.Fits s tenant nanos now) : s.Movable tenant x.id :=
  ⟨x.before, h.found, h.isOpen⟩

/-- The task is still the same after its window was moved. -/
theorem Shift.Fits.id_after {s : Store} {tenant : TenantId} {nanos : Int} {now : Timestamp}
    {x : Shift} (h : x.Fits s tenant nanos now) : x.after.id = x.id := by
  obtain ⟨_, _, _, -, -, -, hafter⟩ := Task.shifted_eq_ok_iff.mp h.shifted
  rw [hafter]
  rfl

namespace Service

/-- What a walk can come back with that has met some tasks, still has to go through those on its
stack, and before them through some dependencies. Look-ups may come back empty-handed unless they
are `sound`. -/
inductive Walk (sound : Prop) (s : Store) (tenant : TenantId) (nanos : Int) (now : Timestamp) :
    Seen .task → List TaskId → List Dependency → List Shift → Prop
  | finished (seen : Seen .task) : Walk sound s tenant nanos now seen [] [] []
  /-- Whatever waits for the next task comes next. -/
  | expand {seen : Seen .task} {task : TaskId} {stack : List TaskId} {shifts : List Shift} :
      Walk sound s tenant nanos now seen stack (s.dependentsOf (.only tenant) task) shifts →
      Walk sound s tenant nanos now seen (task :: stack) [] shifts
  /-- The task that waits was met before. -/
  | again {seen : Seen .task} {stack : List TaskId} {d : Dependency} {pending : List Dependency}
      {shifts : List Shift} :
      d.task ∈ seen → Walk sound s tenant nanos now seen stack pending shifts →
      Walk sound s tenant nanos now seen stack (d :: pending) shifts
  /-- The task that waits cannot be moved along. -/
  | skip {seen : Seen .task} {stack : List TaskId} {d : Dependency} {pending : List Dependency}
      {shifts : List Shift} (h : d.task ∉ seen) :
      (sound → ¬s.Movable tenant d.task) →
      Walk sound s tenant nanos now (seen.insert d.task h) stack pending shifts →
      Walk sound s tenant nanos now seen stack (d :: pending) shifts
  /-- The task that waits is moved along. -/
  | move {seen : Seen .task} {stack : List TaskId} {d : Dependency} {pending : List Dependency}
      {shifts : List Shift} {x : Shift} (h : d.task ∉ seen) :
      x.id = d.task → x.Fits s tenant nanos now →
      Walk sound s tenant nanos now (seen.insert d.task h) (d.task :: stack) pending shifts →
      Walk sound s tenant nanos now seen stack (d :: pending) (x :: shifts)

theorem only_plan {P : Step → Prop} {tenant : TenantId}
    (htask : ∀ id, P (.call (.task (.only tenant) id)))
    (hdependents : ∀ task, P (.call (.dependentsOf (.only tenant) task))) (nanos : Int)
    (now : Timestamp) (seen : Seen .task) (stack : List TaskId) (pending : List Dependency) :
    Only P (plan tenant nanos now seen stack pending) := by
  induction seen, stack, pending using plan.induct tenant with
  | case1 seen stack d pending hseen ih => rw [plan, dif_pos hseen]; exact ih
  | case2 seen stack d pending hseen _ ih₁ ih₂ =>
      rw [plan, dif_neg hseen]
      refine only_bind (only_ask (htask d.task)) fun found => ?_
      cases found with
      | none => exact ih₁
      | some t =>
          dsimp only
          split
          · exact ih₁
          · refine only_bind (only_ofExcept _) fun moved => ?_
            exact only_bind ih₂ fun rest => only_pure _
  | case3 seen => rw [plan]; exact only_pure _
  | case4 seen task stack ih => rw [plan]; exact only_bind (only_ask (hdependents task)) ih

/-- Planning is a walk. -/
theorem walk_of_course {sound : CallKind → Prop} {s s' : Store} {log : List Exchange}
    {tenant : TenantId} {nanos : Int} {now : Timestamp} {seen : Seen .task} {stack : List TaskId}
    {pending : List Dependency} {shifts : List Shift}
    (h : Course sound (plan tenant nanos now seen stack pending) s log (.ok shifts) s') :
    Walk (sound .task) s tenant nanos now seen stack pending shifts := by
  induction seen, stack, pending using plan.induct tenant generalizing log shifts with
  | case1 seen stack d pending hseen ih =>
      rw [plan, dif_pos hseen] at h
      exact .again hseen (ih h)
  | case2 seen stack d pending hseen _ ih₁ =>
      rename_i ih₂
      rw [plan, dif_neg hseen] at h
      obtain ⟨found, log₁, log₂, s₁, hask, hrest, rfl⟩ := course_bind_ok h
      obtain ⟨rfl, hx⟩ := course_ask_ok hask
      obtain ⟨rfl, hv⟩ := Exchange.carries_task hx
      cases found with
      | none =>
          refine .skip hseen ?_ (ih₁ hrest)
          rintro hsound ⟨t, ht, -⟩
          rcases hv with hv | ⟨hn, -⟩
          · rw [ht] at hv; cases hv
          · exact hn hsound
      | some t =>
          have ht : s₁.task? (.only tenant) d.task = some t := by
            rcases hv with hv | ⟨-, hv⟩
            · exact hv.symm
            · cases hv
          dsimp only at hrest
          split at hrest
          · rename_i hclosed
            refine .skip hseen ?_ (ih₁ hrest)
            rintro - ⟨t', ht', hopen⟩
            rw [ht] at ht'
            cases ht'
            rw [hclosed] at hopen
            cases hopen
          · rename_i hopen
            obtain ⟨moved, log₃, log₄, s₂, hmoved, hrest₁, rfl⟩ := course_bind_ok hrest
            obtain ⟨rfl, hshifted, rfl⟩ := course_ofExcept hmoved
            obtain ⟨rest, log₅, log₆, s₃, hrest₂, hpure, rfl⟩ := course_bind_ok hrest₁
            obtain ⟨-, hr, rfl⟩ := course_pure hpure
            cases hr
            have hid := Store.id_eq_of_task? ht
            refine .move hseen hid ⟨?_, by simpa using hopen, hshifted.symm⟩ (ih₂ hrest₂)
            rw [Shift.id, hid]
            exact ht
  | case3 seen =>
      rw [plan] at h
      obtain ⟨-, hr, -⟩ := course_pure h
      cases hr
      exact .finished seen
  | case4 seen task stack ih =>
      rw [plan] at h
      obtain ⟨found, log₁, log₂, s₁, hask, hrest, rfl⟩ := course_bind_ok h
      obtain ⟨rfl, hx⟩ := course_ask_ok hask
      obtain ⟨rfl, rfl⟩ := Exchange.carries_dependentsOf hx
      exact .expand (ih _ hrest)

namespace Walk

variable {sound : Prop} {s : Store} {tenant : TenantId} {nanos : Int} {now : Timestamp}
  {seen : Seen .task} {stack : List TaskId} {pending : List Dependency} {shifts : List Shift}

/-- Every task that is moved along is moved from the record that the store shows. -/
theorem fits (h : Walk sound s tenant nanos now seen stack pending shifts) :
    ∀ x ∈ shifts, x.Fits s tenant nanos now := by
  induction h with
  | finished seen => simp
  | expand _ ih => exact ih
  | again _ _ ih => exact ih
  | skip _ _ _ ih => exact ih
  | move _ _ hfits _ ih =>
      intro x hx
      rcases List.mem_cons.mp hx with rfl | hx
      · exact hfits
      · exact ih x hx

/-- A task that was met before is not moved along. -/
theorem notMem_seen (h : Walk sound s tenant nanos now seen stack pending shifts) :
    ∀ x ∈ shifts, x.id ∉ seen := by
  induction h with
  | finished seen => simp
  | expand _ ih => exact ih
  | again _ _ ih => exact ih
  | skip _ _ _ ih => exact fun x hx hseen => ih x hx (Seen.mem_insert.mpr (.inr hseen))
  | move hnew hid _ _ ih =>
      intro x hx
      rcases List.mem_cons.mp hx with rfl | hx
      · rwa [hid]
      · exact fun hseen => ih x hx (Seen.mem_insert.mpr (.inr hseen))

/-- No task is moved along twice. -/
theorem nodup (h : Walk sound s tenant nanos now seen stack pending shifts) :
    (shifts.map Shift.id).Nodup := by
  induction h with
  | finished seen => simp
  | expand _ ih => exact ih
  | again _ _ ih => exact ih
  | skip _ _ _ ih => exact ih
  | @move _ _ d _ _ x hnew hid _ hrest ih =>
      rw [List.map_cons, List.nodup_cons]
      refine ⟨?_, ih⟩
      intro hmem
      obtain ⟨y, hy, hyx⟩ := List.mem_map.mp hmem
      exact hrest.notMem_seen y hy (Seen.mem_insert.mpr (.inl (hyx.trans hid)))

/-- A task is moved along because a task on the stack, or one that a dependency names, leads to it,
over tasks that are moved along as well. -/
theorem led (hindexed : s.Indexed)
    (h : Walk sound s tenant nanos now seen stack pending shifts) :
    ∀ x ∈ shifts, (∃ y ∈ stack, TransGen (s.Leads tenant) y x.id) ∨
      ∃ d ∈ pending, s.Movable tenant d.task ∧ ReflTransGen (s.Leads tenant) d.task x.id := by
  induction h with
  | finished seen => simp
  | @expand _ task stack _ _ ih =>
      intro x hx
      left
      rcases ih x hx with ⟨y, hy, hyx⟩ | ⟨d, hd, hmov, hdx⟩
      · exact ⟨y, List.mem_cons_of_mem _ hy, hyx⟩
      · obtain ⟨hrow, htenant, hpre⟩ := hindexed.mem_dependentsOf.mp hd
        refine ⟨task, List.mem_cons_self, ?_⟩
        exact .head' ⟨⟨d, hrow, htenant, rfl, hpre⟩, hmov⟩ hdx
  | again _ _ ih =>
      intro x hx
      refine (ih x hx).imp_right ?_
      rintro ⟨e, he, h⟩
      exact ⟨e, List.mem_cons_of_mem _ he, h⟩
  | skip _ _ _ ih =>
      intro x hx
      refine (ih x hx).imp_right ?_
      rintro ⟨e, he, h⟩
      exact ⟨e, List.mem_cons_of_mem _ he, h⟩
  | @move _ _ d _ _ y _ hid hfits _ ih =>
      have hmov : s.Movable tenant d.task := hid ▸ hfits.movable
      intro x hx
      rcases List.mem_cons.mp hx with rfl | hx
      · exact .inr ⟨d, List.mem_cons_self, hmov, hid ▸ .refl⟩
      · rcases ih x hx with ⟨z, hz, hzx⟩ | ⟨e, he, h⟩
        · rcases List.mem_cons.mp hz with rfl | hz
          · exact .inr ⟨d, List.mem_cons_self, hmov, hzx.to_reflTransGen⟩
          · exact .inl ⟨z, hz, hzx⟩
        · exact .inr ⟨e, List.mem_cons_of_mem _ he, h⟩

/-- A task is moved along behind one that it waits for: one from the stack, or one that is moved
along before it. -/
theorem led_by (hindexed : s.Indexed)
    (h : Walk sound s tenant nanos now seen stack pending shifts) :
    ∀ before x after, shifts = before ++ x :: after →
      (∃ d ∈ pending, d.task = x.id) ∨
        ∃ y, (y ∈ stack ∨ y ∈ before.map Shift.id) ∧ s.Waits tenant x.id y := by
  induction h with
  | finished seen => intro before x after h; simp at h
  | @expand _ task stack _ _ ih =>
      intro before x after h
      right
      rcases ih before x after h with ⟨d, hd, hdx⟩ | ⟨y, hy, hxy⟩
      · obtain ⟨hrow, htenant, hpre⟩ := hindexed.mem_dependentsOf.mp hd
        exact ⟨task, .inl List.mem_cons_self, d, hrow, htenant, hdx, hpre⟩
      · exact ⟨y, hy.imp_left (List.mem_cons_of_mem _), hxy⟩
  | again _ _ ih =>
      intro before x after h
      refine (ih before x after h).imp_left ?_
      rintro ⟨e, he, h⟩
      exact ⟨e, List.mem_cons_of_mem _ he, h⟩
  | skip _ _ _ ih =>
      intro before x after h
      refine (ih before x after h).imp_left ?_
      rintro ⟨e, he, h⟩
      exact ⟨e, List.mem_cons_of_mem _ he, h⟩
  | @move _ _ d _ _ z _ hid _ _ ih =>
      intro before x after h
      cases before with
      | nil =>
          obtain ⟨rfl, -⟩ := List.cons.inj h
          exact .inl ⟨d, List.mem_cons_self, hid.symm⟩
      | cons b before =>
          obtain ⟨rfl, h'⟩ := List.cons.inj h
          rcases ih before x after h' with ⟨e, he, hex⟩ | ⟨y, hy, hxy⟩
          · exact .inl ⟨e, List.mem_cons_of_mem _ he, hex⟩
          · refine .inr ⟨y, ?_, hxy⟩
            rcases hy with hy | hy
            · rcases List.mem_cons.mp hy with rfl | hy
              · exact .inr (List.mem_cons.mpr (.inl hid.symm))
              · exact .inl hy
            · exact .inr (List.mem_cons_of_mem _ hy)

/-- When look-ups are sound, a walk leaves nothing out: whatever a task leads to that the walk has
met, or moves along, was met or is moved along too. It is enough that this holds at first of the
tasks that are not on the stack any more, up to the dependencies that are still to come. -/
theorem closed (hsound : sound) (hindexed : s.Indexed)
    (h : Walk sound s tenant nanos now seen stack pending shifts)
    (hclosed : ∀ v ∈ seen, v ∉ stack → s.Movable tenant v → ∀ y, s.Leads tenant v y →
      y ∈ seen ∨ ∃ d ∈ pending, d.task = y) :
    ∀ v, v ∈ seen ∨ v ∈ shifts.map Shift.id → s.Movable tenant v → ∀ y, s.Leads tenant v y →
      y ∈ seen ∨ y ∈ shifts.map Shift.id := by
  induction h with
  | finished seen =>
      intro v hv hmov y hy
      simp only [List.map_nil, List.not_mem_nil, or_false] at hv ⊢
      simpa using hclosed v hv List.not_mem_nil hmov y hy
  | @expand seen task stack _ _ ih =>
      refine ih ?_
      intro v hv hstack hmov y hy
      by_cases hvt : v = task
      · subst hvt
        obtain ⟨d, hd, htenant, htask, hpre⟩ := hy.1
        exact .inr ⟨d, hindexed.mem_dependentsOf.mpr ⟨hd, htenant, hpre⟩, htask⟩
      · have hnot : v ∉ task :: stack := by simp [hvt, hstack]
        exact .inl (by simpa using hclosed v hv hnot hmov y hy)
  | @again seen stack d pending _ hseen _ ih =>
      refine ih ?_
      intro v hv hstack hmov y hy
      rcases hclosed v hv hstack hmov y hy with hy | ⟨e, he, rfl⟩
      · exact .inl hy
      · rcases List.mem_cons.mp he with rfl | he
        · exact .inl hseen
        · exact .inr ⟨e, he, rfl⟩
  | @skip seen stack d pending _ hnew hskip _ ih =>
      have hlead : ∀ v, ¬s.Leads tenant v d.task := fun v hv => hskip hsound hv.2
      intro v hv hmov y hy
      have hne : y ≠ d.task := by rintro rfl; exact hlead v hy
      have hgoal := ih ?_ v (hv.imp_left fun h => Seen.mem_insert.mpr (.inr h)) hmov y hy
      · refine hgoal.imp_left fun h => ?_
        exact (Seen.mem_insert.mp h).resolve_left hne
      · intro v hv hstack hmov y hy
        rcases Seen.mem_insert.mp hv with rfl | hv
        · exact absurd hmov (hskip hsound)
        · rcases hclosed v hv hstack hmov y hy with hy | ⟨e, he, rfl⟩
          · exact .inl (Seen.mem_insert.mpr (.inr hy))
          · rcases List.mem_cons.mp he with rfl | he
            · exact .inl (Seen.mem_insert.mpr (.inl rfl))
            · exact .inr ⟨e, he, rfl⟩
  | @move seen stack d pending shifts x hnew hid _ _ ih =>
      have hmem : ∀ z, z ∈ seen.insert d.task hnew ∨ z ∈ shifts.map Shift.id ↔
          z ∈ seen ∨ z ∈ (x :: shifts).map Shift.id := by
        intro z
        rw [Seen.mem_insert, List.map_cons, List.mem_cons, hid, or_assoc, or_left_comm]
      intro v hv hmov y hy
      refine (hmem y).mp (ih ?_ v ((hmem v).mpr hv) hmov y hy)
      intro v hv hstack hmov y hy
      rw [List.mem_cons, not_or] at hstack
      have hseen := (Seen.mem_insert.mp hv).resolve_left hstack.1
      rcases hclosed v hseen hstack.2 hmov y hy with hy | ⟨e, he, rfl⟩
      · exact .inl (Seen.mem_insert.mpr (.inr hy))
      · rcases List.mem_cons.mp he with rfl | he
        · exact .inl (Seen.mem_insert.mpr (.inl rfl))
        · exact .inr ⟨e, he, rfl⟩

end Walk

end Service

end Overhaul
