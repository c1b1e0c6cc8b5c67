import Overhaul.Proofs.Answers
import Overhaul.Proofs.Store.Index

/-!
# Which conflicts are found

Looking for conflicts never fails when reading goes well. `Store.conflictsIn` lists what is found
without any calls, and `Store.Clashes` says it without any lists: an open task is to start before a
prerequisite that it waits for has ended. Main statements: `World.serve_conflicts` and
`Store.Indexed.clashes_iff`.
-/

namespace Overhaul

/-- A task that is to start too early is in conflict with its prerequisite, and no other task is. -/
theorem Conflict.between_eq_some_iff {t p : Task} {c : Conflict} :
    Conflict.between t p = some c ↔
      (p.state ≠ .completed ∧ t.start.unixNanos < p.finish.unixNanos) ∧
        c = { task := t.id, kind := .unmetDependency, blocking := [p.id], description :=
          "task " ++ t.id.text ++ " starts at " ++ t.start.shown ++ " before prerequisite " ++
            p.id.text ++ " ends at " ++ p.finish.shown } := by
  unfold Conflict.between
  split
  · rename_i h
    simp only [reduceCtorEq, false_iff, not_and, and_imp]
    intro hstate hlt
    rcases h with h | h
    · exact absurd h hstate
    · omega
  · rename_i h
    rw [not_or, Int.not_le] at h
    simp [h.1, h.2, eq_comm]

namespace Store

/-- The open tasks that are seen in a scope, in the order in which they are listed. -/
def active (s : Store) (scope : Scope) : List Task :=
  s.tasksWhere { scope, states := [.scheduled, .inProgress] }

/-- The conflicts of a task, in the order of its dependencies. -/
def conflictsAt (s : Store) (t : Task) : List Conflict :=
  ((s.dependenciesOf (.only t.tenant) t.id).filter fun d => d.kind = .finishToStart).filterMap
    fun d => (s.task? (.only t.tenant) d.prerequisite).bind (Conflict.between t)

/-- The conflicts that are found for those who see a scope. -/
def conflictsIn (s : Store) (scope : Scope) : List Conflict :=
  (s.active scope).flatMap s.conflictsAt

end Store

namespace World

variable {w : World} {s : Store}

theorem serve_conflictsAlong (hw : w.Clear s) (t : Task) (ds : List Dependency) :
    w.serve (Service.conflictsAlong t ds) = (.ok (ds.filterMap fun d =>
      (s.task? (.only t.tenant) d.prerequisite).bind (Conflict.between t)), w) := by
  induction ds with
  | nil => rfl
  | cons d rest ih =>
      rw [Service.conflictsAlong, serve_bind, serve_task hw, List.filterMap_cons]
      dsimp only
      cases s.task? (.only t.tenant) d.prerequisite with
      | none => exact ih
      | some p =>
          dsimp only [Option.bind]
          rw [serve_bind, ih]
          cases Conflict.between t p <;> rfl

theorem serve_conflictsOf (hw : w.Clear s) (ts : List Task) :
    w.serve (Service.conflictsOf ts) = (.ok (ts.flatMap s.conflictsAt), w) := by
  induction ts with
  | nil => rfl
  | cons t rest ih =>
      rw [Service.conflictsOf, serve_bind, serve_dependenciesOf hw]
      dsimp only
      rw [serve_bind, serve_conflictsAlong hw]
      dsimp only
      rw [serve_bind, ih]
      rfl

/-- Looking for conflicts finds those of the open tasks that the actor sees, and changes nothing. -/
theorem serve_conflicts (hw : w.Clear s) (ctx : Context) :
    w.serve (Service.conflicts ctx) = (.ok (s.conflictsIn ctx.scope), w) := by
  rw [Service.conflicts, serve_bind, serve_ensureActive, hw.active]
  change w.serve (Service.ask _ >>= _) = _
  rw [serve_bind, serve_tasksWhere hw]
  exact serve_conflictsOf hw _

end World

namespace Store

variable {s : Store}

/-- The first task, which is open and seen in the scope, waits for the second one to finish, which is
not completed, and is to start before that one is to end. -/
def Clashes (s : Store) (scope : Scope) (x y : TaskId) : Prop :=
  ∃ t p, s.task? scope x = some t ∧ t.state.isClosed = false ∧
    (∃ d ∈ s.dependencies.rows, d.tenant = t.tenant ∧ d.task = x ∧ d.prerequisite = y ∧
      d.kind = .finishToStart) ∧
    s.task? (.only t.tenant) y = some p ∧ p.state ≠ .completed ∧
    t.start.unixNanos < p.finish.unixNanos

theorem mem_active {scope : Scope} {t : Task} :
    t ∈ s.active scope ↔ s.task? scope t.id = some t ∧ t.state.isClosed = false := by
  have hopen : ([TaskState.scheduled, .inProgress].contains t.state = true) ↔
      t.state.isClosed = false := by cases t.state <;> decide
  simp [active, tasksWhere, TaskFilter.admits, task?_eq_some_iff, Table.find?_eq_some_iff,
    ← hopen, and_assoc]

theorem Indexed.mem_conflictsAt (h : s.Indexed) {t : Task} {c : Conflict} :
    c ∈ s.conflictsAt t ↔ ∃ d ∈ s.dependencies.rows, (d.tenant = t.tenant ∧ d.task = t.id ∧
      d.kind = .finishToStart) ∧
      ∃ p, s.task? (.only t.tenant) d.prerequisite = some p ∧ Conflict.between t p = some c := by
  simp only [conflictsAt, List.mem_filterMap, List.mem_filter, h.mem_dependenciesOf,
    decide_eq_true_eq, Option.bind_eq_some_iff, and_assoc]

/-- The tasks that are in conflict with each other are those that are shown to be. -/
theorem Indexed.clashes_iff (h : s.Indexed) {scope : Scope} {x y : TaskId} :
    (∃ c ∈ s.conflictsIn scope, c.task = x ∧ y ∈ c.blocking) ↔ s.Clashes scope x y := by
  simp only [conflictsIn, List.mem_flatMap, mem_active, h.mem_conflictsAt,
    Conflict.between_eq_some_iff]
  constructor
  · rintro ⟨_, ⟨t, ⟨ht, hopen⟩, d, hd, ⟨htenant, htask, hkind⟩, p, hp, hlate, rfl⟩, rfl, hy⟩
    have hid := id_eq_of_task? hp
    rw [List.mem_singleton] at hy
    refine ⟨t, p, ht, hopen, ⟨d, hd, htenant, htask, ?_, hkind⟩, ?_, hlate⟩
    · rw [hy, hid]
    · rwa [hy, hid]
  · rintro ⟨t, p, ht, hopen, ⟨d, hd, htenant, rfl, rfl, hkind⟩, hp, hlate⟩
    have hid := id_eq_of_task? ht
    refine ⟨_, ⟨t, ⟨?_, hopen⟩, d, hd, ⟨htenant, hid.symm, hkind⟩, p, hp, hlate, rfl⟩, hid, ?_⟩
    · rwa [hid]
    · exact List.mem_singleton.mpr (id_eq_of_task? hp).symm

end Store

end Overhaul
