import Overhaul.Proofs.Store.Index

/-!
# One dependency more, and one less

`Store.Gains` and `Store.Loses` say how two stores differ by a dependency in what they show: which
rows they hold, and what they list at each task for those who see one tenant or all. A dependency
that is made comes last wherever it is listed, and when one is removed the others keep their order.
Main statements: `Indexed.gains` and `Indexed.loses`.
-/

namespace Overhaul.Store

variable {s s' : Store} {d : Dependency}

/-- The rows at a place, as far as there is one. -/
def rowsAt (rows : List Dependency) (place : Dependency → Place) : Option Place → List Dependency
  | some p => rows.filter fun d => place d = p
  | none => []

/-- What comes last among all comes last among those at its place. -/
theorem rowsAt_concat (rows : List Dependency) (place : Dependency → Place) (d : Dependency)
    (p : Option Place) :
    rowsAt (rows ++ [d]) place p = rowsAt rows place p ++ if p = some (place d) then [d] else [] := by
  cases p with
  | none => rfl
  | some p =>
      simp only [rowsAt, List.filter_append]
      by_cases hp : place d = p
      · simp [hp]
      · simp [hp, Ne.symm hp]

/-- What is removed from all is removed from those at a place. -/
theorem rowsAt_filter (rows : List Dependency) (place : Dependency → Place)
    (keep : Dependency → Bool) (p : Option Place) :
    rowsAt (rows.filter keep) place p = (rowsAt rows place p).filter keep := by
  cases p with
  | none => rfl
  | some p => simp only [rowsAt, List.filter_filter, Bool.and_comm]

/-- An index that lists what is stored at each place shows it to all who may look there. -/
theorem listed_eq {links : Links} {place : Dependency → Place}
    (htenant : ∀ d, (place d).1 = d.tenant)
    (h : ∀ p, links.idsAt p =
      (s.dependencies.rows.filter fun d => place d = p).map Dependency.id)
    (scope : Scope) (task : TaskId) :
    s.listed links scope task = rowsAt s.dependencies.rows place (s.place? scope task) := by
  cases scope with
  | only tenant => exact listed_only htenant (h _)
  | all =>
      rw [listed_all htenant h, place?]
      cases s.tasks.find? task with
      | none => rfl
      | some t => exact listed_only htenant (h _)

theorem Indexed.dependenciesOf_eq (h : s.Indexed) (scope : Scope) (task : TaskId) :
    s.dependenciesOf scope task =
      rowsAt s.dependencies.rows Dependency.waitingPlace (s.place? scope task) :=
  listed_eq (fun _ => rfl) h.prerequisites scope task

theorem Indexed.dependentsOf_eq (h : s.Indexed) (scope : Scope) (task : TaskId) :
    s.dependentsOf scope task =
      rowsAt s.dependencies.rows Dependency.awaitedPlace (s.place? scope task) :=
  listed_eq (fun _ => rfl) h.dependents scope task

/-- The second store has the dependency more, which is new and comes last, and differs in nothing
else. -/
structure Gains (s : Store) (d : Dependency) (s' : Store) : Prop where
  isNew : s.dependencies.find? d.id = none
  rows : s'.dependencies.rows = s.dependencies.rows ++ [d]
  dependenciesOf : ∀ scope task, s'.dependenciesOf scope task =
    s.dependenciesOf scope task ++ if s.place? scope task = some d.waitingPlace then [d] else []
  dependentsOf : ∀ scope task, s'.dependentsOf scope task =
    s.dependentsOf scope task ++ if s.place? scope task = some d.awaitedPlace then [d] else []
  tasks : s'.tasks = s.tasks
  changes : s'.changes = s.changes
  outbox : s'.outbox = s.outbox

/-- The second store has the dependency less, which the first one holds, and differs in nothing
else. -/
structure Loses (s : Store) (d : Dependency) (s' : Store) : Prop where
  stored : d ∈ s.dependencies.rows
  rows : s'.dependencies.rows = s.dependencies.rows.filter (·.id ≠ d.id)
  dependenciesOf : ∀ scope task, s'.dependenciesOf scope task =
    (s.dependenciesOf scope task).filter (·.id ≠ d.id)
  dependentsOf : ∀ scope task, s'.dependentsOf scope task =
    (s.dependentsOf scope task).filter (·.id ≠ d.id)
  tasks : s'.tasks = s.tasks
  changes : s'.changes = s.changes
  outbox : s'.outbox = s.outbox

theorem Indexed.gains (h : s.Indexed) (hadd : s.addDependency d = .ok s') : s.Gains d s' := by
  obtain ⟨hnew, -, -, rfl⟩ := addDependency_eq_ok_iff.mp hadd
  have hrows : (s.link d).dependencies.rows = s.dependencies.rows ++ [d] :=
    Table.rows_put_of_find?_eq_none hnew
  have hplace : (s.link d).place? = s.place? := rfl
  refine ⟨hnew, hrows, fun scope task => ?_, fun scope task => ?_, rfl, rfl, rfl⟩
  · rw [(h.link hnew).dependenciesOf_eq, h.dependenciesOf_eq, hrows, hplace]
    exact rowsAt_concat _ _ _ _
  · rw [(h.link hnew).dependentsOf_eq, h.dependentsOf_eq, hrows, hplace]
    exact rowsAt_concat _ _ _ _

theorem Indexed.loses (h : s.Indexed) {scope : Scope} {id : DependencyId}
    (hrem : s.removeDependency scope id = some s') :
    ∃ d, s.dependency? scope id = some d ∧ d.id = id ∧ s.Loses d s' := by
  obtain ⟨d, hd, rfl⟩ := removeDependency_eq_some_iff.mp hrem
  obtain ⟨hmem, hid⟩ := mem_rows_of_dependency? hd
  have hplace : (s.unlink d).place? = s.place? := rfl
  refine ⟨d, hd, hid, hmem, rfl, fun scope task => ?_, fun scope task => ?_, rfl, rfl, rfl⟩
  · rw [(h.unlink hmem).dependenciesOf_eq, h.dependenciesOf_eq, hplace]
    exact rowsAt_filter _ _ _ _
  · rw [(h.unlink hmem).dependentsOf_eq, h.dependentsOf_eq, hplace]
    exact rowsAt_filter _ _ _ _

end Overhaul.Store
