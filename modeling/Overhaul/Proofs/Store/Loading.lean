import Mathlib.Data.List.Nodup
import Overhaul.Proofs.Store.Index

/-!
# Loading snapshots

A store is built from a snapshot by adding one record after the other. `Store.Adds` says what it
takes for a record to be added, for all three kinds of records that are added this way. Main
statements: a store is built from a snapshot exactly when the snapshot is sound
(`Store.exists_ofSnapshot_iff`), and then it holds the records of the snapshot in their order
(`Store.loads_ofSnapshot`).
-/

namespace Overhaul

/-- Every identifier names one record, and both ends of every dependency are there. -/
structure Snapshot.Sound (x : Snapshot) : Prop where
  tasks : (x.tasks.map Task.id).Nodup
  dependencies : (x.dependencies.map Dependency.id).Nodup
  ends : ∀ d ∈ x.dependencies, d.task ∈ x.tasks.map Task.id ∧ d.prerequisite ∈ x.tasks.map Task.id
  changes : (x.changes.map ScheduleChange.id).Nodup

theorem Table.isSome_find?_iff {α κ : Type} [DecidableEq κ] {key : α → κ} {t : Table key} {k : κ} :
    (t.find? k).isSome = true ↔ k ∈ t.rows.map key := by
  rw [← not_iff_not, ← find?_eq_none_iff]
  simp

namespace Store

/-! ### One record after the other -/

/-- A record is added exactly when its key is new and the store admits it. It comes last, and makes
no difference to what else is admitted. -/
structure Adds {α κ : Type} (key : α → κ) (rows : Store → List α) (admits : Store → α → Prop)
    (add : Store → α → Except StoreError Store) : Prop where
  nodup : ∀ s, ((rows s).map key).Nodup
  exists_iff : ∀ s a, (∃ s', add s a = .ok s') ↔ key a ∉ (rows s).map key ∧ admits s a
  rows_eq : ∀ {s a s'}, add s a = .ok s' → rows s' = rows s ++ [a]
  admits_iff : ∀ {s a s'}, add s a = .ok s' → ∀ b, admits s' b ↔ admits s b

namespace Adds

variable {α κ : Type} {key : α → κ} {rows : Store → List α} {admits : Store → α → Prop}
  {add : Store → α → Except StoreError Store} {xs : List α} {s s' : Store}

/-- Records come in the order in which they are added. -/
theorem rows_foldlM (h : Adds key rows admits add) (hadd : xs.foldlM add s = .ok s') :
    rows s' = rows s ++ xs := by
  induction xs generalizing s with
  | nil =>
      cases hadd
      simp
  | cons x xs ih =>
      rw [List.foldlM_cons] at hadd
      cases hx : add s x with
      | error e => rw [hx] at hadd; cases hadd
      | ok s₁ =>
          rw [hx] at hadd
          rw [ih hadd, h.rows_eq hx, List.append_assoc, List.singleton_append]

/-- Records are added one after the other exactly when their keys are new and distinct and the store
admits each of them from the beginning. -/
theorem exists_foldlM_iff (h : Adds key rows admits add) :
    (∃ s', xs.foldlM add s = .ok s') ↔
      ((rows s ++ xs).map key).Nodup ∧ ∀ a ∈ xs, admits s a := by
  induction xs generalizing s with
  | nil => simpa [pure, Except.pure] using h.nodup s
  | cons x xs ih =>
      rw [List.foldlM_cons, List.forall_mem_cons]
      cases hx : add s x with
      | error e =>
          have hnot : ¬(key x ∉ (rows s).map key ∧ admits s x) := by
            rw [← h.exists_iff, hx]
            rintro ⟨s', hs'⟩
            cases hs'
          constructor
          · rintro ⟨s', hs'⟩
            cases hs'
          · rintro ⟨hkeys, hadmits, -⟩
            rw [List.map_append, List.map_cons] at hkeys
            refine absurd ⟨fun hmem => ?_, hadmits⟩ hnot
            exact List.disjoint_of_nodup_append hkeys hmem List.mem_cons_self
      | ok s₁ =>
          obtain ⟨-, hadmits⟩ := (h.exists_iff s x).mp ⟨s₁, hx⟩
          change (∃ s', xs.foldlM add s₁ = .ok s') ↔ _
          rw [ih, h.rows_eq hx, List.append_assoc, List.singleton_append]
          simp only [h.admits_iff hx, hadmits, true_and]

end Adds

theorem adds_task : Adds Task.id (fun s => s.tasks.rows) (fun _ _ => True) addTask where
  nodup s := s.tasks.nodup
  exists_iff s t := by simp [addTask_eq_ok_iff, Table.find?_eq_none_iff]
  rows_eq := by
    intro s t s' h
    obtain ⟨hnew, rfl⟩ := addTask_eq_ok_iff.mp h
    exact Table.rows_put_of_find?_eq_none hnew
  admits_iff _ _ := Iff.rfl

/-- Both ends of the dependency are there. -/
def HasEnds (s : Store) (d : Dependency) : Prop :=
  (s.tasks.find? d.task).isSome = true ∧ (s.tasks.find? d.prerequisite).isSome = true

theorem adds_dependency :
    Adds Dependency.id (fun s => s.dependencies.rows) HasEnds addDependency where
  nodup s := s.dependencies.nodup
  exists_iff s d := by simp [addDependency_eq_ok_iff, Table.find?_eq_none_iff, HasEnds]
  rows_eq := by
    intro s d s' h
    obtain ⟨hnew, -, -, rfl⟩ := addDependency_eq_ok_iff.mp h
    exact Table.rows_put_of_find?_eq_none hnew
  admits_iff := by
    intro s d s' h
    obtain ⟨-, -, -, rfl⟩ := addDependency_eq_ok_iff.mp h
    exact fun _ => Iff.rfl

theorem adds_change :
    Adds ScheduleChange.id (fun s => s.changes.rows) (fun _ _ => True) addChange where
  nodup s := s.changes.nodup
  exists_iff s c := by simp [addChange_eq_ok_iff, Table.find?_eq_none_iff]
  rows_eq := by
    intro s c s' h
    obtain ⟨hnew, rfl⟩ := addChange_eq_ok_iff.mp h
    exact Table.rows_put_of_find?_eq_none hnew
  admits_iff _ _ := Iff.rfl

/-! ### Whole snapshots -/

/-- The store holds the records of the snapshot, in the same order. -/
structure Loads (s : Store) (x : Snapshot) : Prop where
  tasks : s.tasks.rows = x.tasks
  dependencies : s.dependencies.rows = x.dependencies
  changes : s.changes.rows = x.changes
  outbox : s.outbox = x.outbox

variable {x : Snapshot} {s s₁ : Store}

/-- Adding tasks leaves the dependencies and the history alone. -/
theorem foldlM_addTask_keeps (h : x.tasks.foldlM addTask s = .ok s₁) :
    s₁.dependencies = s.dependencies ∧ s₁.changes = s.changes := by
  refine foldlM_keeps (P := fun u => u.dependencies = s.dependencies ∧ u.changes = s.changes)
    (fun u t u' hadd hu => ?_) h ⟨rfl, rfl⟩
  obtain ⟨-, rfl⟩ := addTask_eq_ok_iff.mp hadd
  exact hu

/-- Adding dependencies leaves the tasks and the history alone. -/
theorem foldlM_addDependency_keeps (h : x.dependencies.foldlM addDependency s = .ok s₁) :
    s₁.tasks = s.tasks ∧ s₁.changes = s.changes := by
  refine foldlM_keeps (P := fun u => u.tasks = s.tasks ∧ u.changes = s.changes)
    (fun u d u' hadd hu => ?_) h ⟨rfl, rfl⟩
  obtain ⟨-, -, -, rfl⟩ := addDependency_eq_ok_iff.mp hadd
  exact hu

/-- Adding changes leaves the tasks and the dependencies alone. -/
theorem foldlM_addChange_keeps (h : x.changes.foldlM addChange s = .ok s₁) :
    s₁.tasks = s.tasks ∧ s₁.dependencies = s.dependencies := by
  refine foldlM_keeps (P := fun u => u.tasks = s.tasks ∧ u.dependencies = s.dependencies)
    (fun u c u' hadd hu => ?_) h ⟨rfl, rfl⟩
  obtain ⟨-, rfl⟩ := addChange_eq_ok_iff.mp hadd
  exact hu

theorem loads_ofSnapshot (h : ofSnapshot x = .ok s) : s.Loads x := by
  obtain ⟨s₁, s₂, s₃, ht, hd, hc, rfl⟩ := ofSnapshot_eq_ok_iff.mp h
  obtain ⟨hdependencies₁, hchanges₁⟩ := foldlM_addTask_keeps ht
  obtain ⟨htasks₂, hchanges₂⟩ := foldlM_addDependency_keeps hd
  obtain ⟨htasks₃, hdependencies₃⟩ := foldlM_addChange_keeps hc
  refine ⟨?_, ?_, ?_, rfl⟩
  · change s₃.tasks.rows = _
    rw [htasks₃, htasks₂, adds_task.rows_foldlM ht]
    rfl
  · change s₃.dependencies.rows = _
    rw [hdependencies₃, adds_dependency.rows_foldlM hd, hdependencies₁]
    rfl
  · change s₃.changes.rows = _
    rw [adds_change.rows_foldlM hc, hchanges₂, hchanges₁]
    rfl

/-- A store is built exactly from the sound snapshots. -/
theorem exists_ofSnapshot_iff : (∃ s, ofSnapshot x = .ok s) ↔ x.Sound := by
  have hends : ∀ s₁, x.tasks.foldlM addTask empty = .ok s₁ → ∀ d, s₁.HasEnds d ↔
      d.task ∈ x.tasks.map Task.id ∧ d.prerequisite ∈ x.tasks.map Task.id := by
    intro s₁ ht d
    have hrows : s₁.tasks.rows = x.tasks := adds_task.rows_foldlM ht
    rw [HasEnds, Table.isSome_find?_iff, Table.isSome_find?_iff, hrows]
  constructor
  · rintro ⟨s, h⟩
    obtain ⟨s₁, s₂, s₃, ht, hd, hc, -⟩ := ofSnapshot_eq_ok_iff.mp h
    obtain ⟨htasks, -⟩ := adds_task.exists_foldlM_iff.mp ⟨s₁, ht⟩
    obtain ⟨hdependencies, hadmits⟩ := adds_dependency.exists_foldlM_iff.mp ⟨s₂, hd⟩
    obtain ⟨hchanges, -⟩ := adds_change.exists_foldlM_iff.mp ⟨s₃, hc⟩
    rw [(foldlM_addTask_keeps ht).1] at hdependencies
    rw [(foldlM_addDependency_keeps hd).2, (foldlM_addTask_keeps ht).2] at hchanges
    exact ⟨htasks, hdependencies, fun d hd => (hends s₁ ht d).mp (hadmits d hd), hchanges⟩
  · intro h
    obtain ⟨s₁, ht⟩ := (adds_task.exists_foldlM_iff (s := empty)).mpr
      ⟨h.tasks, fun _ _ => trivial⟩
    obtain ⟨hdependencies₁, hchanges₁⟩ := foldlM_addTask_keeps ht
    obtain ⟨s₂, hd⟩ := (adds_dependency.exists_foldlM_iff (s := s₁)).mpr
      ⟨by rw [hdependencies₁]; exact h.dependencies, fun d hd => (hends s₁ ht d).mpr (h.ends d hd)⟩
    obtain ⟨s₃, hc⟩ := (adds_change.exists_foldlM_iff (s := s₂)).mpr
      ⟨by rw [(foldlM_addDependency_keeps hd).2, hchanges₁]; exact h.changes, fun _ _ => trivial⟩
    exact ⟨_, ofSnapshot_eq_ok_iff.mpr ⟨s₁, s₂, s₃, ht, hd, hc, rfl⟩⟩

end Store

end Overhaul
