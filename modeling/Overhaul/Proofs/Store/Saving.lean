import Overhaul.Proofs.Store.Edits
import Overhaul.Proofs.Store.Order

/-!
# Saving and loading

A store is saved as a snapshot, in which tasks and dependencies are sorted. Every store that was
ever reached can be loaded again, and then answers as before, except that the dependencies at a task
are listed in the order of the snapshot. Main statement: `Store.snapshot_faithful`.
-/

namespace Overhaul

/-- The one snapshot is the other one with tasks by start and dependencies by the time of making,
both then by identifier. -/
structure Snapshot.Sorts (y x : Snapshot) : Prop where
  tasks : SortedBy Task.rank y.tasks x.tasks
  dependencies : SortedBy Dependency.rank y.dependencies x.dependencies
  changes : y.changes = x.changes
  outbox : y.outbox = x.outbox

namespace Store

/-- The store is saved and answers like the other one, but lists dependencies in the order of
snapshots. -/
structure AnswersLike (r s : Store) : Prop where
  snapshot : r.snapshot = s.snapshot
  task? : ∀ scope id, r.task? scope id = s.task? scope id
  tasksWhere : ∀ f, r.tasksWhere f = s.tasksWhere f
  dependency? : ∀ scope id, r.dependency? scope id = s.dependency? scope id
  changesOf : ∀ scope task, r.changesOf scope task = s.changesOf scope task
  outbox : r.outbox = s.outbox
  dependenciesOf : ∀ scope task,
    SortedBy Dependency.rank (r.dependenciesOf scope task) (s.dependenciesOf scope task)
  dependentsOf : ∀ scope task,
    SortedBy Dependency.rank (r.dependentsOf scope task) (s.dependentsOf scope task)

variable {s s' r : Store} {x : Snapshot}

/-! ### What is saved -/

theorem sortedBy_tasks (s : Store) : SortedBy Task.rank s.snapshot.tasks s.tasks.rows :=
  sortedBy_mergeSort Task.precedes_iff Task.id_eq_of_rank s.tasks.nodup

theorem sortedBy_dependencies (s : Store) :
    SortedBy Dependency.rank s.snapshot.dependencies s.dependencies.rows :=
  sortedBy_mergeSort Dependency.precedes_iff Dependency.id_eq_of_rank s.dependencies.nodup

/-- A loaded store is saved as the snapshot, sorted. -/
theorem Loads.sorts (h : s.Loads x) : s.snapshot.Sorts x where
  tasks := by
    rw [← h.tasks]
    exact s.sortedBy_tasks
  dependencies := by
    rw [← h.dependencies]
    exact s.sortedBy_dependencies
  changes := h.changes
  outbox := h.outbox

/-- Stores that hold the same tasks save them in the same order. -/
theorem snapshot_tasks_eq (h : s.tasks.rows.Perm s'.tasks.rows) :
    s.snapshot.tasks = s'.snapshot.tasks :=
  mergeSort_eq_of_perm Task.precedes_iff Task.id_eq_of_rank h s.tasks.nodup

/-- Stores that hold the same dependencies save them in the same order. -/
theorem snapshot_dependencies_eq (h : s.dependencies.rows.Perm s'.dependencies.rows) :
    s.snapshot.dependencies = s'.snapshot.dependencies :=
  mergeSort_eq_of_perm Dependency.precedes_iff Dependency.id_eq_of_rank h s.dependencies.nodup

/-- What a store saves can be loaded, as long as its dependencies have both of their ends. -/
theorem sound_snapshot (h : ∀ d ∈ s.dependencies.rows, s.HasEnds d) : s.snapshot.Sound where
  tasks := (s.sortedBy_tasks.perm.map Task.id).nodup_iff.mpr s.tasks.nodup
  dependencies :=
    (s.sortedBy_dependencies.perm.map Dependency.id).nodup_iff.mpr s.dependencies.nodup
  ends d hd := by
    have hmem : ∀ id, id ∈ s.snapshot.tasks.map Task.id ↔ (s.tasks.find? id).isSome = true := by
      intro id
      rw [(s.sortedBy_tasks.perm.map Task.id).mem_iff, Table.isSome_find?_iff]
    rw [hmem, hmem]
    exact h d (s.sortedBy_dependencies.perm.mem_iff.mp hd)
  changes := s.changes.nodup

/-! ### What is loaded -/

/-- What is loaded from the snapshot of a store holds what the store holds. -/
theorem perm_of_ofSnapshot (hr : ofSnapshot s.snapshot = .ok r) :
    r.tasks.rows.Perm s.tasks.rows ∧ r.dependencies.rows.Perm s.dependencies.rows := by
  have hloads := loads_ofSnapshot hr
  rw [hloads.tasks, hloads.dependencies]
  exact ⟨s.sortedBy_tasks.perm, s.sortedBy_dependencies.perm⟩

theorem snapshot_of_ofSnapshot (hr : ofSnapshot s.snapshot = .ok r) : r.snapshot = s.snapshot := by
  obtain ⟨htasks, hdependencies⟩ := perm_of_ofSnapshot hr
  have hloads := loads_ofSnapshot hr
  exact (Snapshot.mk.injEq ..).mpr ⟨snapshot_tasks_eq htasks,
    snapshot_dependencies_eq hdependencies, hloads.changes, hloads.outbox⟩

/-- A store that shows the same dependencies in order of rank lists them so at every task. -/
theorem Shows.sortedBy_listed {ds ds' : List Dependency} (h' : r.Shows ds') (h : s.Shows ds)
    (hds : SortedBy Dependency.rank ds' ds) (htasks : ∀ id, r.tasks.find? id = s.tasks.find? id)
    (scope : Scope) (task : TaskId) :
    SortedBy Dependency.rank (r.dependenciesOf scope task) (s.dependenciesOf scope task) ∧
      SortedBy Dependency.rank (r.dependentsOf scope task) (s.dependentsOf scope task) := by
  have honly : ∀ tenant,
      SortedBy Dependency.rank (r.dependenciesOf (.only tenant) task)
          (s.dependenciesOf (.only tenant) task) ∧
        SortedBy Dependency.rank (r.dependentsOf (.only tenant) task)
          (s.dependentsOf (.only tenant) task) := by
    intro tenant
    rw [h'.dependenciesOf, h.dependenciesOf, h'.dependentsOf, h.dependentsOf]
    exact ⟨hds.filter _, hds.filter _⟩
  cases scope with
  | only tenant => exact honly tenant
  | all =>
      rw [h'.dependenciesOf_all, h.dependenciesOf_all, h'.dependentsOf_all, h.dependentsOf_all,
        htasks]
      cases s.tasks.find? task with
      | none => exact ⟨⟨.nil, .nil⟩, .nil, .nil⟩
      | some t => exact honly t.tenant

/-- What is loaded from the snapshot of a store answers like the store. -/
theorem Shows.answersLike (h : s.Shows s.dependencies.rows) (hr : ofSnapshot s.snapshot = .ok r) :
    r.AnswersLike s := by
  have hloads := loads_ofSnapshot hr
  obtain ⟨htasks, hdependencies⟩ := perm_of_ofSnapshot hr
  have hchanges : r.changes.rows = s.changes.rows := hloads.changes
  have hfind : ∀ id, r.tasks.find? id = s.tasks.find? id := Table.find?_eq_of_perm htasks
  have hlisted := (Chronicle.Begins.loaded hr).kept.shows.sortedBy_listed h
    s.sortedBy_dependencies hfind
  refine ⟨snapshot_of_ofSnapshot hr, ?_, ?_, ?_, ?_, hloads.outbox,
    fun scope task => (hlisted scope task).1, fun scope task => (hlisted scope task).2⟩
  · intro scope id
    rw [Store.task?, Store.task?, hfind]
  · intro f
    exact mergeSort_eq_of_perm Task.precedes_iff Task.id_eq_of_rank (htasks.filter _)
      (r.tasks.nodup.sublist (List.filter_sublist.map _))
  · intro scope id
    rw [Store.dependency?, Store.dependency?, Table.find?_eq_of_perm hdependencies]
  · intro scope task
    rw [Store.changesOf, Store.changesOf, hchanges]

/-- A store is built from the sound snapshots alone, and saved again as the snapshot, sorted.
Whatever was done to a store, it can be loaded from its own snapshot and then answers as before.
What a snapshot lists of tasks and dependencies depends only on what the store holds. -/
theorem snapshot_faithful :
    (∀ x : Snapshot, (∃ s, ofSnapshot x = .ok s) ↔ x.Sound) ∧
      (∀ (x : Snapshot) (s : Store), ofSnapshot x = .ok s → s.snapshot.Sorts x) ∧
      (∀ (c : Chronicle) (es : List Edit), c.Begins →
        ∃ r, ofSnapshot (c.after es).store.snapshot = .ok r ∧ r.AnswersLike (c.after es).store) ∧
      ∀ s s' : Store, (∀ id, s.tasks.find? id = s'.tasks.find? id) →
        (∀ id, s.dependencies.find? id = s'.dependencies.find? id) →
        s.snapshot.tasks = s'.snapshot.tasks ∧
          s.snapshot.dependencies = s'.snapshot.dependencies := by
  refine ⟨fun x => exists_ofSnapshot_iff, fun x s h => (loads_ofSnapshot h).sorts, ?_, ?_⟩
  · intro c es hc
    have hkept := hc.kept.after es
    have hrows := hkept.rows
    have hshows := hkept.shows
    rw [← hrows] at hshows
    obtain ⟨r, hr⟩ := exists_ofSnapshot_iff.mpr (sound_snapshot hshows.ends)
    exact ⟨r, hr, hshows.answersLike hr⟩
  · intro s s' htasks hdependencies
    exact ⟨snapshot_tasks_eq (Table.perm_of_find? htasks),
      snapshot_dependencies_eq (Table.perm_of_find? hdependencies)⟩

/-- Two tasks and two dependencies between them come in one order and in the other. Both stores are
saved alike, and what is saved can be loaded. -/
theorem snapshot_faithful_sample :
    let es : List Edit := [.addTask (sampleTask 1 0 0), .addTask (sampleTask 2 1 0),
      .addDependency (sampleDependency 2 2 1), .addDependency (sampleDependency 1 2 1)]
    let es' : List Edit := [.addTask (sampleTask 2 1 0), .addTask (sampleTask 1 0 0),
      .addDependency (sampleDependency 1 2 1), .addDependency (sampleDependency 2 2 1)]
    let s := (Chronicle.after ⟨.empty, []⟩ es).store
    let s' := (Chronicle.after ⟨.empty, []⟩ es').store
    (∃ r, ofSnapshot s.snapshot = .ok r ∧ r.snapshot.Sorts s.snapshot ∧ r.AnswersLike s) ∧
      s.snapshot.tasks = s'.snapshot.tasks ∧
        s.snapshot.dependencies = s'.snapshot.dependencies := by
  intro es es' s s'
  have hsame : s.tasks.rows.Perm s'.tasks.rows ∧ s.dependencies.rows.Perm s'.dependencies.rows := by
    decide
  obtain ⟨-, hsorts, hloads, hsaved⟩ := snapshot_faithful
  obtain ⟨r, hr, hlike⟩ := hloads ⟨.empty, []⟩ es .empty
  exact ⟨⟨r, hr, hsorts _ _ hr, hlike⟩,
    hsaved s s' (Table.find?_eq_of_perm hsame.1) (Table.find?_eq_of_perm hsame.2)⟩

end Store

end Overhaul
