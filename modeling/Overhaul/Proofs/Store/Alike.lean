import Overhaul.Proofs.Quiet
import Overhaul.Proofs.Store.Saving

/-!
# Stores that cannot be told apart

No call tells in which order tasks came to a store, nor how the indexes are laid out. Stores that
differ in nothing else are `Alike`. Main statement: a program comes to the same in stores that are
alike, and leaves them alike (`Store.Alike.run`).
-/

namespace Overhaul.Store

/-- The same tasks are found, and all else is the same in the same order. -/
structure Alike (r s : Store) : Prop where
  tasks : ∀ id, r.tasks.find? id = s.tasks.find? id
  dependencies : r.dependencies = s.dependencies
  prerequisites : ∀ p, r.prerequisites.idsAt p = s.prerequisites.idsAt p
  dependents : ∀ p, r.dependents.idsAt p = s.dependents.idsAt p
  changes : r.changes = s.changes
  outbox : r.outbox = s.outbox

namespace Alike

variable {r s : Store}

/-! ### What is shown -/

theorem perm_tasks (h : r.Alike s) : r.tasks.rows.Perm s.tasks.rows := Table.perm_of_find? h.tasks

theorem snapshot (h : r.Alike s) : r.snapshot = s.snapshot := by
  rw [Store.snapshot, Store.snapshot, h.dependencies, h.changes, h.outbox]
  exact congrArg (Snapshot.mk · _ _ _) (snapshot_tasks_eq h.perm_tasks)

theorem task? (h : r.Alike s) (scope : Scope) (id : TaskId) : r.task? scope id = s.task? scope id := by
  rw [Store.task?, Store.task?, h.tasks]

theorem tasksWhere (h : r.Alike s) (f : TaskFilter) : r.tasksWhere f = s.tasksWhere f :=
  mergeSort_eq_of_perm Task.precedes_iff Task.id_eq_of_rank (h.perm_tasks.filter _)
    (r.tasks.nodup.sublist (List.filter_sublist.map _))

theorem dependency? (h : r.Alike s) (scope : Scope) (id : DependencyId) :
    r.dependency? scope id = s.dependency? scope id := by
  rw [Store.dependency?, Store.dependency?, h.dependencies]

/-- Indexes that list the same show the same. -/
theorem listed (h : r.Alike s) {links links' : Links} (hlinks : ∀ p, links.idsAt p = links'.idsAt p)
    (scope : Scope) (task : TaskId) : r.listed links scope task = s.listed links' scope task := by
  have hplace : r.place? scope task = s.place? scope task := by
    cases scope with
    | only tenant => rfl
    | all => rw [place?, place?, h.tasks]
  unfold Store.listed
  rw [hplace, h.dependencies]
  simp only [hlinks]

theorem changesOf (h : r.Alike s) (scope : Scope) (task : TaskId) :
    r.changesOf scope task = s.changesOf scope task := by
  rw [Store.changesOf, Store.changesOf, h.changes]

/-! ### What is written -/

theorem put (h : r.Alike s) (t : Task) :
    Alike { r with tasks := r.tasks.put t } { s with tasks := s.tasks.put t } :=
  { h with tasks := fun id => by simp only [Table.find?_put, h.tasks] }

theorem link (h : r.Alike s) (d : Dependency) : (r.link d).Alike (s.link d) where
  tasks := h.tasks
  dependencies := congrArg (Table.put · d) h.dependencies
  prerequisites p := by simp only [Store.link, Links.idsAt_add, h.prerequisites]
  dependents p := by simp only [Store.link, Links.idsAt_add, h.dependents]
  changes := h.changes
  outbox := h.outbox

theorem unlink (h : r.Alike s) (d : Dependency) : (r.unlink d).Alike (s.unlink d) where
  tasks := h.tasks
  dependencies := congrArg (Table.erase · d.id) h.dependencies
  prerequisites p := by simp only [Store.unlink, Links.idsAt_remove, h.prerequisites]
  dependents p := by simp only [Store.unlink, Links.idsAt_remove, h.dependents]
  changes := h.changes
  outbox := h.outbox

theorem announce (h : r.Alike s) (m : Message) : (r.announce m).Alike (s.announce m) :=
  { h with outbox := congrArg (Outbox.put · m) h.outbox }

/-! ### What programs come to -/

/-- A call is answered in the same way, and leaves the stores alike. -/
theorem reply (h : r.Alike s) (c : Call) :
    (r.reply c).1 = (s.reply c).1 ∧ (r.reply c).2.Alike (s.reply c).2 := by
  cases c with
  | task scope id => exact ⟨congrArg Except.ok (h.task? scope id), h⟩
  | tasksWhere f => exact ⟨congrArg Except.ok (h.tasksWhere f), h⟩
  | dependency scope id => exact ⟨congrArg Except.ok (h.dependency? scope id), h⟩
  | dependenciesOf scope task => exact ⟨congrArg Except.ok (h.listed h.prerequisites scope task), h⟩
  | dependentsOf scope task => exact ⟨congrArg Except.ok (h.listed h.dependents scope task), h⟩
  | changesOf scope task => exact ⟨congrArg Except.ok (h.changesOf scope task), h⟩
  | announce m => exact ⟨rfl, h.announce m⟩
  | releaseParts tenant task => exact ⟨rfl, h⟩
  | putTask t =>
      simp only [Store.reply, World.perform, putTask, h.tasks]
      cases s.tasks.find? t.id with
      | none => exact ⟨rfl, h⟩
      | some u => exact ⟨rfl, h.put t⟩
  | setState scope id state notes now =>
      simp only [Store.reply, World.perform, setState, h.task?]
      cases s.task? scope id with
      | none => exact ⟨rfl, h⟩
      | some t => exact ⟨rfl, h.put _⟩
  | addDependency d =>
      simp only [Store.reply, World.perform, addDependency, h.dependencies, h.tasks]
      cases s.dependencies.find? d.id with
      | some e => exact ⟨rfl, h⟩
      | none =>
          cases [d.task, d.prerequisite].find? fun t => (s.tasks.find? t).isNone with
          | some unknown => exact ⟨rfl, h⟩
          | none => exact ⟨rfl, h.link d⟩
  | removeDependency scope id =>
      simp only [Store.reply, World.perform, removeDependency, h.dependency?]
      cases s.dependency? scope id with
      | none => exact ⟨rfl, h⟩
      | some d => exact ⟨rfl, h.unlink d⟩
  | addChange c =>
      simp only [Store.reply, World.perform, Store.addChange, h.changes]
      cases s.changes.find? c.id with
      | some c' => exact ⟨rfl, h⟩
      | none => exact ⟨rfl, { h with changes := rfl }⟩

theorem take (h : r.Alike s) (st : Step) :
    (r.take st).1 = (s.take st).1 ∧ (r.take st).2.Alike (s.take st).2 := by
  cases st with
  | call c => exact h.reply c
  | _ => exact ⟨rfl, h⟩

/-- A program comes to the same in stores that are alike, and leaves them alike. -/
theorem run {α : Type} (h : r.Alike s) (p : Program α) :
    (Store.run p r).1 = (Store.run p s).1 ∧ (Store.run p r).2.Alike (Store.run p s).2 := by
  induction p generalizing r s with
  | done a => exact ⟨rfl, h⟩
  | step st next ih =>
      obtain ⟨hreply, hleft⟩ := h.take st
      rw [Store.run, Store.run, hreply]
      exact ih _ hleft

theorem serve {α : Type} (h : r.Alike s) (p : Service α) :
    (r.serve p).1 = (s.serve p).1 ∧ (r.serve p).2.Alike (s.serve p).2 :=
  h.run p.run

end Alike

end Overhaul.Store
