import Overhaul.Proofs.Store.Loading
import Overhaul.Proofs.Table

/-!
# What a store shows of its dependencies

A store is changed by edits, each of which it carries out or refuses. A `Chronicle` keeps, beside
the store, the dependencies that were made and not removed since, in the order in which they were
made. What every edit keeps is `Chronicle.Kept`. Main statement: whatever was done to a store, it
shows at each task just those dependencies, in that order (`Chronicle.shows_after`).
-/

namespace Overhaul

/-- What can be done to a store. -/
inductive Edit
  | addTask (t : Task)
  | putTask (t : Task)
  | setState (scope : Scope) (id : TaskId) (state : TaskState) (notes : String) (now : Timestamp)
  | deleteTask (scope : Scope) (id : TaskId) (now : Timestamp)
  | addDependency (d : Dependency)
  | removeDependency (scope : Scope) (id : DependencyId)
  | addChange (c : ScheduleChange)
  | announce (m : Message)
  | takeMessages
  deriving DecidableEq

/-- What stands after the edit was carried out, the earliest made first. -/
def Edit.standing : Edit → List Dependency → List Dependency
  | .addDependency d, ds => ds ++ [d]
  | .removeDependency _ id, ds => ds.filter fun d => d.id ≠ id
  | .addTask _, ds | .putTask _, ds | .setState _ _ _ _ _, ds | .deleteTask _ _ _, ds
  | .addChange _, ds | .announce _, ds | .takeMessages, ds => ds

/-- The store after the edit, unless it is refused. -/
def Store.edited? (s : Store) : Edit → Option Store
  | .addTask t => (s.addTask t).toOption
  | .putTask t => (s.putTask t).toOption
  | .setState scope id state notes now => (s.setState scope id state notes now).map Prod.snd
  | .deleteTask scope id now => s.deleteTask scope id now
  | .addDependency d => (s.addDependency d).toOption
  | .removeDependency scope id => s.removeDependency scope id
  | .addChange c => (s.addChange c).toOption
  | .announce m => some (s.announce m)
  | .takeMessages => some s.takeMessages.2

/-- A store and the dependencies that stand in it, the earliest made first. -/
structure Chronicle where
  store : Store
  standing : List Dependency

namespace Chronicle

/-- A refused edit changes nothing. -/
def edit (c : Chronicle) (e : Edit) : Chronicle :=
  match c.store.edited? e with
  | some s => ⟨s, e.standing c.standing⟩
  | none => c

/-- Edits one after the other. -/
def after (c : Chronicle) (es : List Edit) : Chronicle := es.foldl edit c

/-- Nothing was done yet: the store is empty, or was just built from a snapshot. -/
inductive Begins : Chronicle → Prop
  | empty : Begins ⟨.empty, []⟩
  | loaded {x : Snapshot} {s : Store} : Store.ofSnapshot x = .ok s → Begins ⟨s, x.dependencies⟩

end Chronicle

/-! ### Indexes without empty lists -/

/-- No place is indexed without any dependency. -/
def Links.Tidy (links : Links) : Prop := ∀ l ∈ links.rows, l.dependencies ≠ []

theorem Links.tidy_empty : Links.Tidy .empty := by
  intro l hl
  cases hl

theorem Links.Tidy.add {links : Links} (h : links.Tidy) (p : Place) (d : DependencyId) :
    (links.add p d).Tidy := by
  intro l hl
  rcases Table.mem_rows_put.mp hl with rfl | ⟨hl, -⟩
  · simp
  · exact h l hl

theorem Links.Tidy.remove {links : Links} (h : links.Tidy) (p : Place) (d : DependencyId) :
    (links.remove p d).Tidy := by
  intro l hl
  unfold Links.remove at hl
  dsimp only at hl
  split at hl
  · exact h l (Table.mem_rows_erase.mp hl).1
  · rename_i hleft
    rcases Table.mem_rows_put.mp hl with rfl | ⟨hl, -⟩
    · exact hleft
    · exact h l hl

theorem Links.idsAt_of_mem {links : Links} {l : Link} (h : l ∈ links.rows) :
    links.idsAt l.place = l.dependencies := by
  rw [idsAt, Table.find?_eq_some_iff.mpr ⟨h, rfl⟩]

/-! ### What every edit keeps -/

namespace Chronicle

/-- The store holds what stands, with both of its ends, and both indexes list just that. -/
structure Kept (c : Chronicle) : Prop where
  rows : c.store.dependencies.rows = c.standing
  indexed : c.store.Indexed
  prerequisites : c.store.prerequisites.Tidy
  dependents : c.store.dependents.Tidy
  ends : ∀ d ∈ c.standing, c.store.HasEnds d

variable {c : Chronicle} {s' : Store}

/-- Whatever leaves the dependencies and the indexes alone, and no task out. -/
theorem Kept.of_eq (h : c.Kept) (hd : s'.dependencies = c.store.dependencies)
    (hp : s'.prerequisites = c.store.prerequisites) (ha : s'.dependents = c.store.dependents)
    (ht : ∀ id, (c.store.tasks.find? id).isSome = true → (s'.tasks.find? id).isSome = true) :
    Kept ⟨s', c.standing⟩ where
  rows := by rw [hd, h.rows]
  indexed := h.indexed.of_eq hd hp ha
  prerequisites := by rw [hp]; exact h.prerequisites
  dependents := by rw [ha]; exact h.dependents
  ends d hd := ⟨ht _ (h.ends d hd).1, ht _ (h.ends d hd).2⟩

theorem Kept.putTask (h : c.Kept) (t : Task) :
    Kept ⟨{ c.store with tasks := c.store.tasks.put t }, c.standing⟩ :=
  h.of_eq rfl rfl rfl fun _ => Table.isSome_find?_put

theorem Kept.link (h : c.Kept) {d : Dependency} (hnew : c.store.dependencies.find? d.id = none)
    (hends : c.store.HasEnds d) : Kept ⟨c.store.link d, c.standing ++ [d]⟩ where
  rows := by
    rw [← h.rows]
    exact Table.rows_put_of_find?_eq_none hnew
  indexed := h.indexed.link hnew
  prerequisites := h.prerequisites.add _ _
  dependents := h.dependents.add _ _
  ends e he := by
    rcases List.mem_append.mp he with he | he
    · exact h.ends e he
    · rw [List.mem_singleton.mp he]
      exact hends

theorem Kept.unlink (h : c.Kept) {d : Dependency} (hd : d ∈ c.store.dependencies.rows) :
    Kept ⟨c.store.unlink d, c.standing.filter fun e => e.id ≠ d.id⟩ where
  rows := by
    rw [← h.rows]
    rfl
  indexed := h.indexed.unlink hd
  prerequisites := h.prerequisites.remove _ _
  dependents := h.dependents.remove _ _
  ends e he := h.ends e (List.mem_filter.mp he).1

theorem toOption_eq_some_iff {ε α : Type} {e : Except ε α} {a : α} :
    e.toOption = some a ↔ e = .ok a := by
  cases e <;> simp [Except.toOption]

theorem Kept.edit (h : c.Kept) (e : Edit) : (c.edit e).Kept := by
  unfold Chronicle.edit
  cases hedited : c.store.edited? e with
  | none => exact h
  | some s =>
      cases e with
      | addTask t =>
          obtain ⟨-, rfl⟩ := Store.addTask_eq_ok_iff.mp (toOption_eq_some_iff.mp hedited)
          exact h.putTask t
      | putTask t =>
          obtain ⟨-, rfl⟩ := Store.putTask_eq_ok_iff.mp (toOption_eq_some_iff.mp hedited)
          exact h.putTask t
      | setState scope id state notes now =>
          obtain ⟨p, hset, rfl⟩ := Option.map_eq_some_iff.mp hedited
          obtain ⟨t, -, -, hleft⟩ := Store.setState_eq_some_iff.mp hset
          rw [hleft]
          exact h.putTask _
      | deleteTask scope id now =>
          obtain ⟨t, -, rfl⟩ := Option.map_eq_some_iff.mp hedited
          exact h.putTask _
      | addDependency d =>
          obtain ⟨hnew, htask, hprerequisite, rfl⟩ :=
            Store.addDependency_eq_ok_iff.mp (toOption_eq_some_iff.mp hedited)
          exact h.link hnew ⟨htask, hprerequisite⟩
      | removeDependency scope id =>
          obtain ⟨d, hd, rfl⟩ := Store.removeDependency_eq_some_iff.mp hedited
          obtain ⟨hmem, rfl⟩ := Store.mem_rows_of_dependency? hd
          exact h.unlink hmem
      | addChange change =>
          obtain ⟨-, rfl⟩ := Store.addChange_eq_ok_iff.mp (toOption_eq_some_iff.mp hedited)
          exact h.of_eq rfl rfl rfl fun _ => id
      | announce m =>
          cases hedited
          exact h.of_eq rfl rfl rfl fun _ => id
      | takeMessages =>
          cases hedited
          exact h.of_eq rfl rfl rfl fun _ => id

theorem kept_empty : Kept ⟨.empty, []⟩ where
  rows := rfl
  indexed := Store.indexed_empty
  prerequisites := Links.tidy_empty
  dependents := Links.tidy_empty
  ends := by simp

/-- Building a store from a snapshot keeps its indexes tidy. -/
theorem tidy_ofSnapshot {x : Snapshot} {s : Store} (h : Store.ofSnapshot x = .ok s) :
    s.prerequisites.Tidy ∧ s.dependents.Tidy := by
  let P : Store → Prop := fun s => s.prerequisites.Tidy ∧ s.dependents.Tidy
  obtain ⟨s₁, s₂, s₃, ht, hd, hc, rfl⟩ := Store.ofSnapshot_eq_ok_iff.mp h
  have h₁ : P s₁ := by
    refine Store.foldlM_keeps (fun s t s' hadd hs => ?_) ht ⟨Links.tidy_empty, Links.tidy_empty⟩
    obtain ⟨-, rfl⟩ := Store.addTask_eq_ok_iff.mp hadd
    exact hs
  have h₂ : P s₂ := by
    refine Store.foldlM_keeps (fun s d s' hadd hs => ?_) hd h₁
    obtain ⟨-, -, -, rfl⟩ := Store.addDependency_eq_ok_iff.mp hadd
    exact ⟨hs.1.add _ _, hs.2.add _ _⟩
  have h₃ : P s₃ := by
    refine Store.foldlM_keeps (fun s c s' hadd hs => ?_) hc h₂
    obtain ⟨-, rfl⟩ := Store.addChange_eq_ok_iff.mp hadd
    exact hs
  exact h₃

theorem Begins.kept (h : c.Begins) : c.Kept := by
  cases h with
  | empty => exact kept_empty
  | @loaded x s hload =>
      obtain ⟨hprerequisites, hdependents⟩ := tidy_ofSnapshot hload
      have hloads := Store.loads_ofSnapshot hload
      have hsound := Store.exists_ofSnapshot_iff.mp ⟨s, hload⟩
      refine ⟨hloads.dependencies, Store.indexed_ofSnapshot hload, hprerequisites, hdependents, ?_⟩
      intro d hd
      rw [Store.HasEnds, Table.isSome_find?_iff, Table.isSome_find?_iff, hloads.tasks]
      exact hsound.ends d hd

theorem Kept.after (h : c.Kept) (es : List Edit) : (c.after es).Kept := by
  induction es generalizing c with
  | nil => exact h
  | cons e es ih => exact ih (h.edit e)

end Chronicle

/-! ### What is shown -/

/-- The store holds the dependencies, shows at each task those that belong there, in their order,
and lists nothing else anywhere in its indexes. -/
structure Store.Shows (s : Store) (ds : List Dependency) : Prop where
  stored : ∀ id d, s.dependencies.find? id = some d ↔ d ∈ ds ∧ d.id = id
  once : (ds.map Dependency.id).Nodup
  dependenciesOf : ∀ tenant task, s.dependenciesOf (.only tenant) task =
    ds.filter fun d => d.tenant = tenant ∧ d.task = task
  dependentsOf : ∀ tenant task, s.dependentsOf (.only tenant) task =
    ds.filter fun d => d.tenant = tenant ∧ d.prerequisite = task
  /-- Whoever sees all tenants is shown what the owner of the task is shown. -/
  dependenciesOf_all : ∀ task, s.dependenciesOf .all task = match s.tasks.find? task with
    | some t => s.dependenciesOf (.only t.tenant) task
    | none => []
  dependentsOf_all : ∀ task, s.dependentsOf .all task = match s.tasks.find? task with
    | some t => s.dependentsOf (.only t.tenant) task
    | none => []
  prerequisites : ∀ l ∈ s.prerequisites.rows, l.dependencies ≠ [] ∧
    ∀ id ∈ l.dependencies, ∃ d ∈ ds, d.id = id ∧ d.waitingPlace = l.place
  dependents : ∀ l ∈ s.dependents.rows, l.dependencies ≠ [] ∧
    ∀ id ∈ l.dependencies, ∃ d ∈ ds, d.id = id ∧ d.awaitedPlace = l.place
  ends : ∀ d ∈ ds, s.HasEnds d

namespace Chronicle

variable {c : Chronicle}

/-- What an index lists at a place is stored there. -/
theorem exists_of_listed {rows : List Dependency} {links : Links} {place : Dependency → Place}
    (h : ∀ p, links.idsAt p = (rows.filter fun d => place d = p).map Dependency.id) {l : Link}
    (hl : l ∈ links.rows) : ∀ id ∈ l.dependencies, ∃ d ∈ rows, d.id = id ∧ place d = l.place := by
  intro id hid
  rw [← Links.idsAt_of_mem hl, h] at hid
  obtain ⟨d, hd, rfl⟩ := List.mem_map.mp hid
  obtain ⟨hmem, hplace⟩ := List.mem_filter.mp hd
  exact ⟨d, hmem, rfl, by simpa using hplace⟩

theorem Kept.shows (h : c.Kept) : c.store.Shows c.standing where
  stored id d := by rw [Table.find?_eq_some_iff, h.rows]
  once := by
    rw [← h.rows]
    exact c.store.dependencies.nodup
  dependenciesOf tenant task := by
    rw [h.indexed.dependenciesOf_only, h.rows]
    simp [Dependency.waitingPlace]
  dependentsOf tenant task := by
    rw [h.indexed.dependentsOf_only, h.rows]
    simp [Dependency.awaitedPlace]
  dependenciesOf_all := Store.listed_all (fun _ => rfl) h.indexed.prerequisites
  dependentsOf_all := Store.listed_all (fun _ => rfl) h.indexed.dependents
  prerequisites l hl := by
    refine ⟨h.prerequisites l hl, ?_⟩
    rw [← h.rows]
    exact exists_of_listed h.indexed.prerequisites hl
  dependents l hl := by
    refine ⟨h.dependents l hl, ?_⟩
    rw [← h.rows]
    exact exists_of_listed h.indexed.dependents hl
  ends := h.ends

/-- Whatever was done to a store that was empty at first or built from a snapshot, it shows what
stands. -/
theorem shows_after (h : c.Begins) (es : List Edit) :
    (c.after es).store.Shows (c.after es).standing :=
  (h.kept.after es).shows

/-- A dependency on a task that is not there is refused; one of a task on itself is made beside one
on another task, which is then removed. -/
theorem shows_after_sample :
    let es : List Edit := [.addTask (Store.sampleTask 1 0 0), .addTask (Store.sampleTask 2 1 0),
      .addDependency (Store.sampleDependency 1 2 1), .addDependency (Store.sampleDependency 2 2 3),
      .addDependency (Store.sampleDependency 3 2 2), .removeDependency .all (.ofNat 1)]
    (Chronicle.after ⟨.empty, []⟩ es).standing = [Store.sampleDependency 3 2 2] ∧
      (Chronicle.after ⟨.empty, []⟩ es).store.Shows [Store.sampleDependency 3 2 2] := by
  intro es
  have hstanding : (Chronicle.after ⟨.empty, []⟩ es).standing = [Store.sampleDependency 3 2 2] := by
    decide
  refine ⟨hstanding, ?_⟩
  rw [← hstanding]
  exact shows_after .empty es

end Chronicle

end Overhaul
