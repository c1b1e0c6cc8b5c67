import Overhaul.Proofs.Calls
import Overhaul.Store.Snapshot

/-!
# The indexes of a store

A store finds the dependencies at a task through its indexes. `Store.Indexed` says that they list
what is stored: at each place the dependencies of that place, in the order in which they were made.
Every operation of the store keeps this, so it holds of every store that is built from nothing or
from a snapshot. Main statements: `dependenciesOf_only` and `dependentsOf_only` say what is listed.
-/

namespace Overhaul.Store

/-- Both indexes list the stored dependencies, each at its place and in the order in which they were
made. -/
structure Indexed (s : Store) : Prop where
  prerequisites : ∀ p, s.prerequisites.idsAt p =
    (s.dependencies.rows.filter fun d => d.waitingPlace = p).map Dependency.id
  dependents : ∀ p, s.dependents.idsAt p =
    (s.dependencies.rows.filter fun d => d.awaitedPlace = p).map Dependency.id

/-! ### What is listed -/

/-- Looking stored rows up by their keys gives the rows back. -/
theorem filterMap_find? {α κ : Type} [DecidableEq κ] {key : α → κ} {t : Table key} {rows : List α}
    (h : ∀ r ∈ rows, r ∈ t.rows) : (rows.map key).filterMap t.find? = rows := by
  induction rows with
  | nil => rfl
  | cons r rows ih =>
      have hr : t.find? (key r) = some r :=
        Table.find?_eq_some_iff.mpr ⟨h r List.mem_cons_self, rfl⟩
      rw [List.map_cons, List.filterMap_cons_some hr,
        ih fun r' hr' => h r' (List.mem_cons_of_mem _ hr')]

/-- An index that lists what is stored at a place shows just that to those who may see the
tenant. -/
theorem listed_only {s : Store} {links : Links} {place : Dependency → Place} {tenant : TenantId}
    {task : TaskId} (htenant : ∀ d, (place d).1 = d.tenant)
    (h : links.idsAt (tenant, task) =
      (s.dependencies.rows.filter fun d => place d = (tenant, task)).map Dependency.id) :
    s.listed links (.only tenant) task =
      s.dependencies.rows.filter fun d => place d = (tenant, task) := by
  simp only [listed, place?, h]
  rw [filterMap_find? fun d hd => (List.mem_filter.mp hd).1, List.filter_eq_self]
  intro d hd
  have hplace : place d = (tenant, task) := by simpa using (List.mem_filter.mp hd).2
  have ht := htenant d
  rw [hplace] at ht
  simpa using ht

/-- An index that lists what is stored at each place shows all tenants what it shows the owner. -/
theorem listed_all {s : Store} {links : Links} {place : Dependency → Place}
    (htenant : ∀ d, (place d).1 = d.tenant)
    (h : ∀ p, links.idsAt p =
      (s.dependencies.rows.filter fun d => place d = p).map Dependency.id) (task : TaskId) :
    s.listed links .all task = match s.tasks.find? task with
      | some t => s.listed links (.only t.tenant) task
      | none => [] := by
  cases ht : s.tasks.find? task with
  | none => simp [listed, place?, ht]
  | some t =>
      simp only [listed_only htenant (h _)]
      simp only [listed, place?, ht, Option.map_some, h]
      rw [filterMap_find? fun d hd => (List.mem_filter.mp hd).1]
      simp

variable {s : Store}

/-- What is listed for a task is stored. -/
theorem mem_rows_of_mem_listed {links : Links} {scope : Scope} {task : TaskId}
    {d : Dependency} (h : d ∈ s.listed links scope task) : d ∈ s.dependencies.rows := by
  unfold listed at h
  split at h
  · cases h
  · obtain ⟨id, -, hfound⟩ := List.mem_filterMap.mp (List.mem_filter.mp h).1
    exact (Table.find?_eq_some_iff.mp hfound).1

/-- The dependencies of a task are those that are stored for it, in the order in which they were
made. -/
theorem Indexed.dependenciesOf_only (h : s.Indexed) (tenant : TenantId) (task : TaskId) :
    s.dependenciesOf (.only tenant) task =
      s.dependencies.rows.filter fun d => d.waitingPlace = (tenant, task) :=
  listed_only (fun _ => rfl) (h.prerequisites _)

/-- The dependencies on a task are those that are stored for it, in the order in which they were
made. -/
theorem Indexed.dependentsOf_only (h : s.Indexed) (tenant : TenantId) (task : TaskId) :
    s.dependentsOf (.only tenant) task =
      s.dependencies.rows.filter fun d => d.awaitedPlace = (tenant, task) :=
  listed_only (fun _ => rfl) (h.dependents _)

theorem Indexed.mem_dependenciesOf (h : s.Indexed) {tenant : TenantId} {task : TaskId}
    {d : Dependency} : d ∈ s.dependenciesOf (.only tenant) task ↔
      d ∈ s.dependencies.rows ∧ d.tenant = tenant ∧ d.task = task := by
  simp [h.dependenciesOf_only, Dependency.waitingPlace]

theorem Indexed.mem_dependentsOf (h : s.Indexed) {tenant : TenantId} {task : TaskId}
    {d : Dependency} : d ∈ s.dependentsOf (.only tenant) task ↔
      d ∈ s.dependencies.rows ∧ d.tenant = tenant ∧ d.prerequisite = task := by
  simp [h.dependentsOf_only, Dependency.awaitedPlace]

/-! ### What keeps the indexes -/

/-- Only the dependencies and the indexes themselves matter. -/
theorem Indexed.of_eq {s' : Store} (h : s.Indexed) (hd : s'.dependencies = s.dependencies)
    (hp : s'.prerequisites = s.prerequisites) (ha : s'.dependents = s.dependents) :
    s'.Indexed := by
  constructor
  · intro p; rw [hp, hd]; exact h.prerequisites p
  · intro p; rw [ha, hd]; exact h.dependents p

/-- A new dependency comes last at its place. -/
theorem idsAt_add_link {links : Links} {deps : Table Dependency.id} {place : Dependency → Place}
    {d : Dependency} (hnew : deps.find? d.id = none)
    (h : ∀ p, links.idsAt p = (deps.rows.filter fun e => place e = p).map Dependency.id) (p : Place) :
    (links.add (place d) d.id).idsAt p =
      ((deps.put d).rows.filter fun e => place e = p).map Dependency.id := by
  rw [Links.idsAt_add, Table.rows_put_of_find?_eq_none hnew, List.filter_append, List.map_append,
    h, h]
  by_cases hp : place d = p
  · simp [hp]
  · simp [hp]

/-- A removed dependency leaves its place, and every other place is as before. -/
theorem idsAt_remove_link {links : Links} {deps : Table Dependency.id}
    {place : Dependency → Place} {d : Dependency} (hd : d ∈ deps.rows)
    (h : ∀ p, links.idsAt p = (deps.rows.filter fun e => place e = p).map Dependency.id) (p : Place) :
    (links.remove (place d) d.id).idsAt p =
      ((deps.erase d.id).rows.filter fun e => place e = p).map Dependency.id := by
  have hrows : (deps.erase d.id).rows.filter (fun e => place e = p) =
      (deps.rows.filter fun e => place e = p).filter fun e => e.id ≠ d.id := by
    simp only [Table.erase, List.filter_filter, Bool.and_comm]
  rw [Links.idsAt_remove, hrows, h, h]
  split
  · rename_i hp
    subst hp
    rw [List.filter_map]
    rfl
  · rename_i hp
    congr 1
    refine (List.filter_eq_self.mpr fun e he => ?_).symm
    obtain ⟨hmem, hplace⟩ := List.mem_filter.mp he
    have hne : e.id ≠ d.id := by
      intro hid
      have hfound : deps.find? d.id = some e := Table.find?_eq_some_iff.mpr ⟨hmem, hid⟩
      rw [Table.find?_eq_some_iff.mpr ⟨hd, rfl⟩] at hfound
      cases hfound
      exact hp (by simpa using hplace)
    simpa using hne

theorem indexed_empty : empty.Indexed := ⟨fun _ => rfl, fun _ => rfl⟩

theorem Indexed.link (h : s.Indexed) {d : Dependency} (hnew : s.dependencies.find? d.id = none) :
    (s.link d).Indexed :=
  ⟨idsAt_add_link hnew h.prerequisites, idsAt_add_link hnew h.dependents⟩

theorem Indexed.unlink (h : s.Indexed) {d : Dependency} (hd : d ∈ s.dependencies.rows) :
    (s.unlink d).Indexed :=
  ⟨idsAt_remove_link hd h.prerequisites, idsAt_remove_link hd h.dependents⟩

theorem Indexed.addDependency (h : s.Indexed) {d : Dependency} {s' : Store}
    (hadd : s.addDependency d = .ok s') : s'.Indexed := by
  obtain ⟨hnew, -, -, rfl⟩ := addDependency_eq_ok_iff.mp hadd
  exact h.link hnew

theorem mem_rows_of_dependency? {scope : Scope} {id : DependencyId} {d : Dependency}
    (h : s.dependency? scope id = some d) : d ∈ s.dependencies.rows ∧ d.id = id := by
  rw [dependency?, Option.filter_eq_some_iff] at h
  exact Table.find?_eq_some_iff.mp h.1

theorem Indexed.removeDependency (h : s.Indexed) {scope : Scope} {id : DependencyId} {s' : Store}
    (hrem : s.removeDependency scope id = some s') : s'.Indexed := by
  obtain ⟨d, hd, rfl⟩ := removeDependency_eq_some_iff.mp hrem
  exact h.unlink (mem_rows_of_dependency? hd).1

/-! ### Stores that are built from snapshots -/

/-- What every step of a fold keeps, the fold keeps. -/
theorem foldlM_keeps {α : Type} {P : Store → Prop} {f : Store → α → Except StoreError Store}
    (hf : ∀ s a s', f s a = .ok s' → P s → P s') {xs : List α} {s s' : Store}
    (h : xs.foldlM f s = .ok s') (hs : P s) : P s' := by
  induction xs generalizing s with
  | nil => cases h; exact hs
  | cons x xs ih =>
      rw [List.foldlM_cons] at h
      cases hx : f s x with
      | error e => rw [hx] at h; cases h
      | ok s₁ => rw [hx] at h; exact ih h (hf s x s₁ hx hs)

theorem Indexed.addTask (h : s.Indexed) {t : Task} {s' : Store} (hadd : s.addTask t = .ok s') :
    s'.Indexed := by
  obtain ⟨-, rfl⟩ := addTask_eq_ok_iff.mp hadd
  exact h.of_eq rfl rfl rfl

theorem Indexed.addChange (h : s.Indexed) {c : ScheduleChange} {s' : Store}
    (hadd : s.addChange c = .ok s') : s'.Indexed := by
  obtain ⟨-, rfl⟩ := addChange_eq_ok_iff.mp hadd
  exact h.of_eq rfl rfl rfl

/-- A store is built in three stages. -/
theorem ofSnapshot_eq_ok_iff {x : Snapshot} : ofSnapshot x = .ok s ↔ ∃ s₁ s₂ s₃,
    x.tasks.foldlM addTask empty = .ok s₁ ∧ x.dependencies.foldlM addDependency s₁ = .ok s₂ ∧
      x.changes.foldlM addChange s₂ = .ok s₃ ∧ s = { s₃ with outbox := x.outbox } := by
  constructor
  · intro h
    unfold ofSnapshot at h
    cases ht : x.tasks.foldlM addTask empty with
    | error e => rw [ht] at h; cases h
    | ok s₁ =>
        rw [ht] at h
        cases hd : x.dependencies.foldlM addDependency s₁ with
        | error e => simp only [bind, Except.bind, hd] at h; cases h
        | ok s₂ =>
            simp only [bind, Except.bind, hd] at h
            cases hc : x.changes.foldlM addChange s₂ with
            | error e => simp only [hc] at h; cases h
            | ok s₃ =>
                simp only [hc] at h
                cases h
                exact ⟨s₁, s₂, s₃, rfl, hd, hc, rfl⟩
  · rintro ⟨s₁, s₂, s₃, ht, hd, hc, rfl⟩
    simp only [ofSnapshot, ht, bind, Except.bind, hd, hc]
    rfl

/-- A store that is built from a snapshot is indexed, whatever the snapshot holds. -/
theorem indexed_ofSnapshot {x : Snapshot} (h : ofSnapshot x = .ok s) : s.Indexed := by
  obtain ⟨s₁, s₂, s₃, ht, hd, hc, rfl⟩ := ofSnapshot_eq_ok_iff.mp h
  have h₁ := foldlM_keeps (fun _ _ _ ha hi => Indexed.addTask hi ha) ht indexed_empty
  have h₂ := foldlM_keeps (fun _ _ _ ha hi => Indexed.addDependency hi ha) hd h₁
  have h₃ := foldlM_keeps (fun _ _ _ ha hi => Indexed.addChange hi ha) hc h₂
  exact h₃.of_eq rfl rfl rfl

/-! ### A small store -/

/-- A full hour of the first day of 1970, on a clock less than three hours ahead of UTC. -/
def hour (h ahead : Nat) : Timestamp where
  unixNanos := (h % 24 : Nat) * nanosPerHour
  offset := (ahead % 3 : Nat) * 60
  offset_lt := by omega
  in_years := by simp only [nanosPerDay, nanosPerHour, nanosPerMinute]; omega

/-- A task of the first tenant, planned from one hour to the next. -/
def sampleTask (n h ahead : Nat) : Task where
  id := .ofNat n
  tenant := .ofNat 1
  aircraft := .ofNat 1
  program := none
  kind := "inspection"
  state := .scheduled
  start := hour h ahead
  finish := hour (h + 1) ahead
  mechanic := none
  notes := ""
  deleted := none
  created := hour 0 0
  updated := hour 0 0

/-- A dependency of the first tenant. -/
def sampleDependency (n task prerequisite : Nat) : Dependency where
  id := .ofNat n
  tenant := .ofNat 1
  task := .ofNat task
  prerequisite := .ofNat prerequisite
  kind := .finishToStart
  created := hour 0 0

/-- The first three tasks of a day, the last of them on another clock. -/
def sampleTasks : Table Task.id :=
  ((Table.empty.put (sampleTask 1 0 0)).put (sampleTask 2 1 0)).put (sampleTask 3 2 2)

/-- Each of the tasks but the first one waits for the one before. -/
def sample : Store :=
  ({ empty with tasks := sampleTasks }.link (sampleDependency 1 2 1)).link (sampleDependency 2 3 2)

theorem indexed_sample : sample.Indexed := by
  have h : ({ empty with tasks := sampleTasks } : Store).Indexed :=
    indexed_empty.of_eq rfl rfl rfl
  exact (h.link (by decide)).link (by decide)

/-- Four tasks, of which the second and the third wait for the first, and the last for both. -/
def sampleDiamond : Store :=
  let tasks := sampleTasks.put (sampleTask 4 3 0)
  ((({ empty with tasks }.link (sampleDependency 1 2 1)).link (sampleDependency 2 3 1)).link
    (sampleDependency 3 4 2)).link (sampleDependency 4 4 3)

theorem indexed_sampleDiamond : sampleDiamond.Indexed := by
  have h : ({ empty with tasks := sampleTasks.put (sampleTask 4 3 0) } : Store).Indexed :=
    indexed_empty.of_eq rfl rfl rfl
  exact (((h.link (by decide)).link (by decide)).link (by decide)).link (by decide)

end Overhaul.Store
