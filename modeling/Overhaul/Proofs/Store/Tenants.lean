import Overhaul.Proofs.Calls
import Overhaul.Proofs.Table

/-!
# What belongs to a tenant

The records of all tenants are kept side by side. `Store.SameFor` says that a tenant finds the same
in two stores, whatever they hold of other tenants. A `Registry` fixes what no call ever changes: who
owns what, and which tasks are deleted. Main statements: what is written for a tenant
leaves the same in two stores in which it found the same (`Store.SameFor.putTask` and so on), and
leaves all other tenants alone (`Store.Registered.sameFor_putTask` and so on).
-/

namespace Overhaul

/-! ### Parts of a list of rows -/

section

variable {α κ : Type} [DecidableEq κ] {key : α → κ} {p : α → Bool} {row : α} {rows : List α}

/-- A row from outside of a part, written over a row from outside of it, does not touch it. -/
theorem filter_upsert_of_false (hrow : p row = false)
    (h : ∀ r ∈ rows, key r = key row → p r = false) :
    (upsert key row rows).filter p = rows.filter p := by
  induction rows with
  | nil => simp [upsert, hrow]
  | cons r rest ih =>
      obtain ⟨hr, hrest⟩ := List.forall_mem_cons.mp h
      unfold upsert
      split
      · rename_i hkey
        simp [hrow, hr hkey]
      · simp only [List.filter_cons, ih hrest]

/-- A row of a part, written over a row of it, is written in the part alone. -/
theorem filter_upsert_of_true (hrow : p row = true)
    (h : ∀ r ∈ rows, key r = key row → p r = true) :
    (upsert key row rows).filter p = upsert key row (rows.filter p) := by
  induction rows with
  | nil => simp [upsert, hrow]
  | cons r rest ih =>
      obtain ⟨hr, hrest⟩ := List.forall_mem_cons.mp h
      by_cases hkey : key r = key row
      · simp [upsert, hkey, hrow, hr hkey]
      · rw [upsert, if_neg hkey, List.filter_cons, List.filter_cons, ih hrest]
        split
        · rw [upsert, if_neg hkey]
        · rfl

end

/-- The tenant is told by the key of a message about one of its tasks. -/
theorem Message.tenant_eq_of_taskKey {a b : TenantId} {x y : TaskId}
    (h : taskKey a x = taskKey b y) : a = b := by
  have hchars : ∀ (t : TenantId) (x : TaskId),
      (taskKey t x).toList = t.chars ++ (':' :: x.chars) := by
    intro t x
    simp [taskKey, Id.text]
  have hread : (Id.takeGroups (taskKey a x).toList : Option (TenantId × List Char)) =
      Id.takeGroups (taskKey b y).toList := by rw [h]
  rw [hchars, hchars, Id.takeGroups_chars, Id.takeGroups_chars] at hread
  exact (Prod.mk.inj (Option.some.inj hread)).1

/-! ### Who owns what -/

/-- Who owns each task, and when it was deleted; and to whom the other identifiers belong. -/
structure Registry where
  task : TaskId → Option (TenantId × Option Timestamp)
  dependency : DependencyId → TenantId
  change : ChangeId → TenantId

namespace Store

/-- The store holds the tasks that the registry knows, and everything in it belongs to whom the
registry says. Every message has the key of a task. -/
structure Registered (o : Registry) (s : Store) : Prop where
  tasks : ∀ id, (s.tasks.find? id).map (fun t => (t.tenant, t.deleted)) = o.task id
  dependencies : ∀ d ∈ s.dependencies.rows, d.tenant = o.dependency d.id
  changes : ∀ c ∈ s.changes.rows, c.tenant = o.change c.id
  outbox : ∀ m ∈ s.outbox, ∃ task, m.key = Message.taskKey m.tenant task

/-- The tenant's task of that name, deleted or not. -/
def taskOf (s : Store) (tenant : TenantId) (id : TaskId) : Option Task :=
  (s.tasks.find? id).filter fun t => tenant = t.tenant

/-- The tenant's dependency of that name. -/
def dependencyOf (s : Store) (tenant : TenantId) (id : DependencyId) : Option Dependency :=
  (s.dependencies.find? id).filter fun d => tenant = d.tenant

/-- The tenant's history. -/
def changesFor (s : Store) (tenant : TenantId) : List ScheduleChange :=
  s.changes.rows.filter fun c => tenant = c.tenant

/-- The tenant's waiting messages. -/
def messagesFor (s : Store) (tenant : TenantId) : List Message :=
  s.outbox.filter fun m => tenant = m.tenant

/-- The tenant finds the same tasks in both stores, the same dependencies in the same order at each
of them, the same history and the same waiting messages. -/
structure SameFor (tenant : TenantId) (s s' : Store) : Prop where
  tasks : ∀ id, s.taskOf tenant id = s'.taskOf tenant id
  dependencies : ∀ id, s.dependencyOf tenant id = s'.dependencyOf tenant id
  prerequisites : ∀ task, s.prerequisites.idsAt (tenant, task) = s'.prerequisites.idsAt (tenant, task)
  dependents : ∀ task, s.dependents.idsAt (tenant, task) = s'.dependents.idsAt (tenant, task)
  changes : s.changesFor tenant = s'.changesFor tenant
  outbox : s.messagesFor tenant = s'.messagesFor tenant

/-- The tenant's tasks are in the same states in both stores, and it has the same dependencies. -/
structure AlikeFor (tenant : TenantId) (s s' : Store) : Prop where
  states : ∀ id, (s.taskOf tenant id).map Task.state = (s'.taskOf tenant id).map Task.state
  dependencies : ∀ id, (s.dependencyOf tenant id).isSome = (s'.dependencyOf tenant id).isSome

variable {o o' : Registry} {a b : TenantId} {s s₁ s₂ s' : Store}

theorem SameFor.refl (a : TenantId) (s : Store) : s.SameFor a s :=
  ⟨fun _ => rfl, fun _ => rfl, fun _ => rfl, fun _ => rfl, rfl, rfl⟩

theorem SameFor.symm (h : s.SameFor a s') : s'.SameFor a s :=
  ⟨fun id => (h.tasks id).symm, fun id => (h.dependencies id).symm,
    fun id => (h.prerequisites id).symm, fun id => (h.dependents id).symm, h.changes.symm,
    h.outbox.symm⟩

theorem SameFor.trans (h : s.SameFor a s₁) (h' : s₁.SameFor a s₂) : s.SameFor a s₂ :=
  ⟨fun id => (h.tasks id).trans (h'.tasks id),
    fun id => (h.dependencies id).trans (h'.dependencies id),
    fun id => (h.prerequisites id).trans (h'.prerequisites id),
    fun id => (h.dependents id).trans (h'.dependents id), h.changes.trans h'.changes,
    h.outbox.trans h'.outbox⟩

theorem SameFor.alike (h : s.SameFor a s') : s.AlikeFor a s' :=
  ⟨fun id => by rw [h.tasks], fun id => by rw [h.dependencies]⟩

theorem AlikeFor.refl (a : TenantId) (s : Store) : s.AlikeFor a s := (SameFor.refl a s).alike

theorem AlikeFor.symm (h : s.AlikeFor a s') : s'.AlikeFor a s :=
  ⟨fun id => (h.states id).symm, fun id => (h.dependencies id).symm⟩

theorem AlikeFor.trans (h : s.AlikeFor a s₁) (h' : s₁.AlikeFor a s₂) : s.AlikeFor a s₂ :=
  ⟨fun id => (h.states id).trans (h'.states id),
    fun id => (h.dependencies id).trans (h'.dependencies id)⟩

/-! ### What is looked up -/

theorem taskOf_eq_some_iff {id : TaskId} {t : Task} :
    s.taskOf a id = some t ↔ s.tasks.find? id = some t ∧ a = t.tenant := by
  simp [taskOf, Option.filter_eq_some_iff]

/-- A task is there exactly when the registry knows it. -/
theorem Registered.isSome_find? (hs : s.Registered o) (id : TaskId) :
    (s.tasks.find? id).isSome = (o.task id).isSome := by
  rw [← hs.tasks, Option.isSome_map]

/-- A task that the registry gives to the tenant is the tenant's, if it is there. -/
theorem Registered.find?_task (hs : s.Registered o) {id : TaskId} {deleted : Option Timestamp}
    (hid : o.task id = some (a, deleted)) : s.tasks.find? id = s.taskOf a id := by
  have hentry := hs.tasks id
  rw [hid] at hentry
  obtain ⟨t, ht, hmap⟩ := Option.map_eq_some_iff.mp hentry
  have htenant : a = t.tenant := (Prod.mk.inj hmap).1.symm
  simp [taskOf, ht, htenant, Option.filter]

theorem Registered.find?_dependency (hs : s.Registered o) {id : DependencyId}
    (hid : o.dependency id = a) : s.dependencies.find? id = s.dependencyOf a id := by
  unfold dependencyOf
  cases h : s.dependencies.find? id with
  | none => rfl
  | some d =>
      obtain ⟨hmem, rfl⟩ := Table.find?_eq_some_iff.mp h
      have htenant : a = d.tenant := by rw [← hid, hs.dependencies d hmem]
      simp [htenant, Option.filter]

/-- A tenant finds no task that the registry gives to another one. -/
theorem Registered.taskOf_eq_none (hs : s.Registered o) {id : TaskId} {deleted : Option Timestamp}
    (hid : o.task id = some (a, deleted)) (hb : b ≠ a) : s.taskOf b id = none := by
  have hentry := hs.tasks id
  rw [hid] at hentry
  obtain ⟨t, ht, hmap⟩ := Option.map_eq_some_iff.mp hentry
  obtain ⟨rfl, -⟩ := Prod.mk.inj hmap
  simp [taskOf, ht, hb, Option.filter]

theorem Registered.dependencyOf_eq_none (hs : s.Registered o) {id : DependencyId}
    (hb : b ≠ o.dependency id) : s.dependencyOf b id = none := by
  unfold dependencyOf
  cases h : s.dependencies.find? id with
  | none => rfl
  | some d =>
      obtain ⟨hmem, rfl⟩ := Table.find?_eq_some_iff.mp h
      rw [← hs.dependencies d hmem] at hb
      simp [hb, Option.filter]

theorem task?_only (s : Store) (a : TenantId) (id : TaskId) :
    s.task? (.only a) id = (s.taskOf a id).filter fun t => t.deleted.isNone := by
  unfold task? taskOf
  cases s.tasks.find? id with
  | none => rfl
  | some t => by_cases h : a = t.tenant <;> simp [Option.filter, Task.visibleIn, h]

theorem dependency?_only {scope : Scope} {id : DependencyId} {d : Dependency}
    (hd : s.dependency? scope id = some d) : s.dependency? (.only d.tenant) id = some d := by
  rw [dependency?, (Option.filter_eq_some_iff.mp hd).1]
  simp [Option.filter]

/-- A visible dependency belongs to whom the registry gives it to, who is in the scope. -/
theorem Registered.owner_of_dependency? (hs : s.Registered o) {scope : Scope} {id : DependencyId}
    {d : Dependency} (hd : s.dependency? scope id = some d) :
    scope.includes d.tenant = true ∧ o.dependency id = d.tenant := by
  obtain ⟨hfound, hscope⟩ := Option.filter_eq_some_iff.mp hd
  obtain ⟨hmem, rfl⟩ := Table.find?_eq_some_iff.mp hfound
  exact ⟨hscope, (hs.dependencies d hmem).symm⟩

/-- Whether a dependency can be seen depends on whom the registry gives it to. -/
theorem Registered.dependency?_eq (hs : s.Registered o) (scope : Scope) (id : DependencyId) :
    s.dependency? scope id =
      if scope.includes (o.dependency id) then s.dependencyOf (o.dependency id) id else none := by
  unfold dependency? dependencyOf
  cases hd : s.dependencies.find? id with
  | none => simp
  | some d =>
      obtain ⟨hmem, rfl⟩ := Table.find?_eq_some_iff.mp hd
      rw [← hs.dependencies d hmem]
      cases hscope : scope.includes d.tenant <;> simp [Option.filter, hscope]

/-- A dependency that cannot be seen cannot be seen where its owner has the same dependencies. -/
theorem Registered.dependency?_eq_none (hs : s.Registered o) (hs' : s'.Registered o) {scope : Scope}
    {id : DependencyId} (h : s.AlikeFor (o.dependency id) s') (hd : s.dependency? scope id = none) :
    s'.dependency? scope id = none := by
  rw [hs.dependency?_eq] at hd
  rw [hs'.dependency?_eq]
  split
  · rename_i hscope
    rw [if_pos hscope] at hd
    have hsame := h.dependencies id
    rw [hd] at hsame
    simpa using hsame.symm
  · rfl

theorem listed_only_eq (s : Store) (links : Links) (a : TenantId) (task : TaskId) :
    s.listed links (.only a) task = (links.idsAt (a, task)).filterMap (s.dependencyOf a) := by
  simp only [listed, place?, List.filter_filterMap]
  rfl

theorem SameFor.find?_task (h : s.SameFor a s') (hs : s.Registered o) (hs' : s'.Registered o')
    {id : TaskId} {deleted deleted' : Option Timestamp} (hid : o.task id = some (a, deleted))
    (hid' : o'.task id = some (a, deleted')) : s.tasks.find? id = s'.tasks.find? id := by
  rw [hs.find?_task hid, hs'.find?_task hid', h.tasks]

theorem SameFor.find?_dependency (h : s.SameFor a s') (hs : s.Registered o)
    (hs' : s'.Registered o') {id : DependencyId} (hid : o.dependency id = a)
    (hid' : o'.dependency id = a) : s.dependencies.find? id = s'.dependencies.find? id := by
  rw [hs.find?_dependency hid, hs'.find?_dependency hid', h.dependencies]

theorem SameFor.listed (h : s.SameFor a s') {links links' : Links} {task : TaskId}
    (hlinks : links.idsAt (a, task) = links'.idsAt (a, task)) :
    s.listed links (.only a) task = s'.listed links' (.only a) task := by
  rw [listed_only_eq, listed_only_eq, hlinks, funext h.dependencies]

/-- A change of the tenant is recorded in both stores or in neither. -/
theorem SameFor.isSome_find?_change (h : s.SameFor a s') (hs : s.Registered o)
    (hs' : s'.Registered o') {id : ChangeId} (hid : o.change id = a) (hid' : o'.change id = a) :
    (s.changes.find? id).isSome = (s'.changes.find? id).isSome := by
  have hone : ∀ {o : Registry} {s s' : Store}, o.change id = a → s.SameFor a s' →
      s.Registered o → (s.changes.find? id).isSome = true →
      (s'.changes.find? id).isSome = true := by
    intro o s s' hid h hs hfound
    obtain ⟨c, hc⟩ := Option.isSome_iff_exists.mp hfound
    obtain ⟨hmem, rfl⟩ := Table.find?_eq_some_iff.mp hc
    have htenant : a = c.tenant := by rw [← hid, hs.changes c hmem]
    have hmem' : c ∈ s.changesFor a := List.mem_filter.mpr ⟨hmem, by simpa using htenant⟩
    rw [h.changes] at hmem'
    rw [Table.find?_eq_some_iff.mpr ⟨(List.mem_filter.mp hmem').1, rfl⟩]
    rfl
  exact Bool.eq_iff_iff.mpr ⟨hone hid h hs, hone hid' h.symm hs'⟩

/-! ### What is written -/

theorem taskOf_put {t : Task} (ht : t.tenant = a) (id : TaskId) :
    taskOf { s with tasks := s.tasks.put t } a id =
      if t.id = id then some t else s.taskOf a id := by
  simp only [taskOf, Table.find?_put]
  split
  · simp [ht, Option.filter]
  · rfl

theorem SameFor.putTask (h : s.SameFor a s') (t : Task) :
    SameFor a { s with tasks := s.tasks.put t } { s' with tasks := s'.tasks.put t } := by
  refine ⟨fun id => ?_, h.dependencies, h.prerequisites, h.dependents, h.changes, h.outbox⟩
  simp only [taskOf, Table.find?_put]
  split
  · rfl
  · exact h.tasks id

theorem Registered.putTask (hs : s.Registered o) {t : Task}
    (ht : o.task t.id = some (t.tenant, t.deleted)) :
    Registered o { s with tasks := s.tasks.put t } := by
  refine ⟨fun id => ?_, hs.dependencies, hs.changes, hs.outbox⟩
  rw [Table.find?_put]
  split
  · rename_i hid
    rw [← hid, ht]
    rfl
  · exact hs.tasks id

theorem Registered.sameFor_putTask (hs : s.Registered o) {t : Task} {deleted : Option Timestamp}
    (ht : o.task t.id = some (t.tenant, deleted)) (hb : b ≠ t.tenant) :
    SameFor b { s with tasks := s.tasks.put t } s := by
  refine ⟨fun id => ?_, fun _ => rfl, fun _ => rfl, fun _ => rfl, rfl, rfl⟩
  simp only [taskOf, Table.find?_put]
  split
  · rename_i hid
    have hnone := hs.taskOf_eq_none ht hb
    rw [hid] at hnone
    rw [← taskOf, hnone]
    simp [hb, Option.filter]
  · rfl

theorem SameFor.link (h : s.SameFor a s') (d : Dependency) : (s.link d).SameFor a (s'.link d) := by
  refine ⟨h.tasks, fun id => ?_, fun task => ?_, fun task => ?_, h.changes, h.outbox⟩
  · simp only [dependencyOf, Store.link, Table.find?_put]
    split
    · rfl
    · exact h.dependencies id
  · simp only [Store.link, Links.idsAt_add]
    split
    · rename_i hplace
      rw [hplace, h.prerequisites]
    · exact h.prerequisites task
  · simp only [Store.link, Links.idsAt_add]
    split
    · rename_i hplace
      rw [hplace, h.dependents]
    · exact h.dependents task

theorem Registered.link (hs : s.Registered o) {d : Dependency}
    (hd : d.tenant = o.dependency d.id) : (s.link d).Registered o := by
  refine ⟨hs.tasks, fun e he => ?_, hs.changes, hs.outbox⟩
  rcases Table.mem_rows_put.mp he with rfl | ⟨he, -⟩
  · exact hd
  · exact hs.dependencies e he

theorem Registered.sameFor_link (hs : s.Registered o) {d : Dependency}
    (hd : d.tenant = o.dependency d.id) (hb : b ≠ d.tenant) : (s.link d).SameFor b s := by
  have hplace : ∀ task other : TaskId, (d.tenant, task) ≠ (b, other) :=
    fun _ _ h => hb (Prod.mk.inj h).1.symm
  refine ⟨fun _ => rfl, fun id => ?_, fun task => ?_, fun task => ?_, rfl, rfl⟩
  · simp only [dependencyOf, Store.link, Table.find?_put]
    split
    · rename_i hid
      have hnone : s.dependencyOf b id = none :=
        hs.dependencyOf_eq_none (by rwa [← hid, ← hd])
      rw [← dependencyOf, hnone]
      simp [hb, Option.filter]
    · rfl
  · simp only [Store.link, Links.idsAt_add, Dependency.waitingPlace, if_neg (hplace _ _)]
  · simp only [Store.link, Links.idsAt_add, Dependency.awaitedPlace, if_neg (hplace _ _)]

theorem SameFor.unlink (h : s.SameFor a s') (d : Dependency) :
    (s.unlink d).SameFor a (s'.unlink d) := by
  refine ⟨h.tasks, fun id => ?_, fun task => ?_, fun task => ?_, h.changes, h.outbox⟩
  · simp only [dependencyOf, Store.unlink, Table.find?_erase]
    split
    · rfl
    · exact h.dependencies id
  · simp only [Store.unlink, Links.idsAt_remove]
    split
    · rename_i hplace
      rw [hplace, h.prerequisites]
    · exact h.prerequisites task
  · simp only [Store.unlink, Links.idsAt_remove]
    split
    · rename_i hplace
      rw [hplace, h.dependents]
    · exact h.dependents task

theorem Registered.unlink (hs : s.Registered o) (d : Dependency) : (s.unlink d).Registered o :=
  ⟨hs.tasks, fun e he => hs.dependencies e (Table.mem_rows_erase.mp he).1, hs.changes, hs.outbox⟩

theorem Registered.sameFor_unlink (hs : s.Registered o) {d : Dependency}
    (hd : d.tenant = o.dependency d.id) (hb : b ≠ d.tenant) : (s.unlink d).SameFor b s := by
  have hplace : ∀ task other : TaskId, (d.tenant, task) ≠ (b, other) :=
    fun _ _ h => hb (Prod.mk.inj h).1.symm
  refine ⟨fun _ => rfl, fun id => ?_, fun task => ?_, fun task => ?_, rfl, rfl⟩
  · simp only [dependencyOf, Store.unlink, Table.find?_erase]
    split
    · rename_i hid
      have hnone : s.dependencyOf b id = none :=
        hs.dependencyOf_eq_none (by rwa [← hid, ← hd])
      rw [← dependencyOf, hnone]
      rfl
    · rfl
  · simp only [Store.unlink, Links.idsAt_remove, Dependency.waitingPlace, if_neg (hplace _ _)]
  · simp only [Store.unlink, Links.idsAt_remove, Dependency.awaitedPlace, if_neg (hplace _ _)]

/-- The rows of the history under the identifier of a change belong to its tenant. -/
theorem Registered.tenant_of_change (hs : s.Registered o) {c e : ScheduleChange}
    (hc : c.tenant = o.change c.id) (he : e ∈ s.changes.rows) (hid : e.id = c.id) :
    e.tenant = c.tenant := by
  rw [hs.changes e he, hid, hc]

theorem SameFor.addChange (h : s.SameFor a s') (hs : s.Registered o) (hs' : s'.Registered o')
    {c : ScheduleChange} (hc : c.tenant = o.change c.id) (hc' : c.tenant = o'.change c.id)
    (ha : c.tenant = a) :
    SameFor a { s with changes := s.changes.put c } { s' with changes := s'.changes.put c } := by
  have hpart : ∀ {o : Registry} {s : Store}, c.tenant = o.change c.id → s.Registered o →
      ({ s with changes := s.changes.put c } : Store).changesFor a =
        upsert ScheduleChange.id c (s.changesFor a) := by
    intro o s hc hs
    refine filter_upsert_of_true (by simp [ha]) fun e he hid => ?_
    simp [hs.tenant_of_change hc he hid, ha]
  refine ⟨h.tasks, h.dependencies, h.prerequisites, h.dependents, ?_, h.outbox⟩
  rw [hpart hc hs, hpart hc' hs', h.changes]

theorem Registered.addChange (hs : s.Registered o) {c : ScheduleChange}
    (hc : c.tenant = o.change c.id) : Registered o { s with changes := s.changes.put c } := by
  refine ⟨hs.tasks, hs.dependencies, fun e he => ?_, hs.outbox⟩
  rcases Table.mem_rows_put.mp he with rfl | ⟨he, -⟩
  · exact hc
  · exact hs.changes e he

theorem Registered.sameFor_addChange (hs : s.Registered o) {c : ScheduleChange}
    (hc : c.tenant = o.change c.id) (hb : b ≠ c.tenant) :
    SameFor b { s with changes := s.changes.put c } s := by
  refine ⟨fun _ => rfl, fun _ => rfl, fun _ => rfl, fun _ => rfl, ?_, rfl⟩
  refine filter_upsert_of_false (by simpa using hb) fun e he hid => ?_
  simpa [hs.tenant_of_change hc he hid] using hb

/-- The waiting messages under the key of one about a task belong to the task's tenant. -/
theorem Registered.tenant_of_message (hs : s.Registered o) {m e : Message} {task : TaskId}
    (hm : m.key = Message.taskKey m.tenant task) (he : e ∈ s.outbox) (hkey : e.key = m.key) :
    e.tenant = m.tenant := by
  obtain ⟨task', hkey'⟩ := hs.outbox e he
  rw [hkey', hm] at hkey
  exact Message.tenant_eq_of_taskKey hkey

theorem SameFor.announce (h : s.SameFor a s') (hs : s.Registered o) (hs' : s'.Registered o')
    {m : Message} {task : TaskId} (hm : m.key = Message.taskKey m.tenant task)
    (ha : m.tenant = a) : (s.announce m).SameFor a (s'.announce m) := by
  have hpart : ∀ {o : Registry} {s : Store}, s.Registered o →
      (s.announce m).messagesFor a = upsert Message.key m (s.messagesFor a) := by
    intro o s hs
    refine filter_upsert_of_true (by simp [ha]) fun e he hkey => ?_
    simp [hs.tenant_of_message hm he hkey, ha]
  refine ⟨h.tasks, h.dependencies, h.prerequisites, h.dependents, h.changes, ?_⟩
  rw [hpart hs, hpart hs', h.outbox]

theorem Registered.announce (hs : s.Registered o) {m : Message} {task : TaskId}
    (hm : m.key = Message.taskKey m.tenant task) : (s.announce m).Registered o := by
  refine ⟨hs.tasks, hs.dependencies, hs.changes, fun e he => ?_⟩
  rcases mem_of_mem_upsert he with rfl | he
  · exact ⟨task, hm⟩
  · exact hs.outbox e he

theorem Registered.sameFor_announce (hs : s.Registered o) {m : Message} {task : TaskId}
    (hm : m.key = Message.taskKey m.tenant task) (hb : b ≠ m.tenant) :
    (s.announce m).SameFor b s := by
  refine ⟨fun _ => rfl, fun _ => rfl, fun _ => rfl, fun _ => rfl, rfl, ?_⟩
  refine filter_upsert_of_false (by simpa using hb) fun e he hkey => ?_
  simpa [hs.tenant_of_message hm he hkey] using hb

end Store

end Overhaul
