import Overhaul.Proofs.Conflicts
import Overhaul.Proofs.Store.Order

/-!
# What is reported of conflicts

A conflict that is reported rests on a `Finding`: a task, one of its dependencies, and the
prerequisite which this names. `Store.Finds` says field by field which findings there are, and
`Store.Ahead` in which order they come. Main statement: looking for conflicts reports all of them, each once and in
order, and nothing else (`World.conflicts_exact`).
-/

namespace Overhaul

/-- Why there is a conflict: the task is to start before its prerequisite has ended. -/
structure Finding where
  task : Task
  dependency : Dependency
  prerequisite : Task

namespace Finding

/-- How the conflict is reported. -/
def conflict (f : Finding) : Conflict where
  task := f.task.id
  kind := .unmetDependency
  description := "task " ++ f.task.id.text ++ " starts at " ++ f.task.start.shown ++
    " before prerequisite " ++ f.prerequisite.id.text ++ " ends at " ++ f.prerequisite.finish.shown
  blocking := [f.prerequisite.id]

/-- What is found when a task is compared with a prerequisite. -/
def between (t : Task) (d : Dependency) (p : Task) : Option Finding :=
  (Conflict.between t p).map fun _ => ⟨t, d, p⟩

variable {t p : Task} {d : Dependency} {f : Finding}

theorem between_eq_some_iff : between t d p = some f ↔
    (p.state ≠ .completed ∧ t.start.unixNanos < p.finish.unixNanos) ∧ f = ⟨t, d, p⟩ := by
  rw [between, Option.map_eq_some_iff]
  constructor
  · rintro ⟨c, hc, rfl⟩
    exact ⟨(Conflict.between_eq_some_iff.mp hc).1, rfl⟩
  · rintro ⟨hlate, rfl⟩
    exact ⟨_, Conflict.between_eq_some_iff.mpr ⟨hlate, rfl⟩, rfl⟩

theorem map_conflict_between : (between t d p).map conflict = Conflict.between t p := by
  unfold between Conflict.between
  split <;> rfl

end Finding

namespace Store

variable {s : Store} {scope : Scope}

/-- The finding is made for those who see the scope. -/
structure Finds (s : Store) (scope : Scope) (f : Finding) : Prop where
  stored : f.dependency ∈ s.dependencies.rows
  kind : f.dependency.kind = .finishToStart
  tenant : f.dependency.tenant = f.task.tenant
  task : s.tasks.find? f.dependency.task = some f.task
  visible : scope.includes f.task.tenant = true
  kept : f.task.deleted = none
  isOpen : f.task.state = .scheduled ∨ f.task.state = .inProgress
  prerequisite : s.tasks.find? f.dependency.prerequisite = some f.prerequisite
  sameOwner : f.prerequisite.tenant = f.task.tenant
  prerequisiteKept : f.prerequisite.deleted = none
  notCompleted : f.prerequisite.state ≠ .completed
  early : f.task.start.unixNanos < f.prerequisite.finish.unixNanos

/-- The first finding comes before the second: its task does, or they are about one task and its
dependency was made before. -/
def Ahead (s : Store) (f g : Finding) : Prop :=
  f.task.rank < g.task.rank ∨
    f.task = g.task ∧ [f.dependency, g.dependency].Sublist s.dependencies.rows

/-- What is found for a task, in the order of its dependencies. -/
def findingsAt (s : Store) (t : Task) : List Finding :=
  ((s.dependenciesOf (.only t.tenant) t.id).filter fun d => d.kind = .finishToStart).filterMap
    fun d => (s.task? (.only t.tenant) d.prerequisite).bind (Finding.between t d)

/-- What is found for those who see a scope. -/
def findingsIn (s : Store) (scope : Scope) : List Finding := (s.active scope).flatMap s.findingsAt

theorem map_conflict_findingsAt (t : Task) :
    (s.findingsAt t).map Finding.conflict = s.conflictsAt t := by
  rw [findingsAt, List.map_filterMap]
  refine List.filterMap_congr fun d _ => ?_
  cases s.task? (.only t.tenant) d.prerequisite with
  | none => rfl
  | some p => exact Finding.map_conflict_between

theorem map_conflict_findingsIn (scope : Scope) :
    (s.findingsIn scope).map Finding.conflict = s.conflictsIn scope := by
  rw [findingsIn, List.map_flatMap, conflictsIn]
  exact congrArg (List.flatMap · _) (funext map_conflict_findingsAt)

/-! ### Which findings there are -/

theorem Indexed.mem_findingsAt (h : s.Indexed) {t : Task} {f : Finding} :
    f ∈ s.findingsAt t ↔ ∃ d ∈ s.dependencies.rows, (d.tenant = t.tenant ∧ d.task = t.id ∧
      d.kind = .finishToStart) ∧
      ∃ p, s.task? (.only t.tenant) d.prerequisite = some p ∧
        (p.state ≠ .completed ∧ t.start.unixNanos < p.finish.unixNanos) ∧ f = ⟨t, d, p⟩ := by
  simp only [findingsAt, List.mem_filterMap, List.mem_filter, h.mem_dependenciesOf,
    decide_eq_true_eq, Option.bind_eq_some_iff, Finding.between_eq_some_iff, and_assoc]

theorem isClosed_eq_false_iff {state : TaskState} :
    state.isClosed = false ↔ state = .scheduled ∨ state = .inProgress := by
  cases state <;> simp [TaskState.isClosed]

theorem Indexed.mem_findingsIn (h : s.Indexed) {f : Finding} :
    f ∈ s.findingsIn scope ↔ s.Finds scope f := by
  simp only [findingsIn, List.mem_flatMap, mem_active, h.mem_findingsAt, task?_eq_some_iff,
    isClosed_eq_false_iff]
  constructor
  · rintro ⟨t, ⟨⟨ht, hvisible, hkept⟩, hopen⟩, d, hd, ⟨htenant, htask, hkind⟩, p,
      ⟨hp, howner, hpkept⟩, ⟨hstate, hearly⟩, rfl⟩
    rw [← htask] at ht
    have hsame : p.tenant = t.tenant := by simpa [eq_comm] using howner
    exact ⟨hd, hkind, htenant, ht, hvisible, hkept, hopen, hp, hsame, hpkept, hstate, hearly⟩
  · intro hf
    obtain ⟨-, hid⟩ := Table.find?_eq_some_iff.mp hf.task
    refine ⟨f.task, ⟨⟨?_, hf.visible, hf.kept⟩, hf.isOpen⟩, f.dependency, hf.stored,
      ⟨hf.tenant, hid.symm, hf.kind⟩, f.prerequisite, ⟨hf.prerequisite, ?_, hf.prerequisiteKept⟩,
      ⟨hf.notCompleted, hf.early⟩, rfl⟩
    · rw [hid]
      exact hf.task
    · simp [hf.sameOwner]

/-- A dependency gives one finding at most. -/
theorem Finds.eq {f g : Finding} (hf : s.Finds scope f) (hg : s.Finds scope g)
    (h : f.dependency = g.dependency) : f = g := by
  have htask : f.task = g.task := by
    have := hf.task
    rw [h, hg.task] at this
    exact (Option.some.inj this).symm
  have hprerequisite : f.prerequisite = g.prerequisite := by
    have := hf.prerequisite
    rw [h, hg.prerequisite] at this
    exact (Option.some.inj this).symm
  cases f
  cases g
  simp_all

/-! ### In which order they come -/

/-- Open tasks are listed in the order of their starts. -/
theorem pairwise_active (s : Store) (scope : Scope) :
    (s.active scope).Pairwise fun a b => a.rank < b.rank := by
  have hnodup : ((s.tasks.rows.filter
      (TaskFilter.admits { scope, states := [.scheduled, .inProgress] })).map Task.id).Nodup :=
    s.tasks.nodup.sublist (List.filter_sublist.map _)
  exact (sortedBy_mergeSort Task.precedes_iff Task.id_eq_of_rank hnodup).ascend

/-- The dependencies of a task are listed in the order in which they were made. -/
theorem Indexed.sublist_dependenciesOf (h : s.Indexed) (tenant : TenantId) (task : TaskId) :
    (s.dependenciesOf (.only tenant) task).Sublist s.dependencies.rows := by
  rw [h.dependenciesOf_only]
  exact List.filter_sublist

theorem of_mem_between {t : Task} {d : Dependency} {found : Option Task} {f : Finding}
    (hf : f ∈ found.bind (Finding.between t d)) : f.task = t ∧ f.dependency = d := by
  obtain ⟨p, -, hbetween⟩ := Option.bind_eq_some_iff.mp hf
  rw [(Finding.between_eq_some_iff.mp hbetween).2]
  exact ⟨rfl, rfl⟩

theorem task_of_mem_findingsAt {t : Task} {f : Finding} (hf : f ∈ s.findingsAt t) : f.task = t := by
  obtain ⟨d, -, hbind⟩ := List.mem_filterMap.mp hf
  exact (of_mem_between hbind).1

theorem Indexed.pairwise_findingsAt (h : s.Indexed) (t : Task) :
    (s.findingsAt t).Pairwise s.Ahead := by
  have hmade : ((s.dependenciesOf (.only t.tenant) t.id).filter
      fun d => d.kind = .finishToStart).Pairwise
      fun d e => [d, e].Sublist s.dependencies.rows :=
    List.pairwise_iff_forall_sublist.mpr fun hsub =>
      (hsub.trans List.filter_sublist).trans (h.sublist_dependenciesOf _ _)
  refine hmade.filterMap _ fun d e hde f hf g hg => ?_
  obtain ⟨hft, hfd⟩ := of_mem_between hf
  obtain ⟨hgt, hge⟩ := of_mem_between hg
  refine .inr ⟨hft.trans hgt.symm, ?_⟩
  rwa [hfd, hge]

theorem Indexed.pairwise_findingsIn (h : s.Indexed) (scope : Scope) :
    (s.findingsIn scope).Pairwise s.Ahead := by
  refine List.pairwise_flatMap.mpr ⟨fun t _ => h.pairwise_findingsAt t, ?_⟩
  refine (s.pairwise_active scope).imp fun hrank f hf g hg => .inl ?_
  rwa [task_of_mem_findingsAt hf, task_of_mem_findingsAt hg]

/-- No finding comes before itself. -/
theorem not_ahead_self (f : Finding) : ¬s.Ahead f f := by
  rintro (hrank | ⟨-, hsub⟩)
  · exact lt_irrefl _ hrank
  · have htwice : [f.dependency, f.dependency].Nodup := s.dependencies.nodup.of_map.sublist hsub
    simp at htwice

/-- Every dependency is behind one finding at most. -/
theorem Indexed.nodup_findingsIn (h : s.Indexed) (scope : Scope) :
    ((s.findingsIn scope).map Finding.dependency).Nodup := by
  have hnodup : (s.findingsIn scope).Nodup := by
    refine (h.pairwise_findingsIn scope).imp ?_
    rintro f g hahead rfl
    exact not_ahead_self f hahead
  refine hnodup.map_on fun f hf g hg => ?_
  exact Finds.eq (h.mem_findingsIn.mp hf) (h.mem_findingsIn.mp hg)

end Store

namespace World

variable {w : World} {s : Store}

/-- Where reading goes well and the caller has not given up, looking for conflicts changes nothing and
reports just what there is to be found, each finding once, by the starts of the tasks and then in the
order in which their dependencies were made. A task that is completed is in the way of none. -/
theorem conflicts_exact (hw : w.Clear s) (hindexed : s.Indexed) (ctx : Context) :
    ∃ found : List Finding,
      w.serve (Service.conflicts ctx) = (.ok (found.map Finding.conflict), w) ∧
      (∀ f, f ∈ found ↔ s.Finds ctx.scope f) ∧
      (found.map Finding.dependency).Nodup ∧
      found.Pairwise s.Ahead ∧
      ∀ y p, s.tasks.find? y = some p → p.state = .completed →
        ∀ f ∈ found, y ∉ f.conflict.blocking := by
  refine ⟨s.findingsIn ctx.scope, ?_, fun f => hindexed.mem_findingsIn,
    hindexed.nodup_findingsIn ctx.scope, hindexed.pairwise_findingsIn ctx.scope, ?_⟩
  · rw [serve_conflicts hw, Store.map_conflict_findingsIn]
  · intro y p hp hcompleted f hf hy
    have hfinds := hindexed.mem_findingsIn.mp hf
    obtain rfl : y = f.prerequisite.id := List.mem_singleton.mp hy
    obtain ⟨hstored, hid⟩ := Table.find?_eq_some_iff.mp hfinds.prerequisite
    have hsame : s.tasks.find? f.prerequisite.id = some f.prerequisite :=
      Table.find?_eq_some_iff.mpr ⟨hstored, rfl⟩
    rw [hp] at hsame
    cases hsame
    exact hfinds.notCompleted hcompleted

/-- When all tasks of the small store are to start together, two of them are to start too early;
those who see another tenant only are told of none. -/
theorem conflicts_exact_sample :
    let s : Store := { Store.sample with
      tasks := (Store.sample.tasks.put (Store.sampleTask 2 0 1)).put (Store.sampleTask 3 0 2) }
    let f₁ : Finding := ⟨Store.sampleTask 2 0 1, Store.sampleDependency 1 2 1, Store.sampleTask 1 0 0⟩
    let f₂ : Finding := ⟨Store.sampleTask 3 0 2, Store.sampleDependency 2 3 2, Store.sampleTask 2 0 1⟩
    let looker (tenant : Nat) : Context := ⟨⟨.ofNat tenant, .ofNat 1, .viewer⟩, Store.hour 0 0, 9⟩
    (∃ found : List Finding, (({ store := s } : World).serve (Service.conflicts (looker 1))).1 =
        .ok (found.map Finding.conflict) ∧ f₁ ∈ found ∧ f₂ ∈ found) ∧
      (({ store := s } : World).serve (Service.conflicts (looker 2))).1 = .ok [] := by
  intro s f₁ f₂ looker
  have hclear : ({ store := s } : World).Clear s := ⟨rfl, rfl, fun _ _ => rfl⟩
  have hindexed : s.Indexed := Store.indexed_sample.of_eq rfl rfl rfl
  constructor
  · obtain ⟨found, hserve, hmem, -⟩ := conflicts_exact hclear hindexed (looker 1)
    refine ⟨found, congrArg Prod.fst hserve, (hmem f₁).mpr ?_, (hmem f₂).mpr ?_⟩
    · exact ⟨by decide, rfl, rfl, by decide, by decide, rfl, .inl rfl, by decide, rfl, rfl,
        by decide, by decide⟩
    · exact ⟨by decide, rfl, rfl, by decide, by decide, rfl, .inl rfl, by decide, rfl, rfl,
        by decide, by decide⟩
  · obtain ⟨found, hserve, hmem, -⟩ := conflicts_exact hclear hindexed (looker 2)
    have hnone : found = [] := by
      refine List.eq_nil_iff_forall_not_mem.mpr fun f hf => ?_
      have hfinds := (hmem f).mp hf
      have hother : ∀ t ∈ s.tasks.rows, t.tenant ≠ .ofNat 2 := by decide
      refine hother f.task (Table.find?_eq_some_iff.mp hfinds.task).1 ?_
      simpa [looker, Context.scope, Actor.scope, eq_comm] using hfinds.visible
    rw [hserve, hnone]
    rfl

end World

end Overhaul
