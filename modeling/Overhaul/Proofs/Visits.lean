import Mathlib.Data.List.Perm.Subperm
import Overhaul.Proofs.Dependencies.Decided
import Overhaul.Proofs.Reschedule.Walk
import Overhaul.Proofs.Store.Sessions

/-!
# What the walks ask for

The service walks over dependencies in two places: `Service.reaches` goes up, from a task to those
that it waits for, and remembers the tasks that it takes from its stack; `Service.planCascade` goes
down, and remembers the tasks that it puts there. Neither relies on the dependencies being free of
circles. `asked` lists the tasks that a transcript asks about. Main statement: over whatever
dependencies a store was loaded with, both walks come to an end after a call or two for each stored
task, ask about no task twice, and the first one comes back with whether a path leads to its target
(`World.walks_end`).
-/

namespace Overhaul

open Relation

/-! ### The tasks that are asked about -/

/-- The task whose record or dependencies the call asks for. -/
def Call.about? : Call → Option TaskId
  | .task _ id | .dependenciesOf _ id | .dependentsOf _ id => some id
  | .putTask _ | .tasksWhere _ | .setState _ _ _ _ _ | .addDependency _ | .dependency _ _
  | .removeDependency _ _ | .addChange _ | .changesOf _ _ | .announce _ | .releaseParts _ _ => none

/-- The task that a step asks about by a call of the kind. -/
def Step.asks? (kind : CallKind) : Step → Option TaskId
  | .call c => if c.kind = kind then c.about? else none
  | .lock _ | .unlock _ | .isCancelled => none

/-- The tasks that calls of a kind ask about, in the order in which they do. -/
def asked (kind : CallKind) (log : List Exchange) : List TaskId :=
  log.filterMap fun x => x.step.asks? kind

@[simp] theorem asked_nil (kind : CallKind) : asked kind [] = [] := rfl

theorem asked_cons_of_some {kind : CallKind} {x : Exchange} {log : List Exchange} {id : TaskId}
    (h : x.step.asks? kind = some id) : asked kind (x :: log) = id :: asked kind log :=
  List.filterMap_cons_some h

theorem asked_cons_of_none {kind : CallKind} {x : Exchange} {log : List Exchange}
    (h : x.step.asks? kind = none) : asked kind (x :: log) = asked kind log :=
  List.filterMap_cons_none h

namespace Service

variable {sound : CallKind → Prop} {s s' : Store} {log : List Exchange}

/-! ### Looking for a task -/

/-- What a walk asks that looks for a task, has met some tasks and has others on its stack. -/
structure Searches (s : Store) (seen : Seen .task) (stack : List TaskId) (log : List Exchange) :
    Prop where
  nodup : (asked .dependenciesOf log).Nodup
  new : ∀ id ∈ asked .dependenciesOf log, id ∉ seen
  led : ∀ id ∈ asked .dependenciesOf log, id ∈ stack ∨
    ∃ d ∈ s.dependencies.rows, d.prerequisite = id
  length : log.length = (asked .dependenciesOf log).length

theorem Searches.nil (s : Store) (seen : Seen .task) (stack : List TaskId) :
    Searches s seen stack [] := by
  constructor <;> simp

/-- A walk that takes a new task from its stack asks about it, and never again. -/
theorem Searches.cons {seen : Seen .task} {task : TaskId} {stack found : List TaskId} {scope : Scope}
    {e : Except CallError (List Dependency)} (hseen : task ∉ seen)
    (hfound : ∀ id ∈ found, ∃ d ∈ s.dependencies.rows, d.prerequisite = id)
    (h : Searches s (seen.insert task hseen) (found ++ stack) log) :
    Searches s seen (task :: stack) (⟨.call (.dependenciesOf scope task), e⟩ :: log) := by
  have hasked : asked .dependenciesOf (⟨.call (.dependenciesOf scope task), e⟩ :: log) =
      task :: asked .dependenciesOf log := asked_cons_of_some rfl
  constructor
  · rw [hasked, List.nodup_cons]
    exact ⟨fun hmem => h.new task hmem (Seen.mem_insert.mpr (.inl rfl)), h.nodup⟩
  · rw [hasked, List.forall_mem_cons]
    exact ⟨hseen, fun id hid hmem => h.new id hid (Seen.mem_insert.mpr (.inr hmem))⟩
  · rw [hasked, List.forall_mem_cons]
    refine ⟨.inl List.mem_cons_self, fun id hid => ?_⟩
    rcases h.led id hid with hmem | hstored
    · rcases List.mem_append.mp hmem with hmem | hmem
      · exact .inr (hfound id hmem)
      · exact .inl (List.mem_cons_of_mem _ hmem)
    · exact .inr hstored
  · rw [hasked, List.length_cons, List.length_cons, h.length]

/-- However the calls of a walk turn out, it asks no more than that. -/
theorem searches_of_course {scope : Scope} {target : TaskId} {seen : Seen .task}
    {stack : List TaskId} {r : Except Failure Bool}
    (h : Course sound (reaches scope target seen stack) s log r s') :
    Searches s seen stack log := by
  induction seen, stack using reaches.induct scope target generalizing log with
  | case1 seen =>
      rw [reaches] at h
      obtain ⟨rfl, -⟩ := course_pure h
      exact .nil s seen []
  | case2 seen stack =>
      rw [reaches, if_pos rfl] at h
      obtain ⟨rfl, -⟩ := course_pure h
      exact .nil s seen _
  | case3 seen task stack hne hseen ih =>
      rw [reaches, if_neg hne, dif_pos hseen] at h
      obtain ⟨hnodup, hnew, hled, hlength⟩ := ih h
      exact ⟨hnodup, hnew, fun id hid => (hled id hid).imp_left (List.mem_cons_of_mem _), hlength⟩
  | case4 seen task stack hne hseen ih =>
      rw [reaches, if_neg hne, dif_neg hseen] at h
      obtain ⟨e, rfl⟩ | ⟨found, log', s₁, rfl, hx, hrest⟩ := course_ask_bind h
      · have hnothing : Searches s (seen.insert task hseen) ([] ++ stack) [] := .nil s _ _
        exact .cons hseen (by simp) hnothing
      · obtain ⟨rfl, rfl⟩ := Exchange.carries_dependenciesOf hx
        refine Searches.cons hseen (fun id hid => ?_) (ih _ hrest)
        obtain ⟨hmem, -⟩ := List.mem_filter.mp (List.mem_reverse.mp hid)
        obtain ⟨d, hd, rfl⟩ := List.mem_map.mp hmem
        exact ⟨d, Store.mem_rows_of_mem_listed hd, rfl⟩

/-! ### Gathering the tasks that wait -/

/-- What a walk asks that gathers the tasks that wait, has met some tasks, has some of these on its
stack and still has to go through some dependencies. -/
structure Gathers (s : Store) (tenant : TenantId) (seen : Seen .task) (stack : List TaskId)
    (pending : List Dependency) (log : List Exchange) : Prop where
  nodup_looked : (asked .task log).Nodup
  new : ∀ id ∈ asked .task log, id ∉ seen
  led : ∀ id ∈ asked .task log, (∃ d ∈ pending, d.task = id) ∨
    ∃ d ∈ s.dependencies.rows, d.tenant = tenant ∧ d.task = id
  nodup_expanded : (asked .dependentsOf log).Nodup
  looked : ∀ id ∈ asked .dependentsOf log, id ∈ stack ∨ id ∈ asked .task log
  length : log.length = (asked .dependentsOf log).length + (asked .task log).length

namespace Gathers

variable {tenant : TenantId} {seen : Seen .task} {stack : List TaskId} {pending : List Dependency}

theorem nil (s : Store) (tenant : TenantId) (seen : Seen .task) (stack : List TaskId)
    (pending : List Dependency) : Gathers s tenant seen stack pending [] := by
  constructor <;> simp

/-- More dependencies to go through do not matter. -/
theorem pending_cons (h : Gathers s tenant seen stack pending log) (d : Dependency) :
    Gathers s tenant seen stack (d :: pending) log := by
  refine { h with led := fun id hid => (h.led id hid).imp_left ?_ }
  rintro ⟨e, he, hid⟩
  exact ⟨e, List.mem_cons_of_mem _ he, hid⟩

/-- A walk that comes to a new task looks it up, and never again. It may put the task on its
stack. -/
theorem look {stack' : List TaskId} {d : Dependency} {scope : Scope}
    {e : Except CallError (Option Task)} (hseen : d.task ∉ seen)
    (hstack : ∀ id ∈ stack', id ∈ d.task :: stack)
    (h : Gathers s tenant (seen.insert d.task hseen) stack' pending log) :
    Gathers s tenant seen stack (d :: pending) (⟨.call (.task scope d.task), e⟩ :: log) := by
  have hlooked : asked .task (⟨.call (.task scope d.task), e⟩ :: log) = d.task :: asked .task log :=
    asked_cons_of_some rfl
  have hexpanded : asked .dependentsOf (⟨.call (.task scope d.task), e⟩ :: log) =
      asked .dependentsOf log := asked_cons_of_none rfl
  constructor
  · rw [hlooked, List.nodup_cons]
    exact ⟨fun hmem => h.new _ hmem (Seen.mem_insert.mpr (.inl rfl)), h.nodup_looked⟩
  · rw [hlooked, List.forall_mem_cons]
    exact ⟨hseen, fun id hid hmem => h.new id hid (Seen.mem_insert.mpr (.inr hmem))⟩
  · rw [hlooked, List.forall_mem_cons]
    refine ⟨.inl ⟨d, List.mem_cons_self, rfl⟩, fun id hid => (h.led id hid).imp_left ?_⟩
    rintro ⟨d', hd', hid⟩
    exact ⟨d', List.mem_cons_of_mem _ hd', hid⟩
  · rw [hexpanded]
    exact h.nodup_expanded
  · rw [hexpanded, hlooked]
    intro id hid
    rcases h.looked id hid with hmem | hmem
    · rcases List.mem_cons.mp (hstack id hmem) with rfl | hmem
      · exact .inr List.mem_cons_self
      · exact .inl hmem
    · exact .inr (List.mem_cons_of_mem _ hmem)
  · rw [hexpanded, hlooked, List.length_cons, List.length_cons, h.length, Nat.add_assoc]

/-- A walk that takes a task from its stack asks for those that wait for it, and never again: the
task is neither on the stack any more nor will it be looked up, as it was met before. -/
theorem expand {task : TaskId} {scope : Scope} {e : Except CallError (List Dependency)}
    (hmet : task ∈ seen) (hstack : task ∉ stack)
    (hpending : ∀ d ∈ pending, d ∈ s.dependencies.rows ∧ d.tenant = tenant)
    (h : Gathers s tenant seen stack pending log) :
    Gathers s tenant seen (task :: stack) []
      (⟨.call (.dependentsOf scope task), e⟩ :: log) := by
  have hlooked : asked .task (⟨.call (.dependentsOf scope task), e⟩ :: log) = asked .task log :=
    asked_cons_of_none rfl
  have hexpanded : asked .dependentsOf (⟨.call (.dependentsOf scope task), e⟩ :: log) =
      task :: asked .dependentsOf log := asked_cons_of_some rfl
  constructor
  · rw [hlooked]
    exact h.nodup_looked
  · rw [hlooked]
    exact h.new
  · rw [hlooked]
    intro id hid
    rcases h.led id hid with ⟨d, hd, rfl⟩ | hstored
    · exact .inr ⟨d, (hpending d hd).1, (hpending d hd).2, rfl⟩
    · exact .inr hstored
  · rw [hexpanded, List.nodup_cons]
    refine ⟨fun hmem => ?_, h.nodup_expanded⟩
    rcases h.looked task hmem with hmem | hmem
    · exact hstack hmem
    · exact h.new task hmem hmet
  · rw [hexpanded, hlooked, List.forall_mem_cons]
    exact ⟨.inl List.mem_cons_self, fun id hid => (h.looked id hid).imp_left
      (List.mem_cons_of_mem _)⟩
  · rw [hexpanded, hlooked, List.length_cons, List.length_cons, h.length, Nat.add_right_comm]

end Gathers

/-- However the calls of a walk turn out, it asks no more than that. Its stack holds no task twice, and
only tasks that were met: this is what every step keeps. -/
theorem gathers_of_course (hindexed : s.Indexed) {tenant : TenantId} {nanos : Int} {now : Timestamp}
    {seen : Seen .task} {stack : List TaskId} {pending : List Dependency}
    {r : Except Failure (List Shift)}
    (h : Course sound (plan tenant nanos now seen stack pending) s log r s') (hnodup : stack.Nodup)
    (hmet : ∀ id ∈ stack, id ∈ seen) : Gathers s tenant seen stack pending log := by
  induction seen, stack, pending using plan.induct tenant generalizing log r with
  | case1 seen stack d pending hseen ih =>
      rw [plan, dif_pos hseen] at h
      exact (ih h hnodup hmet).pending_cons d
  | case2 seen stack d pending hseen _ ih₁ =>
      rename_i ih₂
      have hmet' : ∀ id ∈ stack, id ∈ seen.insert d.task hseen := fun id hid =>
        Seen.mem_insert.mpr (.inr (hmet id hid))
      have hkept : ∀ id ∈ stack, id ∈ d.task :: stack := fun id => List.mem_cons_of_mem _
      rw [plan, dif_neg hseen] at h
      obtain ⟨e, rfl⟩ | ⟨found, log', s₁, rfl, hx, hrest⟩ := course_ask_bind h
      · exact Gathers.look hseen hkept (.nil s tenant _ _ pending)
      obtain ⟨rfl, -⟩ := Exchange.carries_task hx
      cases found with
      | none => exact Gathers.look hseen hkept (ih₁ hrest hnodup hmet')
      | some t =>
          dsimp only at hrest
          split at hrest
          · exact Gathers.look hseen hkept (ih₁ hrest hnodup hmet')
          obtain ⟨_, hfail, -⟩ | ⟨moved, log₁, log₂, s₂, hmoved, hmore, rfl⟩ := course_bind hrest
          · obtain ⟨rfl, -⟩ := course_ofExcept hfail
            exact Gathers.look hseen hkept (.nil s₁ tenant _ _ pending)
          obtain ⟨rfl, -, rfl⟩ := course_ofExcept hmoved
          have hnodup' : (d.task :: stack).Nodup :=
            List.nodup_cons.mpr ⟨fun hmem => hseen (hmet _ hmem), hnodup⟩
          have hmet'' : ∀ id ∈ d.task :: stack, id ∈ seen.insert d.task hseen :=
            List.forall_mem_cons.mpr ⟨Seen.mem_insert.mpr (.inl rfl), hmet'⟩
          rw [List.nil_append]
          obtain ⟨_, hfail, -⟩ | ⟨rest, log₃, log₄, s₃, hplan, hpure, rfl⟩ := course_bind hmore
          · exact Gathers.look hseen (fun _ => id) (ih₂ hfail hnodup' hmet'')
          · obtain ⟨rfl, -, rfl⟩ := course_pure hpure
            rw [List.append_nil]
            exact Gathers.look hseen (fun _ => id) (ih₂ hplan hnodup' hmet'')
  | case3 seen =>
      rw [plan] at h
      obtain ⟨rfl, -⟩ := course_pure h
      exact .nil s tenant seen [] []
  | case4 seen task stack ih =>
      obtain ⟨hnotMem, hnodup'⟩ := List.nodup_cons.mp hnodup
      obtain ⟨htask, hmet'⟩ := List.forall_mem_cons.mp hmet
      rw [plan] at h
      obtain ⟨e, rfl⟩ | ⟨waiting, log', s₁, rfl, hx, hrest⟩ := course_ask_bind h
      · exact Gathers.expand htask hnotMem (by simp) (.nil s tenant seen stack [])
      · obtain ⟨rfl, rfl⟩ := Exchange.carries_dependentsOf hx
        refine Gathers.expand htask hnotMem (fun d hd => ?_) (ih _ hrest hnodup' hmet')
        obtain ⟨hstored, htenant, -⟩ := hindexed.mem_dependentsOf.mp hd
        exact ⟨hstored, htenant⟩

end Service

/-! ### Coming to an end -/

namespace World

variable {w : World}

/-- Where no call fails, only a time that cannot be shown keeps a cascade from being planned. -/
theorem error_of_serve_plan (h : w.faults = fun _ => []) {tenant : TenantId} {nanos : Int}
    {now : Timestamp} {seen : Seen .task} {stack : List TaskId} {pending : List Dependency}
    {f : Failure} (hf : (w.serve (Service.plan tenant nanos now seen stack pending)).1 = .error f) :
    f = .invalid .windowOutOfRange ∨ f = .beyondUtc ∧ now.inUtc? = none := by
  have htask : ∀ id, w.serve (Service.ask (.task (.only tenant) id)) =
      (.ok (w.store.task? (.only tenant) id), w) := fun id => serve_ask_of_faults_eq_nil h trivial
  induction seen, stack, pending using Service.plan.induct tenant with
  | case1 seen stack d pending hseen ih =>
      rw [Service.plan, dif_pos hseen] at hf
      exact ih hf
  | case2 seen stack d pending hseen _ ih₁ =>
      rename_i ih₂
      rw [Service.plan, dif_neg hseen, serve_bind, htask] at hf
      cases hd : w.store.task? (.only tenant) d.task with
      | none =>
          rw [hd] at hf
          exact ih₁ hf
      | some t =>
          simp only [hd] at hf
          split at hf
          · exact ih₁ hf
          rw [serve_bind, serve_ofExcept] at hf
          cases hshifted : t.shifted nanos now with
          | error e =>
              rw [hshifted] at hf
              cases hf
              exact Task.shifted_eq_error hshifted
          | ok moved =>
              simp only [hshifted, bind_pure_comp, serve_map] at hf
              cases hrest : (w.serve (Service.plan tenant nanos now (seen.insert d.task hseen)
                  (d.task :: stack) pending)).1 with
              | error e =>
                  rw [hrest] at hf
                  cases hf
                  exact ih₂ hrest
              | ok rest =>
                  rw [hrest] at hf
                  cases hf
  | case3 seen =>
      rw [Service.plan] at hf
      cases hf
  | case4 seen task stack ih =>
      rw [Service.plan, serve_bind, serve_ask_of_faults_eq_nil h (by trivial)] at hf
      exact ih _ hf

variable {x : Snapshot}

/-- A walk that looks for a task asks for the dependencies of no task twice, and does nothing else; it
asks once more at most than there are stored tasks. Its answer is that the task was found if and only
if it is there to be found, and where no call fails there is an answer. -/
structure Searched (w : World) (walk : Service Bool) (found : Prop) : Prop where
  nodup : (asked .dependenciesOf (w.heard walk)).Nodup
  length : (w.heard walk).length = (asked .dependenciesOf (w.heard walk)).length
  length_le : (w.heard walk).length ≤ w.store.tasks.rows.length + 1
  eq_true_iff : ∀ b, (w.serve walk).1 = .ok b → (b = true ↔ found)
  ends : (w.faults = fun _ => []) → ∃ b, (w.serve walk).1 = .ok b

/-- A walk that gathers the tasks that wait for one that is moved asks for those that wait for it and
for those that it looked up, for each once; it looks up no task twice, and only other tasks that wait
for one. It does nothing else, and not more often than twice for a stored task and once for the one
that is moved. Unless a call fails, only a time that cannot be shown keeps it from a result. -/
structure Gathered (w : World) (walk : Service (List Shift)) (root : Task) (now : Timestamp) :
    Prop where
  nodup_expanded : (asked .dependentsOf (w.heard walk)).Nodup
  expanded : ∀ id ∈ asked .dependentsOf (w.heard walk),
    id = root.id ∨ id ∈ asked .task (w.heard walk)
  nodup_looked : (asked .task (w.heard walk)).Nodup
  looked : ∀ id ∈ asked .task (w.heard walk),
    id ≠ root.id ∧ ∃ d ∈ w.store.dependencies.rows, d.tenant = root.tenant ∧ d.task = id
  length : (w.heard walk).length =
    (asked .dependentsOf (w.heard walk)).length + (asked .task (w.heard walk)).length
  length_le : (w.heard walk).length ≤ 2 * w.store.tasks.rows.length + 1
  ends : (w.faults = fun _ => []) → (∃ shifts, (w.serve walk).1 = .ok shifts) ∨
    (w.serve walk).1 = .error (.invalid .windowOutOfRange) ∨
    (w.serve walk).1 = .error .beyondUtc ∧ now.inUtc? = none

theorem searched (hload : Store.ofSnapshot x = .ok w.store) (hwithin : w.Within fun _ => False)
    (scope : Scope) (source target : TaskId) :
    w.Searched (Service.reaches scope target .empty [source])
      (ReflTransGen (w.store.WaitsIn scope) source target) := by
  have hcourse := course_serve hwithin (Service.reaches scope target .empty [source])
  have hasks := Service.searches_of_course hcourse
  refine ⟨hasks.nodup, hasks.length, ?_, fun b hb => ?_, fun hfaults => ?_⟩
  · have hknown : asked .dependenciesOf (w.heard (Service.reaches scope target .empty [source])) ⊆
        source :: w.store.tasks.rows.map Task.id := by
      intro id hid
      rcases hasks.led id hid with hmem | ⟨d, hd, rfl⟩
      · exact List.mem_cons.mpr (.inl (List.mem_singleton.mp hmem))
      · have hends := (Store.whole_ofSnapshot hload).ends d hd
        exact List.mem_cons_of_mem _ (Table.isSome_find?_iff.mp hends.2)
    simpa [hasks.length] using (hasks.nodup.subperm hknown).length_le
  · rw [hb] at hcourse
    exact Service.reaches_iff (Store.indexed_ofSnapshot hload) hcourse
  · obtain ⟨b, hb⟩ := exists_serve_reaches hfaults scope target .empty [source]
    exact ⟨b, congrArg Prod.fst hb⟩

theorem gathered (hload : Store.ofSnapshot x = .ok w.store) (hwithin : w.Within fun _ => False)
    (root : Task) (nanos : Int) (now : Timestamp) :
    w.Gathered (Service.planCascade root nanos now) root now := by
  have hasks : Service.Gathers w.store root.tenant (.only root.id) [root.id] []
      (w.heard (Service.planCascade root nanos now)) :=
    Service.gathers_of_course (Store.indexed_ofSnapshot hload) (course_serve hwithin _)
      (List.nodup_singleton _) (by simp)
  generalize hheard : w.heard (Service.planCascade root nanos now) = log at hasks
  have hexpanded : ∀ id ∈ asked .dependentsOf log, id = root.id ∨ id ∈ asked .task log :=
    fun id hid => (hasks.looked id hid).imp_left List.mem_singleton.mp
  have hlooked : ∀ id ∈ asked .task log,
      ∃ d ∈ w.store.dependencies.rows, d.tenant = root.tenant ∧ d.task = id :=
    fun id hid => (hasks.led id hid).resolve_left (by simp)
  have hlength : log.length ≤ 2 * w.store.tasks.rows.length + 1 := by
    have hstored : asked .task log ⊆ w.store.tasks.rows.map Task.id := by
      intro id hid
      obtain ⟨d, hd, -, rfl⟩ := hlooked id hid
      exact Table.isSome_find?_iff.mp ((Store.whole_ofSnapshot hload).ends d hd).1
    have hknown : asked .dependentsOf log ⊆ root.id :: asked .task log :=
      fun id hid => List.mem_cons.mpr (hexpanded id hid)
    have hmany := (hasks.nodup_looked.subperm hstored).length_le
    have hmore := (hasks.nodup_expanded.subperm hknown).length_le
    rw [List.length_map] at hmany
    rw [List.length_cons] at hmore
    have hall := hasks.length
    omega
  subst hheard
  refine ⟨hasks.nodup_expanded, hexpanded, hasks.nodup_looked, fun id hid => ?_, hasks.length,
    hlength, fun hfaults => ?_⟩
  · exact ⟨fun hroot => hasks.new id hid (Seen.mem_only.mpr hroot), hlooked id hid⟩
  · cases hr : (w.serve (Service.planCascade root nanos now)).1 with
    | ok shifts => exact .inl ⟨shifts, rfl⟩
    | error f =>
        rcases error_of_serve_plan hfaults hr with rfl | ⟨rfl, hnow⟩
        · exact .inr (.inl rfl)
        · exact .inr (.inr ⟨rfl, hnow⟩)

/-- However a store was loaded, circles and mislabelled dependencies included, and whatever fails,
both walks come to an end, ask about no task twice, and come to what they should. -/
theorem walks_end (hload : Store.ofSnapshot x = .ok w.store) (hwithin : w.Within fun _ => False) :
    (∀ scope source target, w.Searched (Service.reaches scope target .empty [source])
      (ReflTransGen (w.store.WaitsIn scope) source target)) ∧
    ∀ root nanos now, w.Gathered (Service.planCascade root nanos now) root now :=
  ⟨searched hload hwithin, gathered hload hwithin⟩

/-- Of three tasks the first two wait for each other, the first one twice over. The last one waits for
itself, and so does the second one for it, but by a dependency that names another tenant. -/
def ringSnapshot : Snapshot where
  tasks := Store.sampleTasks.rows
  dependencies := [Store.sampleDependency 1 1 2, Store.sampleDependency 2 2 1,
    Store.sampleDependency 3 1 2, Store.sampleDependency 4 3 3,
    { Store.sampleDependency 5 2 3 with tenant := .ofNat 2 }]
  changes := []
  outbox := []

/-- The walk from the first task comes upon the second one, and gives up looking for the third. When
the first task is moved, the service asks seven times at most for what is to be moved along. -/
theorem walks_end_sample : ∃ s, Store.ofSnapshot ringSnapshot = .ok s ∧
    let w : World := { store := s }
    let search target := w.serve (Service.reaches (.only (.ofNat 1)) target .empty [.ofNat 1])
    (search (.ofNat 2)).1 = .ok true ∧ (search (.ofNat 3)).1 = .ok false ∧
      (w.heard (Service.planCascade (Store.sampleTask 1 0 0) 0 (Store.hour 0 0))).length ≤ 7 := by
  have hsound : ringSnapshot.Sound := ⟨by decide, by decide, by decide, by decide⟩
  obtain ⟨s, hload⟩ := Store.exists_ofSnapshot_iff.mpr hsound
  refine ⟨s, hload, ?_⟩
  intro w search
  have hdependencies : s.dependencies.rows = ringSnapshot.dependencies :=
    (Store.loads_ofSnapshot hload).dependencies
  have htasks : s.tasks.rows.length = 3 := congrArg List.length (Store.loads_ofSnapshot hload).tasks
  obtain ⟨hsearched, hgathered⟩ := walks_end (w := w) hload (within_of_faults_eq_nil rfl)
  have hring : ReflTransGen (s.Waits (.ofNat 1)) (.ofNat 1) (.ofNat 2) :=
    .single ⟨Store.sampleDependency 1 1 2, by rw [hdependencies]; decide, rfl, rfl, rfl⟩
  have hinside : ∀ id, ReflTransGen (s.Waits (.ofNat 1)) (.ofNat 1) id →
      id = .ofNat 1 ∨ id = .ofNat 2 := by
    intro id hpath
    induction hpath with
    | refl => exact .inl rfl
    | tail _ hstep ih =>
        obtain ⟨d, hd, htenant, rfl, rfl⟩ := hstep
        rw [hdependencies] at hd
        have hclosed : ∀ d ∈ ringSnapshot.dependencies, d.tenant = .ofNat 1 →
            (d.task = .ofNat 1 ∨ d.task = .ofNat 2) →
            d.prerequisite = .ofNat 1 ∨ d.prerequisite = .ofNat 2 := by decide
        exact hclosed d hd htenant ih
  refine ⟨?_, ?_, ?_⟩
  · have hfound := hsearched (.only (.ofNat 1)) (.ofNat 1) (.ofNat 2)
    obtain ⟨b, hb⟩ := hfound.ends rfl
    obtain rfl : b = true := (hfound.eq_true_iff b hb).mpr hring
    exact hb
  · have hfound := hsearched (.only (.ofNat 1)) (.ofNat 1) (.ofNat 3)
    obtain ⟨b, hb⟩ := hfound.ends rfl
    cases b with
    | false => exact hb
    | true => exact absurd (hinside _ ((hfound.eq_true_iff true hb).mp rfl)) (by decide)
  · have hlength := (hgathered (Store.sampleTask 1 0 0) 0 (Store.hour 0 0)).length_le
    rw [htasks] at hlength
    exact hlength

end World

end Overhaul
