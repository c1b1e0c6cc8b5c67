import Overhaul.Proofs.Answers
import Overhaul.Proofs.Conflicts
import Overhaul.Proofs.Dependencies.Acyclic
import Overhaul.Proofs.Reschedule.Draft
import Overhaul.Proofs.Session
import Overhaul.Proofs.Store.Order

/-!
# Administering a tenant

Who administers the platform sees every tenant, and a scheduler sees one; the store answers the two
in different ways. As far as the records of that tenant are asked for, the answers are the same, so
that what either of them does to these records is the same as well. `Service.Agrees` says of two
services that they cannot be told apart. Main statements: `Operation.agrees_service`, that the two do
the same for a tenant, and `World.administers`, which adds what they see of conflicts.
-/

namespace Overhaul

/-! ### Services that cannot be told apart -/

/-- The two services end alike, and leave the same world, wherever they find the store and no call
shows anything that is not there. -/
def Service.Agrees {α : Type} (s : Store) (p q : Service α) : Prop :=
  ∀ w : World, w.store = s → (w.Within fun _ => False) → w.serve p = w.serve q

/-- The faults that a run leaves are among those that it found. -/
theorem World.Within.run {α : Type} {sound : CallKind → Prop} {w : World} (hw : w.Within sound)
    (p : Program α) : (run p w).2.Within sound := by
  induction p generalizing w with
  | done a => exact hw
  | step st next ih => exact ih _ (hw.faults (faults_take w st))

namespace Service

variable {α β : Type} {s : Store}

theorem agrees_refl (p : Service α) : Agrees s p p := fun _ _ _ => rfl

/-- After services that read alike, those agree that agree for whatever may have been read. -/
theorem agrees_bind {p q : Service α} {f g : α → Service β} (hread : Only Step.Reads p)
    (h : Agrees s p q)
    (hf : ∀ a log, Course (fun _ => False) p s log (.ok a) s → Agrees s (f a) (g a)) :
    Agrees s (p >>= f) (q >>= g) := by
  intro w hw hwithin
  have hcourse := World.course_serve hwithin p
  have hstore := hcourse.store_eq_of_reads hread
  have hleft : (w.serve p).2.Within fun _ => False := hwithin.run p.run
  rw [World.serve_bind, World.serve_bind, ← h w hw hwithin]
  rcases hp : w.serve p with ⟨_ | a, w₁⟩
  · rfl
  · rw [hp, hw] at hcourse hstore
    rw [hp] at hleft
    dsimp only at hcourse hstore hleft
    rw [hstore] at hcourse
    exact hf a _ hcourse w₁ hstore hleft

theorem agrees_andThen {p q : Service α} (h : Agrees s p q) (f : α → Service β) :
    Agrees s (p >>= f) (q >>= f) := by
  intro w hw hwithin
  rw [World.serve_bind, World.serve_bind, h w hw hwithin]

theorem agrees_map {p q : Service α} (f : α → β) (h : Agrees s p q) :
    Agrees s (f <$> p) (f <$> q) := by
  rw [← bind_pure_comp, ← bind_pure_comp]
  exact agrees_andThen h _

theorem agrees_locked {tenant : TenantId} {p q : Service α} (h : Agrees s p q) :
    Agrees s (locked tenant p) (locked tenant q) := by
  intro w hw hwithin
  rw [World.serve_locked, World.serve_locked, h (w.take (.lock tenant)).2 hw hwithin]

/-! ### Calls that read -/

/-- What a call that reads is told: this depends on what happens to it, on the answer that there is
nothing, and on the reply of the store. -/
def told (nothing? : Option α) (reply : Except CallError α) : Option Fault → Except CallError α
  | some (.fail text) => .error (.unavailable text)
  | some .nothing => (nothing?.map Except.ok).getD reply
  | _ => reply

/-- Wherever it finds the store, the service ends as a call of the kind does that reads. -/
def Tells (s : Store) (p : Service α) (kind : CallKind) (nothing? : Option α)
    (reply : Except CallError α) : Prop :=
  ∀ w : World, w.store = s → (w.Within fun _ => False) →
    w.serve p = ((told nothing? reply (w.faults kind).head?).mapError Failure.store, w.past kind)

theorem tells_ask (s : Store) {c : Call} (hc : c.Reads) :
    Tells s (ask c) c.kind c.nothing? (s.reply c).1 := by
  rintro w rfl hwithin
  rw [World.serve_ask, World.answer_eq]
  cases hfault : (w.faults c.kind).head? with
  | none => simp only [told, World.perform_of_reads hc, World.store_past]
  | some f =>
      cases f with
      | nothing => cases c.nothing? <;> simp [told, World.perform_of_reads hc]
      | posing state => exact (hwithin _ _ (List.mem_of_head? hfault)).elim
      | _ => simp only [told, World.perform_of_reads hc, World.store_past]

/-- Calls of one kind that read cannot be told apart where the store replies alike. -/
theorem Tells.agrees {p q : Service α} {kind : CallKind} {nothing? : Option α}
    {reply reply' : Except CallError α} (hp : Tells s p kind nothing? reply)
    (hq : Tells s q kind nothing? reply') (h : reply = reply') : Agrees s p q := by
  subst h
  exact fun w hw hwithin => (hp w hw hwithin).trans (hq w hw hwithin).symm

end Service

/-! ### What a store shows of a tenant -/

/-- Every change is recorded for the owner of its task. -/
def Store.Labelled (s : Store) : Prop :=
  ∀ c ∈ s.changes.rows, ∀ t, s.tasks.find? c.task = some t → c.tenant = t.tenant

/-- The tasks that an operation names. -/
def Operation.tasks : Operation → List TaskId
  | .depend task prerequisite _ => [task, prerequisite]
  | .dependencies task | .dependents task | .history task | .transition task _ _ => [task]
  | .reschedule move => [move.task]
  | .undepend _ | .conflicts => []

/-- The dependencies that an operation names. -/
def Operation.dependencyIds : Operation → List DependencyId
  | .undepend id => [id]
  | .depend _ _ _ | .dependencies _ | .dependents _ | .history _ | .transition _ _ _
  | .reschedule _ | .conflicts => []

namespace Store

/-- Whatever records an operation names belong to the tenant, as far as there are any. -/
structure Owns (s : Store) (a : TenantId) (o : Operation) : Prop where
  tasks : ∀ id ∈ o.tasks, ∀ t, s.tasks.find? id = some t → t.tenant = a
  dependencies : ∀ id ∈ o.dependencyIds, ∀ d, s.dependencies.find? id = some d → d.tenant = a

variable {s : Store} {a : TenantId}

/-- The owner sees a record like those who see all. -/
theorem task?_only_of_owner {id : TaskId} (h : ∀ t, s.tasks.find? id = some t → t.tenant = a) :
    s.task? .all id = s.task? (.only a) id := by
  unfold task?
  cases ht : s.tasks.find? id with
  | none => rfl
  | some t => simp [Option.filter, Task.visibleIn, h t ht]

theorem dependency?_only_of_owner {id : DependencyId}
    (h : ∀ d, s.dependencies.find? id = some d → d.tenant = a) :
    s.dependency? .all id = s.dependency? (.only a) id := by
  unfold dependency?
  cases hd : s.dependencies.find? id with
  | none => rfl
  | some d => simp [Option.filter, h d hd]

/-- The history of a task holds nothing that its owner does not see. -/
theorem Labelled.changesOf_only (h : s.Labelled) {t : Task} (ht : s.tasks.find? t.id = some t) :
    s.changesOf .all t.id = s.changesOf (.only t.tenant) t.id := by
  refine List.filter_congr fun c hc => ?_
  by_cases hid : c.task = t.id
  · simp [hid, h c hc t (hid ▸ ht)]
  · simp [hid]

end Store

/-! ### What an administrator does for a tenant -/

/-- The same caller as a scheduler of a tenant. -/
def Context.asSchedulerOf (ctx : Context) (a : TenantId) : Context :=
  { ctx with actor := { tenant := a, user := ctx.actor.user, role := .scheduler } }

/-- The same request, made by the same caller as a scheduler of a tenant. -/
def Request.asSchedulerOf (q : Request) (a : TenantId) : Request :=
  { q with ctx := q.ctx.asSchedulerOf a }

/-- Whether work may be begun, finished or given up depends on who asks only as far as mechanics and
those who manage work are concerned. -/
theorem Transition.check_congr {x y : Actor} (hx : x.role ≠ .mechanic) (hy : y.role ≠ .mechanic)
    (h : x.managesWork = y.managesWork) (t : Task) (target : TaskState) (c : Circumstances)
    (tolerances : Tolerances) : check x t target c tolerances = check y t target c tolerances := by
  have hmechanic : requireMechanic x t = requireMechanic y t := by
    simp [requireMechanic, hx, hy]
  unfold check checkStart checkCompletion checkCancellation
  rw [hmechanic, h]

namespace Service

variable {α β : Type} {s : Store} {a : TenantId} {ctx : Context}

theorem scope_of_admin (hadmin : ctx.actor.role = .admin) : ctx.scope = .all := if_pos hadmin

theorem scope_asSchedulerOf : (ctx.asSchedulerOf a).scope = .only a := rfl

/-- The task is the same for both, and what follows may take into account that it is there. -/
theorem agrees_visibleTask_bind (hadmin : ctx.actor.role = .admin) {id : TaskId}
    (h : ∀ t, s.tasks.find? id = some t → t.tenant = a) {missing : TaskId → Missing}
    {f g : Task → Service β}
    (hf : ∀ t, s.tasks.find? id = some t → t.id = id → t.tenant = a → Agrees s (f t) (g t)) :
    Agrees s (visibleTask ctx id missing >>= f)
      (visibleTask (ctx.asSchedulerOf a) id missing >>= g) := by
  refine agrees_bind (only_visibleTask trivial) ?_ fun t log hcourse => ?_
  · refine agrees_bind (only_ask trivial) ?_ fun found _ _ => ?_
    · rw [scope_of_admin hadmin, scope_asSchedulerOf]
      exact (tells_ask s (c := .task .all id) trivial).agrees
        (tells_ask s (c := .task (.only a) id) trivial)
        (congrArg Except.ok (Store.task?_only_of_owner h))
    · cases found <;> exact agrees_refl _
  · obtain ⟨-, ht⟩ := course_visibleTask hcourse
    have hfound := (Store.task?_eq_some_iff.mp ht).1
    exact hf t hfound (Store.id_eq_of_task? ht) (h t hfound)

/-- What is listed about a task is the same for both when the store lists the same. -/
theorem agrees_listing (hadmin : ctx.actor.role = .admin) {id : TaskId}
    (h : ∀ t, s.tasks.find? id = some t → t.tenant = a) {p q : Service β}
    (hpq : ∀ t, s.tasks.find? id = some t → t.id = id → t.tenant = a → Agrees s p q) :
    Agrees s (do discard <| visibleTask ctx id .task; p)
      (do discard <| visibleTask (ctx.asSchedulerOf a) id .task; q) := by
  have hdiscard : ∀ (ctx : Context) (k : Service β),
      (do discard <| visibleTask ctx id .task; k) = visibleTask ctx id .task >>= fun _ => k := by
    intro ctx k
    exact bind_map_left (Function.const Task PUnit.unit) (visibleTask ctx id .task) fun _ => k
  rw [hdiscard, hdiscard]
  exact agrees_visibleTask_bind hadmin h hpq

theorem agrees_depend (hadmin : ctx.actor.role = .admin) {task prerequisite : TaskId}
    {kind : Option DependencyKind} (h : s.Owns a (.depend task prerequisite kind)) :
    Agrees s (depend ctx task prerequisite kind)
      (depend (ctx.asSchedulerOf a) task prerequisite kind) := by
  have htask := h.tasks task (by simp [Operation.tasks])
  have hprerequisite := h.tasks prerequisite (by simp [Operation.tasks])
  unfold depend
  split
  · exact agrees_refl _
  refine agrees_visibleTask_bind hadmin htask fun waiting _ _ _ => ?_
  exact agrees_visibleTask_bind hadmin hprerequisite fun awaited _ _ _ => agrees_refl _

theorem agrees_undepend (hadmin : ctx.actor.role = .admin) {id : DependencyId}
    (h : s.Owns a (.undepend id)) :
    Agrees s (undepend ctx id) (undepend (ctx.asSchedulerOf a) id) := by
  have hid := h.dependencies id (by simp [Operation.dependencyIds])
  refine agrees_bind (only_ask trivial) ?_ fun found _ _ => ?_
  · rw [scope_of_admin hadmin, scope_asSchedulerOf]
    exact (tells_ask s (c := .dependency .all id) trivial).agrees
      (tells_ask s (c := .dependency (.only a) id) trivial)
      (congrArg Except.ok (Store.dependency?_only_of_owner hid))
  · cases found <;> exact agrees_refl _

theorem agrees_dependencies (hadmin : ctx.actor.role = .admin) (hs : s.Indexed) {task : TaskId}
    (h : s.Owns a (.dependencies task)) :
    Agrees s (dependencies ctx task) (dependencies (ctx.asSchedulerOf a) task) := by
  have htask := h.tasks task (by simp [Operation.tasks])
  refine agrees_listing hadmin htask fun t ht _ hta => ?_
  rw [scope_of_admin hadmin, scope_asSchedulerOf]
  refine (tells_ask s (c := .dependenciesOf .all task) trivial).agrees
    (tells_ask s (c := .dependenciesOf (.only a) task) trivial) (congrArg Except.ok ?_)
  rw [Store.dependenciesOf, Store.listed_all (fun _ => rfl) hs.prerequisites, ht]
  dsimp only
  rw [hta]
  rfl

theorem agrees_dependents (hadmin : ctx.actor.role = .admin) (hs : s.Indexed) {task : TaskId}
    (h : s.Owns a (.dependents task)) :
    Agrees s (dependents ctx task) (dependents (ctx.asSchedulerOf a) task) := by
  have htask := h.tasks task (by simp [Operation.tasks])
  refine agrees_listing hadmin htask fun t ht _ hta => ?_
  rw [scope_of_admin hadmin, scope_asSchedulerOf]
  refine (tells_ask s (c := .dependentsOf .all task) trivial).agrees
    (tells_ask s (c := .dependentsOf (.only a) task) trivial) (congrArg Except.ok ?_)
  rw [Store.dependentsOf, Store.listed_all (fun _ => rfl) hs.dependents, ht]
  dsimp only
  rw [hta]
  rfl

theorem agrees_history (hadmin : ctx.actor.role = .admin) (hs : s.Labelled) {task : TaskId}
    (h : s.Owns a (.history task)) :
    Agrees s (history ctx task) (history (ctx.asSchedulerOf a) task) := by
  have htask := h.tasks task (by simp [Operation.tasks])
  refine agrees_listing hadmin htask fun t ht hid hta => ?_
  rw [scope_of_admin hadmin, scope_asSchedulerOf]
  refine (tells_ask s (c := .changesOf .all task) trivial).agrees
    (tells_ask s (c := .changesOf (.only a) task) trivial) (congrArg Except.ok ?_)
  rw [← hid, ← hta]
  exact hs.changesOf_only (hid ▸ ht)

theorem agrees_draft (hadmin : ctx.actor.role = .admin) {m : Move}
    (htask : ∀ t, s.tasks.find? m.task = some t → t.tenant = a) (window : Window)
    (reason : String) :
    Agrees s (draft ctx m window reason) (draft (ctx.asSchedulerOf a) m window reason) :=
  agrees_visibleTask_bind hadmin htask fun _ _ _ _ => agrees_refl _

theorem agrees_reschedule (hadmin : ctx.actor.role = .admin) {m : Move}
    (h : s.Owns a (.reschedule m)) (setup : Setup) :
    Agrees s (reschedule setup ctx m) (reschedule setup (ctx.asSchedulerOf a) m) := by
  have htask := h.tasks m.task (by simp [Operation.tasks])
  have hmoves : (ctx.asSchedulerOf a).actor.movesWork = ctx.actor.movesWork := by
    simp [Actor.movesWork, Context.asSchedulerOf, hadmin]
  unfold reschedule
  refine agrees_bind (only_ofExcept _) (agrees_refl _) fun window _ _ => ?_
  dsimp only
  split
  · exact agrees_refl _
  refine agrees_visibleTask_bind hadmin htask fun t _ _ _ => ?_
  rw [hmoves]
  split
  · exact agrees_refl _
  refine agrees_bind (only_ensureOpen t) (agrees_refl _) fun _ _ _ => agrees_locked ?_
  exact agrees_andThen (agrees_draft hadmin htask window _) _

theorem agrees_transition (hadmin : ctx.actor.role = .admin) {id : TaskId} {target : TaskState}
    {c : Circumstances} (h : s.Owns a (.transition id target c)) (setup : Setup) :
    Agrees s (transition setup ctx id target c)
      (transition setup (ctx.asSchedulerOf a) id target c) := by
  have hid := h.tasks id (by simp [Operation.tasks])
  have hcheck := Transition.check_congr (x := ctx.actor) (y := (ctx.asSchedulerOf a).actor)
    (by simp [hadmin]) (by simp [Context.asSchedulerOf])
    (by simp [Actor.managesWork, Context.asSchedulerOf, hadmin])
  refine agrees_visibleTask_bind hadmin hid fun task _ _ _ => agrees_locked ?_
  refine agrees_visibleTask_bind hadmin hid fun current _ _ _ => ?_
  rw [hcheck]
  exact agrees_refl _

end Service

/-- An administrator who names records of one tenant does for it what its schedulers do. -/
theorem Operation.agrees_service {s : Store} {a : TenantId} {ctx : Context} (hs : s.Indexed)
    (hlabelled : s.Labelled) (hadmin : ctx.actor.role = .admin) (setup : Setup) {o : Operation}
    (ho : o ≠ .conflicts) (h : s.Owns a o) :
    Service.Agrees s (o.service setup ctx) (o.service setup (ctx.asSchedulerOf a)) := by
  cases o with
  | depend task prerequisite kind => exact Service.agrees_map _ (Service.agrees_depend hadmin h)
  | undepend id => exact Service.agrees_andThen (Service.agrees_undepend hadmin h) _
  | dependencies task => exact Service.agrees_map _ (Service.agrees_dependencies hadmin hs h)
  | dependents task => exact Service.agrees_map _ (Service.agrees_dependents hadmin hs h)
  | reschedule m => exact Service.agrees_map _ (Service.agrees_reschedule hadmin h setup)
  | history task => exact Service.agrees_map _ (Service.agrees_history hadmin hlabelled h)
  | conflicts => exact absurd rfl ho
  | transition id target c => exact Service.agrees_map _ (Service.agrees_transition hadmin h setup)

/-! ### What an administrator sees of a tenant -/

namespace Store

variable {s : Store} {a : TenantId}

/-- The open tasks of a tenant are listed for its schedulers as they are listed for those who see
all tenants, but for the tasks of other tenants in between. -/
theorem active_only (s : Store) (a : TenantId) :
    s.active (.only a) = (s.active .all).filter fun t => t.tenant = a := by
  have hrows : s.tasks.rows.filter
        (TaskFilter.admits { scope := .only a, states := [.scheduled, .inProgress] }) =
      (s.tasks.rows.filter
        (TaskFilter.admits { scope := .all, states := [.scheduled, .inProgress] })).filter
          fun t => t.tenant = a := by
    rw [List.filter_filter]
    refine List.filter_congr fun t _ => ?_
    simp [TaskFilter.admits, Bool.and_assoc, eq_comm]
  have hsorted : ∀ f : TaskFilter,
      SortedBy Task.rank (s.tasksWhere f) (s.tasks.rows.filter f.admits) := by
    intro f
    refine sortedBy_mergeSort Task.precedes_iff Task.id_eq_of_rank ?_
    exact s.tasks.nodup.sublist (List.filter_sublist.map Task.id)
  refine (hsorted _).eq ?_
  rw [hrows]
  exact (hsorted _).filter _

theorem owner?_of_mem_conflictsAt {t : Task} (ht : s.tasks.find? t.id = some t) {c : Conflict}
    (hc : c ∈ s.conflictsAt t) : s.owner? c.task = some t.tenant := by
  obtain ⟨d, -, hc⟩ := List.mem_filterMap.mp hc
  obtain ⟨p, -, hc⟩ := Option.bind_eq_some_iff.mp hc
  obtain ⟨-, rfl⟩ := Conflict.between_eq_some_iff.mp hc
  simp [owner?, ht]

/-- The conflicts of a tenant are found for its schedulers as they are found for those who see all
tenants. -/
theorem conflictsIn_only (s : Store) (a : TenantId) :
    s.conflictsIn (.only a) = (s.conflictsIn .all).filter fun c => s.owner? c.task = some a := by
  have hfilter : ∀ ts : List Task, (∀ t ∈ ts, s.tasks.find? t.id = some t) →
      (ts.filter fun t => t.tenant = a).flatMap s.conflictsAt =
        (ts.flatMap s.conflictsAt).filter fun c => s.owner? c.task = some a := by
    intro ts hts
    induction ts with
    | nil => rfl
    | cons t ts ih =>
        have howner : ∀ c ∈ s.conflictsAt t, s.owner? c.task = some t.tenant := fun c hc =>
          owner?_of_mem_conflictsAt (hts t List.mem_cons_self) hc
        rw [List.flatMap_cons, List.filter_append, ← ih fun t' h => hts t' (List.mem_cons_of_mem t h)]
        by_cases ha : t.tenant = a
        · have hall : (s.conflictsAt t).filter (fun c => s.owner? c.task = some a) = s.conflictsAt t :=
            List.filter_eq_self.mpr fun c hc => by simp [howner c hc, ha]
          rw [List.filter_cons_of_pos (by simpa using ha), List.flatMap_cons, hall]
        · have hnone : (s.conflictsAt t).filter (fun c => s.owner? c.task = some a) = [] :=
            List.filter_eq_nil_iff.mpr fun c hc => by simp [howner c hc, ha]
          rw [List.filter_cons_of_neg (by simpa using ha), hnone, List.nil_append]
  rw [conflictsIn, conflictsIn, active_only, hfilter]
  exact fun t ht => (task?_eq_some_iff.mp (mem_active.mp ht).1).1

end Store

namespace World

/-- An administrator who names records of one tenant gets from the service what a scheduler of that
tenant gets, and leaves the same world, whatever goes wrong. An administrator who looks for conflicts
finds, among others, those that a scheduler of the tenant finds, in the same order. -/
theorem administers {w : World} (h : w.store.Indexed) (hlabelled : w.store.Labelled) (a : TenantId)
    (q : Request) (hadmin : q.ctx.actor.role = .admin) :
    (q.operation ≠ .conflicts → w.store.Owns a q.operation →
      w.handle (q.asSchedulerOf a) = w.handle q) ∧
    (q.operation = .conflicts → (w.facing q).Clear w.store →
      let all := w.store.conflictsIn .all
      w.handle q = (.ok (.conflicts all), w.facing q) ∧
      w.handle (q.asSchedulerOf a) =
        (.ok (.conflicts (all.filter fun c => w.store.owner? c.task = some a)), w.facing q)) := by
  constructor
  · intro ho howns
    exact (Operation.agrees_service h hlabelled hadmin q.setup ho howns (w.facing q) rfl
      (within_facing w q)).symm
  · intro ho hclear all
    have hserve : ∀ ctx : Context, (w.facing q).runOperation q.setup ctx q.operation =
        (.ok (.conflicts (w.store.conflictsIn ctx.scope)), w.facing q) := by
      intro ctx
      rw [runOperation, ho, Operation.service, serve_map, serve_conflicts hclear]
      rfl
    constructor
    · rw [handle, hserve, Service.scope_of_admin hadmin]
    · rw [← Store.conflictsIn_only]
      exact hserve (q.ctx.asSchedulerOf a)

/-- An administrator of the platform, who belongs to the second tenant, moves the first tenant's
first task, on which others wait, and then looks for conflicts, of which the second tenant has one
as well. -/
theorem administers_sample :
    let foreign (n h : Nat) : Task := { Store.sampleTask n h 0 with tenant := .ofNat 2 }
    let waits : Dependency := { Store.sampleDependency 3 5 4 with tenant := .ofNat 2 }
    let late : Store := { Store.sample with
      tasks := ((Store.sample.tasks.put (Store.sampleTask 1 2 0)).put (foreign 4 1)).put (foreign 5 0) }
    let w : World := { store := late.link waits }
    let ctx : Context := ⟨⟨.ofNat 2, .ofNat 1, .admin⟩, Store.hour 0 0, BitVec.ofNat 128 8⟩
    let move : Request := {
      setup := {}
      ctx
      operation := .reschedule ⟨.ofNat 1, Store.hour 3 0, Store.hour 4 0, "late", true⟩ }
    let look : Request := { setup := {}, ctx, operation := .conflicts }
    let all := w.store.conflictsIn .all
    let part := all.filter fun c => w.store.owner? c.task = some (.ofNat 1)
    w.handle (move.asSchedulerOf (.ofNat 1)) = w.handle move ∧
      w.handle look = (.ok (.conflicts all), w) ∧
      w.handle (look.asSchedulerOf (.ofNat 1)) = (.ok (.conflicts part), w) ∧
      all.map Conflict.task = [.ofNat 5, .ofNat 2] ∧ part.map Conflict.task = [.ofNat 2] := by
  intro foreign waits late w ctx move look all part
  have htasks : (w.store.conflictsIn .all).map Conflict.task = [.ofNat 5, .ofNat 2] := by cbv
  have hpart : ((w.store.conflictsIn .all).filter fun c =>
      w.store.owner? c.task = some (.ofNat 1)).map Conflict.task = [.ofNat 2] := by cbv
  have hlate : late.Indexed := Store.indexed_sample.of_eq rfl rfl rfl
  have hindexed : w.store.Indexed := hlate.link (by decide)
  have hlabelled : w.store.Labelled := by
    intro c hc
    cases hc
  have howns : w.store.Owns (.ofNat 1) move.operation := by
    refine ⟨?_, by simp [move, Operation.dependencyIds]⟩
    simp only [move, Operation.tasks, List.mem_singleton, forall_eq]
    intro t ht
    have hfound : w.store.tasks.find? (.ofNat 1) = some (Store.sampleTask 1 2 0) := by decide
    cases hfound.symm.trans ht
    rfl
  obtain ⟨hmove, -⟩ := administers hindexed hlabelled (.ofNat 1) move rfl
  obtain ⟨-, hlook⟩ := administers hindexed hlabelled (.ofNat 1) look rfl
  obtain ⟨hadmin, hscheduler⟩ := hlook rfl ⟨rfl, rfl, fun _ _ => rfl⟩
  exact ⟨hmove (by decide) howns, hadmin, hscheduler, htasks, hpart⟩

end World

end Overhaul
