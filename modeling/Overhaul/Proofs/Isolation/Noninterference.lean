import Overhaul.Proofs.Dependencies.Search
import Overhaul.Proofs.Isolation.Confined
import Overhaul.Proofs.Reschedule.Walk
import Overhaul.Proofs.Session
import Overhaul.Proofs.Store.Index

/-!
# Tenants do not see each other

Who administers no platform sees one tenant alone, and keeps to it whatever the operation. The walks
through the dependencies never leave the tenant either, as each of their look-ups is made for it.
Main statement: how a request ends depends on the records of its actor's tenant alone, and the
records of no other tenant are changed (`World.noninterference`).
-/

namespace Overhaul

theorem Registry.Owns.renew {o : Registry} {a : TenantId} {t t' : Task} (h : o.Owns a t)
    (hid : t'.id = t.id) (htenant : t'.tenant = t.tenant) (hdeleted : t'.deleted = t.deleted) :
    o.Owns a t' := by
  rwa [Owns, hid, htenant, hdeleted]

theorem Registry.Owns.withWindow {o : Registry} {a : TenantId} {t t' : Task}
    {start finish now : Timestamp} (h : o.Owns a t)
    (hmoved : t.withWindow start finish now = .ok t') : o.Owns a t' := by
  obtain ⟨window, updated, -, -, rfl⟩ := Task.withWindow_eq_ok_iff.mp hmoved
  exact h.renew rfl rfl rfl

theorem Registry.Owns.shifted {o : Registry} {a : TenantId} {t t' : Task} {nanos : Int}
    {now : Timestamp} (h : o.Owns a t) (hmoved : t.shifted nanos now = .ok t') : o.Owns a t' := by
  obtain ⟨start, finish, updated, -, -, -, rfl⟩ := Task.shifted_eq_ok_iff.mp hmoved
  exact h.renew rfl rfl rfl

/-- Both records are the tenant's. -/
def Shift.OwnedBy (o : Registry) (a : TenantId) (x : Shift) : Prop :=
  o.Owns a x.before ∧ o.Owns a x.after

/-- Whatever is to be written or recorded is the tenant's. -/
structure Draft.OwnedBy (o : Registry) (a : TenantId) (d : Draft) : Prop where
  root : o.Owns a d.root
  moved : o.Owns a d.moved
  shifts : ∀ x ∈ d.shifts, x.OwnedBy o a
  change : d.change.tenant = a ∧ o.change d.change.id = a

/-- New records of the request will belong to the tenant. -/
structure Registry.Grants (o : Registry) (a : TenantId) (ctx : Context) : Prop where
  dependency : o.dependency ⟨ctx.fresh⟩ = a
  change : o.change ⟨ctx.fresh⟩ = a

namespace Service

variable {o : Registry} {a : TenantId} {ctx : Context}

theorem confined_visibleTask (hscope : ctx.scope = .only a) (id : TaskId)
    (missing : TaskId → Missing) :
    Confined o a (fun t => t.id = id ∧ o.Owns a t) (visibleTask ctx id missing) := by
  have hask : Step.Concerns o a (.call (.task ctx.scope id)) := .inl hscope
  refine confined_bind (confined_ask hask) fun found hfound => ?_
  cases found with
  | none => exact confined_throw _
  | some t =>
      obtain ⟨hid, hincludes, howner⟩ := hfound
      have htenant : t.tenant = a := by simpa [hscope, eq_comm] using hincludes
      refine confined_pure ⟨hid, htenant, ?_⟩
      rw [hid, howner, htenant]

/-- What is listed about a visible task is the tenant's, if this is so of the call. -/
theorem confined_listing (hscope : ctx.scope = .only a) (task : TaskId) (c : Call)
    (hc : Step.Concerns o a (.call c)) :
    Confined o a (fun _ => True) (do discard <| visibleTask ctx task .task; ask c) := by
  refine confined_bind (confined_map (confined_visibleTask hscope _ _)) fun _ _ => ?_
  exact confined_of_only (only_ask hc)

/-- An announcement about a task of the tenant concerns the tenant. -/
theorem confined_publish (setup : Setup) (task : TaskId) (eventType : String)
    (payload : Option Json) :
    Confined o a (fun _ => True) (publish setup a task eventType payload) := by
  unfold publish
  split
  · exact confined_map (confined_attempt ⟨rfl, task, rfl⟩)
  · exact confined_pure trivial

/-! ### Dependencies -/

theorem confined_depend (hscope : ctx.scope = .only a) (hctx : o.Grants a ctx)
    (task prerequisite : TaskId) (kind : Option DependencyKind) :
    Confined o a (fun _ => True) (depend ctx task prerequisite kind) := by
  unfold depend
  refine confined_guard fun _ => ?_
  refine confined_bind (confined_visibleTask hscope _ _) fun waiting hwaiting => ?_
  refine confined_bind (confined_visibleTask hscope _ _) fun awaited hawaited => ?_
  refine confined_guard fun _ => confined_locked ?_
  obtain ⟨rfl, rfl, hwaiting⟩ := hwaiting
  obtain ⟨rfl, -, hawaited⟩ := hawaited
  refine confined_bind (confined_ask rfl) fun present _ => confined_guard fun _ => ?_
  refine confined_bind (confined_of_only (only_reaches (fun _ => rfl) _ _ _)) fun circular _ => ?_
  refine confined_guard fun _ => confined_bind confined_ensureActive fun _ _ => ?_
  refine confined_bind (confined_ofExcept_any _) fun now _ => ?_
  have hknown : ∀ t ∈ [waiting.id, awaited.id], (o.task t).isSome = true := by
    simp [hwaiting, hawaited]
  refine confined_bind (confined_ask ⟨⟨rfl, hctx.dependency⟩, hknown⟩) fun _ _ => ?_
  exact confined_pure trivial

theorem confined_undepend (hscope : ctx.scope = .only a) (id : DependencyId) :
    Confined o a (fun _ => True) (undepend ctx id) := by
  have hask : Step.Concerns o a (.call (.dependency ctx.scope id)) := hscope
  refine confined_bind (confined_ask hask) fun found hfound => ?_
  cases found with
  | none => exact confined_throw _
  | some d =>
      have hincludes : ctx.scope.includes d.tenant = true := hfound
      have htenant : a = d.tenant := by simpa [hscope] using hincludes
      subst htenant
      refine confined_locked (confined_bind confined_ensureActive fun _ _ => ?_)
      refine confined_bind (confined_ask rfl) fun removed _ => ?_
      cases removed with
      | true => exact confined_pure trivial
      | false => exact confined_throw _

/-! ### Moves -/

/-- Only tasks of the tenant are moved along: whatever the walk looks up, it looks up for the
tenant. -/
theorem confined_plan (nanos : Int) (now : Timestamp) (seen : Seen .task) (stack : List TaskId)
    (pending : List Dependency) :
    Confined o a (fun shifts => ∀ x ∈ shifts, x.OwnedBy o a)
      (plan a nanos now seen stack pending) := by
  induction seen, stack, pending using plan.induct a with
  | case1 seen stack d pending hseen ih => rw [plan, dif_pos hseen]; exact ih
  | case2 seen stack d pending hseen _ ih₁ ih₂ =>
      rw [plan, dif_neg hseen]
      refine confined_bind (confined_ask (c := .task (.only a) d.task) (.inl rfl))
        fun found hfound => ?_
      cases found with
      | none => exact ih₁
      | some t =>
          obtain ⟨hid, hincludes, howner⟩ := hfound
          have htenant : t.tenant = a := by simpa [eq_comm] using hincludes
          have howns : o.Owns a t := ⟨htenant, by rw [hid, howner, htenant]⟩
          dsimp only
          split
          · exact ih₁
          · refine confined_bind (confined_ofExcept fun moved hmoved => howns.shifted hmoved)
              fun moved hmoved => ?_
            refine confined_bind ih₂ fun rest hrest => confined_pure ?_
            exact List.forall_mem_cons.mpr ⟨⟨howns, hmoved⟩, hrest⟩
  | case3 seen => rw [plan]; exact confined_pure (by simp)
  | case4 seen task stack ih =>
      rw [plan]
      exact confined_bind (confined_ask rfl) fun waiting _ => ih waiting

theorem confined_writeCascade {shifts : List Shift} (h : ∀ x ∈ shifts, x.OwnedBy o a) :
    Confined o a (fun p => ∀ t ∈ p.1, o.Owns a t) (writeCascade shifts) := by
  induction shifts with
  | nil => exact confined_pure (by simp)
  | cons shift rest ih =>
      obtain ⟨⟨hbefore, hafter⟩, hrest⟩ := List.forall_mem_cons.mp h
      have hput : Confined o a (fun _ => True) (do ensureActive; ask (.putTask shift.after)) :=
        confined_bind confined_ensureActive fun _ _ => confined_of_only (only_ask hafter)
      refine confined_bind (confined_outcome hput) fun r _ => ?_
      cases r with
      | error failure => exact confined_pure (by simp)
      | ok _ =>
          refine confined_bind (ih hrest) fun p hp => confined_pure ?_
          exact List.forall_mem_cons.mpr ⟨hbefore, hp⟩

theorem confined_writeBack {ts : List Task} (h : ∀ t ∈ ts, o.Owns a t) :
    Confined o a (fun _ => True) (writeBack ts) := by
  induction ts with
  | nil => exact confined_pure trivial
  | cons t rest ih =>
      obtain ⟨ht, hrest⟩ := List.forall_mem_cons.mp h
      have hput : Step.Concerns o a (.call (.putTask t)) := ht
      exact confined_bind (confined_of_only (only_map _ (only_attempt hput))) fun _ _ => ih hrest

theorem confined_record (setup : Setup) {c : ScheduleChange}
    (hc : c.tenant = a ∧ o.change c.id = a) : Confined o a (fun _ => True) (record setup c) := by
  have hadd : Step.Concerns o a (.call (.addChange c)) := hc
  refine confined_bind (confined_ask hadd) fun _ _ => ?_
  rw [hc.1]
  exact confined_publish _ _ _ _

theorem confined_settle (setup : Setup) {d : Draft} (hd : d.OwnedBy o a) {written : List Task}
    (hwritten : ∀ t ∈ written, o.Owns a t) :
    Confined o a (fun _ => True) (settle setup d.root d.change written) := by
  unfold settle
  split
  · exact confined_map (confined_outcome (confined_record setup hd.change))
  · refine confined_writeBack fun t ht => ?_
    rcases List.mem_append.mp ht with ht | ht
    · exact hwritten t (List.mem_reverse.mp ht)
    · rw [List.mem_singleton.mp ht]
      exact hd.root

theorem confined_carryOut (setup : Setup) {d : Draft} (hd : d.OwnedBy o a) :
    Confined o a (fun _ => True) (carryOut setup d) := by
  have hput : Step.Concerns o a (.call (.putTask d.moved)) := hd.moved
  refine confined_bind (confined_ask hput) fun _ _ => ?_
  refine confined_bind (confined_writeCascade hd.shifts) fun p hp => ?_
  obtain ⟨written, failure⟩ := p
  cases failure with
  | some failure => exact confined_bind (confined_settle setup hd hp) fun _ _ => confined_throw _
  | none =>
      refine confined_bind (confined_record setup ?_) fun _ _ => confined_pure trivial
      exact hd.change

theorem confined_ensureOpen (t : Task) : Confined o a (fun _ => True) (ensureOpen t) := by
  unfold ensureOpen
  split
  · exact confined_throw _
  · exact confined_pure trivial

theorem confined_draft (hscope : ctx.scope = .only a) (hctx : o.Grants a ctx) (m : Move)
    (window : Window) (reason : String) :
    Confined o a (Draft.OwnedBy o a) (draft ctx m window reason) := by
  refine confined_bind (confined_visibleTask hscope _ _) fun root hroot => ?_
  obtain ⟨-, hroot⟩ := hroot
  refine confined_bind (confined_ensureOpen root) fun _ _ => ?_
  refine confined_bind (confined_ofExcept_any _) fun now _ => ?_
  -- what is left once the tasks to be moved along are known
  have hrest : ∀ shifts change, (∀ x ∈ shifts, x.OwnedBy o a) →
      change.tenant = a ∧ o.change change.id = a → Confined o a (Draft.OwnedBy o a) (do
        ensureActive
        let moved ← ofExcept (Task.withWindow root window.start window.finish now)
        return ({ root, moved, shifts, change } : Draft)) := by
    intro shifts change hshifts hchange
    refine confined_bind confined_ensureActive fun _ _ => ?_
    refine confined_bind (confined_ofExcept fun moved hmoved => hroot.withWindow hmoved) ?_
    exact fun moved hmoved => confined_pure ⟨hroot, hmoved, hshifts, hchange⟩
  dsimp only
  split
  · unfold planCascade
    rw [hroot.1]
    refine confined_bind (confined_plan _ now _ _ _) fun shifts hshifts => ?_
    exact hrest _ _ hshifts ⟨rfl, hctx.change⟩
  · refine confined_bind (Q := fun shifts => shifts = []) (confined_pure rfl) ?_
    rintro shifts rfl
    exact hrest _ _ (by simp) ⟨hroot.1, hctx.change⟩

theorem confined_reschedule (setup : Setup) (hscope : ctx.scope = .only a) (hctx : o.Grants a ctx)
    (m : Move) : Confined o a (fun _ => True) (reschedule setup ctx m) := by
  refine confined_bind (confined_ofExcept_any _) fun window _ => ?_
  refine confined_guard fun _ => ?_
  refine confined_bind (confined_visibleTask hscope _ _) fun task _ => ?_
  refine confined_guard fun _ => confined_bind (confined_ensureOpen task) fun _ _ => ?_
  refine confined_locked (confined_bind (confined_draft hscope hctx _ _ _) fun d hd => ?_)
  exact confined_carryOut setup hd

/-! ### Conflicts -/

theorem confined_conflictsAlong {task : Task} (htask : task.tenant = a) (ds : List Dependency) :
    Confined o a (fun _ => True) (conflictsAlong task ds) := by
  induction ds with
  | nil => exact confined_pure trivial
  | cons d rest ih =>
      have hask : Step.Concerns o a (.call (.task (.only task.tenant) d.prerequisite)) :=
        .inl (congrArg Scope.only htask)
      refine confined_bind (confined_ask hask) fun found _ => ?_
      cases found with
      | none => exact ih
      | some t => exact confined_bind ih fun _ _ => confined_pure trivial

theorem confined_conflictsOf {ts : List Task} (hts : ∀ t ∈ ts, t.tenant = a) :
    Confined o a (fun _ => True) (conflictsOf ts) := by
  induction ts with
  | nil => exact confined_pure trivial
  | cons t rest ih =>
      obtain ⟨ht, hrest⟩ := List.forall_mem_cons.mp hts
      have hask : Step.Concerns o a (.call (.dependenciesOf (.only t.tenant) t.id)) :=
        congrArg Scope.only ht
      refine confined_bind (confined_ask hask) fun all _ => ?_
      refine confined_bind (confined_conflictsAlong ht _) fun here _ => ?_
      exact confined_bind (ih hrest) fun _ _ => confined_pure trivial

theorem confined_conflicts (hscope : ctx.scope = .only a) :
    Confined o a (fun _ => True) (conflicts ctx) := by
  refine confined_bind confined_ensureActive fun _ _ => ?_
  have hask : Step.Concerns o a
      (.call (.tasksWhere { scope := ctx.scope, states := [.scheduled, .inProgress] })) := hscope
  refine confined_bind (confined_ask hask) fun active hactive => ?_
  refine confined_conflictsOf fun t ht => ?_
  have hincludes : ctx.scope.includes t.tenant = true := hactive t ht
  simpa [hscope, eq_comm] using hincludes

/-! ### Transitions -/

theorem confined_transition (setup : Setup) (hscope : ctx.scope = .only a) (id : TaskId)
    (target : TaskState) (c : Circumstances) :
    Confined o a (fun _ => True) (transition setup ctx id target c) := by
  refine confined_bind (confined_visibleTask hscope _ _) fun task _ => confined_locked ?_
  refine confined_bind (confined_visibleTask hscope _ _) fun current hcurrent => ?_
  obtain ⟨-, rfl, -⟩ := hcurrent
  refine confined_bind (confined_ofExcept_any _) fun _ _ => ?_
  dsimp only
  split
  · exact confined_pure trivial
  refine confined_bind confined_ensureActive fun _ _ => ?_
  have hrelease : Step.Concerns o current.tenant
      (.call (.releaseParts current.tenant current.id)) := trivial
  refine confined_perhaps (confined_of_only (only_ask hrelease)) ?_
  refine confined_bind confined_ensureActive fun _ _ => ?_
  refine confined_bind (confined_ofExcept_any _) fun now _ => ?_
  refine confined_bind (confined_ask rfl) fun found hfound => ?_
  cases found with
  | none => exact confined_throw _
  | some updated =>
      have hincludes : (Scope.only current.tenant).includes updated.tenant = true := hfound
      have htenant : updated.tenant = current.tenant := by simpa [eq_comm] using hincludes
      dsimp only
      rw [htenant]
      exact confined_bind (confined_publish _ _ _ _) fun _ _ => confined_pure trivial

end Service

/-! ### Requests -/

/-- An actor who sees one tenant alone keeps to it, whatever is asked for. -/
theorem Operation.confined_service {o : Registry} {a : TenantId} (setup : Setup) {ctx : Context}
    (hscope : ctx.scope = .only a) (hctx : o.Grants a ctx) (operation : Operation) :
    Service.Confined o a (fun _ => True) (operation.service setup ctx) := by
  cases operation with
  | depend task prerequisite kind =>
      exact Service.confined_map (Service.confined_depend hscope hctx _ _ _)
  | undepend id =>
      exact Service.confined_bind (Service.confined_undepend hscope _) fun _ _ =>
        Service.confined_pure trivial
  | dependencies task =>
      exact Service.confined_map
        (Service.confined_listing hscope task (.dependenciesOf ctx.scope task) hscope)
  | dependents task =>
      exact Service.confined_map
        (Service.confined_listing hscope task (.dependentsOf ctx.scope task) hscope)
  | reschedule move =>
      exact Service.confined_map (Service.confined_reschedule setup hscope hctx _)
  | history task =>
      exact Service.confined_map
        (Service.confined_listing hscope task (.changesOf ctx.scope task) hscope)
  | conflicts => exact Service.confined_map (Service.confined_conflicts hscope)
  | transition task target c =>
      exact Service.confined_map (Service.confined_transition setup hscope _ _ _)

/-- No record of another tenant has the identifier. -/
structure Store.FreeFor (s : Store) (a : TenantId) (fresh : BitVec 128) : Prop where
  dependency : ∀ d ∈ s.dependencies.rows, d.id = ⟨fresh⟩ → d.tenant = a
  change : ∀ c ∈ s.changes.rows, c.id = ⟨fresh⟩ → c.tenant = a

/-- Every waiting message has the key of a task of its tenant. -/
def Store.Keyed (s : Store) : Prop :=
  ∀ m ∈ s.outbox, ∃ task, m.key = Message.taskKey m.tenant task

/-- A store has a registry that gives free identifiers to the tenant. -/
theorem Store.FreeFor.exists_registry {s : Store} {a : TenantId} {ctx : Context}
    (hfree : s.FreeFor a ctx.fresh) (hkeyed : s.Keyed) :
    ∃ o : Registry, s.Registered o ∧ o.Grants a ctx := by
  let o : Registry := {
    task := fun id => (s.tasks.find? id).map fun t => (t.tenant, t.deleted)
    dependency := fun id => ((s.dependencies.find? id).map Dependency.tenant).getD a
    change := fun id => ((s.changes.find? id).map ScheduleChange.tenant).getD a }
  refine ⟨o, ⟨fun _ => rfl, ?_, ?_, hkeyed⟩, ?_, ?_⟩
  · intro d hd
    simp [o, Table.find?_eq_some_iff.mpr ⟨hd, rfl⟩]
  · intro c hc
    simp [o, Table.find?_eq_some_iff.mpr ⟨hc, rfl⟩]
  · cases hd : s.dependencies.find? ⟨ctx.fresh⟩ with
    | none => simp [o, hd]
    | some d =>
        obtain ⟨hmem, hid⟩ := Table.find?_eq_some_iff.mp hd
        simp [o, hd, hfree.dependency d hmem hid]
  · cases hc : s.changes.find? ⟨ctx.fresh⟩ with
    | none => simp [o, hc]
    | some c =>
        obtain ⟨hmem, hid⟩ := Table.find?_eq_some_iff.mp hc
        simp [o, hc, hfree.change c hmem hid]

/-- Two stores hold the same of a tenant, and may differ in everything else. A request of an actor
of that tenant who does not administer the platform ends alike with both, and both hold the same of
the tenant afterwards; and either holds the same of every other tenant as before. -/
theorem World.noninterference {q : Request} {w : World} {s' : Store}
    (hrole : q.ctx.actor.role ≠ .admin) (hsame : w.store.SameFor q.ctx.actor.tenant s')
    (hfree : w.store.FreeFor q.ctx.actor.tenant q.ctx.fresh)
    (hfree' : s'.FreeFor q.ctx.actor.tenant q.ctx.fresh) (hkeyed : w.store.Keyed)
    (hkeyed' : s'.Keyed) :
    let ended := w.handle q
    let ended' := ({ w with store := s' } : World).handle q
    ended'.1 = ended.1 ∧ ended'.2 = { ended.2 with store := ended'.2.store } ∧
      ended.2.store.SameFor q.ctx.actor.tenant ended'.2.store ∧
      ∀ b, b ≠ q.ctx.actor.tenant →
        ended.2.store.SameFor b w.store ∧ ended'.2.store.SameFor b s' := by
  obtain ⟨o, hs, hctx⟩ := hfree.exists_registry hkeyed
  obtain ⟨o', hs', hctx'⟩ := hfree'.exists_registry hkeyed'
  have hscope : q.ctx.scope = .only q.ctx.actor.tenant := if_neg hrole
  obtain ⟨left, hrun, hleft, hothers⟩ := Program.Confined.run
    (q.operation.confined_service q.setup hscope hctx)
    (q.operation.confined_service q.setup hscope hctx') (within_facing w q) hsame hs hs'
  have hended : ({ w with store := s' } : World).handle q =
      ((w.handle q).1, { (w.handle q).2 with store := left }) := hrun
  simp only [hended]
  exact ⟨trivial, trivial, hleft, hothers⟩

/-- A scheduler moves a task and those that wait for it, once beside a task of another tenant and
once without it. -/
theorem World.noninterference_sample :
    let foreign : Task := { Store.sampleTask 4 0 0 with tenant := .ofNat 2 }
    let beside : Store := { Store.sample with tasks := Store.sample.tasks.put foreign }
    let q : Request := {
      setup := {}
      ctx := ⟨⟨.ofNat 1, .ofNat 1, .scheduler⟩, Store.hour 0 0, BitVec.ofNat 128 8⟩
      operation := .reschedule ⟨.ofNat 1, Store.hour 2 0, Store.hour 3 0, "late", true⟩ }
    let ended := ({ store := .sample } : World).handle q
    let ended' := ({ store := beside } : World).handle q
    ended'.1 = ended.1 ∧ ended'.2 = { ended.2 with store := ended'.2.store } ∧
      ended.2.store.SameFor (.ofNat 1) ended'.2.store ∧
      ∀ b, b ≠ .ofNat 1 →
        ended.2.store.SameFor b Store.sample ∧ ended'.2.store.SameFor b beside := by
  intro foreign beside q
  have hsame : Store.sample.SameFor (.ofNat 1) beside := by
    refine ⟨fun id => ?_, fun _ => rfl, fun _ => rfl, fun _ => rfl, rfl, rfl⟩
    simp only [beside, Store.taskOf, Table.find?_put]
    split
    · rename_i hid
      subst hid
      decide
    · rfl
  have hkeyed : ∀ s : Store, s.outbox = [] → s.Keyed := by
    intro s hs m hm
    simp [hs] at hm
  exact noninterference (w := { store := .sample }) (q := q) (by decide) hsame
    ⟨by decide, by decide⟩ ⟨by decide, by decide⟩ (hkeyed _ rfl) (hkeyed _ rfl)

end Overhaul
