import Overhaul.Proofs.Dependencies.Search
import Overhaul.Proofs.Reschedule.Outcome
import Overhaul.Service.Operation

/-!
# What operations may write

Every operation makes only a few kinds of calls that change anything. Main statement: whatever an
operation is told, it takes no other steps than idle ones and calls of its kinds
(`Operation.only_service`).
-/

namespace Overhaul

/-- The step is idle, or a call of one of the kinds. -/
def Step.IdleOr (kinds : List CallKind) (st : Step) : Prop :=
  st.Idle ∨ ∃ c, st = .call c ∧ c.kind ∈ kinds

theorem Step.Reads.idleOr {kinds : List CallKind} {st : Step} (h : st.Reads) : st.IdleOr kinds :=
  .inl h.idle

theorem Step.idleOr_call {kinds : List CallKind} {c : Call} (h : c.kind ∈ kinds) :
    IdleOr kinds (.call c) :=
  .inr ⟨c, rfl, h⟩

/-- The step is idle, or adds a dependency that is made for the request: under its identifier, and at
the time that its clock shows. -/
def Step.Adds (ctx : Context) (st : Step) : Prop :=
  st.Idle ∨ ∃ d : Dependency, st = .call (.addDependency d) ∧ d.id = ⟨ctx.fresh⟩ ∧
    ctx.clock.inUtc? = some d.created

namespace Service

variable {α : Type} {kinds : List CallKind}

/-- What only reads makes no call that changes anything. -/
theorem Only.idleOr {p : Service α} (h : Only Step.Reads p) : Only (Step.IdleOr kinds) p :=
  Program.Only.imp (fun _ => Step.Reads.idleOr) h

/-- A lock changes nothing. -/
theorem only_idleOr_locked {tenant : TenantId} {p : Service α} (h : Only (Step.IdleOr kinds) p) :
    Only (Step.IdleOr kinds) (locked tenant p) :=
  only_locked (.inl trivial) (.inl trivial) h

theorem only_idleOr_ask {c : Call} (h : c.kind ∈ kinds) : Only (Step.IdleOr kinds) (ask c) :=
  only_ask (Step.idleOr_call h)

theorem only_idleOr_publish {setup : Setup} {tenant : TenantId} {task : TaskId}
    {eventType : String} {payload : Option Json} (h : .announce ∈ kinds) :
    Only (Step.IdleOr kinds) (publish setup tenant task eventType payload) :=
  only_publish (fun _ => Step.idleOr_call h) setup tenant task eventType payload

/-! ### Dependencies -/

/-- The only dependency that is added is the one that is made. -/
theorem only_depend_adds (ctx : Context) (task prerequisite : TaskId)
    (kind : Option DependencyKind) : Only (Step.Adds ctx) (depend ctx task prerequisite kind) := by
  unfold depend
  refine only_guard fun _ => ?_
  refine only_bind (only_visibleTask (.inl trivial)) fun waiting => ?_
  refine only_bind (only_visibleTask (.inl trivial)) fun awaited => ?_
  refine only_guard fun _ => only_locked (.inl trivial) (.inl trivial) ?_
  refine only_bind (only_ask (.inl trivial)) fun present => ?_
  refine only_guard fun _ => only_bind (only_reaches (fun _ => .inl trivial) _ _ _) fun circular => ?_
  refine only_guard fun _ => only_bind (only_ensureActive (.inl trivial)) fun _ => ?_
  refine only_ofExcept_bind fun now hnow => ?_
  refine only_bind (only_ask (.inr ⟨_, rfl, rfl, ?_⟩)) fun _ => only_pure _
  exact Timestamp.toUtc_eq_ok_iff.mp hnow

theorem only_depend (ctx : Context) (task prerequisite : TaskId) (kind : Option DependencyKind) :
    Only (Step.IdleOr [.addDependency]) (depend ctx task prerequisite kind) := by
  refine Program.Only.imp (fun st hst => ?_) (only_depend_adds ctx task prerequisite kind)
  rcases hst with hidle | ⟨d, rfl, -⟩
  · exact .inl hidle
  · exact Step.idleOr_call (by simp [Call.kind])

theorem only_undepend (ctx : Context) (id : DependencyId) :
    Only (Step.IdleOr [.removeDependency]) (undepend ctx id) := by
  refine only_bind (only_ask (.inl trivial)) fun found => ?_
  cases found with
  | none => exact only_throw _
  | some d =>
      refine only_idleOr_locked (only_bind (only_ensureActive (.inl trivial)) fun _ => ?_)
      refine only_bind (only_idleOr_ask (by simp [Call.kind])) fun removed => ?_
      cases removed with
      | true => exact only_pure _
      | false => exact only_throw _

theorem only_dependencies (ctx : Context) (task : TaskId) :
    Only Step.Reads (dependencies ctx task) :=
  only_bind (only_map _ (only_visibleTask trivial)) fun _ => only_ask trivial

theorem only_dependents (ctx : Context) (task : TaskId) :
    Only Step.Reads (dependents ctx task) :=
  only_bind (only_map _ (only_visibleTask trivial)) fun _ => only_ask trivial

/-! ### Moves -/

theorem only_writeCascade {P : Step → Prop} (hactive : P .isCancelled)
    (hput : ∀ t, P (.call (.putTask t))) (shifts : List Shift) : Only P (writeCascade shifts) := by
  induction shifts with
  | nil => exact only_pure _
  | cons shift rest ih =>
      have hshift : Only P (do ensureActive; ask (.putTask shift.after)) :=
        only_bind (only_ensureActive hactive) fun _ => only_ask (hput _)
      refine only_bind (only_outcome hshift) fun r => ?_
      cases r with
      | error failure => exact only_pure _
      | ok _ => exact only_bind ih fun _ => only_pure _

theorem only_writeBack {P : Step → Prop} (hput : ∀ t, P (.call (.putTask t))) (ts : List Task) :
    Only P (writeBack ts) := by
  induction ts with
  | nil => exact only_pure _
  | cons t rest ih => exact only_bind (only_map _ (only_attempt (hput t))) fun _ => ih

theorem only_record {P : Step → Prop} (hadd : ∀ c, P (.call (.addChange c)))
    (hannounce : ∀ m, P (.call (.announce m))) (setup : Setup) (c : ScheduleChange) :
    Only P (record setup c) :=
  only_bind (only_ask (hadd c)) fun _ => only_publish hannounce setup _ _ _ _

theorem only_carryOut {P : Step → Prop} {setup : Setup} (hactive : P .isCancelled)
    (hput : ∀ t, P (.call (.putTask t))) (hrecord : ∀ c, Only P (record setup c)) (d : Draft) :
    Only P (carryOut setup d) := by
  refine only_bind (only_ask (hput _)) fun _ => ?_
  refine only_bind (only_writeCascade hactive hput _) fun p => ?_
  obtain ⟨written, failure⟩ := p
  cases failure with
  | none => exact only_bind (hrecord _) fun _ => only_pure _
  | some failure =>
      refine only_bind ?_ fun _ => only_throw _
      unfold settle
      split
      · exact only_map _ (only_outcome (hrecord _))
      · exact only_writeBack hput _

theorem only_reschedule (setup : Setup) (ctx : Context) (m : Move) :
    Only (Step.IdleOr [.putTask, .addChange, .announce]) (reschedule setup ctx m) := by
  refine only_bind (only_ofExcept _) fun window => only_guard fun _ => ?_
  refine only_bind (only_visibleTask (.inl trivial)) fun task => only_guard fun _ => ?_
  refine only_bind (only_ensureOpen task) fun _ => only_idleOr_locked ?_
  refine only_bind (only_draft _ _ _ _).idleOr fun d => ?_
  refine only_carryOut (.inl trivial) (fun _ => Step.idleOr_call (by simp [Call.kind])) ?_ d
  exact only_record (fun _ => Step.idleOr_call (by simp [Call.kind]))
    (fun _ => Step.idleOr_call (by simp [Call.kind])) setup

theorem only_history (ctx : Context) (task : TaskId) : Only Step.Reads (history ctx task) :=
  only_bind (only_map _ (only_visibleTask trivial)) fun _ => only_ask trivial

/-! ### Conflicts -/

theorem only_conflictsAlong (task : Task) (ds : List Dependency) :
    Only Step.Reads (conflictsAlong task ds) := by
  induction ds with
  | nil => exact only_pure _
  | cons d rest ih =>
      refine only_bind (only_ask trivial) fun found => ?_
      cases found with
      | none => exact ih
      | some t => exact only_bind ih fun _ => only_pure _

theorem only_conflictsOf (ts : List Task) : Only Step.Reads (conflictsOf ts) := by
  induction ts with
  | nil => exact only_pure _
  | cons t rest ih =>
      refine only_bind (only_ask trivial) fun all => ?_
      refine only_bind (only_conflictsAlong _ _) fun here => ?_
      exact only_bind ih fun _ => only_pure _

theorem only_conflicts (ctx : Context) : Only Step.Reads (conflicts ctx) :=
  only_bind (only_ensureActive trivial) fun _ =>
    only_bind (only_ask trivial) fun _ => only_conflictsOf _

/-! ### Transitions -/

/-- Parts that are given back on a condition come before what follows in either case. -/
theorem only_releasing {P : Step → Prop} {c : Prop} [Decidable c] {tenant : TenantId} {task : TaskId}
    {k : Unit → Service α} (hrelease : c → P (.call (.releaseParts tenant task)))
    (hk : Only P (k ())) : Only P (if c then ask (.releaseParts tenant task) >>= k else k ()) := by
  split
  · rename_i hc
    exact only_bind (only_ask (hrelease hc)) fun _ => hk
  · exact hk

/-- The task is not in the state, and may be taken there. -/
def Grants (setup : Setup) (ctx : Context) (target : TaskState) (c : Circumstances) (t : Task) :
    Prop :=
  t.state ≠ target ∧ Transition.check ctx.actor t target c setup.settings.tolerances = .ok ()

/-- A transition takes idle steps. Once it is granted, parts are given back, if the task is cancelled;
the task is written with the time that the clock shows, and this is announced. -/
theorem only_transition {P : Step → Prop} {setup : Setup} {ctx : Context} {id : TaskId}
    {target : TaskState} {c : Circumstances} (hidle : ∀ st : Step, st.Idle → P st)
    (hrelease : ∀ t, Grants setup ctx target c t → target = .cancelled →
      ∀ tenant task, P (.call (.releaseParts tenant task)))
    (hset : ∀ t, Grants setup ctx target c t → ∀ scope now, ctx.clock.inUtc? = some now →
      P (.call (.setState scope id target c.notes now)))
    (hpublish : ∀ t, Grants setup ctx target c t → ∀ tenant, Only P (publish setup tenant id
      "task.state_changed" (some (transitionPayload id t.state target c.notes)))) :
    Only P (transition setup ctx id target c) := by
  have hsee : Only P (visibleTask ctx id .task) := only_visibleTask (hidle _ trivial)
  have hactive : Only P ensureActive := only_ensureActive (hidle _ trivial)
  refine only_bind hsee fun _ => only_locked (hidle _ trivial) (hidle _ trivial) ?_
  refine only_bind hsee fun t => only_ofExcept_bind fun _ hcheck => ?_
  dsimp only
  split
  · exact only_pure _
  rename_i hne
  have hgrants : Grants setup ctx target c t := ⟨hne, hcheck⟩
  refine only_bind hactive fun _ => only_releasing (fun h => hrelease t hgrants h.1 _ _) ?_
  refine only_bind hactive fun _ => only_ofExcept_bind fun now hnow => ?_
  have hclock := Timestamp.toUtc_eq_ok_iff.mp hnow
  refine only_bind (only_ask (hset t hgrants _ _ hclock)) fun found => ?_
  cases found with
  | none => exact only_throw _
  | some updated => exact only_bind (hpublish t hgrants _) fun _ => only_pure _

theorem only_idleOr_transition (setup : Setup) (ctx : Context) (id : TaskId) (target : TaskState)
    (c : Circumstances) :
    Only (Step.IdleOr [.setState, .announce, .releaseParts])
      (transition setup ctx id target c) := by
  refine only_transition (fun _ => .inl) ?_ ?_ fun _ _ _ => only_idleOr_publish (by simp)
  · exact fun _ _ _ _ _ => Step.idleOr_call (by simp [Call.kind])
  · exact fun _ _ _ _ _ => Step.idleOr_call (by simp [Call.kind])

end Service

/-- The kinds of calls with which an operation may change something. -/
def Operation.kinds : Operation → List CallKind
  | .depend _ _ _ => [.addDependency]
  | .undepend _ => [.removeDependency]
  | .reschedule _ => [.putTask, .addChange, .announce]
  | .transition _ _ _ => [.setState, .announce, .releaseParts]
  | .dependencies _ | .dependents _ | .history _ | .conflicts => []

/-- An operation takes idle steps and makes calls of its kinds. -/
theorem Operation.only_service (setup : Setup) (ctx : Context) (o : Operation) :
    Service.Only (Step.IdleOr o.kinds) (o.service setup ctx) := by
  cases o with
  | depend task prerequisite kind => exact Service.only_map _ (Service.only_depend _ _ _ _)
  | undepend id =>
      exact Service.only_bind (Service.only_undepend _ _) fun _ => Service.only_pure _
  | dependencies task => exact Service.only_map _ (Service.only_dependencies _ _).idleOr
  | dependents task => exact Service.only_map _ (Service.only_dependents _ _).idleOr
  | reschedule move => exact Service.only_map _ (Service.only_reschedule _ _ _)
  | history task => exact Service.only_map _ (Service.only_history _ _).idleOr
  | conflicts => exact Service.only_map _ (Service.only_conflicts _).idleOr
  | transition task target c => exact Service.only_map _ (Service.only_idleOr_transition _ _ _ _ _)

end Overhaul
