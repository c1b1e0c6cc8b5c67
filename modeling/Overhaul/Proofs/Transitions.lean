import Overhaul.Proofs.Operations

/-!
# What a transition does

A transition that is not refused comes to a single write, with which the task enters its new state.
Main statements: `course_transition_cases` and `course_transition` say what comes before that write and
after it, and `Transition.leads_of_check` which states a task can enter at all.
-/

namespace Overhaul

/-- The ways from one state to another. -/
inductive TaskState.Leads : TaskState → TaskState → Prop
  | start : Leads .scheduled .inProgress
  | complete : Leads .inProgress .completed
  | cancel : Leads .scheduled .cancelled
  | abandon : Leads .inProgress .cancelled

/-- Only an open task can leave its state. -/
theorem TaskState.Leads.isOpen {a b : TaskState} (h : a.Leads b) : a.isClosed = false := by
  cases h <;> rfl

namespace Transition

theorem state_of_requireState {t : Task} {source target : TaskState}
    (h : requireState t source target = .ok ()) : t.state = source := by
  unfold requireState at h
  split at h
  · assumption
  · cases h

/-- What may follow the first of several tests is what passes it. -/
theorem ok_of_bind {α β : Type} {e : Except Failure α} {f : α → Except Failure β} {b : β}
    (h : e >>= f = .ok b) : ∃ a, e = .ok a ∧ f a = .ok b := by
  cases e with
  | error e => cases h
  | ok a => exact ⟨a, rfl, h⟩

/-- A task that may leave its state enters one to which there is a way. -/
theorem leads_of_check {actor : Actor} {t : Task} {target : TaskState} {c : Circumstances}
    {tolerances : Tolerances} (h : check actor t target c tolerances = .ok ())
    (hne : t.state ≠ target) : t.state.Leads target := by
  unfold check at h
  rw [if_neg hne] at h
  cases target with
  | scheduled => cases h
  | inProgress =>
      obtain ⟨_, hstate, -⟩ := ok_of_bind h
      rw [state_of_requireState hstate]
      exact .start
  | completed =>
      obtain ⟨_, hstate, -⟩ := ok_of_bind h
      rw [state_of_requireState hstate]
      exact .complete
  | cancelled =>
      have hcompleted : t.state ≠ .completed := by
        intro hstate
        simp [checkCancellation, hstate, throw, throwThe, MonadExceptOf.throw, bind,
          Except.bind] at h
      cases hstate : t.state with
      | scheduled => exact .cancel
      | inProgress => exact .abandon
      | completed => exact absurd hstate hcompleted
      | cancelled => exact absurd hstate hne

end Transition

namespace Service

variable {sound : CallKind → Prop} {s s' : Store} {log : List Exchange}

/-- What the steps of a transition come to: at most parts are given back, or then the task, which the
actor sees and may take to the state, enters it, and this is announced. -/
inductive Transits (setup : Setup) (ctx : Context) (id : TaskId) (target : TaskState)
    (c : Circumstances) (s : Store) : List Exchange → Prop
  | stays {log : List Exchange} :
      (∀ x ∈ log, x.step.IdleOr [.releaseParts]) → Transits setup ctx id target c s log
  | enters {t : Task} {now : Timestamp} {pre post : List Exchange}
      {e : Except CallError (Option Task)} :
      s.task? ctx.scope id = some t → t.state ≠ target →
      Transition.check ctx.actor t target c setup.settings.tolerances = .ok () →
      (∀ x ∈ pre, x.step.IdleOr [.releaseParts]) → (∀ x ∈ post, x.step.IdleOr [.announce]) →
      Transits setup ctx id target c s
        (pre ++ ⟨.call (.setState (.only t.tenant) id target c.notes now), e⟩ :: post)

variable {setup : Setup} {ctx : Context} {id : TaskId} {target : TaskState} {c : Circumstances}

theorem Transits.append {pre mid post : List Exchange}
    (hpre : ∀ x ∈ pre, x.step.IdleOr [.releaseParts]) (hpost : ∀ x ∈ post, x.step.Idle)
    (h : Transits setup ctx id target c s mid) :
    Transits setup ctx id target c s (pre ++ mid ++ post) := by
  cases h with
  | stays hmid =>
      refine .stays ?_
      simp only [List.forall_mem_append]
      exact ⟨⟨hpre, hmid⟩, fun x hx => .inl (hpost x hx)⟩
  | @enters t now pre' post' e ht hne hcheck hpre' hpost' =>
      have hsplit : pre ++ (pre' ++ ⟨.call (.setState (.only t.tenant) id target c.notes now), e⟩ ::
          post') ++ post = (pre ++ pre') ++
          ⟨.call (.setState (.only t.tenant) id target c.notes now), e⟩ :: (post' ++ post) := by
        simp
      rw [hsplit]
      refine .enters ht hne hcheck (List.forall_mem_append.mpr ⟨hpre, hpre'⟩) ?_
      exact List.forall_mem_append.mpr ⟨hpost', fun x hx => .inl (hpost x hx)⟩

/-- The last part of a transition: the task enters its state, and this is announced. -/
def enter (setup : Setup) (id : TaskId) (target : TaskState) (c : Circumstances) (t : Task)
    (now : Timestamp) : Service Task := do
  match ← ask (.setState (.only t.tenant) id target c.notes now) with
  | none => throw (.notFound (.task id))
  | some updated =>
    publish setup updated.tenant id "task.state_changed"
      (some (transitionPayload id t.state target c.notes))
    return updated

/-- How a transition may unfold: at most parts are given back, or then the task, which the actor sees
and may take to the state, enters it, with idle steps before and after. -/
inductive Proceeds (sound : CallKind → Prop) (setup : Setup) (ctx : Context) (id : TaskId)
    (target : TaskState) (c : Circumstances) (s : Store) (log : List Exchange)
    (r : Except Failure Task) (s' : Store) : Prop
  | stays :
      (∀ x ∈ log, x.step.IdleOr [.releaseParts]) → s' = s →
      Proceeds sound setup ctx id target c s log r s'
  | enters {t : Task} {now : Timestamp} {pre mid post : List Exchange} :
      s.task? ctx.scope id = some t → t.state ≠ target →
      Transition.check ctx.actor t target c setup.settings.tolerances = .ok () →
      log = pre ++ mid ++ post → (∀ x ∈ pre, x.step.IdleOr [.releaseParts]) →
      (∀ x ∈ post, x.step.Idle) → Course sound (enter setup id target c t now) s mid r s' →
      Proceeds sound setup ctx id target c s log r s'

theorem Proceeds.append {pre mid post : List Exchange} {r : Except Failure Task}
    (hpre : ∀ x ∈ pre, x.step.IdleOr [.releaseParts]) (hpost : ∀ x ∈ post, x.step.Idle)
    (h : Proceeds sound setup ctx id target c s mid r s') :
    Proceeds sound setup ctx id target c s (pre ++ mid ++ post) r s' := by
  cases h with
  | stays hmid hs =>
      refine .stays ?_ hs
      simp only [List.forall_mem_append]
      exact ⟨⟨hpre, hmid⟩, fun x hx => .inl (hpost x hx)⟩
  | @enters t now pre' mid' post' ht hne hcheck hlog hpre' hpost' henter =>
      have hlog' : pre ++ mid ++ post = pre ++ pre' ++ mid' ++ (post' ++ post) := by simp [hlog]
      refine .enters ht hne hcheck hlog' ?_ ?_ henter
      · exact List.forall_mem_append.mpr ⟨hpre, hpre'⟩
      · exact List.forall_mem_append.mpr ⟨hpost', hpost⟩

/-- A transition unfolds as what follows its first reading does, or fails before that. -/
theorem proceeds_of_reads {α : Type} {p : Service α} {f : α → Service Task} {r : Except Failure Task}
    (hp : Only Step.Reads p) (h : Course sound (p >>= f) s log r s')
    (hf : ∀ a log₁ log₂, Course sound p s log₁ (.ok a) s → Course sound (f a) s log₂ r s' →
      Proceeds sound setup ctx id target c s log₂ r s') :
    Proceeds sound setup ctx id target c s log r s' := by
  rcases course_bind_of_reads hp h with ⟨-, hs, hidle⟩ | ⟨a, log₁, log₂, h₁, h₂, hidle, rfl⟩
  · exact .stays (fun x hx => .inl (hidle x hx)) hs
  · have hnone : ∀ x ∈ ([] : List Exchange), x.step.Idle := by simp
    simpa using (hf a log₁ log₂ h₁ h₂).append (fun x hx => .inl (hidle x hx)) hnone

/-- Giving parts back, on a condition, leaves the store as it is. -/
theorem course_releasing {α : Type} {cond : Prop} [Decidable cond] {tenant : TenantId}
    {task : TaskId} {k : Unit → Service α} {r : Except Failure α}
    (h : Course sound (if cond then ask (.releaseParts tenant task) >>= k else k ()) s log r s') :
    ((∃ e, r = .error e) ∧ (∀ x ∈ log, x.step.IdleOr [.releaseParts]) ∧ s' = s) ∨
      ∃ log₁ log₂, log = log₁ ++ log₂ ∧ (∀ x ∈ log₁, x.step.IdleOr [.releaseParts]) ∧
        Course sound (k ()) s log₂ r s' := by
  split at h
  · have hsteps : ∀ {log₁ : List Exchange} {r₁ : Except Failure Unit} {s₁ : Store},
        Course sound (ask (.releaseParts tenant task)) s log₁ r₁ s₁ →
        s₁ = s ∧ ∀ x ∈ log₁, x.step.IdleOr [.releaseParts] := by
      intro log₁ r₁ s₁ h
      refine ⟨?_, h.only (only_idleOr_ask (by simp [Call.kind]))⟩
      obtain ⟨e, -, -, hx⟩ := course_ask h
      cases hx with
      | performed => rfl
      | failed => rfl
      | nothing _ _ _ _ hv => cases hv
    obtain ⟨e, hfail, hr⟩ | ⟨_, log₁, log₂, s₁, hrelease, hrest, rfl⟩ := course_bind h
    · exact .inl ⟨⟨e, hr⟩, (hsteps hfail).symm⟩
    · obtain ⟨rfl, hlog₁⟩ := hsteps hrelease
      exact .inr ⟨log₁, log₂, rfl, hlog₁, hrest⟩
  · exact .inr ⟨[], log, rfl, by simp, h⟩

/-- The task enters its state with the first step, and what follows announces this. -/
theorem course_enter {t : Task} {now : Timestamp} {r : Except Failure Task}
    (ht : s.task? ctx.scope id = some t) (hne : t.state ≠ target)
    (hcheck : Transition.check ctx.actor t target c setup.settings.tolerances = .ok ())
    (h : Course sound (enter setup id target c t now) s log r s') :
    Transits setup ctx id target c s log := by
  have hnone : ∀ x ∈ ([] : List Exchange), x.step.IdleOr [.releaseParts] := by simp
  obtain ⟨_, hfail, -⟩ | ⟨found, log₁, log₂, s₁, hask, hrest, rfl⟩ := course_bind h
  · obtain ⟨e, rfl, -⟩ := course_ask hfail
    exact .enters ht hne hcheck hnone (by simp)
  · obtain ⟨e, rfl, -⟩ := course_ask hask
    refine .enters ht hne hcheck hnone (hrest.only ?_)
    cases found with
    | none => exact only_throw _
    | some updated => exact only_bind (only_idleOr_publish (by simp)) fun _ => only_pure _

/-- A transition stays where it is, or the task enters its state. -/
theorem course_transition_cases {r : Except Failure Task}
    (h : Course sound (transition setup ctx id target c) s log r s') :
    Proceeds sound setup ctx id target c s log r s' := by
  refine proceeds_of_reads (only_visibleTask trivial) h fun found log₁ _ _ h₁ => ?_
  obtain ⟨log', rfl, h₂⟩ := course_locked h₁
  suffices hmid : Proceeds sound setup ctx id target c s log' r s' by
    have hlock : ∀ x ∈ [(⟨.lock found.tenant, ()⟩ : Exchange)], x.step.IdleOr [.releaseParts] :=
      List.forall_mem_singleton.mpr (.inl trivial)
    have hunlock : ∀ x ∈ [(⟨.unlock found.tenant, ()⟩ : Exchange)], x.step.Idle :=
      List.forall_mem_singleton.mpr trivial
    simpa using hmid.append hlock hunlock
  refine proceeds_of_reads (only_visibleTask trivial) h₂ fun t log₃ _ hvisible h₃ => ?_
  obtain ⟨-, ht⟩ := course_visibleTask hvisible
  refine proceeds_of_reads (only_ofExcept _) h₃ fun _ log₄ _ hcheck h₄ => ?_
  obtain ⟨-, hcheck, -⟩ := course_ofExcept hcheck
  dsimp only at h₄
  split at h₄
  · obtain ⟨rfl, -, rfl⟩ := course_pure h₄
    exact .stays (by simp) rfl
  rename_i hne
  refine proceeds_of_reads (only_ensureActive trivial) h₄ fun _ log₅ _ _ h₅ => ?_
  rcases course_releasing h₅ with ⟨-, hstays, hs⟩ | ⟨log₆, log₇, rfl, hreleased, h₆⟩
  · exact .stays hstays hs
  have hnone : ∀ x ∈ ([] : List Exchange), x.step.Idle := by simp
  suffices hlast : Proceeds sound setup ctx id target c s log₇ r s' by
    simpa using hlast.append hreleased hnone
  refine proceeds_of_reads (only_ensureActive trivial) h₆ fun _ log₈ _ _ h₇ => ?_
  refine proceeds_of_reads (only_ofExcept _) h₇ fun now _ log₉ _ h₈ => ?_
  have hlog : log₉ = [] ++ log₉ ++ [] := by simp
  exact .enters ht hne hcheck.symm hlog (by simp) (by simp) h₈

/-- A transition makes a single write, for a task that was found visible and passed the check. -/
theorem course_transition {r : Except Failure Task}
    (h : Course sound (transition setup ctx id target c) s log r s') :
    Transits setup ctx id target c s log := by
  cases course_transition_cases h with
  | stays hlog _ => exact .stays hlog
  | enters ht hne hcheck hlog hpre hpost henter =>
      rw [hlog]
      exact (course_enter ht hne hcheck henter).append hpre hpost

end Service

end Overhaul
