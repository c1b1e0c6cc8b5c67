import Overhaul.Proofs.Concurrency.Sections
import Overhaul.Proofs.Task.Lifecycle

/-!
# What operations do under a lock

Every operation that changes anything does so under the lock of one tenant, and there it concerns
itself with that tenant alone. Main statements: `fenced_depend`, `fenced_undepend`,
`fenced_transition` and `fenced_move`, each about what its operation does under the lock.
-/

namespace Overhaul

/-! ### Records that are written over -/

/-- The record is one of a task of the tenant, and leaves it in its state, deleted or not as it is. -/
def Store.Renews (s : Store) (a : TenantId) (t : Task) : Prop :=
  t.tenant = a ∧ ∃ u, s.taskOf a t.id = some u ∧ u.deleted = t.deleted ∧ u.state = t.state

namespace Store

variable {o : Registry} {a : TenantId} {s : Store} {t t' : Task}

theorem Renews.reply (h : s.Renews a t) :
    s.reply (.putTask t) = (.ok (), { s with tasks := s.tasks.put t }) := by
  obtain ⟨-, u, hu, -⟩ := h
  rw [reply_putTask, (taskOf_eq_some_iff.mp hu).1]

theorem Renews.concerns (h : s.Renews a t) (hs : s.Registered o) :
    (Call.putTask t).Concerns o a := by
  obtain ⟨htenant, u, hu, hdeleted, -⟩ := h
  obtain ⟨hfound, hu⟩ := taskOf_eq_some_iff.mp hu
  refine ⟨htenant, ?_⟩
  rw [← hs.tasks, hfound, hu, ← hdeleted]
  rfl

theorem Renews.alike (h : s.Renews a t) : (s.reply (.putTask t)).2.AlikeFor a s := by
  rw [h.reply]
  obtain ⟨htenant, u, hu, -, hstate⟩ := h
  refine ⟨fun id => ?_, fun _ => rfl⟩
  rw [taskOf_put htenant]
  split
  · rename_i hid
    rw [← hid, hu]
    simp [hstate]
  · rfl

/-- What could be written before can be written after another record was. -/
theorem Renews.put (h : s.Renews a t) (h' : s.Renews a t') :
    Renews { s with tasks := s.tasks.put t } a t' := by
  obtain ⟨htenant, u, hu, hdeleted, hstate⟩ := h
  obtain ⟨htenant', u', hu', hdeleted', hstate'⟩ := h'
  refine ⟨htenant', ?_⟩
  rw [taskOf_put htenant]
  split
  · rename_i hid
    rw [← hid, hu] at hu'
    cases hu'
    exact ⟨t, rfl, hdeleted.symm.trans hdeleted', hstate.symm.trans hstate'⟩
  · exact ⟨u', hu', hdeleted', hstate'⟩

end Store

/-- Whatever a move may write renews the record of a task of its tenant. -/
theorem Draft.Drawn.renews {sound : Prop} {s : Store} {ctx : Context} {m : Move} {d : Draft}
    (h : d.Drawn sound s ctx m) {t : Task} (ht : d.Writes t) : s.Renews d.root.tenant t := by
  obtain ⟨u, hu, -, heq⟩ := h.source_of_writes ht
  obtain ⟨hfound, -, -⟩ := Store.task?_eq_some_iff.mp hu
  have htenant := Store.tenant_of_task?_only hu
  refine ⟨?_, u, Store.taskOf_eq_some_iff.mpr ⟨hfound, htenant.symm⟩, ?_, ?_⟩
  · rw [heq]
    exact htenant
  · rw [heq]
  · rw [heq]

namespace Service

variable {o : Registry} {a : TenantId} {α : Type} {written : Bool} {s s' : Store}

/-! ### Putting services together -/

/-- What only reads for the tenant is fenced. -/
theorem fenced_of_reads {p : Service α} (hp : Only (Step.ReadsFor o a) p) :
    Fenced o a p written s := by
  rw [← bind_pure p]
  exact fenced_bind_of_reads hp fun _ _ => fenced_pure _

theorem fenced_guard {c : Prop} [Decidable c] {f : Failure} {k : Unit → Service α}
    (h : ¬c → Fenced o a (k ()) written s) :
    Fenced o a (if c then throw f >>= k else k ()) written s := by
  split
  · exact fenced_throw f
  · rename_i hc
    exact h hc

theorem fenced_outcome {p : Service α} (hp : Fenced o a p written s) :
    Fenced o a p.outcome written s := by
  change Program.Fenced o a (Except.ok <$> p.run) written s
  rw [← bind_pure_comp]
  exact Program.Fenced.bind hp (.done _ _ _)

/-- An announcement about one of its tasks concerns the tenant. -/
theorem fenced_publish (setup : Setup) (task : TaskId) (eventType : String) (payload : Option Json) :
    Fenced o a (publish setup a task eventType payload) written s := by
  unfold publish
  split
  · refine fenced_map _ (fenced_attempt ⟨rfl, task, rfl⟩ fun _ => ?_)
    exact ⟨fun _ => rfl, fun _ => rfl⟩
  · exact fenced_pure _

/-- A visible task that the registry gives to the tenant is found to be the tenant's. -/
theorem tenant_of_serve_visibleTask (hs : s.Registered o) {ctx : Context} {id : TaskId}
    {missing : TaskId → Missing} {deleted : Option Timestamp} (hid : o.task id = some (a, deleted))
    {t : Task} (h : s.serve (visibleTask ctx id missing) = (.ok t, s')) : t.tenant = a := by
  rw [Store.serve_visibleTask] at h
  cases ht : s.task? ctx.scope id with
  | none =>
      rw [ht] at h
      cases h
  | some u =>
      rw [ht] at h
      cases h
      exact hs.tenant_of_task? hid ht

theorem readsFor_visibleTask {ctx : Context} {id : TaskId} {missing : TaskId → Missing}
    {deleted : Option Timestamp} (hid : o.task id = some (a, deleted)) :
    Only (Step.ReadsFor o a) (visibleTask ctx id missing) :=
  only_visibleTask ⟨.inr ⟨deleted, hid⟩, fun _ => rfl⟩

/-! ### Dependencies -/

/-- A dependency is made that belongs to the tenant. -/
theorem fenced_depend {ctx : Context} (hnew : o.dependency ⟨ctx.fresh⟩ = a)
    (task prerequisite : TaskId) (kind : Option DependencyKind) (s : Store) :
    Fenced o a (do
      let present ← ask (.dependenciesOf (.only a) task)
      if present.any fun d => d.prerequisite = prerequisite then
        throw (.conflict (.alreadyDependent task prerequisite))
      if ← reaches (.only a) task .empty [prerequisite] then throw (.conflict .circular)
      ensureActive
      let now ← ofExcept ctx.now
      let made : Dependency := {
        id := ⟨ctx.fresh⟩, tenant := a, task, prerequisite
        kind := kind.getD .finishToStart, created := now }
      ask (.addDependency made)
      return made) false s := by
  refine fenced_bind_of_reads (only_ask ⟨rfl, fun _ => rfl⟩) fun present _ => ?_
  refine fenced_guard fun _ => ?_
  refine fenced_bind_of_reads (only_reaches (fun _ => ⟨rfl, fun _ => rfl⟩) _ _ _) fun circular _ => ?_
  refine fenced_guard fun _ => ?_
  refine fenced_bind_of_reads (only_ensureActive trivial) fun _ _ => ?_
  refine fenced_bind_of_reads (only_ofExcept _) fun now _ => ?_
  exact fenced_bind (fenced_ask ⟨rfl, hnew⟩ (by simp)) fun _ _ _ => fenced_pure _

/-- A dependency is removed that belongs to the tenant. -/
theorem fenced_undepend (id : DependencyId) (s : Store) :
    Fenced o a (do
      ensureActive
      if !(← ask (.removeDependency (.only a) id)) then throw (.notFound (.dependency id)))
      false s := by
  refine fenced_bind_of_reads (only_ensureActive trivial) fun _ _ => ?_
  refine fenced_bind (fenced_ask rfl (by simp)) fun removed _ _ => ?_
  cases removed with
  | true => exact fenced_pure _
  | false => exact fenced_throw _

/-! ### Transitions -/

/-- The tenant's task enters a state, and this is announced. -/
theorem fenced_transition (setup : Setup) (ctx : Context) {id : TaskId} {deleted : Option Timestamp}
    (hid : o.task id = some (a, deleted)) (target : TaskState) (c : Circumstances)
    (hs : s.Registered o) :
    Fenced o a (do
      let current ← visibleTask ctx id .task
      ofExcept (Transition.check ctx.actor current target c setup.settings.tolerances)
      if current.state = target then return current
      ensureActive
      if target = .cancelled ∧ setup.reservesParts then
        ask (.releaseParts current.tenant current.id)
      ensureActive
      let now ← ofExcept ctx.now
      match ← ask (.setState (.only current.tenant) id target c.notes now) with
      | none => throw (.notFound (.task id))
      | some updated =>
        publish setup updated.tenant id "task.state_changed"
          (some (transitionPayload id current.state target c.notes))
        return updated) false s := by
  refine fenced_bind_of_reads (readsFor_visibleTask hid) fun current hcurrent => ?_
  obtain rfl := tenant_of_serve_visibleTask hs hid hcurrent
  refine fenced_bind_of_reads (only_ofExcept _) fun _ _ => ?_
  dsimp only
  split
  · exact fenced_pure _
  refine fenced_bind_of_reads (only_ensureActive trivial) fun _ _ => ?_
  -- what follows once parts were given back, or not
  have hrest : Fenced o current.tenant (do
      ensureActive
      let now ← ofExcept ctx.now
      match ← ask (.setState (.only current.tenant) id target c.notes now) with
      | none => throw (.notFound (.task id))
      | some updated =>
        publish setup updated.tenant id "task.state_changed"
          (some (transitionPayload id current.state target c.notes))
        return updated) false s := by
    refine fenced_bind_of_reads (only_ensureActive trivial) fun _ _ => ?_
    refine fenced_bind_of_reads (only_ofExcept _) fun now _ => ?_
    refine fenced_bind (fenced_ask rfl (by simp)) fun found s' hfound => ?_
    cases found with
    | none => exact fenced_throw _
    | some updated =>
        have htenant : updated.tenant = current.tenant := by
          rw [Store.serve_ask, Store.reply_setState] at hfound
          cases ht : s.task? (.only current.tenant) id with
          | none =>
              rw [ht] at hfound
              cases hfound
          | some t =>
              rw [ht] at hfound
              cases hfound
              have hcurrent := Store.tenant_of_task?_only ht
              exact hcurrent
        dsimp only
        rw [htenant]
        exact fenced_bind (fenced_publish _ _ _ _) fun _ _ _ => fenced_pure _
  split
  · exact fenced_bind_of_reads (only_ask ⟨trivial, fun _ => rfl⟩) fun _ _ => hrest
  · exact hrest

/-! ### Moves -/

/-- A record that renews the one of its task is written. -/
theorem fenced_put {t : Task} (hs : s.Registered o) (ht : s.Renews a t) :
    Fenced o a (ask (.putTask t)) written s :=
  fenced_ask (ht.concerns hs) fun _ => ht.alike

theorem serve_put {t : Task} (ht : s.Renews a t) :
    s.serve (ask (.putTask t)) = (.ok (), { s with tasks := s.tasks.put t }) := by
  rw [Store.serve_ask, ht.reply]
  rfl

theorem serve_ensureActive_put {t : Task} (ht : s.Renews a t) :
    s.serve (do ensureActive; ask (.putTask t)) =
      (.ok (), { s with tasks := s.tasks.put t }) := by
  rw [Store.serve_bind, Store.serve_ensureActive]
  exact serve_put ht

/-- When nothing goes wrong, a cascade is written from its beginning to its end. -/
theorem serve_writeCascade {shifts : List Shift} (h : ∀ x ∈ shifts, s.Renews a x.after) :
    s.serve (writeCascade shifts) = (.ok (shifts.map Shift.before, none),
      { s with tasks := s.tasks.putAll (shifts.map Shift.after) }) := by
  induction shifts generalizing s with
  | nil => rfl
  | cons shift rest ih =>
      obtain ⟨hfirst, hrest⟩ := List.forall_mem_cons.mp h
      rw [writeCascade, Store.serve_bind, Store.serve_outcome, serve_ensureActive_put hfirst]
      dsimp only
      rw [Store.serve_bind, ih fun x hx => hfirst.put (hrest x hx)]
      rfl

theorem fenced_writeCascade {shifts : List Shift} (hs : s.Registered o)
    (h : ∀ x ∈ shifts, s.Renews a x.after) : Fenced o a (writeCascade shifts) true s := by
  induction shifts generalizing s with
  | nil => exact fenced_pure _
  | cons shift rest ih =>
      obtain ⟨hfirst, hrest⟩ := List.forall_mem_cons.mp h
      have hput : Fenced o a (do ensureActive; ask (.putTask shift.after)) true s :=
        fenced_bind_of_reads (only_ensureActive trivial) fun _ _ => fenced_put hs hfirst
      refine fenced_bind (fenced_outcome hput) fun r s' hr => ?_
      rw [Store.serve_outcome, serve_ensureActive_put hfirst] at hr
      cases hr
      refine fenced_bind (ih ?_ fun x hx => hfirst.put (hrest x hx)) fun _ _ _ => fenced_pure _
      have hleft := hs.reply (hfirst.concerns hs)
      rwa [hfirst.reply] at hleft

/-- A change of the tenant is recorded and announced. -/
theorem fenced_record (setup : Setup) {c : ScheduleChange} (htenant : c.tenant = a)
    (hid : o.change c.id = a) : Fenced o a (record setup c) true s := by
  refine fenced_bind (fenced_ask ⟨htenant, hid⟩ fun _ => ?_) fun _ _ _ => ?_
  · rw [Store.reply_addChange]
    split
    · exact .refl a s
    · exact ⟨fun _ => rfl, fun _ => rfl⟩
  · rw [htenant]
    exact fenced_publish _ _ _ _

/-- What was decided for the tenant is carried out. -/
theorem fenced_carryOut (setup : Setup) {d : Draft} (hs : s.Registered o)
    (hwrites : ∀ t, d.Writes t → s.Renews a t) (htenant : d.change.tenant = a)
    (hid : o.change d.change.id = a) : Fenced o a (carryOut setup d) true s := by
  have hmoved := hwrites d.moved (.inl rfl)
  refine fenced_bind (fenced_put hs hmoved) fun _ s₁ h₁ => ?_
  rw [serve_put hmoved] at h₁
  cases h₁
  have hshifts : ∀ x ∈ d.shifts, Store.Renews { s with tasks := s.tasks.put d.moved } a x.after :=
    fun x hx => hmoved.put (hwrites _ (.inr (.inr ⟨x, hx, .inr rfl⟩)))
  have hs₁ := hs.reply (hmoved.concerns hs)
  rw [hmoved.reply] at hs₁
  refine fenced_bind (fenced_writeCascade hs₁ hshifts) fun p s₂ h₂ => ?_
  rw [serve_writeCascade hshifts] at h₂
  cases h₂
  exact fenced_bind (fenced_record setup htenant hid) fun _ _ _ => fenced_pure _

/-- What is decided for the tenant's task is drawn from the tenant's records. -/
theorem fenced_draft {ctx : Context} {m : Move} {deleted : Option Timestamp}
    (hid : o.task m.task = some (a, deleted)) (hs : s.Registered o) (window : Window)
    (reason : String) : Fenced o a (draft ctx m window reason) true s := by
  have hrest : ∀ t now shifts change, Only (Step.ReadsFor o a) (do
      ensureActive
      let moved ← ofExcept (Task.withWindow t window.start window.finish now)
      return ({ root := t, moved, shifts, change } : Draft)) := fun _ _ _ _ =>
    only_bind (only_ensureActive trivial) fun _ => only_bind (only_ofExcept _) fun _ => only_pure _
  refine fenced_bind_of_reads (readsFor_visibleTask hid) fun t ht => ?_
  obtain rfl := tenant_of_serve_visibleTask hs hid ht
  refine fenced_of_reads (only_bind (only_ensureOpen t) fun _ => ?_)
  refine only_bind (only_ofExcept _) fun now => ?_
  dsimp only
  split
  · refine only_bind (only_plan (fun _ => ?_) (fun _ => ?_) _ _ _ _ _) fun _ => hrest _ _ _ _
    · exact ⟨.inl rfl, fun _ => rfl⟩
    · exact ⟨rfl, fun _ => rfl⟩
  · exact only_bind (only_pure _) fun _ => hrest _ _ _ _

/-- The tenant's task is moved, and others of its tasks with it. -/
theorem fenced_move (setup : Setup) {ctx : Context} {m : Move} {deleted : Option Timestamp}
    (hid : o.task m.task = some (a, deleted)) (hnew : o.change ⟨ctx.fresh⟩ = a) {window : Window}
    (hwindow : Window.between m.start m.finish = .ok window) (hs : s.Registered o) :
    Fenced o a (do
      let d ← draft ctx m window (Text.trimmed m.reason)
      carryOut setup d) false s := by
  refine fenced_bind ((fenced_draft hid hs _ _).of_written false) fun d s' hd => ?_
  obtain ⟨log, hcourse⟩ := s.course_serve (draft ctx m window (Text.trimmed m.reason))
  rw [hd] at hcourse
  obtain ⟨rfl, hdrawn⟩ := course_draft hwindow hcourse
  have htenant : d.root.tenant = a := hs.tenant_of_task? hid hdrawn.root
  refine fenced_carryOut setup hs (fun t ht => htenant ▸ hdrawn.renews ht) ?_ ?_
  · rw [hdrawn.change]
    exact htenant
  · rw [hdrawn.change]
    exact hnew

end Service

end Overhaul
