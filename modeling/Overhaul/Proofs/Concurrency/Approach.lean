import Overhaul.Proofs.Concurrency.Fences
import Overhaul.Proofs.Concurrency.Interleaving

/-!
# What operations do before they take a lock

An operation reads before it takes the lock of a tenant, since it has to find out which. What it
reads there either never changes, is read again under the lock, or decides at once how the operation
ends. Main statement: every operation that changes anything approaches what it comes to
(`Request.approaches`).
-/

namespace Overhaul

variable {o : Registry} {a : TenantId} {α β : Type} {s s' : Store}

theorem Store.AlikeFor.state_eq {t t' : Task} (h : s.AlikeFor t.tenant s') {scope : Scope}
    {id : TaskId} (ht : s.task? scope id = some t) (ht' : s'.task? scope id = some t')
    (htenant : t'.tenant = t.tenant) : t'.state = t.state := by
  have hstates := h.states id
  rw [taskOf_eq_some_iff.mpr ⟨(task?_eq_some_iff.mp ht).1, rfl⟩,
    taskOf_eq_some_iff.mpr ⟨(task?_eq_some_iff.mp ht').1, htenant.symm⟩] at hstates
  exact (Option.some.inj hstates).symm

theorem Program.Approaches.congr {out out' : Store → α × Store} {p : Program α}
    (h : p.Approaches o out) (hout : ∀ s : Store, s.Registered o → out' s = out s) :
    p.Approaches o out' := by
  induction p with
  | done x => exact fun s hs => (hout s hs).trans (h s hs)
  | step st next ih =>
      cases st with
      | call c =>
          refine ⟨h.1, fun s hs => ?_⟩
          rcases h.2 s hs with hnext | ⟨x, hx, hfixed⟩
          · exact .inl (ih _ hnext)
          · exact .inr ⟨x, hx, fun s' hs' halike => (hout s' hs').trans (hfixed s' hs' halike)⟩
      | lock a => exact fun s hs => ⟨(h s hs).1, (hout s hs).trans (h s hs).2⟩
      | unlock a => exact h.elim
      | isCancelled => exact h.elim

/-- What is done with the result afterwards takes no steps, and comes to the same each time. -/
theorem Program.Approaches.map {out : Store → α × Store} {p : Program α} (h : p.Approaches o out)
    (f : α → β) :
    (p >>= fun x => .done (f x)).Approaches o fun s => (f (out s).1, (out s).2) := by
  induction p with
  | done x =>
      intro s hs
      dsimp only
      rw [h s hs]
  | step st next ih =>
      cases st with
      | call c =>
          refine ⟨h.1, fun s hs => ?_⟩
          rcases h.2 s hs with hnext | ⟨x, hx, hfixed⟩
          · exact .inl (ih _ hnext)
          · refine .inr ⟨f x, ?_, fun s' hs' halike => ?_⟩
            · dsimp only
              rw [hx]
              rfl
            · dsimp only
              rw [hfixed s' hs' halike]
      | lock a =>
          intro s hs
          obtain ⟨⟨γ, body, g, hbody, hfenced⟩, hout⟩ := h s hs
          refine ⟨⟨γ, body, f ∘ g, ?_, hfenced⟩, ?_⟩
          · dsimp only
            rw [hbody]
            exact Program.bind_assoc body _ _
          · dsimp only
            rw [hout]
            exact (Store.run_bind s (next ()) fun x => .done (f x)).symm
      | unlock a => exact h.elim
      | isCancelled => exact h.elim

namespace Service

/-- The service reads, and then goes under a lock or is done; see `Program.Approaches`. -/
def Approaches (o : Registry) (out : Store → Except Failure α × Store) (p : Service α) : Prop :=
  Program.Approaches o out p.run

variable {out : Store → Except Failure α × Store}

theorem approaches_map {p : Service α} (h : Approaches o out p) (f : α → β) :
    Approaches o (fun s => ((out s).1.map f, (out s).2)) (f <$> p) := by
  have hrun : (f <$> p).run = p.run >>= fun r => .done (r.map f) := by
    change p.run >>= _ = _
    congr
    funext r
    cases r <;> rfl
  rw [Approaches, hrun]
  exact Program.Approaches.map h fun r => r.map f

theorem run_locked (a : TenantId) (p : Service α) :
    (locked a p).run =
      .step (.lock a) fun _ => p.run >>= fun r => .step (.unlock a) fun _ => .done r := by
  change Program.step (.lock a) _ = _
  congr
  funext _
  change (Except.ok <$> p.run) >>= _ = _
  rw [← bind_pure_comp, bind_assoc]
  rfl

/-- A service under a lock is approached when it is fenced. -/
theorem approaches_locked {p : Service α}
    (hp : ∀ s : Store, s.Registered o → Fenced o a p false s)
    (hout : ∀ s : Store, s.Registered o → out s = s.serve p) : Approaches o out (locked a p) := by
  rw [Approaches, run_locked]
  intro s hs
  refine ⟨⟨_, p.run, id, rfl, hp s hs⟩, ?_⟩
  exact (hout s hs).trans (Program.run_section p.run id s).symm

theorem run_ask_bind (c : Call) (f : c.Value → Service β) :
    (ask c >>= f).run = .step (.call c) fun r => match r with
      | .ok v => (f v).run
      | .error cause => .done (.error (.store cause)) := by
  change Program.step (.call c) _ = _
  congr
  funext r
  cases r <;> rfl

/-- A service that asks first. What it is told decides how it goes on. -/
theorem approaches_ask {c : Call} (hc : c.Reads) {f : c.Value → Service α}
    (hf : ∀ s : Store, s.Registered o → ∃ v, (s.reply c).1 = .ok v ∧ (Approaches o out (f v) ∨
      ∃ e, f v = throw e ∧
        ∀ s' : Store, s'.Registered o → (∀ a, s.AlikeFor a s') → out s' = (.error e, s'))) :
    Approaches o out (ask c >>= f) := by
  rw [Approaches, run_ask_bind]
  refine ⟨hc, fun s hs => ?_⟩
  obtain ⟨v, hv, hgoes⟩ := hf s hs
  dsimp only
  rw [hv]
  rcases hgoes with hnear | ⟨e, he, hfixed⟩
  · exact .inl hnear
  · refine .inr ⟨.error e, ?_, hfixed⟩
    dsimp only
    rw [he]
    rfl

/-- A service that looks a task up first. When the task cannot be seen, this never changes. -/
theorem approaches_visibleTask {ctx : Context} {id : TaskId} {missing : TaskId → Missing}
    {f : Task → Service α}
    (hf : ∀ (s : Store) (t : Task), s.Registered o → s.task? ctx.scope id = some t →
      Approaches o (fun s => s.serve (visibleTask ctx id missing >>= f)) (f t) ∨
        ∃ e, f t = throw e ∧ ∀ (s' : Store) (t' : Task), (∀ a, s.AlikeFor a s') →
          s'.task? ctx.scope id = some t' → t'.tenant = t.tenant → f t' = throw e) :
    Approaches o (fun s => s.serve (visibleTask ctx id missing >>= f))
      (visibleTask ctx id missing >>= f) := by
  have hserve := fun s : Store => s.serve_visibleTask_bind ctx id missing f
  generalize hout : (fun s : Store => s.serve (visibleTask ctx id missing >>= f)) = out at hf ⊢
  rw [visibleTask, bind_assoc]
  refine approaches_ask (c := .task ctx.scope id) trivial fun s hs =>
    ⟨s.task? ctx.scope id, rfl, ?_⟩
  cases ht : s.task? ctx.scope id with
  | none =>
      refine .inr ⟨.notFound (missing id), rfl, fun s' hs' _ => ?_⟩
      rw [← hout]
      dsimp only
      rw [hserve]
      cases ht' : s'.task? ctx.scope id with
      | none => rfl
      | some t' =>
          obtain ⟨t, ht'', -⟩ := hs'.exists_task? hs ht'
          rw [ht] at ht''
          cases ht''
  | some t =>
      refine (hf s t hs ht).imp_right ?_
      rintro ⟨e, he, hfixed⟩
      refine ⟨e, he, fun s' hs' halike => ?_⟩
      obtain ⟨t', ht', htenant⟩ := hs.exists_task? hs' ht
      rw [← hout]
      dsimp only
      rw [hserve, ht']
      dsimp only
      rw [hfixed s' t' halike ht' htenant]
      rfl

/-- When only the owner of a task matters, a service comes to the same in all stores with the same
registry. -/
theorem serve_visibleTask_of_tenant (hs : s.Registered o) (hs' : s'.Registered o) {ctx : Context}
    {id : TaskId} {missing : TaskId → Missing} {t : Task} (ht : s.task? ctx.scope id = some t)
    {f : Task → Service α} (hf : ∀ t', t'.tenant = t.tenant → f t' = f t) :
    s'.serve (visibleTask ctx id missing >>= f) = s'.serve (f t) := by
  obtain ⟨t', ht', htenant⟩ := hs.exists_task? hs' ht
  rw [Store.serve_visibleTask_bind, ht']
  dsimp only
  rw [hf t' htenant]

theorem approaches_ofExcept {e : Except Failure β} {f : β → Service α}
    (hf : ∀ x, e = .ok x → Approaches o (fun s => s.serve (f x)) (f x)) :
    Approaches o (fun s => s.serve (ofExcept e >>= f)) (ofExcept e >>= f) := by
  cases e with
  | error e => exact fun _ _ => rfl
  | ok x => exact hf x rfl

theorem approaches_guard {c : Prop} [Decidable c] {e : Failure} {k : Unit → Service α}
    (h : ¬c → Approaches o (fun s => s.serve (k ())) (k ())) :
    Approaches o (fun s => s.serve (if c then throw e >>= k else k ()))
      (if c then throw e >>= k else k ()) := by
  split
  · exact fun _ _ => rfl
  · rename_i hc
    exact h hc

/-! ### Operations -/

theorem approaches_depend {ctx : Context} {task : TaskId}
    (hnew : ∀ a deleted, o.task task = some (a, deleted) → o.dependency ⟨ctx.fresh⟩ = a)
    (prerequisite : TaskId) (kind : Option DependencyKind) :
    Approaches o (fun s => s.serve (depend ctx task prerequisite kind))
      (depend ctx task prerequisite kind) := by
  unfold depend
  refine approaches_guard fun _ => ?_
  refine approaches_visibleTask fun s t hs ht => .inl ?_
  have howner := hs.owner_of_task? ht
  refine Program.Approaches.congr (approaches_visibleTask fun s₁ u hs₁ hu => ?_) fun s' hs' =>
    serve_visibleTask_of_tenant hs hs' ht fun t' htenant => by rw [htenant]
  by_cases htenants : t.tenant = u.tenant
  · rw [if_neg (not_not_intro htenants)]
    refine .inl (approaches_locked (fun s _ => fenced_depend (hnew _ _ howner) _ _ _ s) ?_)
    intro s' hs'
    rw [serve_visibleTask_of_tenant hs₁ hs' hu fun u' htenant => by rw [htenant],
      if_neg (not_not_intro htenants)]
    exact s'.serve_locked _ _
  · refine .inr ⟨.invalid .tenantsDiffer, if_pos htenants, fun _ u' _ _ htenant => ?_⟩
    rw [htenant]
    exact if_pos htenants

theorem serve_remove (s : Store) (a : TenantId) (id : DependencyId) :
    s.serve (do
      ensureActive
      if !(← ask (.removeDependency (.only a) id)) then throw (.notFound (.dependency id))) =
      match s.dependency? (.only a) id with
      | some d => (.ok (), s.unlink d)
      | none => (.error (.notFound (.dependency id)), s) := by
  rw [Store.serve_bind, Store.serve_ensureActive]
  dsimp only
  rw [Store.serve_bind, Store.serve_ask, Store.reply_removeDependency]
  cases s.dependency? (.only a) id <;> rfl

/-- A visible dependency is removed, and without one there is nothing to remove. -/
theorem serve_undepend (s : Store) (ctx : Context) (id : DependencyId) :
    s.serve (undepend ctx id) = match s.dependency? ctx.scope id with
      | some d => (.ok (), s.unlink d)
      | none => (.error (.notFound (.dependency id)), s) := by
  have hreply : s.reply (.dependency ctx.scope id) = (.ok (s.dependency? ctx.scope id), s) := rfl
  rw [undepend, Store.serve_bind, Store.serve_ask, hreply]
  cases hd : s.dependency? ctx.scope id with
  | none => rfl
  | some d =>
      change s.serve (locked d.tenant _) = (.ok (), s.unlink d)
      rw [Store.serve_locked, serve_remove, Store.dependency?_only hd]

theorem approaches_undepend (ctx : Context) (id : DependencyId) :
    Approaches o (fun s => s.serve (undepend ctx id)) (undepend ctx id) := by
  refine approaches_ask (c := .dependency ctx.scope id) trivial fun s hs =>
    ⟨s.dependency? ctx.scope id, rfl, ?_⟩
  cases hd : s.dependency? ctx.scope id with
  | none =>
      refine .inr ⟨.notFound (.dependency id), rfl, fun s' hs' halike => ?_⟩
      rw [serve_undepend, hs.dependency?_eq_none hs' (halike _) hd]
  | some d =>
      obtain ⟨hscope, htenant⟩ := hs.owner_of_dependency? hd
      refine .inl (approaches_locked (fun s _ => fenced_undepend id s) fun s' hs' => ?_)
      rw [serve_undepend, hs'.dependency?_eq, htenant, if_pos hscope, serve_remove]
      rfl

theorem approaches_transition (setup : Setup) (ctx : Context) (id : TaskId) (target : TaskState)
    (c : Circumstances) :
    Approaches o (fun s => s.serve (transition setup ctx id target c))
      (transition setup ctx id target c) := by
  refine approaches_visibleTask fun s t hs ht => .inl ?_
  have howner := hs.owner_of_task? ht
  refine approaches_locked (fun s hs => fenced_transition setup ctx howner target c hs) ?_
  intro s' hs'
  rw [serve_visibleTask_of_tenant hs hs' ht fun t' htenant => by rw [htenant]]
  exact s'.serve_locked _ _

/-- A closed task cannot be moved. -/
theorem ensureOpen_of_closed {t : Task} (h : t.state.isClosed = true) :
    ensureOpen t = throw (.conflict (.closed t.id t.state)) := if_pos h

theorem ensureOpen_of_open {t : Task} (h : t.state.isClosed = false) : ensureOpen t = pure () :=
  if_neg (by simp [h])

theorem approaches_reschedule (setup : Setup) {ctx : Context} {m : Move}
    (hnew : ∀ a deleted, o.task m.task = some (a, deleted) → o.change ⟨ctx.fresh⟩ = a) :
    Approaches o (fun s => s.serve (reschedule setup ctx m)) (reschedule setup ctx m) := by
  unfold reschedule
  refine approaches_ofExcept fun window hwindow => ?_
  dsimp only
  refine approaches_guard fun _ => ?_
  refine approaches_visibleTask fun s t hs ht => ?_
  have howner := hs.owner_of_task? ht
  by_cases hmoves : (!ctx.actor.movesWork) = true
  · exact .inr ⟨.forbidden .moving, if_pos hmoves, fun _ _ _ _ _ => if_pos hmoves⟩
  cases hclosed : t.state.isClosed with
  | true =>
      refine .inr ⟨.conflict (.closed t.id t.state), ?_, fun s' t' halike ht' htenant => ?_⟩
      · rw [if_neg hmoves, ensureOpen_of_closed hclosed]
        rfl
      · have hstate := (halike t.tenant).state_eq ht ht' htenant
        have hid : t'.id = t.id := by rw [Store.id_eq_of_task? ht', Store.id_eq_of_task? ht]
        rw [if_neg hmoves, ensureOpen_of_closed (by rw [hstate, hclosed]), hid, hstate]
        rfl
  | false =>
      rw [if_neg hmoves, ensureOpen_of_open hclosed]
      refine .inl (approaches_locked (fun s hs => ?_) fun s' hs' => ?_)
      · exact fenced_move setup howner (hnew _ _ howner) hwindow hs
      obtain ⟨t', ht', htenant⟩ := hs.exists_task? hs' ht
      rw [Store.serve_visibleTask_bind, ht']
      dsimp only
      rw [if_neg hmoves]
      -- a task that was closed in the meantime is found closed under the lock
      cases hclosed' : t'.state.isClosed with
      | true =>
          rw [ensureOpen_of_closed hclosed', Store.serve_bind _ (draft ctx m window _), draft,
            Store.serve_visibleTask_bind, ht']
          dsimp only
          rw [ensureOpen_of_closed hclosed']
          rfl
      | false =>
          rw [ensureOpen_of_open hclosed']
          exact s'.serve_locked _ _

end Service

/-! ### Requests -/

/-- The operation may change something. -/
def Operation.Mutates : Operation → Prop
  | .depend _ _ _ | .undepend _ | .reschedule _ | .transition _ _ _ => True
  | .dependencies _ | .dependents _ | .history _ | .conflicts => False

/-- The task whose owner gets what the operation makes. -/
def Operation.subject? : Operation → Option TaskId
  | .depend task _ _ => some task
  | .reschedule m => some m.task
  | _ => none

/-- The fresh identifier of the request belongs to the owner of its subject. -/
def Registry.Issues (o : Registry) (q : Request) : Prop :=
  ∀ task ∈ q.operation.subject?, ∀ a deleted, o.task task = some (a, deleted) →
    o.dependency ⟨q.ctx.fresh⟩ = a ∧ o.change ⟨q.ctx.fresh⟩ = a

/-- A request that may change something reads first, and then goes under the lock of one tenant. -/
theorem Request.approaches {q : Request} (hq : q.operation.Mutates) (hissues : o.Issues q) :
    q.service.run.Approaches o fun s => s.run q.service.run := by
  obtain ⟨setup, ctx, operation, cancelled, faults, honest⟩ := q
  have hmap : ∀ {γ : Type} {p : Service γ} (f : γ → Answer),
      Service.Approaches o (fun s => s.serve p) p →
      Service.Approaches o (fun s => s.serve (f <$> p)) (f <$> p) := by
    intro γ p f h
    exact Program.Approaches.congr (Service.approaches_map h f) fun s _ => s.serve_map f p
  cases operation with
  | depend task prerequisite kind =>
      refine hmap _ (Service.approaches_depend (fun a deleted ht => ?_) _ _)
      exact (hissues task rfl a deleted ht).1
  | undepend id =>
      have hnear := hmap (fun _ => Answer.removed id) (Service.approaches_undepend ctx id)
      rw [← bind_pure_comp] at hnear
      exact hnear
  | reschedule m =>
      refine hmap _ (Service.approaches_reschedule setup fun a deleted ht => ?_)
      exact (hissues m.task rfl a deleted ht).2
  | transition task target c => exact hmap _ (Service.approaches_transition setup ctx task target c)
  | dependencies task => exact hq.elim
  | dependents task => exact hq.elim
  | history task => exact hq.elim
  | conflicts => exact hq.elim

end Overhaul
