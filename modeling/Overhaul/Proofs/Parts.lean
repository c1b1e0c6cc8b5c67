import Overhaul.Proofs.Answers
import Overhaul.Proofs.GivenUp
import Overhaul.Proofs.Landing
import Overhaul.Proofs.Task.Lifecycle

/-!
# Parts that are given back

When a task is cancelled, the parts that are reserved for it are given back first and the state is
written then, and nothing takes a reservation up again when the writing fails. `World.returned` lists
what a session gives back. Main statement: parts are given back only by a call that cancels their
task, and once at most by each; a call that succeeds has stored the task as cancelled, and its parts
are never given back again. Where nothing comes between the two effects of a call, this is so of
whatever was given back (`World.parts_session`). Otherwise a task can stay open whose parts were given
back, and they can be given back again (`not_parts_of_cancelled`).
-/

namespace Overhaul

/-- The faults spare the cancelling of a task once its parts are given back. -/
structure SparesCancelling (faults : CallKind → List Fault) : Prop where
  /-- The caller does not give up while the parts are given back. -/
  release : (faults .releaseParts).head? ≠ some .cancel
  /-- The state is written. -/
  write : ∀ f ∈ (faults .setState).head?, f.Within True

/-- What a transition does after parts were given back, or when there are none. -/
def Service.finish (setup : Setup) (ctx : Context) (id : TaskId) (target : TaskState)
    (c : Circumstances) (t : Task) : Service Task := do
  ensureActive
  let now ← ofExcept ctx.now
  enter setup id target c t now

namespace World

variable {α β : Type} {w : World}

/-! ### What a service leaves -/

/-- How the service ends in this world, and the world that it leaves, are in `Q`. -/
def Leaves (w : World) (p : Service α) (Q : Except Failure α → World → Prop) : Prop :=
  Q (w.serve p).1 (w.serve p).2

section

variable {Q : Except Failure α → World → Prop}

theorem leaves_pure {a : α} (h : Q (.ok a) w) : w.Leaves (pure a) Q := h

theorem Leaves.mono {R : Except Failure α → World → Prop} {p : Service α} (h : w.Leaves p Q)
    (hQ : ∀ r v, Q r v → R r v) : w.Leaves p R := hQ _ _ h

/-- What follows something that succeeds starts from what that leaves. -/
theorem leaves_bind_of_ok {p : Service β} {f : β → Service α} {b : β} (hp : (w.serve p).1 = .ok b)
    (h : (w.serve p).2.Leaves (f b) Q) : w.Leaves (p >>= f) Q := by
  unfold Leaves
  rw [serve_bind]
  rcases hserve : w.serve p with ⟨r, v⟩
  rw [hserve] at hp h
  subst hp
  exact h

theorem leaves_ofExcept_bind {e : Except Failure β} {f : β → Service α}
    (herror : ∀ cause, e = .error cause → Q (.error cause) w)
    (hok : ∀ b, e = .ok b → w.Leaves (f b) Q) : w.Leaves (Service.ofExcept e >>= f) Q := by
  unfold Leaves
  rw [serve_bind, serve_ofExcept]
  cases e with
  | error cause => exact herror cause rfl
  | ok b => exact hok b rfl

theorem leaves_ask_bind {c : Call} {f : c.Value → Service α}
    (herror : ∀ cause, (w.answer c).1 = .error cause → Q (.error (.store cause)) (w.answer c).2)
    (hok : ∀ v, (w.answer c).1 = .ok v → (w.answer c).2.Leaves (f v) Q) :
    w.Leaves (Service.ask c >>= f) Q := by
  unfold Leaves
  rw [serve_bind, serve_ask]
  cases hanswer : (w.answer c).1 with
  | error cause => exact herror cause hanswer
  | ok v => exact hok v hanswer

theorem leaves_ensureActive_bind {k : Unit → Service α}
    (herror : w.cancelled = true → Q (.error .cancelled) w)
    (hok : w.cancelled = false → w.Leaves (k ()) Q) : w.Leaves (Service.ensureActive >>= k) Q := by
  unfold Leaves
  rw [serve_bind, serve_ensureActive]
  cases hcancelled : w.cancelled with
  | true => exact herror hcancelled
  | false => exact hok hcancelled

/-- A task that is looked up is one that the store shows. -/
theorem leaves_visibleTask_bind (hw : w.Within fun _ => False) {ctx : Context} {id : TaskId}
    {missing : TaskId → Missing} {f : Task → Service α}
    (herror : ∀ cause, Q (.error cause) (w.past .task))
    (hok : ∀ t, (w.past .task).store.task? ctx.scope id = some t → (w.past .task).Leaves (f t) Q) :
    w.Leaves (Service.visibleTask ctx id missing >>= f) Q := by
  have hcourse := course_serve hw (Service.visibleTask ctx id missing)
  have hleft : (w.serve (Service.visibleTask ctx id missing)).2 = w.past .task := by
    have hanswer := answer_snd_of_reads w (c := .task ctx.scope id) trivial
    rw [Service.visibleTask, serve_bind, serve_ask, hanswer]
    cases (w.answer (.task ctx.scope id)).1 with
    | error cause => rfl
    | ok found => cases found <;> rfl
  unfold Leaves
  rw [serve_bind]
  rcases hserve : w.serve (Service.visibleTask ctx id missing) with ⟨r, v⟩
  rw [hserve] at hleft hcourse
  subst hleft
  cases r with
  | error cause => exact herror cause
  | ok t => exact hok t (Service.course_visibleTask hcourse).2

theorem leaves_locked {tenant : TenantId} {p : Service α}
    (h : (w.take (.lock tenant)).2.Leaves p fun r v => Q r (v.take (.unlock tenant)).2) :
    w.Leaves (Service.locked tenant p) Q := by
  unfold Leaves
  rw [serve_locked]
  exact h

end

/-! ### Cancelling -/

/-- Nobody minds when an announcement fails. -/
theorem serve_publish_fst (setup : Setup) (tenant : TenantId) (task : TaskId) (eventType : String)
    (payload : Option Json) :
    (w.serve (Service.publish setup tenant task eventType payload)).1 = .ok () := by
  unfold Service.publish
  split <;> rfl

/-- A visible task enters a state, unless the state is not written. -/
theorem leaves_enter {setup : Setup} {scope : Scope} {id : TaskId} {target : TaskState}
    {c : Circumstances} {t : Task} {now : Timestamp} (ht : w.store.task? scope id = some t)
    (hwrite : ∀ f ∈ (w.faults .setState).head?, f.Within True) :
    w.Leaves (Service.enter setup id target c t now) fun r _ => ∃ t', r = .ok t' := by
  obtain ⟨hstored, -, hkept⟩ := Store.task?_eq_some_iff.mp ht
  have hshown : w.store.task? (.only t.tenant) id = some t :=
    Store.task?_eq_some_iff.mpr ⟨hstored, by simp [Scope.includes], hkept⟩
  have hwritten : ∃ t', (w.answer (.setState (.only t.tenant) id target c.notes now)).1 =
      .ok (some t') := by
    have hperform : ∃ t', ((w.past .setState).perform
        (.setState (.only t.tenant) id target c.notes now)).1 = .ok (some t') :=
      ⟨_, by simp only [perform, store_past, Store.setState, hshown, Option.map_some]; rfl⟩
    rw [answer_eq]
    cases hfault : (w.faults .setState).head? with
    | none => simpa [Call.kind, hfault] using hperform
    | some f =>
        have hf := hwrite f hfault
        cases f with
        | none => simpa [Call.kind, hfault] using hperform
        | cancel => simpa [Call.kind, hfault] using hperform
        | fail text => exact absurd trivial hf
        | nothing => exact absurd trivial hf
        | posing state => exact hf.elim
  obtain ⟨t', ht'⟩ := hwritten
  have hasked : (w.serve (Service.ask (.setState (.only t.tenant) id target c.notes now))).1 =
      .ok (some t') := by
    rw [serve_ask, ht']
    rfl
  refine leaves_bind_of_ok hasked (leaves_bind_of_ok (serve_publish_fst _ _ _ _ _) ?_)
  exact leaves_pure ⟨t', rfl⟩

variable {setup : Setup} {ctx : Context} {id : TaskId} {target : TaskState} {c : Circumstances}

theorem released_finish (t : Task) :
    (w.serve (Service.finish setup ctx id target c t)).2.released = w.released := by
  refine released_serve (Service.only_bind (Service.only_ensureActive (by simp)) fun _ => ?_) w
  refine Service.only_bind (Service.only_ofExcept _) fun now => ?_
  refine Service.only_bind (Service.only_ask (by simp)) fun found => ?_
  cases found with
  | none => exact Service.only_throw _
  | some t' =>
      exact Service.only_bind (Service.only_publish (by simp) _ _ _ _ _) fun _ => Service.only_pure _

/-- After parts were given back, only a clock that UTC cannot show keeps the task from its state,
unless the caller has given up or the state is not written. -/
theorem error_of_finish {scope : Scope} {t : Task} (ht : w.store.task? scope id = some t)
    (hactive : w.cancelled = false) (hwrite : ∀ f ∈ (w.faults .setState).head?, f.Within True) :
    w.Leaves (Service.finish setup ctx id target c t) fun r _ =>
      ∀ e, r = .error e → e = .beyondUtc := by
  refine leaves_ensureActive_bind (fun hcancelled => ?_) fun _ => ?_
  · rw [hactive] at hcancelled
    cases hcancelled
  refine leaves_ofExcept_bind (fun e he => ?_) fun now _ => ?_
  · rw [Context.now, Timestamp.toUtc] at he
    rintro _ ⟨⟩
    split at he <;> cases he
    rfl
  · have hentered : w.Leaves (Service.enter setup id target c t now) fun r _ => ∃ t', r = .ok t' :=
      leaves_enter ht hwrite
    refine hentered.mono ?_
    rintro r _ ⟨t', rfl⟩ e he
    cases he

/-- A transition that gives parts back does this once at most, and then goes on. -/
theorem leaves_release {scope : Scope} {t : Task} (ht : w.store.task? scope id = some t)
    (hactive : w.cancelled = false) :
    w.Leaves (Service.ask (.releaseParts t.tenant t.id) >>= fun _ =>
        Service.finish setup ctx id target c t) fun r v =>
      v.released = w.released ∨ v.released = w.released ++ [(t.tenant, t.id)] ∧
        (SparesCancelling w.faults → ∀ e, r = .error e → e = .beyondUtc) := by
  rcases answer_releaseParts w t.tenant t.id with ⟨cause, hanswer⟩ | hanswer
  · refine leaves_ask_bind (fun _ _ => ?_) fun _ hok => ?_
    · rw [hanswer]
      exact .inl rfl
    · rw [hanswer] at hok
      cases hok
  · refine leaves_ask_bind (fun _ hfail => ?_) fun _ _ => ?_
    · rw [hanswer] at hfail
      cases hfail
    · rw [hanswer]
      refine .inr ⟨released_finish t, fun hspares => error_of_finish ht ?_ ?_⟩
      · simp [past, hactive, hspares.release]
      · rw [show (w.past .releaseParts).faults .setState = w.faults .setState from
          w.faults_past_of_ne (by decide)]
        exact hspares.write

/-- What a transition does to the parts of its task: it leaves them alone, or it is to cancel the
task, which its actor sees and may cancel, and gives them back. If nothing is to come in between then,
only a clock that UTC cannot show keeps it from success. -/
inductive Frees (setup : Setup) (ctx : Context) (id : TaskId) (target : TaskState)
    (c : Circumstances) (w : World) (r : Except Failure Task) (v : World) : Prop
  | keeps : v.released = w.released → Frees setup ctx id target c w r v
  | frees {t : Task} : w.store.task? ctx.scope id = some t → t.state ≠ target →
      Transition.check ctx.actor t target c setup.settings.tolerances = .ok () →
      target = .cancelled → setup.reservesParts = true → w.cancelled = false →
      v.released = w.released ++ [(t.tenant, t.id)] →
      (SparesCancelling w.faults → ∀ e, r = .error e → e = .beyondUtc) →
      Frees setup ctx id target c w r v

theorem frees_transition (hw : w.Within fun _ => False) :
    w.Leaves (Service.transition setup ctx id target c) (Frees setup ctx id target c w) := by
  unfold Service.transition
  refine leaves_visibleTask_bind hw (fun _ => .keeps rfl) fun found _ => leaves_locked ?_
  have hlocked : ((w.past .task).take (.lock found.tenant)).2.Within fun _ => False := hw.past .task
  refine leaves_visibleTask_bind hlocked (fun _ => .keeps rfl) fun t ht => ?_
  refine leaves_ofExcept_bind (fun _ _ => .keeps rfl) fun _ hcheck => ?_
  dsimp only
  split
  · exact leaves_pure (.keeps rfl)
  rename_i hne
  refine leaves_ensureActive_bind (fun _ => .keeps rfl) fun hactive => ?_
  split
  · rename_i hreleases
    -- looking the task up twice has used up nothing but what was to happen to look-ups
    have hfaults : ∀ kind, kind ≠ .task → (((w.past .task).take (.lock found.tenant)).2.past
        .task).faults kind = w.faults kind := fun kind hkind =>
      (faults_past_of_ne _ hkind).trans (faults_past_of_ne w hkind)
    have hbefore : w.cancelled = false := by
      cases hcancelled : w.cancelled with
      | false => rfl
      | true => simp [past, take, hcancelled] at hactive
    refine (leaves_release ht hactive).mono fun r v hv => ?_
    rcases hv with hkept | ⟨hgiven, hends⟩
    · exact .keeps hkept
    · refine .frees ht hne hcheck hreleases.1 hreleases.2 hbefore hgiven fun hspares => hends ?_
      constructor
      · rw [hfaults _ (by decide)]
        exact hspares.release
      · rw [hfaults _ (by decide)]
        exact hspares.write
  · exact .keeps (released_finish t)

end World

/-! ### Requests -/

/-- The task is stored as cancelled, and belongs to the tenant. -/
def Store.HasCancelled (s : Store) (x : TenantId × TaskId) : Prop :=
  ∃ t, s.tasks.find? x.2 = some t ∧ t.tenant = x.1 ∧ t.state = .cancelled

/-- The request is to cancel the task where parts are reserved. Its actor sees the task open and may
cancel it, and the caller has not given up beforehand. -/
structure Request.Cancels (q : Request) (s : Store) (t : Task) : Prop where
  found : s.task? q.ctx.scope t.id = some t
  isOpen : t.state.isClosed = false
  grants : q.Grants t .cancelled
  reserves : q.setup.reservesParts = true
  active : q.cancelled = false

namespace World

/-- The tasks whose parts are given back while a request is dealt with, with their tenants. -/
def returnedFor (w : World) (q : Request) : List (TenantId × TaskId) :=
  (w.handle q).2.released.drop w.released.length

/-- The tasks whose parts are given back while requests are dealt with, one after the other. -/
def returned (w : World) : List Request → List (TenantId × TaskId)
  | [] => []
  | q :: qs => w.returnedFor q ++ (w.handle q).2.returned qs

variable {w : World} {q : Request}

/-- Dealing with a request for a transition. -/
theorem handle_of_transition {id : TaskId} {target : TaskState} {c : Circumstances}
    (hop : q.operation = .transition id target c) :
    w.handle q =
      (((w.facing q).serve (Service.transition q.setup q.ctx id target c)).1.map Answer.task,
        ((w.facing q).serve (Service.transition q.setup q.ctx id target c)).2) := by
  rw [handle, runOperation, hop]
  exact serve_map _ _ _

/-- What is not to give parts back leaves them alone. -/
theorem released_handle_of_notMem (h : .releaseParts ∉ q.operation.kinds) :
    (w.handle q).2.released = w.released := by
  refine released_trail (w := w.facing q) q.service.run (fun x hx tenant task hstep => ?_) _
    (run_mem_trail _ _)
  rcases w.idleOr_transcriptOf q x hx with hidle | ⟨c, hc, hmem⟩
  · rw [hstep] at hidle
    exact hidle.elim
  · rw [hstep] at hc
    cases hc
    exact h hmem

/-- A request gives no parts back, or those of a task that it is to cancel; then, if nothing is to
come in between, only a clock that UTC cannot show keeps it from success. -/
theorem frees_handle (w : World) (q : Request) :
    (w.handle q).2.released = w.released ∨
      ∃ t, (w.handle q).2.released = w.released ++ [(t.tenant, t.id)] ∧ q.Cancels w.store t ∧
        (SparesCancelling q.faults → ∀ e, (w.handle q).1 = .error e → e = .beyondUtc) := by
  cases hop : q.operation with
  | transition id target c =>
      rw [handle_of_transition hop]
      have hfrees : (w.facing q).Leaves (Service.transition q.setup q.ctx id target c)
        (Frees q.setup q.ctx id target c (w.facing q)) := frees_transition (within_facing w q)
      cases hfrees with
      | keeps h => exact .inl h
      | @frees t ht hne hcheck htarget hreserves hactive hreleased hends =>
          subst htarget
          obtain rfl := Store.id_eq_of_task? ht
          have hopen := (Transition.leads_of_check hcheck hne).isOpen
          refine .inr ⟨t, hreleased, ⟨ht, hopen, ⟨c, hop, hcheck⟩, hreserves, hactive⟩, ?_⟩
          intro hspares e he
          cases hr : ((w.facing q).serve
              (Service.transition q.setup q.ctx t.id .cancelled c)).1 with
          | error cause =>
              rw [hr] at he
              cases he
              exact hends hspares _ hr
          | ok t' =>
              rw [hr] at he
              cases he
  | _ => exact .inl (released_handle_of_notMem (by rw [hop]; simp [Operation.kinds]))

theorem returnedFor_eq {xs : List (TenantId × TaskId)}
    (h : (w.handle q).2.released = w.released ++ xs) : w.returnedFor q = xs := by
  rw [returnedFor, h, List.drop_left]

/-- The same, in terms of what is given back. -/
theorem returnedFor_cases (w : World) (q : Request) :
    w.returnedFor q = [] ∨ ∃ t, w.returnedFor q = [(t.tenant, t.id)] ∧ q.Cancels w.store t ∧
      (SparesCancelling q.faults → ∀ e, (w.handle q).1 = .error e → e = .beyondUtc) := by
  rcases frees_handle w q with hnone | ⟨t, hone, hrest⟩
  · exact .inl (returnedFor_eq (hnone.trans (List.append_nil _).symm))
  · exact .inr ⟨t, returnedFor_eq hone, hrest⟩

/-- Whatever was given back before a request is still known to be so after it. -/
theorem released_handle (w : World) (q : Request) :
    (w.handle q).2.released = w.released ++ w.returnedFor q := by
  rcases frees_handle w q with hnone | ⟨t, hone, -⟩
  · rw [returnedFor, hnone, List.drop_length, List.append_nil]
  · rw [returnedFor_eq hone, hone]

/-- A request to cancel a task leaves the store as it was when it fails, and has stored the task as
cancelled when it succeeds. -/
theorem hasCancelled_handle {t : Task} (h : q.Cancels w.store t) :
    (∀ e, (w.handle q).1 = .error e → (w.handle q).2.store = w.store) ∧
      ∀ a, (w.handle q).1 = .ok a → (w.handle q).2.store.HasCancelled (t.tenant, t.id) := by
  obtain ⟨c, hop, -⟩ := h.grants
  have hcourse := course_handle w q
  rw [Request.service, hop] at hcourse
  obtain ⟨hfail, hok⟩ := Service.lands_map (Q := fun a s' =>
      Operation.Effect q.ctx w.store (.transition t.id .cancelled c) a s')
    (Service.lands_transition q.setup q.ctx t.id .cancelled c) _ _ _ hcourse
  refine ⟨hfail, fun a ha => ?_⟩
  have heffect := hok a ha
  generalize (w.handle q).2.store = s' at heffect
  generalize hsame : Operation.transition t.id .cancelled c = o at heffect
  have hfound := h.found
  cases heffect with
  | @stays u c' hu =>
      obtain ⟨hid, hstate, -⟩ := Operation.transition.inj hsame
      rw [← hid, hfound] at hu
      cases hu
      have hopen := h.isOpen
      rw [← hstate] at hopen
      cases hopen
  | @enters u u' target c' now s' hu hne hnow henters =>
      obtain ⟨hid, rfl, -⟩ := Operation.transition.inj hsame
      rw [← hid, hfound] at hu
      cases hu
      have hrecord := henters.record
      refine ⟨u', ?_, by rw [hrecord], by rw [hrecord]⟩
      rw [henters.left, hrecord]
      exact (Table.find?_put).trans (if_pos rfl)
  | makes => cases hsame
  | removes => cases hsame
  | reads ho =>
      subst hsame
      cases ho

/-! ### Sessions -/

/-- What is closed stays as it is while a request is dealt with. -/
theorem keeps_handle (w : World) (q : Request) : w.store.Keeps (w.handle q).2.store := by
  have hchain : (trail q.service.run (w.facing q)).IsChain fun u v => u.store.Keeps v.store :=
    (lives_trail w q).imp fun _ _ h => h.keeps
  exact rel_of_isChain (R := fun u v => u.store.Keeps v.store) (fun u => .refl u.store)
    Store.Keeps.trans hchain

end World

theorem Store.HasCancelled.keeps {s s' : Store} {x : TenantId × TaskId} (h : s.HasCancelled x)
    (hkeeps : s.Keeps s') : s'.HasCancelled x := by
  obtain ⟨t, ht, htenant, hstate⟩ := h
  exact ⟨t, hkeeps x.2 t ht (.inl (by rw [hstate]; rfl)), htenant, hstate⟩

/-- A task that is cancelled already is not cancelled again. -/
theorem Request.Cancels.not_hasCancelled {q : Request} {s : Store} {t : Task} (h : q.Cancels s t) :
    ¬s.HasCancelled (t.tenant, t.id) := by
  rintro ⟨u, hu, -, hstate⟩
  rw [(Store.task?_eq_some_iff.mp h.found).1] at hu
  cases hu
  have hopen := h.isOpen
  rw [hstate] at hopen
  cases hopen

namespace World

variable {w : World} {qs : List Request} {x : TenantId × TaskId}

theorem hasCancelled_after (h : w.store.HasCancelled x) (qs : List Request) :
    (w.after qs).store.HasCancelled x := by
  induction qs generalizing w with
  | nil => exact h
  | cons q qs ih => exact ih (h.keeps (keeps_handle w q))

/-- The parts of a cancelled task are not given back any more. -/
theorem notMem_returned (h : w.store.HasCancelled x) (qs : List Request) : x ∉ w.returned qs := by
  induction qs generalizing w with
  | nil => exact List.not_mem_nil
  | cons q qs ih =>
      rw [returned, List.mem_append, not_or]
      refine ⟨?_, ih (h.keeps (keeps_handle w q))⟩
      rcases returnedFor_cases w q with hnone | ⟨t, hone, hcancels, -⟩
      · rw [hnone]
        exact List.not_mem_nil
      · rw [hone, List.mem_singleton]
        rintro rfl
        exact hcancels.not_hasCancelled h

theorem released_after (w : World) (qs : List Request) :
    (w.after qs).released = w.released ++ w.returned qs := by
  induction qs generalizing w with
  | nil => exact (List.append_nil _).symm
  | cons q qs ih =>
      calc (w.after (q :: qs)).released
          = (w.handle q).2.released ++ (w.handle q).2.returned qs := ih _
        _ = w.released ++ w.returned (q :: qs) := by
            rw [released_handle, List.append_assoc, returned]

/-- Where nothing comes between the two effects of cancelling a task, and all calls return, parts are
given back of cancelled tasks only, and once at most. -/
theorem returned_of_sparesCancelling (hspares : ∀ q ∈ qs, SparesCancelling q.faults)
    (hreturns : .error .beyondUtc ∉ w.replies qs) :
    (w.returned qs).Nodup ∧ ∀ x ∈ w.returned qs, (w.after qs).store.HasCancelled x := by
  induction qs generalizing w with
  | nil => exact ⟨List.nodup_nil, by simp [returned]⟩
  | cons q qs ih =>
      obtain ⟨hq, hqs⟩ := List.forall_mem_cons.mp hspares
      rw [replies, List.mem_cons, not_or] at hreturns
      obtain ⟨hnodup, hcancelled⟩ := ih hqs hreturns.2
      rw [returned]
      rcases returnedFor_cases w q with hnone | ⟨t, hone, hcancels, hends⟩
      · rw [hnone, List.nil_append]
        exact ⟨hnodup, hcancelled⟩
      rw [hone, List.singleton_append]
      have hstored : (w.handle q).2.store.HasCancelled (t.tenant, t.id) := by
        cases hr : (w.handle q).1 with
        | ok a => exact (hasCancelled_handle hcancels).2 a hr
        | error e =>
            obtain rfl := hends hq e hr
            exact absurd hr.symm hreturns.1
      exact ⟨List.nodup_cons.mpr ⟨notMem_returned hstored qs, hnodup⟩,
        List.forall_mem_cons.mpr ⟨hasCancelled_after hstored qs, hcancelled⟩⟩

/-- What becomes of the parts of tasks while a request is dealt with and others come later: none are
given back; or those of a task that is cancelled, and stays so, and whose parts are never given back
again; or the request fails after that, and the store is as it was. -/
inductive Returns (w : World) (q : Request) (later : List Request) : Prop
  | none : w.returnedFor q = [] → Returns w q later
  | cancelled {t : Task} {a : Answer} : w.returnedFor q = [(t.tenant, t.id)] →
      q.Cancels w.store t → (w.handle q).1 = .ok a →
      ((w.handle q).2.after later).store.HasCancelled (t.tenant, t.id) →
      (t.tenant, t.id) ∉ (w.handle q).2.returned later → Returns w q later
  | failed {t : Task} {e : Failure} : w.returnedFor q = [(t.tenant, t.id)] →
      q.Cancels w.store t → (w.handle q).1 = .error e → (w.handle q).2.store = w.store →
      Returns w q later

theorem returns (w : World) (q : Request) (later : List Request) : w.Returns q later := by
  rcases returnedFor_cases w q with hnone | ⟨t, hone, hcancels, -⟩
  · exact .none hnone
  obtain ⟨hfail, hok⟩ := hasCancelled_handle hcancels
  cases hr : (w.handle q).1 with
  | ok a =>
      have hstored := hok a hr
      exact .cancelled hone hcancels hr (hasCancelled_after hstored later)
        (notMem_returned hstored later)
  | error e => exact .failed hone hcancels hr (hfail e hr)

/-- Whoever asks for whatever in a session, whatever fails, and whenever a caller gives up: no parts
are given back but those of a task that the request is to cancel, once for each request. When the
request succeeds the task is stored as cancelled, stays so, and its parts are not given back again;
when it fails the store is as it was. And if nothing comes between the two effects of such a request,
and all requests return, every task whose parts were given back is stored as cancelled, and none was
twice. -/
theorem parts_session (w : World) (qs : List Request) :
    (w.after qs).released = w.released ++ w.returned qs ∧
      (∀ before q later, qs = before ++ q :: later → (w.after before).Returns q later) ∧
      ((∀ q ∈ qs, SparesCancelling q.faults) → .error .beyondUtc ∉ w.replies qs →
        (w.returned qs).Nodup ∧ ∀ x ∈ w.returned qs, (w.after qs).store.HasCancelled x) :=
  ⟨released_after w qs, fun before q later _ => returns (w.after before) q later,
    returned_of_sparesCancelling⟩

/-- A scheduler asks for the first task to be cancelled where parts are reserved, and this happens to
the first call of a kind. -/
def cancelling (kind : CallKind) (fault : Fault) (h : fault.Within False) : Request :=
  { mishap (.transition (.ofNat 1) .cancelled { aircraft := .operational, now := Store.hour 6 0 })
      kind fault h with setup := { reservesParts := true } }

/-- The parts of the first task are given back when it is asked for the second time that it be
cancelled. Nobody learns that this was done, and it is not done again. -/
theorem parts_session_sample :
    let w : World := { store := .sample }
    let qs := [cancelling .releaseParts (.fail "no answer") not_false,
      cancelling .announce (.fail "disk full") not_false, cancelling .task .cancel trivial]
    ((∀ q ∈ qs, SparesCancelling q.faults) ∧ .error .beyondUtc ∉ w.replies qs) ∧
      (w.after qs).released = [(.ofNat 1, .ofNat 1)] ∧
      (w.after qs).store.HasCancelled (.ofNat 1, .ofNat 1) := by
  intro w qs
  have hspares : ∀ q ∈ qs, SparesCancelling q.faults := by
    have hwrite : ∀ q ∈ qs, q.faults .setState = [] := by decide
    have hrelease : ∀ q ∈ qs, (q.faults .releaseParts).head? ≠ some .cancel := by decide
    exact fun q hq => ⟨hrelease q hq, by simp [hwrite q hq]⟩
  have hreturns : .error .beyondUtc ∉ w.replies qs := by
    have hreplies : (w.replies qs).map (fun r => decide (r = .error .beyondUtc)) =
        [false, false, false] := by cbv
    intro hmem
    have hfound := List.mem_map_of_mem (f := fun r => decide (r = .error .beyondUtc)) hmem
    rw [hreplies] at hfound
    simp at hfound
  have hreturned : w.returned qs = [(.ofNat 1, .ofNat 1)] := by cbv
  obtain ⟨hreleased, -, hall⟩ := parts_session w qs
  obtain ⟨-, hcancelled⟩ := hall hspares hreturns
  rw [hreturned] at hreleased hcancelled
  exact ⟨⟨hspares, hreturns⟩, hreleased, hcancelled _ List.mem_cons_self⟩

/-- When the state cannot be written, the parts of a task were given back that stays open; and when
this happens again, they are given back twice. Nor is it enough that the state can be written: the
caller may give up while the parts are given back. -/
theorem not_parts_of_cancelled :
    (¬∀ (w : World) (qs : List Request), ∀ x ∈ w.returned qs, (w.after qs).store.HasCancelled x) ∧
      (¬∀ (w : World) (qs : List Request), (w.returned qs).Nodup) ∧
      ¬∀ (w : World) (qs : List Request), (∀ q ∈ qs, q.faults .setState = []) →
        ∀ x ∈ w.returned qs, (w.after qs).store.HasCancelled x := by
  let w : World := { store := .sample }
  let q := cancelling .setState (.fail "disk full") not_false
  let q' := cancelling .releaseParts .cancel trivial
  have hopen : ∀ {v : World},
      (v.store.tasks.find? (.ofNat 1)).map Task.state = some .scheduled →
      ¬v.store.HasCancelled (.ofNat 1, .ofNat 1) := by
    rintro v hstate ⟨t, ht, -, hcancelled⟩
    rw [ht, Option.map_some, hcancelled] at hstate
    cases hstate
  refine ⟨fun h => ?_, fun h => ?_, fun h => ?_⟩
  · have hreturned : w.returned [q] = [(.ofNat 1, .ofNat 1)] := by cbv
    have hstate : ((w.after [q]).store.tasks.find? (.ofNat 1)).map Task.state =
        some .scheduled := by cbv
    exact hopen hstate (h w [q] _ (by rw [hreturned]; exact List.mem_cons_self))
  · have hreturned : w.returned [q, q] = [(.ofNat 1, .ofNat 1), (.ofNat 1, .ofNat 1)] := by cbv
    have hnodup := h w [q, q]
    rw [hreturned] at hnodup
    exact absurd hnodup (by decide)
  · have hreturned : w.returned [q'] = [(.ofNat 1, .ofNat 1)] := by cbv
    have hstate : ((w.after [q']).store.tasks.find? (.ofNat 1)).map Task.state =
        some .scheduled := by cbv
    refine hopen hstate (h w [q'] (by decide) _ ?_)
    rw [hreturned]
    exact List.mem_cons_self

end World

end Overhaul
