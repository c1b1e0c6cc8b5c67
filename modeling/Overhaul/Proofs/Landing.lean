import Overhaul.Proofs.Store.Linked
import Overhaul.Proofs.Transitions

/-!
# What an operation leaves

Most operations come to a single write, and all that may go wrong before it leaves the store alone.
`Service.Lands` says so of a service: when it fails the store is as it was, and when it succeeds its
answer and the store fit together. `Operation.Effect` says how they fit, in terms of what the store
shows. Main statement: all operations but moves land with their effects, whatever goes wrong
(`Operation.lands_service`).
-/

namespace Overhaul

/-- The task has entered a state in the second store: its notes have grown by those that were given,
on a line of their own, and it was written at that time. At most this was announced. -/
structure Store.Enters (s : Store) (t : Task) (target : TaskState) (notes : String)
    (now : Timestamp) (t' : Task) (s' : Store) : Prop where
  record : t' = { t with state := target, notes := t'.notes, updated := now }
  quiet : Text.trimmed notes = "" → t'.notes = t.notes
  first : Text.trimmed notes ≠ "" → t.notes = "" → t'.notes = Text.trimmed notes
  further : Text.trimmed notes ≠ "" → t.notes ≠ "" →
    t'.notes = t.notes ++ "\n" ++ Text.trimmed notes
  left : s' = { s with tasks := s.tasks.put t', outbox := s'.outbox }
  outbox : s'.outbox = s.outbox ∨ s'.outbox = s.outbox.put (.aboutTask t.tenant t.id
    "task.state_changed" (.of (Service.transitionPayload t.id t.state target notes)))

/-- Writing the task as it enters the state, with or without its announcement. -/
theorem Store.enters_put {s s' : Store} {t t' : Task} {target : TaskState} {notes : String}
    {now : Timestamp}
    (ht' : t' = { t with state := target, notes := withNotes t.notes notes, updated := now })
    (hs' : s' = { s with tasks := s.tasks.put t' } ∨
      s' = { s with tasks := s.tasks.put t' }.announce (.aboutTask t.tenant t.id
        "task.state_changed" (.of (Service.transitionPayload t.id t.state target notes)))) :
    s.Enters t target notes now t' s' := by
  have hnotes : t'.notes = withNotes t.notes notes := by rw [ht']
  refine ⟨by rw [hnotes, ht'], ?_, ?_, ?_, ?_, ?_⟩
  · intro hnone
    simp [hnotes, withNotes, hnone]
  · intro hsome hfirst
    simp [hnotes, withNotes, hsome, hfirst]
  · intro hsome hfurther
    simp [hnotes, withNotes, hsome, hfurther]
  · rcases hs' with rfl | rfl <;> rfl
  · exact hs'.imp (fun h => by rw [h]) fun h => by rw [h]; rfl

/-- A task that has entered another state has left its mark on the store. -/
theorem Store.Enters.ne {s s' : Store} {scope : Scope} {t t' : Task} {target : TaskState}
    {notes : String} {now : Timestamp} (h : s.Enters t target notes now t' s')
    (ht : s.task? scope t.id = some t) (hne : t.state ≠ target) : s' ≠ s := by
  rintro rfl
  have hfound : s'.tasks.find? t'.id = some t' := by
    rw [h.left]
    exact (Table.find?_put).trans (if_pos rfl)
  rw [h.record, (task?_eq_some_iff.mp ht).1] at hfound
  exact hne (congrArg Task.state (Option.some.inj hfound))

/-- What becomes of the store when an operation other than a move succeeds with an answer. -/
inductive Operation.Effect (ctx : Context) (s : Store) : Operation → Answer → Store → Prop
  | makes {task prerequisite : TaskId} {kind : Option DependencyKind} {d : Dependency}
      {s' : Store} :
      d.task = task → d.prerequisite = prerequisite → d.kind = kind.getD .finishToStart →
      s.Gains d s' → Effect ctx s (.depend task prerequisite kind) (.dependency d) s'
  | removes {d : Dependency} {s' : Store} :
      s.Loses d s' → Effect ctx s (.undepend d.id) (.removed d.id) s'
  /-- The task is in the state already. -/
  | stays {t : Task} {c : Circumstances} :
      s.task? ctx.scope t.id = some t → Effect ctx s (.transition t.id t.state c) (.task t) s
  | enters {t t' : Task} {target : TaskState} {c : Circumstances} {now : Timestamp} {s' : Store} :
      s.task? ctx.scope t.id = some t → t.state ≠ target → ctx.clock.inUtc? = some now →
      s.Enters t target c.notes now t' s' →
      Effect ctx s (.transition t.id target c) (.task t') s'
  /-- The operation is not for changing anything. -/
  | reads {o : Operation} {a : Answer} : o.kinds = [] → Effect ctx s o a s

namespace Service

variable {α β : Type} {sound : CallKind → Prop} {s : Store}

/-- However calls turn out, the service leaves the store as it was when it fails, and succeeds with
an answer and a store that are in `Q`. -/
def Lands (sound : CallKind → Prop) (s : Store) (p : Service α) (Q : α → Store → Prop) : Prop :=
  ∀ log r s', Course sound p s log r s' →
    (∀ e, r = .error e → s' = s) ∧ ∀ a, r = .ok a → Q a s'

section

variable {Q : α → Store → Prop}

theorem lands_pure {a : α} (h : Q a s) : Lands sound s (pure a) Q := by
  intro log r s' hcourse
  obtain ⟨-, rfl, rfl⟩ := course_pure hcourse
  refine ⟨fun e he => rfl, ?_⟩
  rintro _ ⟨⟩
  exact h

theorem lands_throw (f : Failure) : Lands sound s (throw f) Q := by
  intro log r s' hcourse
  obtain ⟨-, rfl, rfl⟩ := course_throw hcourse
  exact ⟨fun _ _ => rfl, by simp⟩

theorem lands_guard {c : Prop} [Decidable c] {f : Failure} {k : Unit → Service α}
    (h : ¬c → Lands sound s (k ()) Q) : Lands sound s (if c then throw f >>= k else k ()) Q := by
  split
  · exact lands_throw f
  · rename_i hc
    exact h hc

theorem Lands.mono {p : Service α} {R : α → Store → Prop} (h : Lands sound s p Q)
    (hQ : ∀ a s', Q a s' → R a s') : Lands sound s p R := by
  intro log r s' hcourse
  obtain ⟨hfail, hok⟩ := h log r s' hcourse
  exact ⟨hfail, fun a ha => hQ a s' (hok a ha)⟩

/-- What follows a first reading finds the store as it was. -/
theorem lands_bind_of_reads {p : Service β} {f : β → Service α} (hp : Only Step.Reads p)
    (h : ∀ b log, Course sound p s log (.ok b) s → Lands sound s (f b) Q) :
    Lands sound s (p >>= f) Q := by
  intro log r s' hcourse
  rcases course_bind_of_reads hp hcourse with
    ⟨⟨e, -, rfl⟩, rfl, -⟩ | ⟨b, log₁, log₂, hfirst, hrest, -⟩
  · exact ⟨fun _ _ => rfl, by simp⟩
  · exact h b log₁ hfirst _ _ _ hrest

theorem lands_of_reads {p : Service α} (hp : Only Step.Reads p) (h : ∀ a, Q a s) :
    Lands sound s p Q := by
  intro log r s' hcourse
  obtain rfl := hcourse.store_eq_of_reads hp
  exact ⟨fun _ _ => rfl, fun a _ => h a⟩

theorem lands_visibleTask_bind {ctx : Context} {id : TaskId} {missing : TaskId → Missing}
    {f : Task → Service α} (h : ∀ t, s.task? ctx.scope id = some t → Lands sound s (f t) Q) :
    Lands sound s (visibleTask ctx id missing >>= f) Q :=
  lands_bind_of_reads (only_visibleTask trivial) fun t _ ht => h t (course_visibleTask ht).2

theorem lands_ofExcept_bind {e : Except Failure β} {f : β → Service α}
    (h : ∀ b, e = .ok b → Lands sound s (f b) Q) : Lands sound s (ofExcept e >>= f) Q :=
  lands_bind_of_reads (only_ofExcept _) fun b _ hb => h b (course_ofExcept hb).2.1.symm

theorem lands_ensureActive_bind {k : Unit → Service α} (h : Lands sound s (k ()) Q) :
    Lands sound s (ensureActive >>= k) Q :=
  lands_bind_of_reads (only_ensureActive trivial) fun _ _ _ => h

theorem lands_locked {tenant : TenantId} {p : Service α} (h : Lands sound s p Q) :
    Lands sound s (locked tenant p) Q := by
  intro log r s' hcourse
  obtain ⟨_, -, hinner⟩ := course_locked hcourse
  exact h _ _ _ hinner

theorem lands_map {p : Service β} {f : β → α} (h : Lands sound s p fun b => Q (f b)) :
    Lands sound s (f <$> p) Q := by
  intro log r s' hcourse
  obtain ⟨r', rfl, hfirst⟩ := course_map hcourse
  obtain ⟨hfail, hok⟩ := h _ _ _ hfirst
  cases r' with
  | error e => exact ⟨fun _ _ => hfail e rfl, by simp [Except.map]⟩
  | ok b =>
      refine ⟨by simp [Except.map], ?_⟩
      rintro _ ⟨⟩
      exact hok b rfl

/-- Parts that are given back on a condition do not concern the store. -/
theorem lands_releasing {c : Prop} [Decidable c] {tenant : TenantId} {task : TaskId}
    {k : Unit → Service α} (h : Lands sound s (k ()) Q) :
    Lands sound s (if c then ask (.releaseParts tenant task) >>= k else k ()) Q := by
  intro log r s' hcourse
  rcases course_releasing hcourse with ⟨⟨e, rfl⟩, -, rfl⟩ | ⟨_, _, -, -, hrest⟩
  · exact ⟨fun _ _ => rfl, by simp⟩
  · exact h _ _ _ hrest

end

/-- What follows a call that is answered starts from what the call leaves; one that fails leaves the
store as it was. -/
theorem lands_ask_bind {c : Call} {f : c.Value → Service α} {Q : α → Store → Prop}
    (h : ∀ v s₁, Exchange.Carries sound ⟨.call c, .ok v⟩ s s₁ → ∀ log r s',
      Course sound (f v) s₁ log r s' → (∀ e, r = .error e → s' = s) ∧ ∀ a, r = .ok a → Q a s') :
    Lands sound s (ask c >>= f) Q := by
  intro log r s' hcourse
  obtain ⟨e, hfail, rfl⟩ | ⟨v, log₁, log₂, s₁, hask, hrest, -⟩ := course_bind hcourse
  · obtain ⟨e', -, he, hx⟩ := course_ask hfail
    cases e' with
    | ok v => cases he
    | error cause => exact ⟨fun _ _ => Exchange.store_of_error hx rfl, by simp⟩
  · exact h v s₁ (course_ask_ok hask).2 _ _ _ hrest

/-! ### Dependencies -/

/-- The dependency that was asked for is added. -/
theorem lands_depend (ctx : Context) (task prerequisite : TaskId) (kind : Option DependencyKind) :
    Lands sound s (depend ctx task prerequisite kind) fun d s' =>
      (d.task = task ∧ d.prerequisite = prerequisite ∧ d.kind = kind.getD .finishToStart) ∧
        s.addDependency d = .ok s' := by
  unfold depend
  refine lands_guard fun _ => lands_visibleTask_bind fun waiting _ => ?_
  refine lands_visibleTask_bind fun awaited _ => lands_guard fun _ => lands_locked ?_
  refine lands_bind_of_reads (only_ask (by trivial)) fun present _ _ => lands_guard fun _ => ?_
  refine lands_bind_of_reads (only_reaches (fun _ => trivial) _ _ _) fun circular _ _ => ?_
  refine lands_guard fun _ => lands_ensureActive_bind (lands_ofExcept_bind fun now _ => ?_)
  refine lands_ask_bind fun _ s₁ hx log r s' hrest => ?_
  obtain ⟨-, rfl, rfl⟩ := course_pure hrest
  obtain ⟨-, hadd⟩ | ⟨_, he, -⟩ := Exchange.carries_addDependency hx
  · refine ⟨by simp, ?_⟩
    rintro d ⟨⟩
    exact ⟨⟨rfl, rfl, rfl⟩, hadd⟩
  · cases he

/-- The dependency that was named is removed. -/
theorem lands_undepend (ctx : Context) (id : DependencyId) :
    Lands sound s (undepend ctx id) fun _ s' => ∃ scope, s.removeDependency scope id = some s' := by
  refine lands_bind_of_reads (only_ask (by trivial)) fun found _ _ => ?_
  cases found with
  | none => exact lands_throw _
  | some d =>
      refine lands_locked (lands_ensureActive_bind (lands_ask_bind ?_))
      intro removed s₁ hx log r s' hrest
      obtain ⟨he, hrem⟩ | ⟨hne, rfl⟩ := Exchange.carries_removeDependency hx
      · cases he
        obtain ⟨-, rfl, rfl⟩ := course_pure (α := Unit) hrest
        exact ⟨by simp, fun _ _ => ⟨_, hrem⟩⟩
      · cases removed with
        | true => exact absurd rfl hne
        | false =>
            obtain ⟨-, rfl, rfl⟩ := course_throw (α := Unit) hrest
            exact ⟨fun _ _ => rfl, by simp⟩

/-! ### Transitions -/

/-- The task is written once, and this is announced or not. -/
theorem lands_enter {setup : Setup} {scope : Scope} {id : TaskId} {target : TaskState}
    {c : Circumstances} {t : Task} {now : Timestamp} (ht : s.task? scope id = some t) :
    Lands sound s (enter setup id target c t now) (s.Enters t target c.notes now) := by
  obtain ⟨hstored, -, hkept⟩ := Store.task?_eq_some_iff.mp ht
  refine lands_ask_bind fun found s₁ hx log r s' hrest => ?_
  obtain ⟨t', he, hset⟩ | ⟨hne, rfl⟩ := Exchange.carries_setState hx
  · cases he
    obtain ⟨u, hu, ht', rfl⟩ := Store.setState_eq_some_iff.mp hset
    obtain rfl : t = u := by
      have hfound := (Store.task?_eq_some_iff.mp hu).1
      rw [hstored] at hfound
      exact Option.some.inj hfound
    obtain ⟨_, log₁, log₂, s₂, hpublish, hpure, -⟩ :=
      course_bind_of_ok (fun h => ⟨(), (course_publish h).1⟩) hrest
    obtain ⟨-, rfl, rfl⟩ := course_pure hpure
    obtain ⟨-, hleft⟩ := course_publish_cases hpublish
    refine ⟨by simp, ?_⟩
    rintro _ ⟨⟩
    refine Store.enters_put ht' (hleft.imp_right ?_)
    rintro ⟨p, ⟨⟩, hleft⟩
    rw [hleft, ht', Store.id_eq_of_task? ht]
  · cases found with
    | some t' => exact absurd rfl (hne t')
    | none =>
        obtain ⟨-, rfl, rfl⟩ := course_throw (α := Task) hrest
        exact ⟨fun _ _ => rfl, by simp⟩

/-- A task that is in the state already stays as it is, and otherwise it enters the state. -/
theorem lands_transition (setup : Setup) (ctx : Context) (id : TaskId) (target : TaskState)
    (c : Circumstances) :
    Lands sound s (transition setup ctx id target c) fun t' s' =>
      Operation.Effect ctx s (.transition id target c) (.task t') s' := by
  unfold transition
  refine lands_visibleTask_bind fun _ _ => lands_locked (lands_visibleTask_bind fun t ht => ?_)
  obtain rfl := Store.id_eq_of_task? ht
  refine lands_ofExcept_bind fun _ _ => ?_
  dsimp only
  split
  · rename_i hsame
    subst hsame
    exact lands_pure (.stays ht)
  rename_i hne
  refine lands_ensureActive_bind (lands_releasing (lands_ensureActive_bind ?_))
  refine lands_ofExcept_bind fun now hnow => ?_
  have hclock := Timestamp.toUtc_eq_ok_iff.mp hnow
  exact (lands_enter ht).mono fun t' s' henters => .enters ht hne hclock henters

end Service

/-- Every operation but a move lands with its effect. -/
theorem Operation.lands_service {sound : CallKind → Prop} {s : Store} (setup : Setup)
    (ctx : Context) {o : Operation} (ho : ∀ m, o ≠ .reschedule m) :
    Service.Lands sound s (o.service setup ctx) fun a s' => s.Indexed → o.Effect ctx s a s' := by
  have hreads : ∀ {α : Type} {p : Service α} {f : α → Answer}, o.kinds = [] →
      Service.Only Step.Reads p →
      Service.Lands sound s (f <$> p) fun a s' => s.Indexed → o.Effect ctx s a s' :=
    fun hkinds hp => Service.lands_map (Service.lands_of_reads hp fun _ _ => .reads hkinds)
  cases o with
  | depend task prerequisite kind =>
      refine Service.lands_map ((Service.lands_depend ctx task prerequisite kind).mono ?_)
      rintro d s' ⟨⟨htask, hprerequisite, hkind⟩, hadd⟩ hindexed
      exact .makes htask hprerequisite hkind (hindexed.gains hadd)
  | undepend id =>
      rw [service, bind_pure_comp]
      refine Service.lands_map ((Service.lands_undepend ctx id).mono ?_)
      rintro _ s' ⟨scope, hrem⟩ hindexed
      obtain ⟨d, -, rfl, hloses⟩ := hindexed.loses hrem
      exact .removes hloses
  | reschedule m => exact absurd rfl (ho m)
  | transition task target c =>
      exact Service.lands_map ((Service.lands_transition _ _ _ _ _).mono fun _ _ h _ => h)
  | dependencies task => exact hreads rfl (Service.only_dependencies _ _)
  | dependents task => exact hreads rfl (Service.only_dependents _ _)
  | history task => exact hreads rfl (Service.only_history _ _)
  | conflicts => exact hreads rfl (Service.only_conflicts _)

end Overhaul
