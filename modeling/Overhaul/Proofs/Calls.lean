import Overhaul.Proofs.Course

/-!
# What calls do to a store

A call that reads leaves the store as it is, and what it answers is what the store shows, unless
something interferes. A call that writes either fails and leaves the store as it is, or does what
the store's operation of that name does.
-/

namespace Overhaul

/-- The call changes nothing, however it is answered. -/
def Call.Reads : Call → Prop
  | .task _ _ | .tasksWhere _ | .dependency _ _ | .dependenciesOf _ _ | .dependentsOf _ _
  | .changesOf _ _ => True
  | .putTask _ | .setState _ _ _ _ _ | .addDependency _ | .removeDependency _ _ | .addChange _
  | .announce _ | .releaseParts _ _ => False

/-- The step changes nothing, however it turns out. -/
def Step.Reads : Step → Prop
  | .call c => c.Reads
  | .isCancelled => True
  | .lock _ | .unlock _ => False

/-- The step leaves the store alone; it may take locks and give them back. -/
def Step.Idle : Step → Prop
  | .call c => c.Reads
  | .isCancelled | .lock _ | .unlock _ => True

theorem Step.Reads.idle {st : Step} (h : st.Reads) : st.Idle := by
  cases st with
  | call c => exact h
  | _ => trivial

namespace Store

theorem addTask_eq_ok_iff {s s' : Store} {t : Task} :
    s.addTask t = .ok s' ↔
      s.tasks.find? t.id = none ∧ s' = { s with tasks := s.tasks.put t } := by
  unfold addTask
  cases h : s.tasks.find? t.id with
  | none => simp [eq_comm]
  | some t' => simp

theorem putTask_eq_ok_iff {s s' : Store} {t : Task} :
    s.putTask t = .ok s' ↔
      (s.tasks.find? t.id).isSome ∧ s' = { s with tasks := s.tasks.put t } := by
  unfold putTask
  cases h : s.tasks.find? t.id with
  | none => simp
  | some t' => simp [eq_comm]

theorem addChange_eq_ok_iff {s s' : Store} {c : ScheduleChange} :
    s.addChange c = .ok s' ↔
      s.changes.find? c.id = none ∧ s' = { s with changes := s.changes.put c } := by
  unfold addChange
  cases h : s.changes.find? c.id with
  | none => simp [eq_comm]
  | some c' => simp

theorem addDependency_eq_ok_iff {s s' : Store} {d : Dependency} :
    s.addDependency d = .ok s' ↔ s.dependencies.find? d.id = none ∧
      (s.tasks.find? d.task).isSome ∧ (s.tasks.find? d.prerequisite).isSome ∧ s' = s.link d := by
  unfold addDependency
  cases h : s.dependencies.find? d.id with
  | some d' => simp
  | none =>
      cases ht : s.tasks.find? d.task with
      | none => simp [ht]
      | some t =>
          cases hp : s.tasks.find? d.prerequisite with
          | none => simp [ht, hp]
          | some p => simp [ht, hp, eq_comm]

theorem removeDependency_eq_some_iff {s s' : Store} {scope : Scope} {id : DependencyId} :
    s.removeDependency scope id = some s' ↔
      ∃ d, s.dependency? scope id = some d ∧ s' = s.unlink d := by
  rw [removeDependency, Option.map_eq_some_iff]
  exact exists_congr fun d => and_congr_right fun _ => eq_comm

theorem setState_eq_some_iff {s s' : Store} {scope : Scope} {id : TaskId} {state : TaskState}
    {notes : String} {now : Timestamp} {t' : Task} :
    s.setState scope id state notes now = some (t', s') ↔
      ∃ t, s.task? scope id = some t ∧
        t' = { t with state, notes := withNotes t.notes notes, updated := now } ∧
        s' = { s with tasks := s.tasks.put t' } := by
  unfold setState
  rw [Option.map_eq_some_iff]
  constructor
  · rintro ⟨t, ht, h⟩
    obtain ⟨rfl, rfl⟩ := Prod.mk.inj h
    exact ⟨t, ht, rfl, rfl⟩
  · rintro ⟨t, ht, rfl, rfl⟩
    exact ⟨t, ht, rfl⟩

/-- A visible task is stored under its identifier, belongs to the scope and is not deleted. -/
theorem task?_eq_some_iff {s : Store} {scope : Scope} {id : TaskId} {t : Task} :
    s.task? scope id = some t ↔
      s.tasks.find? id = some t ∧ scope.includes t.tenant ∧ t.deleted = none := by
  simp [task?, Option.filter_eq_some_iff, Task.visibleIn]

theorem id_eq_of_task? {s : Store} {scope : Scope} {id : TaskId} {t : Task}
    (h : s.task? scope id = some t) : t.id = id :=
  (Table.find?_eq_some_iff.mp (task?_eq_some_iff.mp h).1).2

end Store

theorem World.commit_of_error {w : World} {r : Except StoreError Store} {e : CallError}
    (h : (w.commit r).1 = .error e) : (w.commit r).2 = w := by
  cases r with
  | ok s => cases h
  | error cause => rfl

/-- A call that fails leaves the store as it was. -/
theorem Store.reply_of_error {s : Store} {c : Call} {e : CallError} (h : (s.reply c).1 = .error e) :
    (s.reply c).2 = s := by
  cases c with
  | putTask t => exact congrArg World.store (World.commit_of_error h)
  | addDependency d => exact congrArg World.store (World.commit_of_error h)
  | addChange c => exact congrArg World.store (World.commit_of_error h)
  | setState scope id state notes now =>
      revert h
      simp only [reply, World.perform]
      cases s.setState scope id state notes now with
      | _ =>
          intro h
          cases h
  | removeDependency scope id =>
      revert h
      simp only [reply, World.perform]
      cases s.removeDependency scope id with
      | _ =>
          intro h
          cases h
  | _ => cases h

namespace Exchange

variable {sound : CallKind → Prop} {s s' : Store}

theorem store_of_reads {c : Call} {e : Except CallError c.Value} (hc : c.Reads)
    (h : Carries sound ⟨.call c, e⟩ s s') : s' = s := by
  cases h with
  | performed => cases c <;> first | rfl | exact hc.elim
  | failed => rfl
  | nothing => rfl

/-- An idle step leaves the store as it is. -/
theorem store_of_idle {x : Exchange} (hx : x.step.Idle) (h : x.Carries sound s s') : s' = s := by
  obtain ⟨st, e⟩ := x
  cases st with
  | call c => exact store_of_reads hx h
  | isCancelled => cases h; rfl
  | lock tenant => cases h; rfl
  | unlock tenant => cases h; rfl

theorem store_of_error {c : Call} {e : Except CallError c.Value} {cause : CallError}
    (h : Carries sound ⟨.call c, e⟩ s s') (he : e = .error cause) : s' = s := by
  cases h with
  | performed => exact Store.reply_of_error he
  | failed => rfl
  | nothing => cases he

/-- A task that was looked up is the one that the store shows, or nothing was shown. -/
theorem carries_task {scope : Scope} {id : TaskId} {v : Option Task}
    (h : Carries sound ⟨.call (.task scope id), .ok v⟩ s s') :
    s' = s ∧ (v = s.task? scope id ∨ ¬sound .task ∧ v = none) := by
  cases h with
  | performed => exact ⟨rfl, .inl rfl⟩
  | nothing _ _ _ hs hv => exact ⟨rfl, .inr ⟨hs, (Option.some.inj hv).symm⟩⟩

theorem carries_dependenciesOf {scope : Scope} {id : TaskId} {v : List Dependency}
    (h : Carries sound ⟨.call (.dependenciesOf scope id), .ok v⟩ s s') :
    s' = s ∧ v = s.dependenciesOf scope id := by
  cases h with
  | performed => exact ⟨rfl, rfl⟩
  | nothing _ _ _ hs hv => cases hv

theorem carries_dependentsOf {scope : Scope} {id : TaskId} {v : List Dependency}
    (h : Carries sound ⟨.call (.dependentsOf scope id), .ok v⟩ s s') :
    s' = s ∧ v = s.dependentsOf scope id := by
  cases h with
  | performed => exact ⟨rfl, rfl⟩
  | nothing _ _ _ hs hv => cases hv

/-- A record is written over the one of its task, or the call fails. -/
theorem carries_putTask {t : Task} {e : Except CallError Unit}
    (h : Carries sound ⟨.call (.putTask t), e⟩ s s') :
    e = .ok () ∧ s' = { s with tasks := s.tasks.put t } ∨
      ∃ cause, e = .error cause ∧ s' = s := by
  cases h with
  | performed =>
      simp only [Store.reply, World.perform]
      cases hput : s.putTask t with
      | ok s'' => exact .inl ⟨rfl, (Store.putTask_eq_ok_iff.mp hput).2⟩
      | error cause => exact .inr ⟨_, rfl, rfl⟩
  | failed => exact .inr ⟨_, rfl, rfl⟩
  | nothing _ _ _ hs hv => cases hv

/-- A change with a new identifier is added to the history, or the call fails. -/
theorem carries_addChange {c : ScheduleChange} {e : Except CallError Unit}
    (h : Carries sound ⟨.call (.addChange c), e⟩ s s') :
    e = .ok () ∧ s.changes.find? c.id = none ∧ s' = { s with changes := s.changes.put c } ∨
      ∃ cause, e = .error cause ∧ s' = s := by
  cases h with
  | performed =>
      simp only [Store.reply, World.perform]
      cases hadd : s.addChange c with
      | ok s'' =>
          obtain ⟨hnew, rfl⟩ := Store.addChange_eq_ok_iff.mp hadd
          exact .inl ⟨rfl, hnew, rfl⟩
      | error cause => exact .inr ⟨_, rfl, rfl⟩
  | failed => exact .inr ⟨_, rfl, rfl⟩
  | nothing _ _ _ hs hv => cases hv

/-- A message is put into the outbox, or the call fails. -/
theorem carries_announce {m : Message} {e : Except CallError Unit}
    (h : Carries sound ⟨.call (.announce m), e⟩ s s') :
    e = .ok () ∧ s' = s.announce m ∨ ∃ cause, e = .error cause ∧ s' = s := by
  cases h with
  | performed => exact .inl ⟨rfl, rfl⟩
  | failed => exact .inr ⟨_, rfl, rfl⟩
  | nothing _ _ _ hs hv => cases hv

/-- A dependency is linked, or the call fails. -/
theorem carries_addDependency {d : Dependency} {e : Except CallError Unit}
    (h : Carries sound ⟨.call (.addDependency d), e⟩ s s') :
    e = .ok () ∧ s.addDependency d = .ok s' ∨ ∃ cause, e = .error cause ∧ s' = s := by
  cases h with
  | performed =>
      simp only [Store.reply, World.perform]
      cases hadd : s.addDependency d with
      | ok s'' => exact .inl ⟨rfl, rfl⟩
      | error cause => exact .inr ⟨_, rfl, rfl⟩
  | failed => exact .inr ⟨_, rfl, rfl⟩
  | nothing _ _ _ hs hv => cases hv

/-- A visible dependency is removed, or the store stays as it is. -/
theorem carries_removeDependency {scope : Scope} {id : DependencyId} {e : Except CallError Bool}
    (h : Carries sound ⟨.call (.removeDependency scope id), e⟩ s s') :
    e = .ok true ∧ s.removeDependency scope id = some s' ∨ e ≠ .ok true ∧ s' = s := by
  cases h with
  | performed =>
      simp only [Store.reply, World.perform]
      cases hrem : s.removeDependency scope id with
      | some s'' => exact .inl ⟨rfl, rfl⟩
      | none => exact .inr ⟨by simp, rfl⟩
  | failed => exact .inr ⟨by simp, rfl⟩
  | nothing _ _ _ hs hv => cases hv; exact .inr ⟨by simp, rfl⟩

/-- A visible task is put into a state, or the store stays as it is. -/
theorem carries_setState {scope : Scope} {id : TaskId} {state : TaskState} {notes : String}
    {now : Timestamp} {e : Except CallError (Option Task)}
    (h : Carries sound ⟨.call (.setState scope id state notes now), e⟩ s s') :
    (∃ t, e = .ok (some t) ∧ s.setState scope id state notes now = some (t, s')) ∨
      (∀ t, e ≠ .ok (some t)) ∧ s' = s := by
  cases h with
  | performed =>
      simp only [Store.reply, World.perform]
      cases hset : s.setState scope id state notes now with
      | some p => exact .inl ⟨p.1, rfl, rfl⟩
      | none => exact .inr ⟨by simp, rfl⟩
  | failed => exact .inr ⟨by simp, rfl⟩
  | nothing _ _ _ hs hv => cases hv; exact .inr ⟨by simp, rfl⟩

end Exchange

/-- A course of idle steps leaves the store as it is. -/
theorem Program.Course.store_eq_of_idle {α : Type} {sound : CallKind → Prop} {p : Program α}
    {s s' : Store} {log : List Exchange} {a : α} (h : p.Course sound s log a s')
    (hlog : ∀ x ∈ log, x.step.Idle) : s' = s :=
  h.keeps (fun x hx _ _ hc h₁ => (Exchange.store_of_idle (hlog x hx) hc).trans h₁) rfl

/-- A course that only reads leaves the store as it is. -/
theorem Program.Course.store_eq_of_reads {α : Type} {sound : CallKind → Prop} {p : Program α}
    {s s' : Store} {log : List Exchange} {a : α} (h : p.Course sound s log a s')
    (hp : p.Only Step.Reads) : s' = s :=
  h.store_eq_of_idle fun x hx => (h.only hp x hx).idle

/-! ### Looking up and announcing -/

namespace Service

variable {sound : CallKind → Prop} {s s' : Store} {log : List Exchange}

/-- A service that reads, and what follows it: the store is still the same in between. -/
theorem course_bind_of_reads {α β : Type} {p : Service α} {f : α → Service β}
    {r : Except Failure β} (hp : Only Step.Reads p) (h : Course sound (p >>= f) s log r s') :
    ((∃ e, Course sound p s log (.error e) s ∧ r = .error e) ∧ s' = s ∧ ∀ x ∈ log, x.step.Idle) ∨
      ∃ a log₁ log₂, Course sound p s log₁ (.ok a) s ∧ Course sound (f a) s log₂ r s' ∧
        (∀ x ∈ log₁, x.step.Idle) ∧ log = log₁ ++ log₂ := by
  obtain ⟨e, hfail, rfl⟩ | ⟨a, log₁, log₂, s₁, hfirst, hrest, rfl⟩ := course_bind h
  · obtain rfl := hfail.store_eq_of_reads hp
    exact .inl ⟨⟨e, hfail, rfl⟩, rfl, fun x hx => (hfail.only hp x hx).idle⟩
  · obtain rfl := hfirst.store_eq_of_reads hp
    exact .inr ⟨a, log₁, log₂, hfirst, hrest, fun x hx => (hfirst.only hp x hx).idle, rfl⟩

/-- When the steps after a first reading are all of some sort, then so are all steps. -/
theorem log_of_reads {α β : Type} {A : Step → Prop} (hA : ∀ st : Step, st.Idle → A st)
    {p : Service α} {f : α → Service β} {r : Except Failure β} (hp : Only Step.Reads p)
    (h : Course sound (p >>= f) s log r s')
    (hf : ∀ a log₁ log₂, Course sound p s log₁ (.ok a) s → Course sound (f a) s log₂ r s' →
      ∀ x ∈ log₂, A x.step) : ∀ x ∈ log, A x.step := by
  rcases course_bind_of_reads hp h with ⟨-, -, hidle⟩ | ⟨a, log₁, log₂, h₁, h₂, hidle, rfl⟩
  · exact fun x hx => hA _ (hidle x hx)
  · intro x hx
    rcases List.mem_append.mp hx with hx | hx
    · exact hA _ (hidle x hx)
    · exact hf a log₁ log₂ h₁ h₂ x hx

theorem only_visibleTask {P : Step → Prop} {ctx : Context} {id : TaskId} {missing : TaskId → Missing}
    (h : P (.call (.task ctx.scope id))) : Only P (visibleTask ctx id missing) := by
  refine only_bind (only_ask h) fun found => ?_
  cases found with
  | none => exact only_throw _
  | some t => exact only_pure _

/-- A task that is found visible is the one that the store shows. -/
theorem course_visibleTask {ctx : Context} {id : TaskId} {missing : TaskId → Missing} {t : Task}
    (h : Course sound (visibleTask ctx id missing) s log (.ok t) s') :
    s' = s ∧ s.task? ctx.scope id = some t := by
  obtain ⟨found, log₁, log₂, s₁, hask, hrest, rfl⟩ := course_bind_ok h
  obtain ⟨rfl, hx⟩ := course_ask_ok hask
  obtain ⟨rfl, hv⟩ := Exchange.carries_task hx
  cases found with
  | none =>
      obtain ⟨_, hr, _⟩ := course_throw hrest
      cases hr
  | some t' =>
      obtain ⟨_, hr, rfl⟩ := course_pure hrest
      cases hr
      refine ⟨rfl, ?_⟩
      rcases hv with hv | ⟨_, hv⟩
      · exact hv.symm
      · cases hv

/-- An announcement concerns the outbox alone. -/
theorem only_publish {P : Step → Prop} (hannounce : ∀ m, P (.call (.announce m))) (setup : Setup)
    (tenant : TenantId) (task : TaskId) (eventType : String) (payload : Option Json) :
    Only P (publish setup tenant task eventType payload) := by
  unfold publish
  split
  · exact only_map _ (only_attempt (hannounce _))
  · exact only_pure _

/-- An announcement always succeeds, and puts its message into the outbox or nothing. -/
theorem course_publish_cases {setup : Setup} {tenant : TenantId} {task : TaskId} {eventType : String}
    {payload : Option Json} {r : Except Failure Unit}
    (h : Course sound (publish setup tenant task eventType payload) s log r s') :
    r = .ok () ∧ (s' = s ∨ ∃ p, payload = some p ∧
      s' = s.announce (.aboutTask tenant task eventType (.of p))) := by
  unfold publish at h
  split at h
  · obtain ⟨r', rfl, ha⟩ := course_map h
    obtain ⟨e, -, rfl, hx⟩ := course_attempt ha
    refine ⟨rfl, ?_⟩
    rcases Exchange.carries_announce hx with ⟨-, rfl⟩ | ⟨_, -, rfl⟩
    · exact .inr ⟨_, rfl, rfl⟩
    · exact .inl rfl
  · obtain ⟨-, rfl, rfl⟩ := course_pure h
    exact ⟨rfl, .inl rfl⟩

/-- An announcement changes at most the outbox. -/
theorem course_publish {setup : Setup} {tenant : TenantId} {task : TaskId} {eventType : String}
    {payload : Option Json} {r : Except Failure Unit}
    (h : Course sound (publish setup tenant task eventType payload) s log r s') :
    r = .ok () ∧ ∃ outbox, s' = { s with outbox } := by
  obtain ⟨hr, rfl | ⟨p, -, rfl⟩⟩ := course_publish_cases h
  · exact ⟨hr, _, rfl⟩
  · exact ⟨hr, _, rfl⟩

end Service

end Overhaul
