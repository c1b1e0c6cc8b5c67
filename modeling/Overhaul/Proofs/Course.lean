import Overhaul.Proofs.Transcript

/-!
# The courses that a program can take

What a program does depends on what goes wrong, and a world fixes that beforehand. A `Course` leaves
it open: calls of the kinds in `sound` are carried out, and every other call may just as well fail
or answer that there is nothing; the caller may give up at any time. Main statements: every run is a
course (`World.course_run`), and what the courses of a service are, combinator by combinator.
-/

namespace Overhaul

/-- What a store answers to a call that is carried out, and what it holds afterwards. -/
def Store.reply (s : Store) (c : Call) : Except CallError c.Value × Store :=
  ((({ store := s } : World).perform c).1, (({ store := s } : World).perform c).2.store)

namespace World

theorem perform_fst (w : World) (c : Call) : (w.perform c).1 = (w.store.reply c).1 := by
  cases c with
  | putTask t => simp only [Store.reply, perform]; cases w.store.putTask t <;> rfl
  | setState scope id state notes now =>
      simp only [Store.reply, perform]; cases w.store.setState scope id state notes now <;> rfl
  | addDependency d => simp only [Store.reply, perform]; cases w.store.addDependency d <;> rfl
  | removeDependency scope id =>
      simp only [Store.reply, perform]; cases w.store.removeDependency scope id <;> rfl
  | addChange c => simp only [Store.reply, perform]; cases w.store.addChange c <;> rfl
  | _ => rfl

/-- Carrying a call out concerns the store, and the parts that were given back. -/
theorem perform_snd (w : World) (c : Call) :
    ∃ released, (w.perform c).2 = { w with store := (w.store.reply c).2, released } := by
  cases c with
  | putTask t =>
      simp only [Store.reply, perform]; cases w.store.putTask t <;> exact ⟨w.released, rfl⟩
  | setState scope id state notes now =>
      simp only [Store.reply, perform]
      cases w.store.setState scope id state notes now <;> exact ⟨w.released, rfl⟩
  | addDependency d =>
      simp only [Store.reply, perform]; cases w.store.addDependency d <;> exact ⟨w.released, rfl⟩
  | removeDependency scope id =>
      simp only [Store.reply, perform]
      cases w.store.removeDependency scope id <;> exact ⟨w.released, rfl⟩
  | addChange c =>
      simp only [Store.reply, perform]; cases w.store.addChange c <;> exact ⟨w.released, rfl⟩
  | _ => exact ⟨_, rfl⟩

theorem store_perform (w : World) (c : Call) : (w.perform c).2.store = (w.store.reply c).2 := by
  obtain ⟨released, hleft⟩ := w.perform_snd c
  rw [hleft]

theorem faults_perform (w : World) (c : Call) : (w.perform c).2.faults = w.faults := by
  obtain ⟨released, hleft⟩ := w.perform_snd c
  rw [hleft]

end World

/-! ### Courses -/

/-- What an exchange can make of a store when nothing interferes with the calls of the kinds in
`sound`. -/
inductive Exchange.Carries (sound : CallKind → Prop) : Exchange → Store → Store → Prop
  /-- The call is carried out. -/
  | performed (c : Call) (s : Store) : Carries sound ⟨.call c, (s.reply c).1⟩ s (s.reply c).2
  /-- The call fails, and does nothing. -/
  | failed (c : Call) (text : String) (s : Store) :
      ¬sound c.kind → Carries sound ⟨.call c, .error (.unavailable text)⟩ s s
  /-- The call answers that there is nothing, and does nothing. -/
  | nothing (c : Call) (v : c.Value) (s : Store) :
      ¬sound c.kind → c.nothing? = some v → Carries sound ⟨.call c, .ok v⟩ s s
  | lock (tenant : TenantId) (s : Store) : Carries sound ⟨.lock tenant, ()⟩ s s
  | unlock (tenant : TenantId) (s : Store) : Carries sound ⟨.unlock tenant, ()⟩ s s
  | isCancelled (b : Bool) (s : Store) : Carries sound ⟨.isCancelled, b⟩ s s

/-- The program can start from one store, take the steps of the transcript and be done with a result
and another store. -/
inductive Program.Course (sound : CallKind → Prop) {α : Type} :
    Program α → Store → List Exchange → α → Store → Prop
  | done (a : α) (s : Store) : Course sound (.done a) s [] a s
  | step {st : Step} {next : st.Reply → Program α} {r : st.Reply} {s s' s'' : Store}
      {log : List Exchange} {a : α} :
      Exchange.Carries sound ⟨st, r⟩ s s' → Course sound (next r) s' log a s'' →
      Course sound (.step st next) s (⟨st, r⟩ :: log) a s''

/-- The service can start from one store, take the steps of the transcript and end with a result and
another store. -/
def Service.Course (sound : CallKind → Prop) {α : Type} (p : Service α) (s : Store)
    (log : List Exchange) (r : Except Failure α) (s' : Store) : Prop :=
  Program.Course sound p.run s log r s'

/-! ### Every run is a course -/

/-- The fault does nothing worse to a call than giving the caller the time to give up or, where
calls are not sound, making it fail or answer that there is nothing. -/
def Fault.Within (sound : Prop) : Fault → Prop
  | .none | .cancel => True
  | .fail _ | .nothing => ¬sound
  | .posing _ => False

namespace World

variable {α : Type} {sound : CallKind → Prop}

/-- The faults to come leave the calls of the kinds in `sound` alone, and show no task in a state
that it is not in. -/
def Within (sound : CallKind → Prop) (w : World) : Prop :=
  ∀ kind, ∀ f ∈ w.faults kind, f.Within (sound kind)

theorem within_of_faults_eq_nil {w : World} (h : w.faults = fun _ => []) : w.Within sound := by
  intro kind f hf
  simp [h] at hf

theorem Within.faults {w w' : World} (hw : w.Within sound)
    (h : ∀ kind, ∃ used, w.faults kind = used ++ w'.faults kind) : w'.Within sound := by
  intro kind f hf
  obtain ⟨used, hused⟩ := h kind
  exact hw kind f (hused ▸ List.mem_append_right used hf)

/-- The faults that are left after an answer are the last of those before it. -/
theorem faults_answer (w : World) (c : Call) (kind : CallKind) :
    ∃ used, w.faults kind = used ++ (w.answer c).2.faults kind := by
  unfold answer nextFault
  cases h : w.faults c.kind with
  | nil => exact ⟨[], by simp [faults_perform]⟩
  | cons f rest =>
      refine ⟨if kind = c.kind then [f] else [], ?_⟩
      have hleft : w.faults kind = (if kind = c.kind then [f] else []) ++
          (if kind = c.kind then rest else w.faults kind) := by
        split
        · rename_i hk; rw [hk, h]; rfl
        · rfl
      cases f with
      | nothing => cases hn : c.nothing? <;> simpa [hn, faults_perform] using hleft
      | _ => simpa [faults_perform] using hleft

theorem faults_take (w : World) (s : Step) (kind : CallKind) :
    ∃ used, w.faults kind = used ++ (w.take s).2.faults kind := by
  cases s with
  | call c => exact faults_answer w c kind
  | _ => exact ⟨[], rfl⟩

/-- Whatever a call answers, it is one of the things that its exchange can make of the store. -/
theorem carries_answer {w : World} (hw : w.Within sound) (c : Call) :
    Exchange.Carries sound ⟨.call c, (w.answer c).1⟩ w.store (w.answer c).2.store := by
  have hperformed (v : World) (hv : v.store = w.store) :
      Exchange.Carries sound ⟨.call c, (v.perform c).1⟩ w.store (v.perform c).2.store := by
    rw [perform_fst, store_perform, hv]
    exact .performed c w.store
  unfold answer nextFault
  cases h : w.faults c.kind with
  | nil => exact hperformed w rfl
  | cons f rest =>
      have hf := hw c.kind f (h ▸ List.mem_cons_self)
      cases f with
      | none => exact hperformed _ rfl
      | fail text => exact .failed c text w.store hf
      | cancel => exact hperformed _ rfl
      | nothing =>
          cases hn : c.nothing? with
          | none => exact hperformed _ rfl
          | some v => exact .nothing c v w.store hf hn
      | posing state => exact hf.elim

theorem carries_take {w : World} (hw : w.Within sound) (s : Step) :
    Exchange.Carries sound ⟨s, (w.take s).1⟩ w.store (w.take s).2.store := by
  cases s with
  | call c => exact carries_answer hw c
  | lock tenant => exact .lock tenant w.store
  | unlock tenant => exact .unlock tenant w.store
  | isCancelled => exact .isCancelled w.cancelled w.store

/-- Every run is a course. -/
theorem course_run {w : World} (hw : w.Within sound) (p : Program α) :
    Program.Course sound p w.store (transcript p w) (run p w).1 (run p w).2.store := by
  induction p generalizing w with
  | done a => exact .done a w.store
  | step s next ih => exact .step (carries_take hw s) (ih _ (hw.faults (faults_take w s)))

/-- What every exchange of a run keeps holds wherever the run passes through. -/
theorem along {w : World} (hw : w.Within sound) (p : Program α) {J : Store → Prop}
    (hkeep : ∀ x ∈ transcript p w, ∀ s₁ s₂, x.Carries sound s₁ s₂ → J s₁ → J s₂)
    (hs : J w.store) : ∀ v ∈ trail p w, J v.store := by
  induction p generalizing w with
  | done a =>
      intro v hv
      rwa [List.mem_singleton.mp hv]
  | step s next ih =>
      intro v hv
      rcases List.mem_cons.mp hv with rfl | hv
      · exact hs
      · refine ih _ (hw.faults (faults_take w s)) ?_ ?_ v hv
        · exact fun x hx => hkeep x (List.mem_cons_of_mem _ hx)
        · exact hkeep _ List.mem_cons_self _ _ (carries_take hw s) hs

/-- Every run of a service is one of its courses. -/
theorem course_serve {w : World} (hw : w.Within sound) (p : Service α) :
    Service.Course sound p w.store (w.heard p) (w.serve p).1 (w.serve p).2.store :=
  course_run hw p.run

end World

/-! ### The courses of services -/

section

variable {α β : Type} {sound : CallKind → Prop} {s s' : Store} {log : List Exchange}

/-- One program after another takes a course of the first, and then one of the second. -/
theorem Program.Course.bind {p : Program α} {f : α → Program β} {b : β}
    (h : Program.Course sound (p >>= f) s log b s') :
    ∃ a log₁ log₂ s₁, Program.Course sound p s log₁ a s₁ ∧
      Program.Course sound (f a) s₁ log₂ b s' ∧ log = log₁ ++ log₂ := by
  induction p generalizing s log with
  | done a => exact ⟨a, [], log, s, .done a s, h, rfl⟩
  | step st next ih =>
      rw [Program.step_bind] at h
      cases h with
      | step hx hrest =>
          obtain ⟨a, log₁, log₂, s₁, hp, hf, rfl⟩ := ih _ hrest
          exact ⟨a, _, log₂, s₁, .step hx hp, hf, rfl⟩

/-- The steps of a course are among those that its program allows. -/
theorem Program.Course.only {P : Step → Prop} {p : Program α} {a : α}
    (h : Program.Course sound p s log a s') (hp : p.Only P) : ∀ x ∈ log, P x.step := by
  induction h with
  | done a s => simp
  | step hx hrest ih =>
      intro x hmem
      rcases List.mem_cons.mp hmem with rfl | hmem
      · exact hp.1
      · exact ih (hp.2 _) x hmem

/-- What every exchange of a course keeps, the course keeps. -/
theorem Program.Course.keeps {J : Store → Prop} {p : Program α} {a : α}
    (h : Program.Course sound p s log a s')
    (hkeep : ∀ x ∈ log, ∀ s₁ s₂, x.Carries sound s₁ s₂ → J s₁ → J s₂) (hs : J s) : J s' := by
  induction h with
  | done a s => exact hs
  | step hx hrest ih =>
      refine ih (fun x hmem => hkeep x (List.mem_cons_of_mem _ hmem)) ?_
      exact hkeep _ List.mem_cons_self _ _ hx hs

namespace Service

theorem course_pure {a : α} {r : Except Failure α}
    (h : Course sound (pure a : Service α) s log r s') : log = [] ∧ r = .ok a ∧ s' = s := by
  cases h
  exact ⟨rfl, rfl, rfl⟩

theorem course_throw {f : Failure} {r : Except Failure α}
    (h : Course sound (throw f : Service α) s log r s') : log = [] ∧ r = .error f ∧ s' = s := by
  cases h
  exact ⟨rfl, rfl, rfl⟩

theorem course_ofExcept {e r : Except Failure α}
    (h : Course sound (Service.ofExcept e) s log r s') : log = [] ∧ r = e ∧ s' = s := by
  cases h
  exact ⟨rfl, rfl, rfl⟩

/-- A test either makes the service fail at once, or is passed. -/
theorem course_guard {c : Prop} [Decidable c] {f : Failure} {k : Unit → Service α}
    {r : Except Failure α}
    (h : Course sound (if c then throw f >>= k else k ()) s log r s') :
    (log = [] ∧ r = .error f ∧ s' = s) ∨ ¬c ∧ Course sound (k ()) s log r s' := by
  split at h
  · exact .inl (course_throw (α := α) h)
  · rename_i hc
    exact .inr ⟨hc, h⟩

/-- A service and what follows it: either the first one fails, or the rest goes on where it ended. -/
theorem course_bind {p : Service α} {f : α → Service β} {r : Except Failure β}
    (h : Course sound (p >>= f) s log r s') :
    (∃ e, Course sound p s log (.error e) s' ∧ r = .error e) ∨
      ∃ a log₁ log₂ s₁, Course sound p s log₁ (.ok a) s₁ ∧ Course sound (f a) s₁ log₂ r s' ∧
        log = log₁ ++ log₂ := by
  obtain ⟨r₁, log₁, log₂, s₁, hp, hf, rfl⟩ := Program.Course.bind h
  cases r₁ with
  | error e =>
      obtain ⟨rfl, rfl, rfl⟩ := course_throw hf
      rw [List.append_nil]
      exact .inl ⟨e, hp, rfl⟩
  | ok a => exact .inr ⟨a, log₁, log₂, s₁, hp, hf, rfl⟩

/-- A service that succeeds went on after the one before, which succeeded. -/
theorem course_bind_ok {p : Service α} {f : α → Service β} {b : β}
    (h : Course sound (p >>= f) s log (.ok b) s') :
    ∃ a log₁ log₂ s₁, Course sound p s log₁ (.ok a) s₁ ∧ Course sound (f a) s₁ log₂ (.ok b) s' ∧
      log = log₁ ++ log₂ := by
  obtain ⟨e, _, he⟩ | h := course_bind h
  · cases he
  · exact h

/-- After a service that cannot fail, the rest goes on where it ended. -/
theorem course_bind_of_ok {p : Service α} {f : α → Service β} {r : Except Failure β}
    (hp : ∀ {log' r' s₁}, Course sound p s log' r' s₁ → ∃ a, r' = .ok a)
    (h : Course sound (p >>= f) s log r s') :
    ∃ a log₁ log₂ s₁, Course sound p s log₁ (.ok a) s₁ ∧ Course sound (f a) s₁ log₂ r s' ∧
      log = log₁ ++ log₂ := by
  obtain ⟨e, hfail, _⟩ | h := course_bind h
  · obtain ⟨_, he⟩ := hp hfail
    cases he
  · exact h

theorem course_attempt {c : Call} {r : Except Failure (Except CallError c.Value)}
    (h : Course sound (attempt c) s log r s') :
    ∃ e, log = [⟨.call c, e⟩] ∧ r = .ok e ∧ Exchange.Carries sound ⟨.call c, e⟩ s s' := by
  cases h with
  | step hx hrest =>
      cases hrest
      exact ⟨_, rfl, rfl, hx⟩

theorem course_ask {c : Call} {r : Except Failure c.Value} (h : Course sound (ask c) s log r s') :
    ∃ e, log = [⟨.call c, e⟩] ∧ r = e.mapError Failure.store ∧
      Exchange.Carries sound ⟨.call c, e⟩ s s' := by
  obtain ⟨_, h, _⟩ | ⟨e, log₁, log₂, s₁, h₁, h₂, rfl⟩ := course_bind h
  · obtain ⟨_, _, he, _⟩ := course_attempt h
    cases he
  · obtain ⟨e', rfl, he, hx⟩ := course_attempt h₁
    cases he
    cases e with
    | ok v =>
        obtain ⟨rfl, rfl, rfl⟩ := course_pure h₂
        exact ⟨_, rfl, rfl, hx⟩
    | error cause =>
        obtain ⟨rfl, rfl, rfl⟩ := course_throw h₂
        exact ⟨_, rfl, rfl, hx⟩

/-- A call that succeeds was answered, and the store is what the call leaves. -/
theorem course_ask_ok {c : Call} {v : c.Value} (h : Course sound (ask c) s log (.ok v) s') :
    log = [⟨.call c, .ok v⟩] ∧ Exchange.Carries sound ⟨.call c, .ok v⟩ s s' := by
  obtain ⟨e, rfl, he, hx⟩ := course_ask h
  cases e with
  | error cause => cases he
  | ok v =>
      cases he
      exact ⟨rfl, hx⟩

/-- A service that starts with a call either ends with its failure, or goes on with its answer. -/
theorem course_ask_bind {c : Call} {f : c.Value → Service β} {r : Except Failure β}
    (h : Course sound (ask c >>= f) s log r s') :
    (∃ e, log = [⟨.call c, e⟩]) ∨ ∃ v log' s₁, log = ⟨.call c, .ok v⟩ :: log' ∧
      Exchange.Carries sound ⟨.call c, .ok v⟩ s s₁ ∧ Course sound (f v) s₁ log' r s' := by
  obtain ⟨_, hfail, -⟩ | ⟨v, log₁, log₂, s₁, hask, hrest, rfl⟩ := course_bind h
  · obtain ⟨e, rfl, -, -⟩ := course_ask hfail
    exact .inl ⟨e, rfl⟩
  · obtain ⟨rfl, hx⟩ := course_ask_ok hask
    exact .inr ⟨v, log₂, s₁, rfl, hx, hrest⟩

theorem course_outcome {p : Service α} {r : Except Failure (Except Failure α)}
    (h : Course sound p.outcome s log r s') : ∃ r', r = .ok r' ∧ Course sound p s log r' s' := by
  change Program.Course sound (Except.ok <$> p.run) s log r s' at h
  rw [← bind_pure_comp] at h
  obtain ⟨r', log₁, log₂, s₁, hp, hf, rfl⟩ := Program.Course.bind h
  cases hf
  rw [List.append_nil]
  exact ⟨r', rfl, hp⟩

/-- However a service ends, what deals with its outcome goes on where it ended. -/
theorem course_outcome_bind {p : Service α} {f : Except Failure α → Service β}
    {r : Except Failure β} (h : Course sound (p.outcome >>= f) s log r s') :
    ∃ e log₁ log₂ s₁, Course sound p s log₁ e s₁ ∧ Course sound (f e) s₁ log₂ r s' ∧
      log = log₁ ++ log₂ := by
  obtain ⟨e, log₁, log₂, s₁, hp, hf, hlog⟩ :=
    course_bind_of_ok (fun h => (course_outcome h).imp fun _ => And.left) h
  obtain ⟨_, he, hp⟩ := course_outcome hp
  cases he
  exact ⟨e, log₁, log₂, s₁, hp, hf, hlog⟩

theorem course_map {p : Service α} {f : α → β} {r : Except Failure β}
    (h : Course sound (f <$> p) s log r s') :
    ∃ r', r = r'.map f ∧ Course sound p s log r' s' := by
  rw [← bind_pure_comp] at h
  obtain ⟨e, hp, rfl⟩ | ⟨a, log₁, log₂, s₁, hp, h₂, rfl⟩ := course_bind h
  · exact ⟨.error e, rfl, hp⟩
  · obtain ⟨rfl, rfl, rfl⟩ := course_pure h₂
    rw [List.append_nil]
    exact ⟨.ok a, rfl, hp⟩

theorem course_ensureActive {r : Except Failure Unit}
    (h : Course sound ensureActive s log r s') :
    s' = s ∧ ((log = [⟨.isCancelled, true⟩] ∧ r = .error .cancelled) ∨
      (log = [⟨.isCancelled, false⟩] ∧ r = .ok ())) := by
  change Program.Course sound (Program.step .isCancelled _) s log r s' at h
  cases h with
  | @step _ _ b _ _ _ _ _ hx hrest =>
      cases hx
      cases b with
      | true =>
          obtain ⟨rfl, rfl, rfl⟩ := course_throw (α := Unit) hrest
          exact ⟨rfl, .inl ⟨rfl, rfl⟩⟩
      | false =>
          obtain ⟨rfl, rfl, rfl⟩ := course_pure (α := Unit) hrest
          exact ⟨rfl, .inr ⟨rfl, rfl⟩⟩

/-- A service that holds a lock takes one of its courses in between. -/
theorem course_locked {tenant : TenantId} {p : Service α} {r : Except Failure α}
    (h : Course sound (locked tenant p) s log r s') :
    ∃ log', log = ⟨.lock tenant, ()⟩ :: (log' ++ [⟨.unlock tenant, ()⟩]) ∧
      Course sound p s log' r s' := by
  change Program.Course sound (Program.step (.lock tenant) _) s log r s' at h
  cases h with
  | step hx hrest =>
      cases hx
      obtain ⟨e, log₁, log₂, s₁, h₁, h₂, rfl⟩ := course_outcome_bind (β := α) hrest
      change Program.Course sound (Program.step (.unlock tenant) _) s₁ log₂ r s' at h₂
      cases h₂ with
      | step hx hrest =>
          cases hx
          obtain ⟨rfl, rfl, rfl⟩ := course_ofExcept (α := α) hrest
          exact ⟨log₁, rfl, h₁⟩

end Service

end

end Overhaul
