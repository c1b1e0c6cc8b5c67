import Overhaul.Proofs.Answers

/-!
# Running undisturbed

When nothing goes wrong and the caller does not give up, only the store matters for what a program
comes to. `Store.run` says what that is, and `Store.serve` the same of a service. Main statement: in
every quiet world a program comes to just that (`World.Quiet.run`).
-/

namespace Overhaul

namespace Store

/-- What a step tells, and the store that it leaves, when nothing goes wrong. -/
def take (s : Store) : (st : Step) → st.Reply × Store
  | .call c => s.reply c
  | .lock _ | .unlock _ => ((), s)
  | .isCancelled => (false, s)

/-- What a program is done with, and the store that it leaves, when nothing goes wrong. -/
def run {α : Type} : Program α → Store → α × Store
  | .done a, s => (a, s)
  | .step st next, s => run (next (s.take st).1) (s.take st).2

/-- How a service ends, and the store that it leaves, when nothing goes wrong. -/
def serve {α : Type} (s : Store) (p : Service α) : Except Failure α × Store := run p.run s

variable {α β : Type} (s : Store)

theorem run_bind (p : Program α) (f : α → Program β) :
    run (p >>= f) s = run (f (run p s).1) (run p s).2 := by
  induction p generalizing s with
  | done a => rfl
  | step st next ih => exact ih _ _

@[simp] theorem serve_pure (a : α) : s.serve (pure a) = (.ok a, s) := rfl

@[simp] theorem serve_throw (f : Failure) : s.serve (throw f : Service α) = (.error f, s) := rfl

@[simp] theorem serve_ofExcept (e : Except Failure α) : s.serve (Service.ofExcept e) = (e, s) := rfl

/-- A service goes on where the one before ended, unless that failed. -/
theorem serve_bind (p : Service α) (f : α → Service β) :
    s.serve (p >>= f) =
      match s.serve p with
      | (.ok a, s) => s.serve (f a)
      | (.error e, s) => (.error e, s) := by
  change run (p.run >>= ExceptT.bindCont f) s = _
  rw [run_bind]
  simp only [serve, ExceptT.run]
  rcases run (p : Program (Except Failure α)) s with ⟨_ | _, _⟩ <;> rfl

@[simp] theorem serve_map (f : α → β) (p : Service α) :
    s.serve (f <$> p) = ((s.serve p).1.map f, (s.serve p).2) := by
  rw [← bind_pure_comp, serve_bind]
  rcases s.serve p with ⟨_ | _, _⟩ <;> rfl

@[simp] theorem serve_outcome (p : Service α) :
    s.serve p.outcome = (.ok (s.serve p).1, (s.serve p).2) := by
  change run (Except.ok <$> p.run) s = _
  rw [← bind_pure_comp, run_bind]
  rfl

@[simp] theorem serve_attempt (c : Call) :
    s.serve (Service.attempt c) = (.ok (s.reply c).1, (s.reply c).2) := rfl

@[simp] theorem serve_ask (c : Call) :
    s.serve (Service.ask c) = ((s.reply c).1.mapError Failure.store, (s.reply c).2) := by
  rw [Service.ask, serve_bind, serve_attempt]
  rcases s.reply c with ⟨_ | _, _⟩ <;> rfl

@[simp] theorem serve_ensureActive : s.serve Service.ensureActive = (.ok (), s) := rfl

/-- A lock makes no difference to what a service comes to alone. -/
@[simp] theorem serve_locked (tenant : TenantId) (p : Service α) :
    s.serve (Service.locked tenant p) = s.serve p := by
  rw [Service.locked, serve_bind]
  change s.serve _ = _
  rw [serve_bind, serve_outcome]
  rfl

theorem serve_visibleTask (ctx : Context) (id : TaskId) (missing : TaskId → Missing) :
    s.serve (Service.visibleTask ctx id missing) =
      (match s.task? ctx.scope id with
        | some t => .ok t
        | none => .error (.notFound (missing id)), s) := by
  have hreply : s.reply (.task ctx.scope id) = (.ok (s.task? ctx.scope id), s) := rfl
  rw [Service.visibleTask, serve_bind, serve_ask, hreply]
  cases s.task? ctx.scope id <;> rfl

theorem serve_visibleTask_bind (ctx : Context) (id : TaskId) (missing : TaskId → Missing)
    (f : Task → Service α) :
    s.serve (Service.visibleTask ctx id missing >>= f) = match s.task? ctx.scope id with
      | some t => s.serve (f t)
      | none => (.error (.notFound (missing id)), s) := by
  rw [serve_bind, serve_visibleTask]
  cases s.task? ctx.scope id <;> rfl

end Store

namespace World

/-- Nothing is to go wrong in the world, and its caller has not given up. -/
structure Quiet (w : World) : Prop where
  active : w.cancelled = false
  faults : w.faults = fun _ => []

theorem Quiet.answer {w : World} (h : w.Quiet) (c : Call) : w.answer c = w.perform c :=
  answer_of_faults_eq_nil h.faults c

/-- A step in a quiet world tells what it tells with its store alone, leaves that store, and keeps the
world quiet. -/
theorem Quiet.take {w : World} (h : w.Quiet) (st : Step) :
    (w.take st).1 = (w.store.take st).1 ∧ (w.take st).2.store = (w.store.take st).2 ∧
      (w.take st).2.Quiet := by
  cases st with
  | call c =>
      change (w.answer c).1 = _ ∧ (w.answer c).2.store = _ ∧ (w.answer c).2.Quiet
      rw [h.answer]
      obtain ⟨released, hleft⟩ := w.perform_snd c
      rw [hleft]
      exact ⟨w.perform_fst c, rfl, h.active, h.faults⟩
  | lock tenant => exact ⟨rfl, rfl, h.active, h.faults⟩
  | unlock tenant => exact ⟨rfl, rfl, h.active, h.faults⟩
  | isCancelled => exact ⟨h.active, rfl, h⟩

/-- A call takes no locks and gives none back. -/
theorem Quiet.locks_take_call {w : World} (h : w.Quiet) (c : Call) :
    (w.take (.call c)).2.locks = w.locks := by
  change (w.answer c).2.locks = _
  obtain ⟨released, hleft⟩ := w.perform_snd c
  rw [h.answer, hleft]

/-- A program in a quiet world comes to what it comes to with its store alone. -/
theorem Quiet.run {α : Type} {w : World} (h : w.Quiet) (p : Program α) :
    (World.run p w).1 = (Store.run p w.store).1 ∧
      (World.run p w).2.store = (Store.run p w.store).2 := by
  induction p generalizing w with
  | done a => exact ⟨rfl, rfl⟩
  | step st next ih =>
      obtain ⟨hreply, hstore, hquiet⟩ := h.take st
      rw [run_step, Store.run, ← hreply, ← hstore]
      exact ih _ hquiet

/-- A program leaves a quiet world quiet. -/
theorem Quiet.left {α : Type} {w : World} (h : w.Quiet) (p : Program α) : (World.run p w).2.Quiet := by
  induction p generalizing w with
  | done a => exact h
  | step st next ih => exact ih _ (h.take st).2.2

/-- A service in a quiet world comes to what it comes to with its store alone, and leaves the world
quiet. -/
theorem Quiet.serve {α : Type} {w w' : World} (h : w.Quiet) {p : Service α} {r : Except Failure α}
    (hserve : w.serve p = (r, w')) : w.store.serve p = (r, w'.store) ∧ w'.Quiet := by
  obtain ⟨hresult, hleft⟩ := h.run p.run
  have hquiet := h.left p.run
  change (w.serve p).1 = (w.store.serve p).1 at hresult
  change (w.serve p).2.store = (w.store.serve p).2 at hleft
  change (w.serve p).2.Quiet at hquiet
  rw [hserve] at hresult hleft hquiet
  exact ⟨Prod.ext hresult.symm hleft.symm, hquiet⟩

end World

/-- What a service comes to with a store alone is one of its courses, in which no call fails. -/
theorem Store.course_serve {α : Type} (s : Store) (p : Service α) :
    ∃ log, Service.Course (fun _ => True) p s log (s.serve p).1 (s.serve p).2 := by
  have hquiet : World.Quiet { store := s } := ⟨rfl, rfl⟩
  obtain ⟨hresult, hleft⟩ := hquiet.run p.run
  refine ⟨World.heard { store := s } p, ?_⟩
  rw [serve, ← hresult, ← hleft]
  exact World.course_serve (w := { store := s }) (World.within_of_faults_eq_nil rfl) p

end Overhaul
