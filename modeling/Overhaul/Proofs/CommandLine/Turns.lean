import Overhaul.CommandLine.Run
import Overhaul.Proofs.Atomic
import Overhaul.Proofs.Session
import Overhaul.Proofs.Store.Alike

/-!
# Commands to a service that goes on

An invocation starts a service, asks one thing of it and ends. The same can be asked of a service that
goes on and keeps its store: `Command.ask` says what that gives. Main statements: a service that was
just started gives what one that goes on gives when their stores are alike (`Command.run_of_alike`),
and a service that fails, or is only asked to read, keeps its store as it was (`Command.store_ask`).
-/

namespace Overhaul

/-- A request with which nothing goes wrong. -/
def Request.undisturbed (setup : Setup) (ctx : Context) (operation : Operation) : Request :=
  { setup, ctx, operation, honest := honest_of_nil }

/-- An undisturbed request comes to what it comes to with the store alone. -/
theorem World.handle_undisturbed (w : World) (setup : Setup) (ctx : Context) (o : Operation) :
    (w.handle (.undisturbed setup ctx o)).1 = (w.store.serve (o.service setup ctx)).1 ∧
      (w.handle (.undisturbed setup ctx o)).2.store = (w.store.serve (o.service setup ctx)).2 := by
  have hquiet : (w.facing (.undisturbed setup ctx o)).Quiet := ⟨rfl, rfl⟩
  exact hquiet.run (o.service setup ctx).run

namespace CommandLine

/-- What a command gives when a service that goes on is asked: what is to be printed, and the world
that is left. -/
def Command.ask (command : Command) (setup : Setup) (ctx : Context) (w : World) :
    Except RunError (Option Json) × World :=
  match command.operation? ctx with
  | none =>
    let found := w.store.tasksWhere { scope := ctx.scope, states := command.states }
    (.ok (listed? (found.map Task.fields?)), w)
  | some (.error e) => (.error (.operation e), w)
  | some (.ok operation) =>
    let handled := w.handle (.undisturbed setup ctx operation)
    ((handled.1.mapError .operation).map answerJson?, handled.2)

namespace Command

variable {command : Command} {setup : Setup} {ctx : Context} {w : World} {r : Store}

/-- A service that goes on is asked for one operation at most. -/
theorem snd_ask (command : Command) (setup : Setup) (ctx : Context) (w : World) :
    (command.ask setup ctx w).2 = w ∨ ∃ operation,
      (command.ask setup ctx w).2 = (w.handle (.undisturbed setup ctx operation)).2 := by
  unfold ask
  split
  · exact .inl rfl
  · exact .inl rfl
  · exact .inr ⟨_, rfl⟩

/-- A service that is just started is one that goes on, for the time being. -/
theorem run_eq_ask (command : Command) (setup : Setup) (ctx : Context) (r : Store) :
    command.run setup ctx r = (command.ask setup ctx { store := r }).1.map fun printed =>
      (printed, (command.ask setup ctx { store := r }).2.store) := by
  unfold run ask
  cases command.operation? ctx with
  | none => rfl
  | some operation =>
      cases operation with
      | error e => rfl
      | ok operation =>
          change (do
            let answer ← Except.mapError RunError.operation
              (World.handle { store := r } (.undisturbed setup ctx operation)).1
            pure (answerJson? answer, _)) = _
          dsimp only
          cases (World.handle { store := r } (.undisturbed setup ctx operation)).1 <;> rfl

/-- A command gives the same on a store that is alike, and leaves one that is alike. -/
theorem run_of_alike (command : Command) (setup : Setup) (ctx : Context) (h : r.Alike w.store) :
    ∃ s : Store, s.Alike (command.ask setup ctx w).2.store ∧
      command.run setup ctx r = (command.ask setup ctx w).1.map fun printed => (printed, s) := by
  suffices hsame : (command.ask setup ctx { store := r }).1 = (command.ask setup ctx w).1 ∧
      (command.ask setup ctx { store := r }).2.store.Alike (command.ask setup ctx w).2.store from
    ⟨_, hsame.2, by rw [run_eq_ask, hsame.1]⟩
  unfold ask
  cases command.operation? ctx with
  | none =>
      dsimp only
      rw [h.tasksWhere]
      exact ⟨rfl, h⟩
  | some operation =>
      cases operation with
      | error e => exact ⟨rfl, h⟩
      | ok operation =>
          obtain ⟨hsame, halike⟩ := h.serve (operation.service setup ctx)
          obtain ⟨hresult, hleft⟩ := World.handle_undisturbed { store := r } setup ctx operation
          obtain ⟨hresult', hleft'⟩ := World.handle_undisturbed w setup ctx operation
          dsimp only
          rw [hresult, hresult', hleft, hleft', hsame]
          exact ⟨rfl, halike⟩

/-- The operation of a command that changes no schedule makes no calls that change anything. -/
theorem kinds_of_reads {operation : Operation} (h : command.changesSchedule = false)
    (hop : command.operation? ctx = some (.ok operation)) : operation.kinds = [] := by
  cases command with
  | transition task target conditions => cases h
  | _ => cases hop <;> first | rfl | cases h

/-- A command that fails leaves the store of a service that goes on as it was, and so does one that
changes no schedule. -/
theorem store_ask (hfresh : w.store.changes.find? ⟨ctx.fresh⟩ = none)
    (h : (∃ e, (command.ask setup ctx w).1 = .error e) ∨ command.changesSchedule = false) :
    (command.ask setup ctx w).2.store = w.store := by
  unfold ask at h ⊢
  cases hop : command.operation? ctx with
  | none => rfl
  | some operation =>
      rw [hop] at h
      cases operation with
      | error e => rfl
      | ok operation =>
          obtain ⟨hresult, hleft⟩ := World.handle_undisturbed w setup ctx operation
          rcases h with ⟨e, he⟩ | hreads
          · dsimp only at he ⊢
            rw [hresult] at he
            rw [hleft]
            cases hr : (w.store.serve (operation.service setup ctx)).1 with
            | ok answer =>
                rw [hr] at he
                cases he
            | error f => exact operation.atomic_service setup hfresh f hr
          · have honly := operation.only_service setup ctx
            rw [kinds_of_reads hreads hop] at honly
            have hcourse := World.course_handle w (.undisturbed setup ctx operation)
            refine hcourse.store_eq_of_idle fun x hx => ?_
            simpa [Step.IdleOr] using hcourse.only honly x hx

end Command

end CommandLine

end Overhaul
