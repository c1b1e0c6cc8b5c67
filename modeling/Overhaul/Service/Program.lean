import Overhaul.Dependency
import Overhaul.Error
import Overhaul.Outbox
import Overhaul.ScheduleChange
import Overhaul.Task

/-!
# Programs of calls

What the service does for one request is a `Program`: it calls on its collaborators one call at a
time and goes on as they answer, until it is done. A program is data. It holds no store, so that one
can ask of it what happens when calls fail, when the caller gives up in between, and when the calls
of several programs alternate. A `Service` is a program that ends in an answer or a failure.
-/

namespace Overhaul

/-- What a collaborator can be asked to do; it can fail to. -/
inductive Call
  /-- Look a visible task up. -/
  | task (scope : Scope) (id : TaskId)
  /-- Write a task over its record. -/
  | putTask (t : Task)
  /-- List tasks. -/
  | tasksWhere (f : TaskFilter)
  /-- Put a visible task into a state, adding to its notes. -/
  | setState (scope : Scope) (id : TaskId) (state : TaskState) (notes : String) (now : Timestamp)
  /-- Add a dependency. -/
  | addDependency (d : Dependency)
  /-- Look a visible dependency up. -/
  | dependency (scope : Scope) (id : DependencyId)
  /-- Remove a visible dependency. -/
  | removeDependency (scope : Scope) (id : DependencyId)
  /-- List the dependencies of a task on others. -/
  | dependenciesOf (scope : Scope) (task : TaskId)
  /-- List the dependencies of others on a task. -/
  | dependentsOf (scope : Scope) (task : TaskId)
  /-- Add to the history. -/
  | addChange (c : ScheduleChange)
  /-- List the history of a task. -/
  | changesOf (scope : Scope) (task : TaskId)
  /-- Put a message into the outbox. -/
  | announce (m : Message)
  /-- Give the parts that are reserved for a task back. -/
  | releaseParts (tenant : TenantId) (task : TaskId)
  deriving DecidableEq

/-- What a call answers when it does not fail. -/
abbrev Call.Value : Call → Type
  | .task _ _ => Option Task
  | .putTask _ => Unit
  | .tasksWhere _ => List Task
  | .setState _ _ _ _ _ => Option Task
  | .addDependency _ => Unit
  | .dependency _ _ => Option Dependency
  | .removeDependency _ _ => Bool
  | .dependenciesOf _ _ => List Dependency
  | .dependentsOf _ _ => List Dependency
  | .addChange _ => Unit
  | .changesOf _ _ => List ScheduleChange
  | .announce _ => Unit
  | .releaseParts _ _ => Unit

/-- One thing that a program does. -/
inductive Step
  | call (c : Call)
  /-- Take a tenant's lock, once it is free. -/
  | lock (tenant : TenantId)
  /-- Give a tenant's lock back. -/
  | unlock (tenant : TenantId)
  /-- See whether the caller has given up. -/
  | isCancelled
  deriving DecidableEq

/-- What a step tells the program. -/
abbrev Step.Reply : Step → Type
  | .call c => Except CallError c.Value
  | .lock _ => Unit
  | .unlock _ => Unit
  | .isCancelled => Bool

/-- A program is done, or takes a step and goes on as the reply says. -/
inductive Program (α : Type) : Type
  | done (a : α)
  | step (s : Step) (next : s.Reply → Program α)

namespace Program

variable {α β γ : Type}

/-- The first program and then the second, which is given what the first is done with. -/
def bind : Program α → (α → Program β) → Program β
  | done a, f => f a
  | step s next, f => step s fun r => bind (next r) f

instance : Monad Program where
  pure := done
  bind := bind

@[simp] theorem pure_eq (a : α) : (pure a : Program α) = done a := rfl

@[simp] theorem done_bind (a : α) (f : α → Program β) : done a >>= f = f a := rfl

@[simp] theorem step_bind (s : Step) (next : s.Reply → Program α) (f : α → Program β) :
    step s next >>= f = step s fun r => next r >>= f := rfl

theorem bind_done (p : Program α) : p >>= done = p := by
  induction p with
  | done a => rfl
  | step s next ih => rw [step_bind]; congr; funext r; exact ih r

theorem bind_assoc (p : Program α) (f : α → Program β) (g : β → Program γ) :
    p >>= f >>= g = p >>= fun a => f a >>= g := by
  induction p with
  | done a => rfl
  | step s next ih => simp only [step_bind]; congr; funext r; exact ih r

instance : LawfulMonad Program :=
  LawfulMonad.mk' Program
    (fun p => bind_done p)
    (fun _ _ => rfl)
    (fun p f g => bind_assoc p f g)

/-- The program of a single step. -/
def only (s : Step) : Program s.Reply := step s done

end Program

/-- A program that ends in an answer or a failure. -/
abbrev Service (α : Type) := ExceptT Failure Program α

namespace Service

variable {α : Type}

/-- The service that ends as something ended that takes no steps. -/
def ofExcept (e : Except Failure α) : Service α := ExceptT.mk (.done e)

/-- The service that goes on with how another one ended. -/
def outcome (p : Service α) : Service (Except Failure α) := ExceptT.mk (.ok <$> p.run)

/-- The service that calls, and goes on with the reply. -/
def attempt (c : Call) : Service (Except CallError c.Value) :=
  ExceptT.mk (.ok <$> Program.only (.call c))

/-- The service that calls, and fails when the call does. -/
def ask (c : Call) : Service c.Value := do
  match ← attempt c with
  | .ok v => return v
  | .error cause => throw (.store cause)

/-- The service that fails when the caller has given up. -/
def ensureActive : Service Unit := do
  if ← ExceptT.lift (Program.only .isCancelled) then throw .cancelled

/-- The service that holds a tenant's lock from beginning to end. -/
def locked (tenant : TenantId) (p : Service α) : Service α := do
  ExceptT.lift (Program.only (.lock tenant))
  let r ← p.outcome
  ExceptT.lift (Program.only (.unlock tenant))
  ofExcept r

end Service

end Overhaul
