import Overhaul.Actor
import Overhaul.Timestamp

/-!
# Tasks

A task is a planned unit of maintenance work on one aircraft, owned by a tenant. It has a window, a
state and, once it is deleted, the time of its deletion.
-/

namespace Overhaul

/-- How far the work on a task has come. -/
inductive TaskState
  /-- Planned and not begun; where every task starts. -/
  | scheduled
  /-- Being worked on. -/
  | inProgress
  /-- Finished and signed off. -/
  | completed
  /-- Given up. -/
  | cancelled
  deriving DecidableEq, Repr

instance : Named TaskState where
  noun := "task state"
  name
    | .scheduled => "scheduled"
    | .inProgress => "in_progress"
    | .completed => "completed"
    | .cancelled => "cancelled"
  all := [.scheduled, .inProgress, .completed, .cancelled]

instance : LawfulNamed TaskState where
  ofName?_name a := by cases a <;> decide

/-- Nothing about the task changes any more. -/
def TaskState.isClosed : TaskState → Bool
  | .completed | .cancelled => true
  | .scheduled | .inProgress => false

/-- A planned unit of maintenance work on one aircraft. -/
structure Task where
  id : TaskId
  /-- The owner. -/
  tenant : TenantId
  aircraft : AircraftId
  /-- The maintenance program that asked for the work. -/
  program : Option ProgramId
  /-- What kind of work it is, in the tenant's words. -/
  kind : String
  state : TaskState
  start : Timestamp
  finish : Timestamp
  /-- Who does the work. -/
  mechanic : Option UserId
  notes : String
  /-- When the task was deleted, if it was. -/
  deleted : Option Timestamp
  created : Timestamp
  updated : Timestamp
  deriving DecidableEq, Repr

/-- What must be known to plan a task. -/
structure TaskPlan where
  tenant : TenantId
  aircraft : AircraftId
  program : Option ProgramId
  kind : String
  start : Timestamp
  finish : Timestamp
  mechanic : Option UserId
  deriving DecidableEq, Repr

/-- The task is visible in the scope: its owner is, and it is not deleted. -/
def Task.visibleIn (t : Task) (scope : Scope) : Bool :=
  scope.includes t.tenant && t.deleted.isNone

/-- Which tasks to list. -/
structure TaskFilter where
  scope : Scope
  /-- The states to list; when there are none, every state. -/
  states : List TaskState := []
  withDeleted : Bool := false
  deriving DecidableEq, Repr

/-- Whether the filter lets a task through. -/
def TaskFilter.admits (f : TaskFilter) (t : Task) : Bool :=
  f.scope.includes t.tenant && (f.withDeleted || t.deleted.isNone) &&
    (f.states.isEmpty || f.states.contains t.state)

end Overhaul
