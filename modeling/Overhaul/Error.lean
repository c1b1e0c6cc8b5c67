import Overhaul.Actor
import Overhaul.Id
import Overhaul.Task

/-!
# Causes of refusal

Every way in which an operation is refused is a cause of its own; the wording belongs to the cause.
An `Error` is what a caller is told. A `Failure` is either that, or the one thing that no caller can
be told politely: a time that UTC cannot show.
-/

namespace Overhaul

/-- Why the store refused to take a record. -/
inductive StoreError
  | duplicateTask (id : TaskId)
  | duplicateDependency (id : DependencyId)
  | duplicateChange (id : ChangeId)
  | taskNotFound (id : TaskId)
  | danglingDependency (id : DependencyId) (task : TaskId)
  deriving DecidableEq, Repr

/-- The text of the message. -/
def StoreError.message : StoreError → String
  | .duplicateTask id => "Task already exists: " ++ id.text
  | .duplicateDependency id => "Dependency already exists: " ++ id.text
  | .duplicateChange id => "Schedule event already exists: " ++ id.text
  | .taskNotFound id => "Task not found: " ++ id.text
  | .danglingDependency id task =>
    "Dependency " ++ id.text ++ " refers to unknown task " ++ task.text

/-- Why a collaborator did not do what it was asked. -/
inductive CallError
  | refused (cause : StoreError)
  | unavailable (text : String)
  deriving DecidableEq, Repr

/-- The text of the message. -/
def CallError.message : CallError → String
  | .refused cause => cause.message
  | .unavailable text => text

/-- Input that no state of the schedule could make acceptable. -/
inductive InvalidInput
  | emptyWindow
  | windowOutOfRange
  | reasonMissing
  | selfDependency
  | tenantsDiffer
  | notesMissing
  | notATarget (task : TaskId) (target : TaskState)
  deriving DecidableEq, Repr

/-- The text of the message. -/
def InvalidInput.message : InvalidInput → String
  | .emptyWindow => "end time must be after start time"
  | .windowOutOfRange => "shifted window is out of range"
  | .reasonMissing => "a reschedule reason is required"
  | .selfDependency => "a task cannot depend on itself"
  | .tenantsDiffer => "dependencies cannot span tenants"
  | .notesMissing => "completion notes are required"
  | .notATarget task target =>
    "cannot transition task " ++ task.text ++ " back to " ++ Named.name target

/-- What the actor's role or person rules out. -/
inductive NotPermitted
  | moving
  | cancelling
  | workOfAnother
  deriving DecidableEq, Repr

/-- The text of the message. -/
def NotPermitted.message : NotPermitted → String
  | .moving => "only schedulers or admins may reschedule tasks"
  | .cancelling => "only schedulers or admins may cancel tasks"
  | .workOfAnother => "only the assigned mechanic may work this task"

/-- The record that was not found. -/
inductive Missing
  | task (id : TaskId)
  | prerequisite (id : TaskId)
  | dependency (id : DependencyId)
  deriving DecidableEq, Repr

/-- The text of the message. -/
def Missing.message : Missing → String
  | .task id => "task " ++ id.text ++ " not found"
  | .prerequisite id => "depends-on task " ++ id.text ++ " not found"
  | .dependency id => "dependency " ++ id.text ++ " not found"

/-- What the present state of the schedule rules out. -/
inductive Obstacle
  | wrongState (state target : TaskState)
  | noMechanic
  | notGrounded
  | tooEarly (minutes : Int)
  | notOver
  | reservationsOpen
  | partsNotUsed
  | notSignedOff
  | alreadyCompleted
  | tooLate (hours : Int)
  | alreadyDependent (task prerequisite : TaskId)
  | circular
  | closed (task : TaskId) (state : TaskState)
  deriving DecidableEq, Repr

/-- The text of the message. -/
def Obstacle.message : Obstacle → String
  | .wrongState state target =>
    "cannot move task from " ++ Named.name state ++ " to " ++ Named.name target
  | .noMechanic => "task has no assigned mechanic"
  | .notGrounded => "aircraft must be grounded before work can start"
  | .tooEarly minutes =>
    "task cannot start more than " ++ toString minutes ++ " minutes before its planned start"
  | .notOver => "task cannot be completed before its planned end"
  | .reservationsOpen => "all part reservations must be used or released"
  | .partsNotUsed => "required parts have not been used"
  | .notSignedOff => "all compliance items must be signed off"
  | .alreadyCompleted => "completed tasks cannot be cancelled"
  | .tooLate hours =>
    "task started more than " ++ toString hours ++ " hours ago; late cancel override required"
  | .alreadyDependent task prerequisite =>
    "task " ++ task.text ++ " already depends on " ++ prerequisite.text
  | .circular => "circular dependency detected"
  | .closed task state =>
    "task " ++ task.text ++ " is " ++ Named.name state ++ " and cannot be rescheduled"

/-- What a caller is told when an operation is refused. -/
inductive Error
  | invalid (cause : InvalidInput)
  | forbidden (cause : NotPermitted)
  | notFound (what : Missing)
  | conflict (cause : Obstacle)
  | cancelled
  | store (cause : CallError)
  deriving DecidableEq, Repr

/-- The text of the message. -/
def Error.message : Error → String
  | .invalid cause => "validation error: " ++ cause.message
  | .forbidden cause => "forbidden: " ++ cause.message
  | .notFound what => what.message
  | .conflict cause => "conflict: " ++ cause.message
  | .cancelled => "request cancelled"
  | .store cause => "store error: " ++ cause.message

/-- How an operation ends when it gives no answer. -/
inductive Failure
  | error (cause : Error)
  /-- A time had to be shown in UTC and lies past the years that UTC can show. -/
  | beyondUtc
  deriving DecidableEq, Repr

namespace Failure

/-- The input is refused. -/
abbrev invalid (cause : InvalidInput) : Failure := .error (.invalid cause)
/-- The actor is refused. -/
abbrev forbidden (cause : NotPermitted) : Failure := .error (.forbidden cause)
/-- A record is missing. -/
abbrev notFound (what : Missing) : Failure := .error (.notFound what)
/-- The state of the schedule is in the way. -/
abbrev conflict (cause : Obstacle) : Failure := .error (.conflict cause)
/-- The caller gave up. -/
abbrev cancelled : Failure := .error .cancelled
/-- A collaborator failed. -/
abbrev store (cause : CallError) : Failure := .error (.store cause)

end Failure

/-- The instant on the clock of UTC. -/
def Timestamp.toUtc (t : Timestamp) : Except Failure Timestamp :=
  match t.inUtc? with
  | some u => .ok u
  | none => .error .beyondUtc

end Overhaul
