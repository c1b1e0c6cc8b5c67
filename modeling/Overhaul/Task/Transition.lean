import Overhaul.Error

/-!
# Transitions

A task is scheduled, then in progress, then completed; until it is completed it may be cancelled.
`Transition.check` decides whether an actor may take a task to a state in given circumstances. It
changes nothing. Staying in the same state is always allowed.
-/

namespace Overhaul

/-- What the aircraft is doing. -/
inductive AircraftStatus
  | operational
  | grounded
  | retired
  deriving DecidableEq, Repr

instance : Named AircraftStatus where
  noun := "aircraft status"
  name
    | .operational => "operational"
    | .grounded => "grounded"
    | .retired => "retired"
  all := [.operational, .grounded, .retired]

instance : LawfulNamed AircraftStatus where
  ofName?_name a := by cases a <;> decide

/-- How far from the plan work may start and be cancelled, in seconds. -/
structure Tolerances where
  /-- How long before its planned start a task may be started. -/
  earlyStart : Int := 300
  /-- How long after its planned start a task may be cancelled as a matter of course. -/
  lateCancel : Int := 86400
  deriving DecidableEq, Repr

/-- What a caller says of the conditions when asking for a transition. -/
structure Conditions where
  aircraft : AircraftStatus
  /-- Every reserved part was used or given back. -/
  reservationsClosed : Bool := false
  /-- The required parts have to have been used. -/
  requirePartsUsed : Bool := false
  /-- The required parts have been used. -/
  partsUsed : Bool := false
  /-- Every compliance item is signed off. -/
  signedOff : Bool := false
  /-- Completion before the planned end is asked for. -/
  allowEarlyCompletion : Bool := false
  /-- Cancellation past the tolerance is asked for. -/
  allowLateCancel : Bool := false
  notes : String := ""
  deriving DecidableEq, Repr

/-- What is known when a transition is decided: the conditions, and the time. -/
structure Circumstances extends Conditions where
  now : Timestamp
  deriving DecidableEq, Repr

namespace Transition

/-- Only a task in state `source` can be taken to `target`. -/
def requireState (task : Task) (source target : TaskState) : Except Failure Unit :=
  if task.state = source then .ok () else throw (.conflict (.wrongState task.state target))

/-- Somebody is assigned to the work, and no other mechanic takes it on. -/
def requireMechanic (actor : Actor) (task : Task) : Except Failure Unit :=
  match task.mechanic with
  | none => throw (.conflict .noMechanic)
  | some mechanic =>
    if actor.role = .mechanic ∧ actor.user ≠ mechanic then throw (.forbidden .workOfAnother)
    else .ok ()

/-- The planned start is so far off that the tolerance does not reach back to the present. A start
less the tolerance that no clock can show is never in the future. -/
def isTooEarly (task : Task) (now : Timestamp) (tolerances : Tolerances) : Bool :=
  match task.start.shift? (-tolerances.earlyStart * nanosPerSecond) with
  | some earliest => now.unixNanos < earliest.unixNanos
  | none => false

/-- The planned start is so long past that the tolerance does not reach forward to the present. A
start plus the tolerance that no clock can show is never past. -/
def isTooLate (task : Task) (now : Timestamp) (tolerances : Tolerances) : Bool :=
  match task.start.shift? (tolerances.lateCancel * nanosPerSecond) with
  | some latest => latest.unixNanos < now.unixNanos
  | none => false

/-- Whether work may begin. -/
def checkStart (actor : Actor) (task : Task) (c : Circumstances) (tolerances : Tolerances) :
    Except Failure Unit := do
  requireState task .scheduled .inProgress
  requireMechanic actor task
  if c.aircraft ≠ .grounded then throw (.conflict .notGrounded)
  if isTooEarly task c.now tolerances then
    throw (.conflict (.tooEarly (tolerances.earlyStart.tdiv 60)))

/-- Whether work may be signed off. -/
def checkCompletion (actor : Actor) (task : Task) (c : Circumstances) : Except Failure Unit := do
  requireState task .inProgress .completed
  requireMechanic actor task
  if c.now.unixNanos < task.finish.unixNanos ∧ ¬(c.allowEarlyCompletion ∧ actor.managesWork) then
    throw (.conflict .notOver)
  if !c.reservationsClosed then throw (.conflict .reservationsOpen)
  if c.requirePartsUsed && !c.partsUsed then throw (.conflict .partsNotUsed)
  if !c.signedOff then throw (.conflict .notSignedOff)
  if Text.trimmed c.notes = "" then throw (.invalid .notesMissing)

/-- Whether work may be given up. -/
def checkCancellation (actor : Actor) (task : Task) (c : Circumstances) (tolerances : Tolerances) :
    Except Failure Unit := do
  if task.state = .completed then throw (.conflict .alreadyCompleted)
  if !actor.managesWork then throw (.forbidden .cancelling)
  if isTooLate task c.now tolerances && !c.allowLateCancel then
    throw (.conflict (.tooLate (tolerances.lateCancel.tdiv 3600)))

/-- Whether the actor may take the task to the state `target`. -/
def check (actor : Actor) (task : Task) (target : TaskState) (c : Circumstances)
    (tolerances : Tolerances) : Except Failure Unit :=
  if task.state = target then .ok ()
  else
    match target with
    | .inProgress => checkStart actor task c tolerances
    | .completed => checkCompletion actor task c
    | .cancelled => checkCancellation actor task c tolerances
    | .scheduled => throw (.invalid (.notATarget task.id target))

end Transition

end Overhaul
