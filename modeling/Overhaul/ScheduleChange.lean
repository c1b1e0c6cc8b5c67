import Overhaul.Id
import Overhaul.Text.Name
import Overhaul.Timestamp

/-!
# Schedule changes

Every move of a task's window leaves a record that is never changed afterwards.
-/

namespace Overhaul

/-- What happened to the schedule. -/
inductive ChangeKind
  /-- A task's window was moved. -/
  | rescheduled
  deriving DecidableEq, Repr

instance : Named ChangeKind where
  noun := "change type"
  name | .rescheduled => "rescheduled"
  all := [.rescheduled]

instance : LawfulNamed ChangeKind where
  ofName?_name a := by cases a; decide

/-- The record of one move. -/
structure ScheduleChange where
  id : ChangeId
  /-- The owner. -/
  tenant : TenantId
  /-- The task that was moved on purpose. -/
  task : TaskId
  kind : ChangeKind
  reason : String
  oldStart : Timestamp
  oldFinish : Timestamp
  newStart : Timestamp
  newFinish : Timestamp
  /-- Who asked for the move. -/
  user : UserId
  /-- The tasks that were moved along, in the order in which they were written. -/
  affected : List TaskId
  created : Timestamp
  deriving DecidableEq, Repr

end Overhaul
