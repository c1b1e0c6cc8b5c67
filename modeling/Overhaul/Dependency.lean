import Overhaul.Id
import Overhaul.Text.Name
import Overhaul.Timestamp

/-!
# Dependencies

A dependency says that one task waits for another, its prerequisite, and in which way. It is made
and removed, never changed.
-/

namespace Overhaul

/-- How a task waits for its prerequisite. -/
inductive DependencyKind
  /-- It starts after the prerequisite finishes. -/
  | finishToStart
  /-- It starts after the prerequisite starts. -/
  | startToStart
  /-- It finishes after the prerequisite finishes. -/
  | finishToFinish
  deriving DecidableEq, Repr

instance : Named DependencyKind where
  noun := "dependency type"
  name
    | .finishToStart => "finish_to_start"
    | .startToStart => "start_to_start"
    | .finishToFinish => "finish_to_finish"
  all := [.finishToStart, .startToStart, .finishToFinish]
  shortNames := [("fs", .finishToStart), ("ss", .startToStart), ("ff", .finishToFinish)]

instance : LawfulNamed DependencyKind where
  ofName?_name a := by cases a <;> decide

/-- `task` waits for `prerequisite`. -/
structure Dependency where
  id : DependencyId
  /-- The owner. -/
  tenant : TenantId
  task : TaskId
  prerequisite : TaskId
  kind : DependencyKind
  created : Timestamp
  deriving DecidableEq, Repr

end Overhaul
