import Overhaul.Id
import Overhaul.Task
import Overhaul.Text.Name
import Overhaul.Timestamp.Rfc3339

/-!
# Conflicts

A conflict is a fault in the schedule as planned: a task that is to start before a prerequisite
that it waits for has ended. Conflicts are computed when asked for and never kept.
-/

namespace Overhaul

/-- What is wrong. -/
inductive ConflictKind
  /-- A prerequisite ends after the task's planned start. -/
  | unmetDependency
  deriving DecidableEq, Repr

instance : Named ConflictKind where
  noun := "conflict type"
  name | .unmetDependency => "unmet_dependency"
  all := [.unmetDependency]

instance : LawfulNamed ConflictKind where
  ofName?_name a := by cases a; decide

/-- One fault in the schedule. -/
structure Conflict where
  task : TaskId
  kind : ConflictKind
  description : String
  /-- The tasks in the way. -/
  blocking : List TaskId
  deriving DecidableEq, Repr

/-- The conflict of a task with a prerequisite that it must not start before the end of. -/
def Conflict.between (task prerequisite : Task) : Option Conflict :=
  if prerequisite.state = .completed ∨
      prerequisite.finish.unixNanos ≤ task.start.unixNanos then none
  else some {
    task := task.id
    kind := .unmetDependency
    description := "task " ++ task.id.text ++ " starts at " ++ task.start.shown ++
      " before prerequisite " ++ prerequisite.id.text ++ " ends at " ++ prerequisite.finish.shown
    blocking := [prerequisite.id] }

end Overhaul
