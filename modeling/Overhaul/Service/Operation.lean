import Overhaul.Service.Conflicts
import Overhaul.Service.Dependencies
import Overhaul.Service.Reschedule
import Overhaul.Service.Transitions

/-!
# Operations

What callers can ask the service for, as data, and what it answers.
-/

namespace Overhaul

/-- A wish of a caller. -/
inductive Operation
  | depend (task prerequisite : TaskId) (kind : Option DependencyKind)
  | undepend (id : DependencyId)
  | dependencies (task : TaskId)
  | dependents (task : TaskId)
  | reschedule (move : Move)
  | history (task : TaskId)
  | conflicts
  | transition (task : TaskId) (target : TaskState) (circumstances : Circumstances)
  deriving DecidableEq, Repr

/-- What an operation gives when it succeeds. -/
inductive Answer
  | dependency (d : Dependency)
  | removed (id : DependencyId)
  | dependencies (ds : List Dependency)
  | change (c : ScheduleChange)
  | changes (cs : List ScheduleChange)
  | conflicts (cs : List Conflict)
  | task (t : Task)
  deriving DecidableEq, Repr

namespace Operation

/-- What the service does for the operation. -/
def service (setup : Setup) (ctx : Context) : Operation → Service Answer
  | depend task prerequisite kind => .dependency <$> Service.depend ctx task prerequisite kind
  | undepend id => do
    Service.undepend ctx id
    return .removed id
  | dependencies task => .dependencies <$> Service.dependencies ctx task
  | dependents task => .dependencies <$> Service.dependents ctx task
  | reschedule move => .change <$> Service.reschedule setup ctx move
  | history task => .changes <$> Service.history ctx task
  | conflicts => .conflicts <$> Service.conflicts ctx
  | transition task target c => .task <$> Service.transition setup ctx task target c

end Operation

end Overhaul
