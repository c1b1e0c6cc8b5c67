import Overhaul.Dependency
import Overhaul.Error
import Overhaul.Outbox
import Overhaul.ScheduleChange
import Overhaul.Store.Links
import Overhaul.Task

/-!
# The store

The store keeps tasks, dependencies, the history of schedule changes and the outbox. Dependencies
are indexed by both of their ends. Every identifier is taken once. A deleted task stays, but is not
visible any more. No operation knows who asks: what may be seen is given as a scope.
-/

namespace Overhaul

/-- All that is known about the schedules of all tenants. -/
structure Store where
  tasks : Table Task.id
  dependencies : Table Dependency.id
  /-- The dependencies of each task on others. -/
  prerequisites : Links
  /-- The dependencies of others on each task. -/
  dependents : Links
  /-- What was moved, the earliest move first. -/
  changes : Table ScheduleChange.id
  outbox : Outbox
  deriving DecidableEq

/-- Where a dependency is indexed for the task that waits. -/
def Dependency.waitingPlace (d : Dependency) : Place := (d.tenant, d.task)

/-- Where a dependency is indexed for the task that is waited for. -/
def Dependency.awaitedPlace (d : Dependency) : Place := (d.tenant, d.prerequisite)

/-- The order of listings: by start, then by identifier. -/
def Task.precedes (a b : Task) : Bool :=
  a.start.unixNanos < b.start.unixNanos ||
    (a.start.unixNanos = b.start.unixNanos && a.id.toNat ≤ b.id.toNat)

namespace Store

/-- A store without records. -/
def empty : Store where
  tasks := .empty
  dependencies := .empty
  prerequisites := .empty
  dependents := .empty
  changes := .empty
  outbox := []

/-! ### Tasks -/

/-- The task, if it is visible in the scope. -/
def task? (s : Store) (scope : Scope) (id : TaskId) : Option Task :=
  (s.tasks.find? id).filter (·.visibleIn scope)

/-- The store with one more task. -/
def addTask (s : Store) (t : Task) : Except StoreError Store :=
  match s.tasks.find? t.id with
  | some _ => .error (.duplicateTask t.id)
  | none => .ok { s with tasks := s.tasks.put t }

/-- The store with another record of a task. -/
def putTask (s : Store) (t : Task) : Except StoreError Store :=
  match s.tasks.find? t.id with
  | some _ => .ok { s with tasks := s.tasks.put t }
  | none => .error (.taskNotFound t.id)

/-- The tasks that the filter admits, in order. -/
def tasksWhere (s : Store) (f : TaskFilter) : List Task :=
  (s.tasks.rows.filter f.admits).mergeSort Task.precedes

/-- Notes with more notes on a line of their own. -/
def withNotes (notes more : String) : String :=
  let more := Text.trimmed more
  if more = "" then notes else if notes = "" then more else notes ++ "\n" ++ more

/-- A visible task in another state, and the store that keeps it. -/
def setState (s : Store) (scope : Scope) (id : TaskId) (state : TaskState) (notes : String)
    (now : Timestamp) : Option (Task × Store) :=
  (s.task? scope id).map fun t =>
    let t := { t with state, notes := withNotes t.notes notes, updated := now }
    (t, { s with tasks := s.tasks.put t })

/-- The store in which a visible task is deleted. -/
def deleteTask (s : Store) (scope : Scope) (id : TaskId) (now : Timestamp) : Option Store :=
  (s.task? scope id).map fun t =>
    { s with tasks := s.tasks.put { t with deleted := some now, updated := now } }

/-! ### Dependencies -/

/-- The dependency, if it is visible in the scope. -/
def dependency? (s : Store) (scope : Scope) (id : DependencyId) : Option Dependency :=
  (s.dependencies.find? id).filter fun d => scope.includes d.tenant

/-- The store with a dependency in both indexes. -/
def link (s : Store) (d : Dependency) : Store :=
  { s with
    dependencies := s.dependencies.put d
    prerequisites := s.prerequisites.add d.waitingPlace d.id
    dependents := s.dependents.add d.awaitedPlace d.id }

/-- The store without a dependency, which leaves both indexes. -/
def unlink (s : Store) (d : Dependency) : Store :=
  { s with
    dependencies := s.dependencies.erase d.id
    prerequisites := s.prerequisites.remove d.waitingPlace d.id
    dependents := s.dependents.remove d.awaitedPlace d.id }

/-- The store with one more dependency, both ends of which it has to know. -/
def addDependency (s : Store) (d : Dependency) : Except StoreError Store :=
  match s.dependencies.find? d.id with
  | some _ => .error (.duplicateDependency d.id)
  | none =>
    match [d.task, d.prerequisite].find? fun t => (s.tasks.find? t).isNone with
    | some unknown => .error (.danglingDependency d.id unknown)
    | none => .ok (s.link d)

/-- The store without a visible dependency. -/
def removeDependency (s : Store) (scope : Scope) (id : DependencyId) : Option Store :=
  (s.dependency? scope id).map s.unlink

/-- Where to look a task up: at its owner's place when every tenant is in the scope. -/
def place? (s : Store) (scope : Scope) (task : TaskId) : Option Place :=
  match scope with
  | .only tenant => some (tenant, task)
  | .all => (s.tasks.find? task).map fun t => (t.tenant, task)

/-- The dependencies that an index lists at a task, as far as they are visible. -/
def listed (s : Store) (links : Links) (scope : Scope) (task : TaskId) : List Dependency :=
  match s.place? scope task with
  | none => []
  | some p =>
    ((links.idsAt p).filterMap s.dependencies.find?).filter fun d => scope.includes d.tenant

/-- The dependencies of a task on others, in the order in which they were made. -/
def dependenciesOf (s : Store) (scope : Scope) (task : TaskId) : List Dependency :=
  s.listed s.prerequisites scope task

/-- The dependencies of others on a task, in the order in which they were made. -/
def dependentsOf (s : Store) (scope : Scope) (task : TaskId) : List Dependency :=
  s.listed s.dependents scope task

/-! ### History and announcements -/

/-- The store with one more schedule change. -/
def addChange (s : Store) (c : ScheduleChange) : Except StoreError Store :=
  match s.changes.find? c.id with
  | some _ => .error (.duplicateChange c.id)
  | none => .ok { s with changes := s.changes.put c }

/-- The visible changes of a task, the earliest first. -/
def changesOf (s : Store) (scope : Scope) (task : TaskId) : List ScheduleChange :=
  s.changes.rows.filter fun c => c.task = task && scope.includes c.tenant

/-- The store with one more message waiting. -/
def announce (s : Store) (m : Message) : Store := { s with outbox := s.outbox.put m }

/-- The waiting messages, and the store in which none waits any more. -/
def takeMessages (s : Store) : List Message × Store := (s.outbox, { s with outbox := [] })

end Store

end Overhaul
