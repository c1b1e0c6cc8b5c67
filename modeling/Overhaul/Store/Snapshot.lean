import Overhaul.Record.Schedule
import Overhaul.Store.Basic

/-!
# Snapshots

A snapshot is the content of a store as plain lists: tasks by start, dependencies by the time at
which they were made, and history and outbox as they are. A store is built from a snapshot record by
record, and every record is checked as if it were new. A snapshot is written as a record of its
lists, each of which may be left out when it is read.
-/

namespace Overhaul

/-- The content of a store. -/
structure Snapshot where
  tasks : List Task
  dependencies : List Dependency
  changes : List ScheduleChange
  outbox : List Message
  deriving DecidableEq, Repr

/-- The order in snapshots: by the time of making, then by identifier. -/
def Dependency.precedes (a b : Dependency) : Bool :=
  a.created.unixNanos < b.created.unixNanos ||
    (a.created.unixNanos = b.created.unixNanos && a.id.toNat ≤ b.id.toNat)

namespace Store

/-- The present content. -/
def snapshot (s : Store) : Snapshot where
  tasks := s.tasks.rows.mergeSort Task.precedes
  dependencies := s.dependencies.rows.mergeSort Dependency.precedes
  changes := s.changes.rows
  outbox := s.outbox

/-- The store with the content of a snapshot. -/
def ofSnapshot (x : Snapshot) : Except StoreError Store := do
  let s ← x.tasks.foldlM addTask empty
  let s ← x.dependencies.foldlM addDependency s
  let s ← x.changes.foldlM addChange s
  return { s with outbox := x.outbox }

end Store

namespace Snapshot

/-- The snapshot of an empty store. -/
def empty : Snapshot := ⟨[], [], [], []⟩

/-- The lists of a written snapshot; none when a record cannot be written. -/
def lists? (x : Snapshot) : Option (List (String × List Fields)) := do
  return [
    ("tasks", ← x.tasks.mapM Task.fields?),
    ("dependencies", ← x.dependencies.mapM Dependency.fields?),
    ("schedule_events", ← x.changes.mapM ScheduleChange.fields?),
    ("outbox", x.outbox.map Message.fields)]

/-- The written snapshot; none when a record cannot be written. -/
def json? (x : Snapshot) : Option Json := do
  return .obj ((← x.lists?).map fun l => (l.1, .arr (l.2.map Fields.json)))

/-- The snapshot that a document describes. -/
def ofNode? (dialect : Dialect) (v : Node) : Option Snapshot := do
  let r ← Record.read? dialect ["tasks", "dependencies", "schedule_events", "outbox"] v
  return {
    tasks := ← r.optional? "tasks" [] (Node.items? (Task.ofNode? dialect))
    dependencies := ← r.optional? "dependencies" [] (Node.items? (Dependency.ofNode? dialect))
    changes := ← r.optional? "schedule_events" [] (Node.items? (ScheduleChange.ofNode? dialect))
    outbox := ← r.optional? "outbox" [] (Node.items? (Message.ofNode? dialect)) }

/-- The snapshot that JSON text spells. -/
def ofJsonText? (s : String) : Option Snapshot := (Node.ofText? s).bind (ofNode? .json)

end Snapshot

end Overhaul
