import Overhaul.Conflict
import Overhaul.Dependency
import Overhaul.Outbox
import Overhaul.Record.Scalar
import Overhaul.ScheduleChange
import Overhaul.Task
import Overhaul.Task.Transition

/-!
# The records of a schedule

How each record is written and read. A record with a time before the year 0 cannot be written.
-/

namespace Overhaul

/-! ### Actors -/

/-- The fields of a written actor. -/
def Actor.fields (a : Actor) : Fields :=
  [("tenant", a.tenant.json), ("user", a.user.json), ("role", Named.json a.role)]

/-- The actor that a document describes. -/
def Actor.ofNode? (dialect : Dialect) (v : Node) : Option Actor := do
  let r ← Record.read? dialect ["tenant", "user", "role"] v
  return {
    tenant := ← r.required? "tenant" Node.id?
    user := ← r.required? "user" Node.id?
    role := ← r.required? "role" (Node.named? dialect) }

/-! ### Tasks -/

/-- The fields of a written task. -/
def Task.fields? (t : Task) : Option Fields := do
  return [
    ("id", t.id.json), ("tenant", t.tenant.json), ("aircraft", t.aircraft.json),
    ("program", t.program.map Id.json), ("task_type", some (.str t.kind)),
    ("state", Named.json t.state), ("start_time", ← t.start.json?), ("end_time", ← t.finish.json?),
    ("assigned_mechanic", t.mechanic.map Id.json), ("notes", some (.str t.notes)),
    ("deleted_at", ← t.deleted.mapM Timestamp.json?), ("created_at", ← t.created.json?),
    ("updated_at", ← t.updated.json?)]

/-- The task that a document describes. -/
def Task.ofNode? (dialect : Dialect) (v : Node) : Option Task := do
  let r ← Record.read? dialect
    ["id", "tenant", "aircraft", "program", "task_type", "state", "start_time", "end_time",
      "assigned_mechanic", "notes", "deleted_at", "created_at", "updated_at"] v
  return {
    id := ← r.required? "id" Node.id?
    tenant := ← r.required? "tenant" Node.id?
    aircraft := ← r.required? "aircraft" Node.id?
    program := ← r.optional? "program" none (Node.orNull? Node.id?)
    kind := ← r.required? "task_type" Node.text?
    state := ← r.required? "state" (Node.named? dialect)
    start := ← r.required? "start_time" Node.time?
    finish := ← r.required? "end_time" Node.time?
    mechanic := ← r.optional? "assigned_mechanic" none (Node.orNull? Node.id?)
    notes := ← r.optional? "notes" "" Node.text?
    deleted := ← r.optional? "deleted_at" none (Node.orNull? Node.time?)
    created := ← r.required? "created_at" Node.time?
    updated := ← r.required? "updated_at" Node.time? }

/-! ### Dependencies -/

/-- The fields of a written dependency. -/
def Dependency.fields? (d : Dependency) : Option Fields := do
  return [
    ("id", d.id.json), ("tenant", d.tenant.json), ("task", d.task.json),
    ("depends_on", d.prerequisite.json), ("dependency_type", Named.json d.kind),
    ("created_at", ← d.created.json?)]

/-- The dependency that a document describes. -/
def Dependency.ofNode? (dialect : Dialect) (v : Node) : Option Dependency := do
  let r ← Record.read? dialect
    ["id", "tenant", "task", "depends_on", "dependency_type", "created_at"] v
  return {
    id := ← r.required? "id" Node.id?
    tenant := ← r.required? "tenant" Node.id?
    task := ← r.required? "task" Node.id?
    prerequisite := ← r.required? "depends_on" Node.id?
    kind := ← r.optional? "dependency_type" .finishToStart (Node.named? dialect)
    created := ← r.required? "created_at" Node.time? }

/-! ### Schedule changes -/

/-- The fields of a written schedule change. -/
def ScheduleChange.fields? (c : ScheduleChange) : Option Fields := do
  return [
    ("id", c.id.json), ("tenant", c.tenant.json), ("task", c.task.json),
    ("change_type", Named.json c.kind), ("reason", some (.str c.reason)),
    ("old_start", ← c.oldStart.json?), ("old_end", ← c.oldFinish.json?),
    ("new_start", ← c.newStart.json?), ("new_end", ← c.newFinish.json?),
    ("triggered_by", c.user.json), ("affected_task_ids", some (.arr (c.affected.map Id.json))),
    ("created_at", ← c.created.json?)]

/-- The schedule change that a document describes. -/
def ScheduleChange.ofNode? (dialect : Dialect) (v : Node) : Option ScheduleChange := do
  let r ← Record.read? dialect
    ["id", "tenant", "task", "change_type", "reason", "old_start", "old_end", "new_start",
      "new_end", "triggered_by", "affected_task_ids", "created_at"] v
  return {
    id := ← r.required? "id" Node.id?
    tenant := ← r.required? "tenant" Node.id?
    task := ← r.required? "task" Node.id?
    kind := ← r.required? "change_type" (Node.named? dialect)
    reason := ← r.required? "reason" Node.text?
    oldStart := ← r.required? "old_start" Node.time?
    oldFinish := ← r.required? "old_end" Node.time?
    newStart := ← r.required? "new_start" Node.time?
    newFinish := ← r.required? "new_end" Node.time?
    user := ← r.required? "triggered_by" Node.id?
    affected := ← r.optional? "affected_task_ids" [] (Node.items? Node.id?)
    created := ← r.required? "created_at" Node.time? }

/-! ### Messages -/

/-- The fields of a written message. -/
def Message.fields (m : Message) : Fields :=
  [("tenant", m.tenant.json), ("event_type", some (.str m.eventType)),
    ("aggregate_type", some (.str m.aggregateType)), ("aggregate_id", some (.str m.aggregateId)),
    ("payload", some m.payload.json), ("dedupe_key", some (.str m.key))]

/-- The message that a document describes. -/
def Message.ofNode? (dialect : Dialect) (v : Node) : Option Message := do
  let r ← Record.read? dialect
    ["tenant", "event_type", "aggregate_type", "aggregate_id", "payload", "dedupe_key"] v
  return {
    tenant := ← r.required? "tenant" Node.id?
    eventType := ← r.required? "event_type" Node.text?
    aggregateType := ← r.required? "aggregate_type" Node.text?
    aggregateId := ← r.required? "aggregate_id" Node.text?
    payload := ← r.required? "payload" Node.payload?
    key := ← r.required? "dedupe_key" Node.text? }

/-! ### Conflicts -/

/-- The fields of a written conflict. -/
def Conflict.fields (c : Conflict) : Fields :=
  [("task", c.task.json), ("conflict_type", Named.json c.kind),
    ("description", some (.str c.description)),
    ("blocking_task_ids", some (.arr (c.blocking.map Id.json)))]

/-- The conflict that a document describes. -/
def Conflict.ofNode? (dialect : Dialect) (v : Node) : Option Conflict := do
  let r ← Record.read? dialect ["task", "conflict_type", "description", "blocking_task_ids"] v
  return {
    task := ← r.required? "task" Node.id?
    kind := ← r.required? "conflict_type" (Node.named? dialect)
    description := ← r.required? "description" Node.text?
    blocking := ← r.required? "blocking_task_ids" (Node.items? Node.id?) }

end Overhaul
