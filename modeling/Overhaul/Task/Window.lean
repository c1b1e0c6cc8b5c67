import Overhaul.Error

/-!
# Windows

A window that a caller asks for must end after it starts, and is kept in UTC. A cascade moves a
window by a duration and leaves its clocks as they are. Either move notes the time of the change.
-/

namespace Overhaul

/-- A time span of positive length with both ends in UTC. -/
structure Window where
  start : Timestamp
  finish : Timestamp
  deriving DecidableEq, Repr

/-- The window between two times, in UTC. -/
def Window.between (start finish : Timestamp) : Except Failure Window := do
  if finish.unixNanos ≤ start.unixNanos then throw (.invalid .emptyWindow)
  return ⟨← start.toUtc, ← finish.toUtc⟩

namespace Task

/-- The task planned at the time `now`, with an identifier that no task has. -/
def ofPlan (id : TaskId) (plan : TaskPlan) (now : Timestamp) : Except Failure Task := do
  let window ← Window.between plan.start plan.finish
  let now ← now.toUtc
  return {
    id, tenant := plan.tenant, aircraft := plan.aircraft, program := plan.program
    kind := plan.kind, state := .scheduled, start := window.start, finish := window.finish
    mechanic := plan.mechanic, notes := "", deleted := none, created := now, updated := now }

/-- The task with another window. -/
def withWindow (t : Task) (start finish now : Timestamp) : Except Failure Task := do
  let window ← Window.between start finish
  return { t with start := window.start, finish := window.finish, updated := ← now.toUtc }

/-- The task with both ends of its window moved by the same duration, each on its own clock. -/
def shifted (t : Task) (nanos : Int) (now : Timestamp) : Except Failure Task :=
  match t.start.shift? nanos, t.finish.shift? nanos with
  | some start, some finish => do
    return { t with start, finish, updated := ← now.toUtc }
  | _, _ => throw (.invalid .windowOutOfRange)

end Task

end Overhaul
