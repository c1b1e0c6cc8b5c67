import Overhaul.Id.Seen
import Overhaul.Record.Schedule
import Overhaul.Service.Context
import Overhaul.Task.Window

/-!
# Moving tasks

A task is moved to another window. When the move cascades, every open task that waits for it,
directly or through other open tasks, is moved by as much as the end of the window was. The whole
cascade is planned before anything is written, so that one which no clock can show is refused at
once. When writing it fails half-way, the project's policy says what becomes of the tasks already
moved.
-/

namespace Overhaul

/-- What a caller wants moved where. -/
structure Move where
  task : TaskId
  start : Timestamp
  finish : Timestamp
  reason : String
  /-- Move the tasks along that wait for this one. -/
  cascade : Bool
  deriving DecidableEq, Repr

/-- A task that is moved along, before and after. -/
structure Shift where
  before : Task
  after : Task
  deriving DecidableEq, Repr

/-- A move as it was decided, of which nothing is written yet. -/
structure Draft where
  /-- The record of the task that is moved on purpose, as it was found. -/
  root : Task
  /-- What is to be written over it. -/
  moved : Task
  /-- The tasks to be moved along. -/
  shifts : List Shift
  /-- What is to be recorded, but for the tasks that were moved along. -/
  change : ScheduleChange
  deriving DecidableEq, Repr

namespace Service

/-- Only an open task can be moved. -/
def ensureOpen (t : Task) : Service Unit :=
  if t.state.isClosed then throw (.conflict (.closed t.id t.state)) else return ()

/-- The tasks to be moved along, in the order in which they are written: those that the pending
dependencies lead to, and then those that wait for the tasks on the stack. Closed and invisible
tasks are not moved, and nothing is reached through them. -/
def plan (tenant : TenantId) (nanos : Int) (now : Timestamp) (seen : Seen .task)
    (stack : List TaskId) (pending : List Dependency) : Service (List Shift) :=
  match pending with
  | d :: pending =>
    if h : d.task ∈ seen then plan tenant nanos now seen stack pending
    else do
      let seen' := seen.insert d.task h
      match ← ask (.task (.only tenant) d.task) with
      | none => plan tenant nanos now seen' stack pending
      | some t =>
        if t.state.isClosed then plan tenant nanos now seen' stack pending
        else do
          let moved ← ofExcept (t.shifted nanos now)
          let rest ← plan tenant nanos now seen' (d.task :: stack) pending
          return ⟨t, moved⟩ :: rest
  | [] =>
    match stack with
    | [] => return []
    | task :: stack => do
      let waiting ← ask (.dependentsOf (.only tenant) task)
      plan tenant nanos now seen stack waiting
termination_by (seen.room, stack.length, pending.length)
decreasing_by
  · exact Prod.Lex.right _ (Prod.Lex.right _ (Nat.lt_succ_self _))
  · exact Prod.Lex.left _ _ (Seen.room_insert_lt _ _ _)
  · exact Prod.Lex.left _ _ (Seen.room_insert_lt _ _ _)
  · exact Prod.Lex.left _ _ (Seen.room_insert_lt _ _ _)
  · exact Prod.Lex.right _ (Prod.Lex.left _ _ (Nat.lt_succ_self _))

/-- The cascade of a move of `root`, planned. -/
def planCascade (root : Task) (nanos : Int) (now : Timestamp) : Service (List Shift) :=
  plan root.tenant nanos now (.only root.id) [root.id] []

/-- Writes a cascade for as long as nothing fails: the records that were written over, and the
failure that put an end to it. -/
def writeCascade : List Shift → Service (List Task × Option Failure)
  | [] => return ([], none)
  | shift :: rest => do
    match ← outcome (do ensureActive; ask (.putTask shift.after)) with
    | .error failure => return ([], some failure)
    | .ok () =>
      let (written, failure) ← writeCascade rest
      return (shift.before :: written, failure)

/-- Records and announces a change. -/
def record (setup : Setup) (change : ScheduleChange) : Service Unit := do
  ask (.addChange change)
  publish setup change.tenant change.task "task.rescheduled" (change.fields?.map Fields.json)

/-- Writes records back. Those that cannot be written back are passed over. -/
def writeBack : List Task → Service Unit
  | [] => return ()
  | t :: rest => do
    discard <| attempt (.putTask t)
    writeBack rest

/-- Deals with a cascade that failed half-way. -/
def settle (setup : Setup) (root : Task) (change : ScheduleChange) (written : List Task) :
    Service Unit :=
  match setup.settings.cascade with
  | .keepApplied =>
    discard <| outcome (record setup { change with affected := written.map Task.id })
  | .rollBack => writeBack (written.reverse ++ [root])

/-- Decides how a task is to be moved into a window, under the lock of its tenant. Nothing is
written. -/
def draft (ctx : Context) (m : Move) (window : Window) (reason : String) : Service Draft := do
  let task ← visibleTask ctx m.task .task
  ensureOpen task
  let now ← ofExcept ctx.now
  let change : ScheduleChange := {
    id := ⟨ctx.fresh⟩, tenant := task.tenant, task := task.id, kind := .rescheduled, reason
    oldStart := task.start, oldFinish := task.finish
    newStart := window.start, newFinish := window.finish
    user := ctx.actor.user, affected := [], created := now }
  let nanos := window.finish.unixNanos - task.finish.unixNanos
  let shifts ← if m.cascade ∧ nanos ≠ 0 then planCascade task nanos now else pure []
  ensureActive
  let moved ← ofExcept (task.withWindow window.start window.finish now)
  return { root := task, moved, shifts, change }

/-- Writes what was decided, and records it. -/
def carryOut (setup : Setup) (d : Draft) : Service ScheduleChange := do
  ask (.putTask d.moved)
  let (written, failure) ← writeCascade d.shifts
  match failure with
  | some failure => do
    settle setup d.root d.change written
    throw failure
  | none => do
    let change := { d.change with affected := written.map Task.id }
    record setup change
    return change

/-- Moves a task. -/
def reschedule (setup : Setup) (ctx : Context) (m : Move) : Service ScheduleChange := do
  let window ← ofExcept (Window.between m.start m.finish)
  let reason := Text.trimmed m.reason
  if reason = "" then throw (.invalid .reasonMissing)
  let task ← visibleTask ctx m.task .task
  if !ctx.actor.movesWork then throw (.forbidden .moving)
  ensureOpen task
  locked task.tenant do
    let d ← draft ctx m window reason
    carryOut setup d

/-- The moves of a task. -/
def history (ctx : Context) (task : TaskId) : Service (List ScheduleChange) := do
  discard <| visibleTask ctx task .task
  ask (.changesOf ctx.scope task)

end Service

end Overhaul
