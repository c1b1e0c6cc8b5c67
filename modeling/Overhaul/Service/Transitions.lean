import Overhaul.Record.Scalar
import Overhaul.Service.Context

/-!
# Taking tasks from state to state

A transition that is allowed is written and announced. When a task is cancelled, the parts that are
reserved for it are given back first. Staying in the same state writes nothing.
-/

namespace Overhaul.Service

/-- What is announced of a transition. -/
def transitionPayload (task : TaskId) (source target : TaskState) (notes : String) : Json :=
  .obj [("task_id", task.json), ("from", Named.json source), ("to", Named.json target),
    ("notes", .str (Text.trimmed notes))]

/-- Takes a task to a state. -/
def transition (setup : Setup) (ctx : Context) (id : TaskId) (target : TaskState)
    (c : Circumstances) : Service Task := do
  let task ← visibleTask ctx id .task
  locked task.tenant do
    let current ← visibleTask ctx id .task
    ofExcept (Transition.check ctx.actor current target c setup.settings.tolerances)
    if current.state = target then return current
    ensureActive
    if target = .cancelled ∧ setup.reservesParts then
      ask (.releaseParts current.tenant current.id)
    ensureActive
    let now ← ofExcept ctx.now
    match ← ask (.setState (.only current.tenant) id target c.notes now) with
    | none => throw (.notFound (.task id))
    | some updated =>
      publish setup updated.tenant id "task.state_changed"
        (some (transitionPayload id current.state target c.notes))
      return updated

end Overhaul.Service
