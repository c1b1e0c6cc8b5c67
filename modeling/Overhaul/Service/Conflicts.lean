import Overhaul.Conflict
import Overhaul.Service.Context

/-!
# Finding conflicts

Every visible task that is not closed is compared with each prerequisite that has to finish before
it starts. Nothing is written.
-/

namespace Overhaul.Service

/-- The conflicts of a task with the prerequisites that the dependencies name. -/
def conflictsAlong (task : Task) : List Dependency → Service (List Conflict)
  | [] => return []
  | d :: rest => do
    match ← ask (.task (.only task.tenant) d.prerequisite) with
    | none => conflictsAlong task rest
    | some prerequisite =>
      let found ← conflictsAlong task rest
      return (Conflict.between task prerequisite).toList ++ found

/-- The conflicts of tasks, one task after the other. -/
def conflictsOf : List Task → Service (List Conflict)
  | [] => return []
  | task :: rest => do
    let all ← ask (.dependenciesOf (.only task.tenant) task.id)
    let here ← conflictsAlong task (all.filter fun d => d.kind = .finishToStart)
    return here ++ (← conflictsOf rest)

/-- Every conflict that the actor can see. -/
def conflicts (ctx : Context) : Service (List Conflict) := do
  ensureActive
  let active ← ask (.tasksWhere { scope := ctx.scope, states := [.scheduled, .inProgress] })
  conflictsOf active

end Overhaul.Service
