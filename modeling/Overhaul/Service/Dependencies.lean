import Overhaul.Id.Seen
import Overhaul.Service.Context

/-!
# Making and removing dependencies

A dependency is refused when its prerequisite already waits for its task, directly or through
others: the dependencies of a tenant must not close a circle. `Service.reaches` looks for such a
path. It meets every task at most once, whatever the dependencies are.
-/

namespace Overhaul.Service

/-- Whether `target` is one of the tasks on the stack or one of those that they wait for. -/
def reaches (scope : Scope) (target : TaskId) (seen : Seen .task) (stack : List TaskId) :
    Service Bool :=
  match stack with
  | [] => return false
  | task :: stack =>
    if task = target then return true
    else if h : task ∈ seen then reaches scope target seen stack
    else do
      let found ← ask (.dependenciesOf scope task)
      let seen' := seen.insert task h
      let new := (found.map Dependency.prerequisite).filter fun t => t ∉ seen'
      reaches scope target seen' (new.reverse ++ stack)
termination_by (seen.room, stack.length)
decreasing_by
  · exact Prod.Lex.right _ (Nat.lt_succ_self _)
  · exact Prod.Lex.left _ _ (Seen.room_insert_lt _ _ _)

/-- Makes `task` wait for `prerequisite`. -/
def depend (ctx : Context) (task prerequisite : TaskId) (kind : Option DependencyKind) :
    Service Dependency := do
  if task = prerequisite then throw (.invalid .selfDependency)
  let waiting ← visibleTask ctx task .task
  let awaited ← visibleTask ctx prerequisite .prerequisite
  if waiting.tenant ≠ awaited.tenant then throw (.invalid .tenantsDiffer)
  let scope := Scope.only waiting.tenant
  locked waiting.tenant do
    let present ← ask (.dependenciesOf scope task)
    if present.any fun d => d.prerequisite = prerequisite then
      throw (.conflict (.alreadyDependent task prerequisite))
    if ← reaches scope task .empty [prerequisite] then throw (.conflict .circular)
    ensureActive
    let now ← ofExcept ctx.now
    let made : Dependency := {
      id := ⟨ctx.fresh⟩, tenant := waiting.tenant, task, prerequisite
      kind := kind.getD .finishToStart, created := now }
    ask (.addDependency made)
    return made

/-- Removes a dependency. -/
def undepend (ctx : Context) (id : DependencyId) : Service Unit := do
  match ← ask (.dependency ctx.scope id) with
  | none => throw (.notFound (.dependency id))
  | some d =>
    locked d.tenant do
      ensureActive
      if !(← ask (.removeDependency (.only d.tenant) id)) then throw (.notFound (.dependency id))

/-- The dependencies of a task on others. -/
def dependencies (ctx : Context) (task : TaskId) : Service (List Dependency) := do
  discard <| visibleTask ctx task .task
  ask (.dependenciesOf ctx.scope task)

/-- The dependencies of others on a task. -/
def dependents (ctx : Context) (task : TaskId) : Service (List Dependency) := do
  discard <| visibleTask ctx task .task
  ask (.dependentsOf ctx.scope task)

end Overhaul.Service
