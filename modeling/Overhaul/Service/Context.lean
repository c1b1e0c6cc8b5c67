import Overhaul.Actor
import Overhaul.Service.Program
import Overhaul.Settings
import Overhaul.Task.Transition

/-!
# The context of a request

An operation knows how the service is set up, who asks, what the clock shows, and an identifier that
no record has yet.
-/

namespace Overhaul

/-- How the service is set up. -/
structure Setup where
  settings : Settings := {}
  /-- Changes are announced in the outbox. -/
  announces : Bool := true
  /-- Parts are reserved for tasks, and have to be given back. -/
  reservesParts : Bool := false
  deriving DecidableEq, Repr

/-- What an operation knows about its request. -/
structure Context where
  actor : Actor
  /-- What the clock shows. -/
  clock : Timestamp
  /-- An identifier that no record has. -/
  fresh : BitVec 128
  deriving DecidableEq, Repr

namespace Context

/-- What the actor may see. -/
def scope (ctx : Context) : Scope := ctx.actor.scope

/-- What the clock shows, in UTC. -/
def now (ctx : Context) : Except Failure Timestamp := ctx.clock.toUtc

end Context

namespace Service

/-- The task, which has to be visible. -/
def visibleTask (ctx : Context) (id : TaskId) (missing : TaskId → Missing) : Service Task := do
  match ← ask (.task ctx.scope id) with
  | some t => return t
  | none => throw (.notFound (missing id))

/-- Announces an event about a task, if it can be written. Nobody minds when that fails. -/
def publish (setup : Setup) (tenant : TenantId) (task : TaskId) (eventType : String)
    (payload : Option Json) : Service Unit :=
  match setup.announces, payload with
  | true, some payload => do
    discard <| attempt (.announce (.aboutTask tenant task eventType (.of payload)))
  | _, _ => return ()

end Service

end Overhaul
