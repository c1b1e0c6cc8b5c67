import Overhaul.Id
import Overhaul.Json.Value
import Overhaul.Table

/-!
# The outbox

Changes are announced by messages that wait in the outbox until somebody takes them. Of the waiting
messages with one key only the latest is kept, in the place of the first.
-/

namespace Overhaul

/-- An announcement. -/
structure Message where
  tenant : TenantId
  eventType : String
  /-- What kind of thing the message is about. -/
  aggregateType : String
  /-- The thing that the message is about. -/
  aggregateId : String
  payload : Json.Payload
  /-- Of the waiting messages with one key only the latest counts. -/
  key : String
  deriving DecidableEq, Repr

namespace Message

/-- The key of messages about a task. -/
def taskKey (tenant : TenantId) (task : TaskId) : String := tenant.text ++ ":" ++ task.text

/-- A message about a task. -/
def aboutTask (tenant : TenantId) (task : TaskId) (eventType : String) (payload : Json.Payload) :
    Message where
  tenant
  eventType
  aggregateType := "task"
  aggregateId := task.text
  payload
  key := taskKey tenant task

end Message

/-- The messages that wait, the longest waiting first. -/
abbrev Outbox := List Message

/-- The outbox with one more message, which replaces the waiting one of its key. -/
def Outbox.put (outbox : Outbox) (m : Message) : Outbox := upsert Message.key m outbox

end Overhaul
