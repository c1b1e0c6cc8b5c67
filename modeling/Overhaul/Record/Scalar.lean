import Overhaul.Id
import Overhaul.Json.Node
import Overhaul.Record.Basic
import Overhaul.Text.Name
import Overhaul.Timestamp.Rfc3339

/-!
# The contents of fields

Texts, identifiers and timestamps are strings. A value with a name is that name, or a record whose
only field has that name and no content. Main statement: each is read back from what was written.
-/

namespace Overhaul

namespace Node

/-- A text. -/
def text? : Node → Option String
  | .str s => some s
  | _ => none

/-- A whole number of 64 bits with a sign. -/
def int? : Node → Option Int
  | .num (.int n) => if Json.fitsInt64 n then some n else none
  | _ => none

/-- An identifier. -/
def id? {kind : IdKind} (v : Node) : Option (Id kind) := v.text?.bind Id.ofText?

/-- A timestamp. -/
def time? (v : Node) : Option Timestamp := v.text?.bind Timestamp.ofText?

/-- A value with a name. -/
def named? {α : Type} [Named α] (dialect : Dialect) : Node → Option α
  | .str s => Named.ofName? s
  | .record [(s, content)] => if dialect.isEmptyContent content then Named.ofName? s else none
  | _ => none

/-- Something or nothing. -/
def orNull? {α : Type} (read : Node → Option α) : Node → Option (Option α)
  | .null => some none
  | v => (read v).map some

/-- A list. -/
def items? {α : Type} (read : Node → Option α) : Node → Option (List α)
  | .list items => items.mapM read
  | _ => none

/-- A value that a message can carry. -/
def payload? (v : Node) : Option Json.Payload := v.json?.map Json.Payload.of

end Node

/-- The written identifier. -/
def Id.json {kind : IdKind} (i : Id kind) : Json := .str i.text

/-- The written timestamp. -/
def Timestamp.json? (t : Timestamp) : Option Json := t.text?.map .str

/-- The written name. -/
def Named.json {α : Type} [Named α] (a : α) : Json := .str (Named.name a)

@[simp] theorem Node.id?_json {kind : IdKind} (i : Id kind) :
    Node.id? (.ofJson i.json) = some i := by
  simp [Node.id?, Id.json, Node.ofJson, Node.text?]

@[simp] theorem Node.named?_json {α : Type} [LawfulNamed α] (dialect : Dialect) (a : α) :
    Node.named? dialect (.ofJson (Named.json a)) = some a := by
  simp [Node.named?, Named.json, Node.ofJson, LawfulNamed.ofName?_name]

end Overhaul
