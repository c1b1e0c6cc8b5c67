import Overhaul.Json.Token
import Overhaul.Json.Value

/-!
# Documents

A `Node` is a document as it was read, before anyone asks what it means: fields keep their order and
may repeat. Some parts of a document can be skipped but not used; they are `refused`. Main
definition: `Node.ofText?` reads JSON text. A list or record inside 127 others is `refused`.
-/

namespace Overhaul

/-- A part of a document. -/
inductive Node
  | null
  | bool (b : Bool)
  | num (n : Json.Number)
  /-- A number that is infinite or not a number. -/
  | unreal
  | str (s : String)
  | list (items : List Node)
  | record (fields : List (String × Node))
  /-- Correctly spelled, and unusable. -/
  | refused
  deriving Repr

namespace Node

open Json (Token)

/-- How many lists and records may be open at once. -/
def depthLimit : Nat := 127

/-- A list or record that is still open, its parts last first. -/
inductive Frame
  | list (items : List Node)
  | record (fields : List (Option String × Node)) (name : Option (Option String))
  deriving Repr

/-- What has to come next. -/
inductive Awaited
  /-- A value, or the end of the list just opened. -/
  | value (orEnd : Bool)
  /-- The name of a field, or the end of the record just opened. -/
  | name (orEnd : Bool)
  | colon
  /-- A comma, or the end of what is open. -/
  | more
  deriving DecidableEq, Repr

/-- A document in progress: the open lists and records, innermost first, and what has to come next;
or the whole document. -/
inductive Progress
  | within (frames : List Frame) (awaited : Awaited)
  | whole (node : Node)
  deriving Repr

/-- A finished value takes its place in what is open. -/
def place (frames : List Frame) (v : Node) : Progress :=
  match frames with
  | [] => .whole v
  | .list items :: rest => .within (.list (v :: items) :: rest) .more
  | .record fields name :: rest => .within (.record ((name.join, v) :: fields) none :: rest) .more

/-- The record with the given fields, unless one of the names is unusable. -/
def ofFields (fields : List (Option String × Node)) : Node :=
  match fields.mapM fun f => f.1.map fun n => (n, f.2) with
  | some fields => .record fields
  | none => .refused

/-- What was open is closed, if it is of the right kind. -/
def close (frames : List Frame) (token : Token) : Option Progress :=
  let limited (v : Node) : Node := if depthLimit < frames.length then .refused else v
  match frames, token with
  | .list items :: rest, .closeList => some (place rest (limited (.list items.reverse)))
  | .record fields none :: rest, .closeRecord =>
    some (place rest (limited (ofFields fields.reverse)))
  | _, _ => none

/-- A value that is one token. -/
def ofToken? : Token → Option Node
  | .null => some .null
  | .bool b => some (.bool b)
  | .number (some n) => some (.num n)
  | .number none => some .refused
  | .text (some s) => some (.str s)
  | .text none => some .refused
  | _ => none

/-- One more token. -/
def step (p : Progress) (token : Token) : Option Progress :=
  match p with
  | .whole _ => none
  | .within frames (.value orEnd) =>
    match token with
    | .openList => some (.within (.list [] :: frames) (.value true))
    | .openRecord => some (.within (.record [] none :: frames) (.name true))
    | .closeList => if orEnd then close frames token else none
    | token => (ofToken? token).map (place frames)
  | .within frames (.name orEnd) =>
    match token, frames with
    | .text name, .record fields none :: rest =>
      some (.within (.record fields (some name) :: rest) .colon)
    | .closeRecord, _ => if orEnd then close frames token else none
    | _, _ => none
  | .within frames .colon =>
    match token with
    | .colon => some (.within frames (.value false))
    | _ => none
  | .within frames .more =>
    match token, frames with
    | .comma, .list _ :: _ => some (.within frames (.value false))
    | .comma, .record _ _ :: _ => some (.within frames (.name false))
    | token, frames => close frames token

/-- The document that the tokens make up. -/
def ofTokens? (tokens : List Token) : Option Node :=
  match tokens.foldlM step (.within [] (.value false)) with
  | some (.whole v) => some v
  | _ => none

/-- The document that JSON text spells. -/
def ofText? (s : String) : Option Node :=
  (Token.scan s.toList).bind ofTokens?

mutual

/-- The value of a document; an infinite number and what is not a number count as null. -/
def json? : Node → Option Json
  | null => some .null
  | bool b => some (.bool b)
  | num n => some (.num n)
  | unreal => some .null
  | str s => some (.str s)
  | list items => (jsonItems? items).map .arr
  | record fields => (jsonFields? fields).map .obj
  | refused => none
termination_by structural v => v

/-- The values of the items of a list. -/
def jsonItems? : List Node → Option (List Json)
  | [] => some []
  | v :: items => do return (← json? v) :: (← jsonItems? items)
termination_by structural items => items

/-- The fields of a record with their values. -/
def jsonFields? : List (String × Node) → Option (List (String × Json))
  | [] => some []
  | (n, v) :: fields => do return (n, ← json? v) :: (← jsonFields? fields)
termination_by structural fields => fields

end

mutual

/-- The document of a value. -/
def ofJson : Json → Node
  | .null => null
  | .bool b => bool b
  | .num n => num n
  | .str s => str s
  | .arr items => list (ofItems items)
  | .obj fields => record (ofJsonFields fields)
termination_by structural v => v

/-- The documents of the items of an array. -/
def ofItems : List Json → List Node
  | [] => []
  | v :: items => ofJson v :: ofItems items
termination_by structural items => items

/-- The documents of the fields of an object. -/
def ofJsonFields : List (String × Json) → List (String × Node)
  | [] => []
  | (n, v) :: fields => (n, ofJson v) :: ofJsonFields fields
termination_by structural fields => fields

end

mutual

/-- A value is the value of its document. -/
@[simp] theorem json?_ofJson : (v : Json) → json? (ofJson v) = some v
  | .null | .bool _ | .num _ | .str _ => rfl
  | .arr items => by simp [ofJson, json?, jsonItems?_ofItems items]
  | .obj fields => by simp [ofJson, json?, jsonFields?_ofJsonFields fields]

@[simp] theorem jsonItems?_ofItems : (items : List Json) → jsonItems? (ofItems items) = some items
  | [] => rfl
  | v :: items => by simp [ofItems, jsonItems?, json?_ofJson v, jsonItems?_ofItems items]

@[simp] theorem jsonFields?_ofJsonFields :
    (fields : List (String × Json)) → jsonFields? (ofJsonFields fields) = some fields
  | [] => rfl
  | (n, v) :: fields => by
    simp [ofJsonFields, jsonFields?, json?_ofJson v, jsonFields?_ofJsonFields fields]

end

end Node

end Overhaul
