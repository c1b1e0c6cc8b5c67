import Overhaul.Json.Node

/-!
# Records in documents

A record is written as named fields, and a field that holds nothing is written as null or left out,
as the format prefers. It is read from named fields in any order, or from a bare list of its fields
in the order of their declaration; fields of other names are skipped, and a field must not come
twice. Main definitions: `Record.read?`, `Record.required?`, `Record.optional?`, `Fields.json`,
`Fields.held`.
-/

namespace Overhaul

/-- How a format differs from others in what it takes for a record. -/
structure Dialect where
  /-- A bare list may go on after the last field. -/
  surplusItems : Bool
  /-- What may stand for the content of a value that has none. -/
  isEmptyContent : Node → Bool

/-- Documents in JSON. -/
def Dialect.json : Dialect where
  surplusItems := false
  isEmptyContent
    | .null => true
    | _ => false

/-- Documents in TOML. -/
def Dialect.toml : Dialect where
  surplusItems := true
  isEmptyContent
    | .list [] => true
    | .record [] => true
    | _ => false

/-- The fields of a record that were found in a document, each at most once. -/
abbrev Record := List (String × Node)

namespace Record

/-- The fields with the given names, if none of them comes twice. -/
def known? (names : List String) (fields : List (String × Node)) : Option Record :=
  let known := fields.filter fun f => names.contains f.1
  if (known.map Prod.fst).Nodup then some known else none

/-- The record with fields of the given names, in the order of their declaration. -/
def read? (dialect : Dialect) (names : List String) : Node → Option Record
  | .record fields => known? names fields
  | .list items =>
    if items.length ≤ names.length || dialect.surplusItems then some (names.zip items) else none
  | _ => none

/-- What a field holds that has to be there. -/
def required? {α : Type} (r : Record) (name : String) (read : Node → Option α) : Option α :=
  (r.lookup name).bind read

/-- What a field holds, or `missing` when it is not there. -/
def optional? {α : Type} (r : Record) (name : String) (missing : α) (read : Node → Option α) :
    Option α :=
  match r.lookup name with
  | some v => read v
  | none => some missing

end Record

/-- The fields of a record to be written, in order; `none` where there is nothing to write. -/
abbrev Fields := List (String × Option Json)

/-- The record with null where there is nothing to write. -/
def Fields.json (fields : Fields) : Json :=
  .obj (fields.map fun f => (f.1, f.2.getD .null))

/-- The fields that hold something. -/
def Fields.held (fields : Fields) : List (String × Json) :=
  fields.filterMap fun f => f.2.map fun v => (f.1, v)

end Overhaul
