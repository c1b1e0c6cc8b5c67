import Overhaul.Json.Printer
import Overhaul.Record.Basic
import Overhaul.Toml.Quoted

/-!
# Written TOML

A table stands in a section of its own, under a header with the path to it, and so does each table
of a list that holds nothing but tables; all other values stand on one line. How deep a value is
nested thus shows in paths and not in brackets, for as long as there are only tables. What has no
form in TOML, a null or a whole number past 64 bits with a sign, cannot be written. Main definition:
`Toml.ofFields?`.
-/

namespace Overhaul.Toml

mutual

/-- A value on one line. -/
def inline? : Json → Option (List Char)
  | .null => none
  | .bool true => some ['t', 'r', 'u', 'e']
  | .bool false => some ['f', 'a', 'l', 's', 'e']
  | .num (.int n) => if Json.fitsInt64 n then some (toString n).toList else none
  | .num (.real x) => some (Json.Number.chars (.real x))
  | .str s => some (quoted s)
  | .arr items => do return '[' :: Json.joined [',', ' '] (← inlineItems? items) ++ [']']
  | .obj fields => do return '{' :: Json.joined [',', ' '] (← inlineFields? fields) ++ ['}']
termination_by structural v => v

/-- The items of a list, each on one line. -/
def inlineItems? : List Json → Option (List (List Char))
  | [] => some []
  | v :: items => do return (← inline? v) :: (← inlineItems? items)
termination_by structural items => items

/-- The fields of a table, each on one line. -/
def inlineFields? : List (String × Json) → Option (List (List Char))
  | [] => some []
  | (n, v) :: fields => do
    return (written n ++ ' ' :: '=' :: ' ' :: (← inline? v)) :: (← inlineFields? fields)
termination_by structural fields => fields

end

/-! ### Sections -/

/-- The value has a section of its own. -/
def isTable : Json → Bool
  | .obj _ => true
  | _ => false

/-- The values have a section each, which have one header in common. -/
def areTables (items : List Json) : Bool := items ≠ [] && items.all isTable

/-- The value stands in the section of the table that has it as a field. -/
def isInline : Json → Bool
  | .obj _ => false
  | .arr items => !areTables items
  | _ => true

/-- The lines of a table's own section, one for each field that stands in it. -/
def ownLines? (fields : List (String × Json)) : Option (List Char) := do
  return (← inlineFields? (fields.filter fun f => isInline f.2)).flatMap (· ++ ['\n'])

/-- The header of the table at the end of a path. -/
def header (path : List String) : List Char :=
  '[' :: Json.joined ['.'] (path.map written) ++ [']']

mutual

/-- The sections of the value at the end of a path. A table with nothing but sections inside it has
no section of its own. -/
def sections? (path : List String) : Json → Option (List (List Char))
  | .obj fields => do
    let lines ← ownLines? fields
    let own := if fields ≠ [] ∧ lines = [] then [] else [header path ++ '\n' :: lines]
    return own ++ (← fieldSections? path fields)
  | .arr items => if areTables items then elementSections? path items else some []
  | _ => some []
termination_by structural v => v

/-- The sections of tables that have a path in common. -/
def elementSections? (path : List String) : List Json → Option (List (List Char))
  | [] => some []
  | .obj fields :: items => do
    let lines ← ownLines? fields
    let inner ← fieldSections? path fields
    let others ← elementSections? path items
    return ('[' :: header path ++ ']' :: '\n' :: lines) :: inner ++ others
  | _ :: items => elementSections? path items
termination_by structural items => items

/-- The sections of the fields of the table at the end of a path. -/
def fieldSections? (path : List String) : List (String × Json) → Option (List (List Char))
  | [] => some []
  | (n, v) :: fields => do
    return (← sections? (path ++ [n]) v) ++ (← fieldSections? path fields)
termination_by structural fields => fields

end

/-- The document with the fields: what stands in no table, and then the sections. -/
def ofFields? (fields : List (String × Json)) : Option String := do
  let lines ← ownLines? fields
  let sections ← fieldSections? [] fields
  return String.ofList (Json.joined ['\n'] (if lines = [] then sections else lines :: sections))

end Overhaul.Toml
