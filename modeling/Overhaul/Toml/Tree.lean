import Overhaul.Json.Node

/-!
# Trees of tables

A document in TOML defines tables bit by bit: under a header, through dotted names, or in passing,
because something inside them is defined. A table remembers how it came to be, because that decides
what may still be added to it: nothing is defined twice. Main definition: `Fields.within`, which
finds the table at the end of a path.
-/

namespace Overhaul.Toml

/-- How a table came to be. -/
inductive Origin
  /-- By a header of its own, or as a whole. -/
  | header
  /-- In passing, by a header of a table inside it. -/
  | implied
  /-- By dotted names. -/
  | dotted
  deriving DecidableEq, Repr

/-- What a name stands for. -/
inductive Item
  | value (v : Node)
  | table (origin : Origin) (fields : List (String × Item))
  /-- Tables that one name stands for together, the last first. -/
  | tables (elements : List (List (String × Item)))
  deriving Repr

/-- Names and what they stand for. -/
abbrev Fields := List (String × Item)

namespace Item

mutual

/-- What an item says in the end. -/
def node : Item → Node
  | value v => v
  | table _ fields => .record (nodes fields)
  | tables elements => .list (records elements).reverse
termination_by structural item => item

/-- What names stand for in the end. -/
def nodes : List (String × Item) → List (String × Node)
  | [] => []
  | (n, item) :: rest => (n, node item) :: nodes rest
termination_by structural fields => fields

/-- What tables say in the end. -/
def records : List (List (String × Item)) → List Node
  | [] => []
  | fields :: rest => .record (nodes fields) :: records rest
termination_by structural elements => elements

end

end Item

namespace Fields

/-- The fields with another item for a name, or one more field. -/
def set (name : String) (item : Item) : Fields → Fields
  | [] => [(name, item)]
  | (n, i) :: rest => if n = name then (n, item) :: rest else (n, i) :: set name item rest

/-- The fields after something was done to those of the table at the end of the path. A table on the
way that is missing is made. Dotted names lead through no table that has a header. -/
def within (dotted : Bool) (act : Origin → Fields → Option Fields) :
    (path : List String) → Origin → Fields → Option Fields
  | [], origin, fields => act origin fields
  | name :: path, _, fields =>
    match fields.lookup name with
    | none => do
      let origin := if dotted then .dotted else .implied
      return fields.set name (.table origin (← within dotted act path origin []))
    | some (.value _) => none
    | some (.tables []) => none
    | some (.tables (last :: others)) => do
      return fields.set name (.tables ((← within dotted act path .header last) :: others))
    | some (.table origin inner) =>
      if dotted ∧ origin = .header then none
      else do return fields.set name (.table origin (← within dotted act path origin inner))

/-- The fields after a value was given to a new name behind a dotted path. -/
def define (path : List String) (name : String) (v : Node) (fields : Fields) : Option Fields :=
  within true (fun origin fields =>
    if (origin = .dotted) = (path = []) then none
    else match fields.lookup name with
      | some _ => none
      | none => some (fields ++ [(name, .value v)])) path .header fields

/-- The fields after the header of a table, which no header and no dotted name has made. -/
def openTable (path : List String) (name : String) (fields : Fields) : Option Fields :=
  within false (fun _ fields =>
    match fields.lookup name with
    | none => some (fields.set name (.table .header []))
    | some (.table .implied inner) => some (fields.set name (.table .header inner))
    | some _ => none) path .header fields

/-- The fields after the header of one more of the tables that a name stands for together. -/
def openElement (path : List String) (name : String) (fields : Fields) : Option Fields :=
  within false (fun _ fields =>
    match fields.lookup name with
    | none => some (fields.set name (.tables [[]]))
    | some (.tables elements) => some (fields.set name (.tables ([] :: elements)))
    | some _ => none) path .header fields

end Fields

end Overhaul.Toml
