import Overhaul.Toml.Scalar
import Overhaul.Toml.Tree

/-!
# Documents in TOML

A document is a sequence of lines, each of which opens a table or gives a value to a name; a value
may go on over several lines. Values are nested less than eighty deep, and names dotted as often.
Main definition: `Toml.ofText?`.
-/

namespace Overhaul.Toml

/-- How deep values are nested and names are dotted at most. -/
def depthLimit : Nat := 79

/-- What follows the blanks of a line. -/
def skipBlanks (cs : List Char) : List Char := cs.dropWhile isBlank

/-- What follows blanks, line breaks and comments. -/
def skipGap : (inComment : Bool) → List Char → Option (List Char)
  | _, [] => some []
  | true, c :: cs =>
    if c = '\n' then skipGap false cs else if isPlain c then skipGap true cs else none
  | false, c :: cs =>
    if isBlank c || c = '\n' then skipGap false cs
    else if c = '#' then skipGap true cs
    else some (c :: cs)

/-- What follows the end of a line, which a comment may stand in front of. -/
def endLine (cs : List Char) : Option (List Char) :=
  let rest := match skipBlanks cs with
    | '#' :: cs => cs.dropWhile isPlain
    | cs => cs
  match rest with
  | [] => some []
  | '\n' :: rest => some rest
  | _ => none

/-! ### Names -/

/-- A name without dots, and what follows. -/
def takeSimpleName (cs : List Char) : Option (List Char × List Char) :=
  match takeName cs with
  | some r => some r
  | none =>
    match cs.takeWhile inName with
    | [] => none
    | name => some (name, cs.dropWhile inName)

/-- A name with any number of dots, blanks being allowed around each part; and what follows. -/
def takePath (cs : List Char) : Option (List String × List Char) := do
  let (name, after) ← takeSimpleName (skipBlanks cs)
  match skipBlanks after with
  | '.' :: rest =>
    if _ : rest.length < cs.length then do
      let (names, rest) ← takePath rest
      return (String.ofList name :: names, rest)
    else none
  | rest => return ([String.ofList name], rest)
termination_by cs.length

/-- A path as the way to a name and the name. -/
def split? (path : List String) : Option (List String × String) :=
  if path.length ≤ depthLimit then path.getLast?.map fun name => (path.dropLast, name) else none

/-- A path with nothing too deep, and what follows. -/
def takeTarget (cs : List Char) : Option ((List String × String) × List Char) := do
  let (path, rest) ← takePath cs
  return (← split? path, rest)

/-! ### Values -/

/-- A path and its value, and what follows. -/
def takeField (value : List Char → Option (Node × List Char)) (cs : List Char) :
    Option (((List String × String) × Node) × List Char) := do
  let (target, cs) ← takeTarget cs
  let cs ← Text.takeChar '=' cs
  let (v, cs) ← value (skipBlanks cs)
  return ((target, v), skipBlanks cs)

/-- The rest of a list, and what follows. -/
def takeItems (value : List Char → Option (Node × List Char)) (cs : List Char) :
    Option (List Node × List Char) := do
  match ← skipGap false cs with
  | ']' :: rest => return ([], rest)
  | start => do
    let (v, after) ← value start
    match ← skipGap false after with
    | ']' :: rest => return ([v], rest)
    | ',' :: rest =>
      if _ : rest.length < cs.length then do
        let (vs, rest) ← takeItems value rest
        return (v :: vs, rest)
      else none
    | _ => none
termination_by cs.length

/-- The rest of a table in braces that has a field, and what follows. -/
def takeInlineFields (value : List Char → Option (Node × List Char)) (fields : Fields)
    (cs : List Char) : Option (Fields × List Char) := do
  let (((path, name), v), after) ← takeField value cs
  let fields ← fields.define path name v
  match after with
  | '}' :: rest => return (fields, rest)
  | ',' :: rest =>
    if _ : rest.length < cs.length then takeInlineFields value fields rest else none
  | _ => none
termination_by cs.length

/-- A value with at most `depth` lists and tables inside each other, and what follows. -/
def takeValue : (depth : Nat) → List Char → Option (Node × List Char)
  | depth, cs =>
    match cs with
    | '[' :: rest =>
      match depth with
      | 0 => none
      | depth + 1 => (takeItems (takeValue depth) rest).map fun (vs, rest) => (.list vs, rest)
    | '{' :: rest =>
      match depth with
      | 0 => none
      | depth + 1 =>
        match skipBlanks rest with
        | '}' :: rest => some (.record [], rest)
        | _ => (takeInlineFields (takeValue depth) [] rest).map fun (fields, rest) =>
          ((Item.table .header fields).node, rest)
    | 't' :: 'r' :: 'u' :: 'e' :: rest => some (.bool true, rest)
    | 'f' :: 'a' :: 'l' :: 's' :: 'e' :: rest => some (.bool false, rest)
    | c :: _ =>
      if c = '"' ∨ c = '\'' then
        (takeString cs).map fun (s, rest) => (.str (String.ofList s), rest)
      else takeNumber cs
    | [] => none

/-! ### Lines -/

/-- A document in progress: what was defined, and the table that the last header opened. -/
structure Draft where
  fields : Fields
  current : List String
  deriving Repr

/-- One header or definition, up to the end of its last line; and what follows. -/
def takeLine (draft : Draft) (cs : List Char) : Option (Draft × List Char) :=
  match cs with
  | '[' :: '[' :: cs => do
    let ((path, name), cs) ← takeTarget cs
    let cs ← Text.takeChar ']' cs
    let cs ← Text.takeChar ']' cs
    return (⟨← draft.fields.openElement path name, path ++ [name]⟩, ← endLine cs)
  | '[' :: cs => do
    let ((path, name), cs) ← takeTarget cs
    let cs ← Text.takeChar ']' cs
    return (⟨← draft.fields.openTable path name, path ++ [name]⟩, ← endLine cs)
  | cs => do
    let (((path, name), v), cs) ← takeField (takeValue depthLimit) cs
    let fields ← draft.fields.within false (fun _ fields => fields.define path name v)
      draft.current .header
    return (⟨fields, draft.current⟩, ← endLine cs)

/-- The rest of a document. -/
def takeLines (draft : Draft) (cs : List Char) : Option Fields := do
  match ← skipGap false cs with
  | [] => return draft.fields
  | start =>
    let (draft, rest) ← takeLine draft start
    if _ : rest.length < cs.length then takeLines draft rest else none
termination_by cs.length

/-- The text with every line break a single line feed. -/
def withLineFeeds : List Char → List Char
  | '\r' :: '\n' :: cs => '\n' :: withLineFeeds cs
  | c :: cs => c :: withLineFeeds cs
  | [] => []

/-- The text without a mark of its encoding in front. -/
def withoutMark : List Char → List Char
  | c :: cs => if c.toNat = 0xFEFF then cs else c :: cs
  | [] => []

/-- The document that TOML text spells. -/
def ofText? (s : String) : Option Node :=
  (takeLines ⟨[], []⟩ (withLineFeeds (withoutMark s.toList))).map fun fields =>
    (Item.table .header fields).node

end Overhaul.Toml
