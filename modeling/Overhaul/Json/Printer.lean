import Overhaul.Json.Value

/-!
# Written JSON

`Json.line` writes a value on one line, `Json.page` over many lines with two blanks for every level.
Both write the fields of an object in the order in which the value lists them. In strings a quote, a
backslash and the control characters are escaped, and nothing else is.
-/

namespace Overhaul.Json

/-- One character of a string. -/
def escape (c : Char) : List Char :=
  match c with
  | '"' => ['\\', '"']
  | '\\' => ['\\', '\\']
  | '\n' => ['\\', 'n']
  | '\r' => ['\\', 'r']
  | '\t' => ['\\', 't']
  | c =>
    if c.toNat = 8 then ['\\', 'b']
    else if c.toNat = 12 then ['\\', 'f']
    else if c.toNat < 0x20 then '\\' :: 'u' :: Text.padded 16 4 c.toNat
    else [c]

/-- A string in quotes. -/
def quoted (s : String) : List Char :=
  '"' :: (s.toList.flatMap escape ++ ['"'])

/-- A line's end and the blanks of the next line's level. -/
def newline (level : Nat) : List Char := '\n' :: List.replicate (2 * level) ' '

/-- Parts with separators between them. -/
def joined (separator : List Char) : List (List Char) → List Char
  | [] => []
  | [part] => part
  | part :: rest => part ++ separator ++ joined separator rest

/-- Brackets around parts on lines of their own; just the brackets when there are no parts. -/
def block (level : Nat) (opening closing : Char) (parts : List (List Char)) : List Char :=
  if parts = [] then [opening, closing]
  else
    opening :: newline (level + 1) ++ joined (',' :: newline (level + 1)) parts ++ newline level ++
      [closing]

mutual

/-- The value over many lines, its first line being at the given level. -/
def pageChars (level : Nat) : Json → List Char
  | null => ['n', 'u', 'l', 'l']
  | bool true => ['t', 'r', 'u', 'e']
  | bool false => ['f', 'a', 'l', 's', 'e']
  | num n => n.chars
  | str s => quoted s
  | arr items => block level '[' ']' (pageItems (level + 1) items)
  | obj fields => block level '{' '}' (pageFields (level + 1) fields)
termination_by structural v => v

/-- The items of an array, each over many lines. -/
def pageItems (level : Nat) : List Json → List (List Char)
  | [] => []
  | v :: items => pageChars level v :: pageItems level items
termination_by structural items => items

/-- The fields of an object, each over many lines. -/
def pageFields (level : Nat) : List (String × Json) → List (List Char)
  | [] => []
  | (n, v) :: fields => (quoted n ++ ':' :: ' ' :: pageChars level v) :: pageFields level fields
termination_by structural fields => fields

end

mutual

/-- The value on one line. -/
def lineChars : Json → List Char
  | null => ['n', 'u', 'l', 'l']
  | bool true => ['t', 'r', 'u', 'e']
  | bool false => ['f', 'a', 'l', 's', 'e']
  | num n => n.chars
  | str s => quoted s
  | arr items => '[' :: joined [','] (lineItems items) ++ [']']
  | obj fields => '{' :: joined [','] (lineFields fields) ++ ['}']
termination_by structural v => v

/-- The items of an array, each on one line. -/
def lineItems : List Json → List (List Char)
  | [] => []
  | v :: items => lineChars v :: lineItems items
termination_by structural items => items

/-- The fields of an object, each on one line. -/
def lineFields : List (String × Json) → List (List Char)
  | [] => []
  | (n, v) :: fields => (quoted n ++ ':' :: lineChars v) :: lineFields fields
termination_by structural fields => fields

end

/-- The value over many lines. -/
def page (v : Json) : String := String.ofList (pageChars 0 v)

/-- The value on one line. -/
def line (v : Json) : String := String.ofList (lineChars v)

end Overhaul.Json
