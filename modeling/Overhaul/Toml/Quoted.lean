import Overhaul.Text.Digits

/-!
# Strings and names in TOML

A string stands in double quotes, where a backslash escapes, or in single quotes, where nothing
does; in three quotes instead of one it may hold line breaks. All texts here have their line breaks
as single line feeds. A name is a string on one line, or letters, digits, underscores and dashes
without quotes. Main definitions: `takeString`, `quoted` and `written`.
-/

namespace Overhaul.Toml

/-- A character that can stand for itself on a line. -/
def isPlain (c : Char) : Bool := c = '\t' || (0x20 ≤ c.toNat && c.toNat ≠ 0x7F)

/-- A blank within a line. -/
def isBlank (c : Char) : Bool := c = ' ' || c = '\t'

/-- The character that one character after a backslash stands for. -/
def escaped? (c : Char) : Option Char :=
  match c with
  | '"' => some '"'
  | '\\' => some '\\'
  | 'b' => some (Char.ofNat 8)
  | 't' => some '\t'
  | 'n' => some '\n'
  | 'f' => some (Char.ofNat 12)
  | 'r' => some '\r'
  | _ => none

/-- The character with the given hexadecimal number. -/
def numbered? (digits : List Char) : Option Char := do
  let (n, _) ← Text.takeHex digits.length digits
  if n.isValidChar then some (Char.ofNat n) else none

/-- One more character of a string. -/
def onto (c : Char) (taken : Option (List Char × List Char)) : Option (List Char × List Char) :=
  taken.map fun (cs, rest) => (c :: cs, rest)

/-- The rest of a string in double quotes. -/
def takeBasic : List Char → Option (List Char × List Char)
  | [] => none
  | '"' :: cs => some ([], cs)
  | '\\' :: 'u' :: a :: b :: c :: d :: cs => do
    onto (← numbered? [a, b, c, d]) (takeBasic cs)
  | '\\' :: 'U' :: a :: b :: c :: d :: e :: f :: g :: h :: cs => do
    onto (← numbered? [a, b, c, d, e, f, g, h]) (takeBasic cs)
  | '\\' :: c :: cs => do onto (← escaped? c) (takeBasic cs)
  | c :: cs => if isPlain c && c ≠ '\\' then onto c (takeBasic cs) else none

/-- The rest of a string in single quotes. -/
def takeLiteral : List Char → Option (List Char × List Char)
  | [] => none
  | '\'' :: cs => some ([], cs)
  | c :: cs => if isPlain c then onto c (takeLiteral cs) else none

/-- Where a string over several lines is. -/
inductive Spot
  /-- In the text. -/
  | text
  /-- Behind a backslash that only blanks may separate from the end of its line. -/
  | lineEnd
  /-- Behind such a line, where blanks and empty lines do not count. -/
  | nextLine
  deriving DecidableEq, Repr

/-- The rest of a string in three double quotes. Up to two more quotes at its end belong to it. -/
def takeBasicLines : Spot → List Char → Option (List Char × List Char)
  | _, [] => none
  | .lineEnd, c :: cs =>
    if isBlank c then takeBasicLines .lineEnd cs
    else if c = '\n' then takeBasicLines .nextLine cs
    else none
  | .nextLine, ' ' :: cs => takeBasicLines .nextLine cs
  | .nextLine, '\t' :: cs => takeBasicLines .nextLine cs
  | .nextLine, '\n' :: cs => takeBasicLines .nextLine cs
  | _, '"' :: '"' :: '"' :: '"' :: '"' :: cs => some (['"', '"'], cs)
  | _, '"' :: '"' :: '"' :: '"' :: cs => some (['"'], cs)
  | _, '"' :: '"' :: '"' :: cs => some ([], cs)
  | _, '\\' :: 'u' :: a :: b :: c :: d :: cs => do
    onto (← numbered? [a, b, c, d]) (takeBasicLines .text cs)
  | _, '\\' :: 'U' :: a :: b :: c :: d :: e :: f :: g :: h :: cs => do
    onto (← numbered? [a, b, c, d, e, f, g, h]) (takeBasicLines .text cs)
  | _, '\\' :: c :: cs =>
    match escaped? c with
    | some e => onto e (takeBasicLines .text cs)
    | none =>
      if isBlank c then takeBasicLines .lineEnd cs
      else if c = '\n' then takeBasicLines .nextLine cs
      else none
  | _, c :: cs =>
    if (isPlain c && c ≠ '\\') || c = '\n' then onto c (takeBasicLines .text cs) else none

/-- The rest of a string in three single quotes. Up to two more quotes at its end belong to it. -/
def takeLiteralLines : List Char → Option (List Char × List Char)
  | [] => none
  | '\'' :: '\'' :: '\'' :: '\'' :: '\'' :: cs => some (['\'', '\''], cs)
  | '\'' :: '\'' :: '\'' :: '\'' :: cs => some (['\''], cs)
  | '\'' :: '\'' :: '\'' :: cs => some ([], cs)
  | c :: cs => if isPlain c || c = '\n' then onto c (takeLiteralLines cs) else none

/-- The text without a line break in front. -/
def withoutBreak : List Char → List Char
  | '\n' :: cs => cs
  | cs => cs

/-- A string on one line, and what follows. -/
def takeName : List Char → Option (List Char × List Char)
  | '"' :: cs => takeBasic cs
  | '\'' :: cs => takeLiteral cs
  | _ => none

/-- A string, and what follows. -/
def takeString : List Char → Option (List Char × List Char)
  | '"' :: '"' :: '"' :: cs => takeBasicLines .text (withoutBreak cs)
  | '\'' :: '\'' :: '\'' :: cs => takeLiteralLines (withoutBreak cs)
  | cs => takeName cs

/-- One character of a written string. -/
def escape (c : Char) : List Char :=
  match c with
  | '"' => ['\\', '"']
  | '\\' => ['\\', '\\']
  | '\n' => ['\\', 'n']
  | '\r' => ['\\', 'r']
  | '\t' => ['\\', 't']
  | c => if isPlain c then [c] else '\\' :: 'u' :: Text.padded 16 4 c.toNat

/-- A written string. -/
def quoted (s : String) : List Char := '"' :: (s.toList.flatMap escape ++ ['"'])

/-- A character of a name without quotes. -/
def inName (c : Char) : Bool := c.isAlphanum || c = '_' || c = '-'

/-- A written name, without quotes where it needs none. -/
def written (name : String) : List Char :=
  if name ≠ "" && name.toList.all inName then name.toList else quoted name

end Overhaul.Toml
