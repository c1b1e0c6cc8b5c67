import Overhaul.Json.Number

/-!
# Tokens of JSON text

`Token.scan` splits a text into tokens in one pass. Two kinds of token can be spelled correctly and
still stand for nothing: a number too large for floating point, and a string with half of a
surrogate pair. They carry `none`, so that a reader who skips them need not mind.
-/

namespace Overhaul.Json

/-- The smallest meaningful piece of JSON text. -/
inductive Token
  | openList
  | closeList
  | openRecord
  | closeRecord
  | colon
  | comma
  | null
  | bool (b : Bool)
  | number (value : Option Number)
  | text (value : Option String)
  deriving DecidableEq, Repr

/-- The characters that UTF-16 units stand for; none when half of a surrogate pair is alone. -/
def ofUnits? : List Nat → Option (List Char)
  | [] => some []
  | u :: rest =>
    if 0xD800 ≤ u ∧ u < 0xDC00 then
      match rest with
      | v :: rest =>
        if 0xDC00 ≤ v ∧ v < 0xE000 then
          (ofUnits? rest).map (Char.ofNat (0x10000 + (u - 0xD800) * 0x400 + (v - 0xDC00)) :: ·)
        else none
      | [] => none
    else if 0xDC00 ≤ u ∧ u < 0xE000 then none
    else (ofUnits? rest).map (Char.ofNat u :: ·)

namespace Token

/-- Where a scan stands: between tokens or inside of one. -/
inductive Mode
  | gap
  /-- In a word of which `rest` is still to come. -/
  | word (rest : List Char) (token : Token)
  /-- In a number, its characters last first. -/
  | number (chars : List Char)
  /-- In a string, its units last first. -/
  | text (units : List Nat)
  /-- In a string after a backslash. -/
  | escape (units : List Nat)
  /-- In a string after `\u` and some digits. -/
  | unit (units : List Nat) (digitsLeft : Nat) (value : Nat)
  deriving DecidableEq, Repr

/-- A scan in progress: the tokens found, last first, and where it stands. -/
structure Scan where
  tokens : List Token
  mode : Mode
  deriving DecidableEq, Repr

/-- Blanks of JSON. -/
def isBlank (c : Char) : Bool := c = ' ' || c = '\n' || c = '\t' || c = '\r'

/-- Characters that a number can hold. -/
def inNumber (c : Char) : Bool :=
  c.isDigit || c = '-' || c = '+' || c = '.' || c = 'e' || c = 'E'

/-- A character between tokens: a blank, or the start of a token. -/
def start? (tokens : List Token) (c : Char) : Option Scan :=
  match c with
  | '[' => some ⟨.openList :: tokens, .gap⟩
  | ']' => some ⟨.closeList :: tokens, .gap⟩
  | '{' => some ⟨.openRecord :: tokens, .gap⟩
  | '}' => some ⟨.closeRecord :: tokens, .gap⟩
  | ':' => some ⟨.colon :: tokens, .gap⟩
  | ',' => some ⟨.comma :: tokens, .gap⟩
  | 'n' => some ⟨tokens, .word ['u', 'l', 'l'] .null⟩
  | 't' => some ⟨tokens, .word ['r', 'u', 'e'] (.bool true)⟩
  | 'f' => some ⟨tokens, .word ['a', 'l', 's', 'e'] (.bool false)⟩
  | '"' => some ⟨tokens, .text []⟩
  | c =>
    if isBlank c then some ⟨tokens, .gap⟩
    else if c.isDigit || c = '-' then some ⟨tokens, .number [c]⟩
    else none

/-- The token of a whole number literal. -/
def ofLiteral? (chars : List Char) : Option Token :=
  (Literal.ofChars? chars.reverse).map fun l => .number l.value?

/-- What a character after a backslash stands for. -/
def escaped? (c : Char) : Option Nat :=
  match c with
  | '"' => some 0x22
  | '\\' => some 0x5C
  | '/' => some 0x2F
  | 'b' => some 0x08
  | 'f' => some 0x0C
  | 'n' => some 0x0A
  | 'r' => some 0x0D
  | 't' => some 0x09
  | _ => none

/-- One more character. -/
def step (s : Scan) (c : Char) : Option Scan :=
  match s.mode with
  | .gap => start? s.tokens c
  | .word [] token => start? (token :: s.tokens) c
  | .word (d :: rest) token =>
    if c = d then
      if rest = [] then some ⟨token :: s.tokens, .gap⟩ else some ⟨s.tokens, .word rest token⟩
    else none
  | .number chars =>
    if inNumber c then some ⟨s.tokens, .number (c :: chars)⟩
    else do start? ((← ofLiteral? chars) :: s.tokens) c
  | .text units =>
    if c = '"' then
      some ⟨.text ((ofUnits? units.reverse).map String.ofList) :: s.tokens, .gap⟩
    else if c = '\\' then some ⟨s.tokens, .escape units⟩
    else if c.toNat < 0x20 then none
    else some ⟨s.tokens, .text (c.toNat :: units)⟩
  | .escape units =>
    if c = 'u' then some ⟨s.tokens, .unit units 4 0⟩
    else (escaped? c).map fun u => ⟨s.tokens, .text (u :: units)⟩
  | .unit units left value =>
    (Text.hexDigit? c).map fun d =>
      if left ≤ 1 then ⟨s.tokens, .text ((value * 16 + d) :: units)⟩
      else ⟨s.tokens, .unit units (left - 1) (value * 16 + d)⟩

/-- The tokens of a scan at the end of the text. -/
def finish (s : Scan) : Option (List Token) :=
  match s.mode with
  | .gap => some s.tokens.reverse
  | .number chars => (ofLiteral? chars).map fun t => (t :: s.tokens).reverse
  | _ => none

/-- The tokens that the characters spell. -/
def scan (cs : List Char) : Option (List Token) :=
  (cs.foldlM step ⟨[], .gap⟩).bind finish

end Token

end Overhaul.Json
