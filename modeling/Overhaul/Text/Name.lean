import Overhaul.Text.Blank

/-!
# Names of enumerated values

A type whose finitely many values have written names is `Named`. Records carry the names exactly as
they are (`Named.ofName?`); people may vary case, blanks at the ends and dashes (`Named.read`). Main
statement: the exact reading of a value's name gives the value back.
-/

namespace Overhaul

/-- The spelling that names are compared in: no blanks at the ends, lower case, `_` for `-`. -/
def plainName (s : String) : String :=
  String.ofList ((Text.trimmedChars s.toList).map fun c => if c = '-' then '_' else c.toLower)

/-- Values that are written by name. -/
class Named (α : Type) where
  /-- What the type is called in messages. -/
  noun : String
  /-- The written name. -/
  name : α → String
  /-- Every value. -/
  all : List α
  /-- Shorter spellings that people may use. -/
  shortNames : List (String × α) := []

/-- A name that no value of the type has. -/
structure UnknownName where
  /-- What was looked for. -/
  noun : String
  /-- The name, in the spelling that names are compared in. -/
  name : String
  deriving DecidableEq, Repr

/-- The text of the message. -/
def UnknownName.message (e : UnknownName) : String :=
  "unknown " ++ e.noun ++ " '" ++ e.name ++ "'"

namespace Named

variable {α : Type} [Named α]

/-- The value with exactly this name. -/
def ofName? (s : String) : Option α :=
  (all : List α).find? fun a => name a == s

/-- The value that a person means by this name. -/
def read (s : String) : Except UnknownName α :=
  let plain := plainName s
  match ofName? plain with
  | some a => .ok a
  | none =>
    match (shortNames : List (String × α)).lookup plain with
    | some a => .ok a
    | none => .error ⟨noun α, plain⟩

end Named

/-- Different values have different names, and every value is listed. -/
class LawfulNamed (α : Type) extends Named α where
  ofName?_name : ∀ a : α, Named.ofName? (Named.name a) = some a

end Overhaul
