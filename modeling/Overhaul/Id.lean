import Overhaul.Text.Digits

/-!
# Identifiers

An identifier is 128 bits tagged with the kind of record that it names, so that one kind is never
taken for another. It is written as five groups of lower-case hexadecimal digits and read in four
spellings. Main statement: reading what was written gives the identifier back.
-/

namespace Overhaul

/-- The kinds of record that have identifiers. -/
inductive IdKind
  | task
  | dependency
  | change
  | tenant
  | user
  | aircraft
  | program
  deriving DecidableEq, Repr

/-- The name of one record of the kind. -/
structure Id (kind : IdKind) where
  bits : BitVec 128
  deriving DecidableEq, Repr

/-- The name of a task. -/
abbrev TaskId := Id .task
/-- The name of a dependency. -/
abbrev DependencyId := Id .dependency
/-- The name of a recorded schedule change. -/
abbrev ChangeId := Id .change
/-- The name of a tenant. -/
abbrev TenantId := Id .tenant
/-- The name of a user. -/
abbrev UserId := Id .user
/-- The name of an aircraft. -/
abbrev AircraftId := Id .aircraft
/-- The name of a maintenance program. -/
abbrev ProgramId := Id .program

namespace Id

variable {kind : IdKind}

/-- The identifier as a number, its first byte the most significant. -/
def toNat (i : Id kind) : Nat := i.bits.toNat

/-- The identifier with the given number. -/
def ofNat (n : Nat) : Id kind := ⟨BitVec.ofNat 128 n⟩

/-- How many identifiers of a kind there are. -/
def count : Nat := 1 <<< 128

theorem toNat_lt (i : Id kind) : i.toNat < count := i.bits.isLt

theorem toNat_inj {i j : Id kind} (h : i.toNat = j.toNat) : i = j := by
  cases i; cases j; congr 1; exact BitVec.eq_of_toNat_eq h

@[simp] theorem ofNat_toNat (i : Id kind) : ofNat i.toNat = i := by
  cases i; simp [ofNat, toNat]

@[simp] theorem toNat_ofNat {n : Nat} (h : n < count) : (ofNat n : Id kind).toNat = n := by
  rw [ofNat, toNat, BitVec.toNat_ofNat]
  exact Nat.mod_eq_of_lt h

/-- Thirty-two hexadecimal digits with a dash after the 8th, 12th, 16th and 20th. -/
def chars (i : Id kind) : List Char :=
  let n := i.toNat
  Text.padded 16 8 (n >>> 96) ++ '-' :: Text.padded 16 4 (n >>> 80 % 0x10000) ++
    '-' :: Text.padded 16 4 (n >>> 64 % 0x10000) ++
    '-' :: Text.padded 16 4 (n >>> 48 % 0x10000) ++
    '-' :: Text.padded 16 12 (n % 0x1000000000000)

/-- The written identifier. -/
def text (i : Id kind) : String := String.ofList i.chars

instance : ToString (Id kind) := ⟨text⟩

/-- Thirty-two digits with a dash after the 8th, 12th, 16th and 20th, and what follows. -/
def takeGroups (cs : List Char) : Option (Id kind × List Char) := do
  let (a, cs) ← Text.takeHex 8 cs
  let cs ← Text.takeChar '-' cs
  let (b, cs) ← Text.takeHex 4 cs
  let cs ← Text.takeChar '-' cs
  let (c, cs) ← Text.takeHex 4 cs
  let cs ← Text.takeChar '-' cs
  let (d, cs) ← Text.takeHex 4 cs
  let cs ← Text.takeChar '-' cs
  let (e, cs) ← Text.takeHex 12 cs
  return (ofNat (a <<< 96 + b <<< 80 + c <<< 64 + d <<< 48 + e), cs)

/-- Thirty-two digits without dashes, and what follows. -/
def takeDigits (cs : List Char) : Option (Id kind × List Char) := do
  let (n, cs) ← Text.takeHex 32 cs
  return (ofNat n, cs)

/-- A reading that leaves exactly `tail` over. -/
def ending (tail : List Char) : Option (Id kind × List Char) → Option (Id kind)
  | some (i, rest) => if rest = tail then some i else none
  | none => none

/-- What follows the nine characters that mark an identifier in a URN, in any case. -/
def afterUrnMark? (cs : List Char) : Option (List Char) :=
  if (cs.take 9).map Char.toLower = ['u', 'r', 'n', ':', 'u', 'u', 'i', 'd', ':'] then
    some (cs.drop 9)
  else none

/-- An identifier in groups, in braces, after a URN mark, or as bare digits. -/
def ofChars? (cs : List Char) : Option (Id kind) :=
  match cs with
  | '{' :: cs => ending ['}'] (takeGroups cs)
  | cs =>
    match afterUrnMark? cs with
    | some cs => ending [] (takeGroups cs)
    | none => ending [] (takeGroups cs) <|> ending [] (takeDigits cs)

/-- The identifier that the text spells. -/
def ofText? (s : String) : Option (Id kind) := ofChars? s.toList

/-- Written groups are read back, whatever follows them. -/
theorem takeGroups_chars (i : Id kind) (rest : List Char) :
    takeGroups (i.chars ++ rest) = some (i, rest) := by
  have hfirst : i.toNat >>> 96 < 16 ^ 8 := by
    have hlt := i.toNat_lt
    simp only [count] at hlt
    omega
  have hgroup : ∀ n : Nat, n % 0x10000 < 16 ^ 4 := by omega
  have hlast : i.toNat % 0x1000000000000 < 16 ^ 12 := by omega
  simp only [chars, takeGroups, List.append_assoc, List.cons_append,
    Text.takeHex_padded 8 _ hfirst, Text.takeHex_padded 4 _ (hgroup _),
    Text.takeHex_padded 12 _ hlast, Text.takeChar_cons,
    Option.bind_eq_bind, Option.bind_some, Option.pure_def, Option.some.injEq, Prod.mk.injEq,
    and_true]
  conv => rhs; rw [← ofNat_toNat i]
  congr 1
  omega

/-- A written identifier starts with a digit, hence with none of the marks of other spellings. -/
theorem chars_eq_cons (i : Id kind) : ∃ d t, d < 16 ∧ i.chars = Text.digitChar d :: t := by
  have hne : Text.padded 16 8 (i.toNat >>> 96) ≠ [] := by
    intro h
    have := Text.length_padded 16 8 (i.toNat >>> 96)
    simp only [h, List.length_nil] at this
    omega
  obtain ⟨c, t, h⟩ := List.exists_cons_of_ne_nil hne
  obtain ⟨d, hd, rfl⟩ := Text.exists_digitChar_of_mem_padded (by decide : 0 < 16)
    (h ▸ List.mem_cons_self : c ∈ Text.padded 16 8 (i.toNat >>> 96))
  exact ⟨d, _, hd, by rw [chars, h]; rfl⟩

theorem ofChars?_chars (i : Id kind) : ofChars? i.chars = some i := by
  obtain ⟨d, t, hd, h⟩ := chars_eq_cons i
  have hbrace : ∀ d < 16, Text.digitChar d ≠ '{' := by decide
  have hurn : ∀ d < 16, (Text.digitChar d).toLower ≠ 'u' := by decide
  have hread := takeGroups_chars i []
  rw [List.append_nil, h] at hread
  rw [h, ofChars?]
  · rw [afterUrnMark?, if_neg (by simp [hurn d hd]), hread]
    simp [ending]
  · intro cs hcs
    simp [hbrace d hd] at hcs

@[simp] theorem ofText?_text (i : Id kind) : ofText? i.text = some i := by
  simp [ofText?, text, ofChars?_chars]

end Id

end Overhaul
