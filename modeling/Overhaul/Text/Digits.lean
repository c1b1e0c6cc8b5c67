/-!
# Digits

Reading and writing of numbers in a fixed count of decimal or hexadecimal digits. Main statements:
`takeNumber` reads back what `padded` wrote, and the digits that it wrote have that value.
-/

-- powers of natural numbers are those of the core library, also where others are in scope
attribute [local instance (high)] instPowNat

namespace Overhaul.Text

/-- The value of a decimal digit. -/
def decimalDigit? (c : Char) : Option Nat :=
  if '0' ≤ c ∧ c ≤ '9' then some (c.toNat - 48) else none

/-- The value of a hexadecimal digit of either case. -/
def hexDigit? (c : Char) : Option Nat :=
  if '0' ≤ c ∧ c ≤ '9' then some (c.toNat - 48)
  else if 'a' ≤ c ∧ c ≤ 'f' then some (c.toNat - 87)
  else if 'A' ≤ c ∧ c ≤ 'F' then some (c.toNat - 55)
  else none

/-- The lower-case digit of a value below sixteen. -/
def digitChar (n : Nat) : Char :=
  if n < 10 then Char.ofNat (48 + n) else Char.ofNat (87 + n)

/-- The last `width` digits of `n` in base `base`, most significant first. -/
def padded (base : Nat) : (width : Nat) → (n : Nat) → List Char
  | 0, _ => []
  | width + 1, n => padded base width (n / base) ++ [digitChar (n % base)]

/-- Exactly `count` digits in front of the text, as a number on top of `acc`, and what follows. -/
def takeNumber (base : Nat) (digit? : Char → Option Nat) :
    (count : Nat) → List Char → (acc : Nat) → Option (Nat × List Char)
  | 0, cs, acc => some (acc, cs)
  | _ + 1, [], _ => none
  | count + 1, c :: cs, acc =>
    match digit? c with
    | some d => takeNumber base digit? count cs (acc * base + d)
    | none => none

/-- Exactly `count` decimal digits and what follows. -/
def takeDecimal (count : Nat) (cs : List Char) : Option (Nat × List Char) :=
  takeNumber 10 decimalDigit? count cs 0

/-- Exactly `count` hexadecimal digits and what follows. -/
def takeHex (count : Nat) (cs : List Char) : Option (Nat × List Char) :=
  takeNumber 16 hexDigit? count cs 0

/-- The decimal digits in front of the text, however many, and what follows. -/
def takeDigits : List Char → List Nat × List Char
  | [] => ([], [])
  | c :: cs =>
    match decimalDigit? c with
    | some d => let (ds, rest) := takeDigits cs; (d :: ds, rest)
    | none => ([], c :: cs)

/-- The number with the given decimal digits. -/
def ofDigits (digits : List Nat) : Nat := digits.foldl (fun n d => n * 10 + d) 0

/-- What follows the character `c` in front of the text. -/
def takeChar (c : Char) : List Char → Option (List Char)
  | [] => none
  | d :: cs => if d = c then some cs else none

@[simp] theorem length_padded (base width n : Nat) : (padded base width n).length = width := by
  induction width generalizing n with
  | zero => rfl
  | succ width ih => simp [padded, ih]

theorem exists_digitChar_of_mem_padded {base width n : Nat} (hbase : 0 < base) {c : Char}
    (h : c ∈ padded base width n) : ∃ d, d < base ∧ c = digitChar d := by
  induction width generalizing n with
  | zero => simp [padded] at h
  | succ width ih =>
    simp only [padded, List.mem_append, List.mem_singleton] at h
    rcases h with h | rfl
    · exact ih h
    · exact ⟨n % base, Nat.mod_lt _ hbase, rfl⟩

theorem decimalDigit?_digitChar {n : Nat} (h : n < 10) : decimalDigit? (digitChar n) = some n := by
  revert n; decide

theorem hexDigit?_digitChar {n : Nat} (h : n < 16) : hexDigit? (digitChar n) = some n := by
  revert n; decide

/-- Reading starts with the more significant digits. -/
theorem takeNumber_append {base : Nat} {digit? : Char → Option Nat} (c₁ c₂ : Nat)
    (cs rest : List Char) (acc mid : Nat)
    (h : takeNumber base digit? c₁ cs acc = some (mid, rest)) :
    takeNumber base digit? (c₁ + c₂) cs acc = takeNumber base digit? c₂ rest mid := by
  induction c₁ generalizing cs acc with
  | zero => simp only [takeNumber, Option.some.injEq, Prod.mk.injEq] at h; simp [h.1, h.2]
  | succ c₁ ih =>
    cases cs with
    | nil => simp [takeNumber] at h
    | cons c cs =>
      rw [Nat.succ_add_eq_add_succ, Nat.add_succ]
      simp only [takeNumber] at h ⊢
      cases hd : digit? c with
      | none => simp [hd] at h
      | some d => simp only [hd] at h ⊢; exact ih _ _ h

/-- Written digits are read back, whatever follows them. -/
theorem takeNumber_padded {base : Nat} {digit? : Char → Option Nat} (hbase : 0 < base)
    (hdigit : ∀ n, n < base → digit? (digitChar n) = some n) (width n acc : Nat)
    (h : n < base ^ width) (rest : List Char) :
    takeNumber base digit? width (padded base width n ++ rest) acc
      = some (acc * base ^ width + n, rest) := by
  induction width generalizing n rest with
  | zero => simp only [Nat.pow_zero] at h; simp [padded, takeNumber]; omega
  | succ width ih =>
    have hdiv : n / base < base ^ width := Nat.div_lt_of_lt_mul (by rwa [Nat.pow_succ'] at h)
    simp only [padded, List.append_assoc, List.cons_append, List.nil_append]
    rw [takeNumber_append _ 1 _ _ _ _ (ih _ hdiv _)]
    simp only [takeNumber, hdigit _ (Nat.mod_lt _ hbase), Option.some.injEq, Prod.mk.injEq,
      and_true]
    rw [Nat.add_mul, Nat.pow_succ, Nat.mul_assoc, Nat.add_assoc]
    congr 1
    rw [Nat.mul_comm]
    exact Nat.div_add_mod n base

theorem takeDecimal_padded (width n : Nat) (h : n < 10 ^ width) (rest : List Char) :
    takeDecimal width (padded 10 width n ++ rest) = some (n, rest) := by
  simpa [takeDecimal] using
    takeNumber_padded (by decide) (fun _ h => decimalDigit?_digitChar h) width n 0 h rest

theorem takeHex_padded (width n : Nat) (h : n < 16 ^ width) (rest : List Char) :
    takeHex width (padded 16 width n ++ rest) = some (n, rest) := by
  simpa [takeHex] using
    takeNumber_padded (by decide) (fun _ h => hexDigit?_digitChar h) width n 0 h rest

@[simp] theorem takeChar_cons (c : Char) (cs : List Char) : takeChar c (c :: cs) = some cs := by
  simp [takeChar]

/-- The value of a decimal digit; no other character counts. -/
def digitValue (c : Char) : Nat := (decimalDigit? c).getD 0

theorem digitValue_digitChar {n : Nat} (h : n < 10) : digitValue (digitChar n) = n := by
  simp [digitValue, decimalDigit?_digitChar h]

/-- Digits are taken up to the first character that is none. -/
theorem takeDigits_append {cs rest : List Char} (hcs : ∀ c ∈ cs, ∃ d, decimalDigit? c = some d)
    (hrest : ∀ c ∈ rest.head?, decimalDigit? c = none) :
    takeDigits (cs ++ rest) = (cs.map digitValue, rest) := by
  induction cs with
  | nil =>
      cases rest with
      | nil => rfl
      | cons c rest => simp [takeDigits, hrest c rfl]
  | cons c cs ih =>
      obtain ⟨⟨d, hd⟩, hcs⟩ := List.forall_mem_cons.mp hcs
      simp [takeDigits, hd, ih hcs, digitValue]

/-- Written digits have the value of the number that was written. -/
theorem ofDigits_padded (width n : Nat) (h : n < 10 ^ width) :
    ofDigits ((padded 10 width n).map digitValue) = n := by
  induction width generalizing n with
  | zero => simp_all [padded, ofDigits]
  | succ width ih =>
      have hdiv : n / 10 < 10 ^ width := Nat.div_lt_of_lt_mul (by rwa [Nat.pow_succ'] at h)
      have hmod := digitValue_digitChar (Nat.mod_lt n (by decide : 0 < 10))
      have hlast : ∀ ds d, ofDigits (ds ++ [d]) = ofDigits ds * 10 + d := by simp [ofDigits]
      simp only [padded, List.map_append, List.map_cons, List.map_nil, hlast, ih _ hdiv, hmod]
      omega

end Overhaul.Text
