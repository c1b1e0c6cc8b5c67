import Overhaul.Decimal.Shortest
import Overhaul.Text.Digits

/-!
# Numbers in JSON

A number is a whole number of 64 bits, with or without a sign, or a floating-point number. A literal
with a point or an exponent, one that has too many digits, and minus zero are floating-point
numbers. They are read quickly rather than exactly: of the digits as many count as fit in 64 bits,
and the power of ten is multiplied or divided in afterwards, which rounds once more.
-/

namespace Overhaul.Json

/-- A number that JSON can hold. -/
inductive Number
  | int (n : Int)
  | real (x : Binary64)
  deriving DecidableEq, Repr

/-- The number is one of 64 bits with a sign. -/
def fitsInt64 (n : Int) : Bool := Int64.minValue.toInt ≤ n ∧ n ≤ Int64.maxValue.toInt

/-- The parts of a number literal: digits before the point, after it and of the exponent. -/
structure Literal where
  negative : Bool
  whole : List Nat
  fraction : Option (List Nat)
  exponent : Option (Bool × List Nat)
  deriving DecidableEq, Repr

/-- The digits in front of the text, at least one, and what follows. -/
def takeSomeDigits? (cs : List Char) : Option (List Nat × List Char) :=
  match Text.takeDigits cs with
  | ([], _) => none
  | r => some r

namespace Literal

/-- An optional point and digits. -/
def takeFraction? : List Char → Option (Option (List Nat) × List Char)
  | '.' :: cs => (takeSomeDigits? cs).map fun (ds, rest) => (some ds, rest)
  | cs => some (none, cs)

/-- An optional exponent: whether it is negative, and its digits. -/
def takeExponent? : List Char → Option (Option (Bool × List Nat) × List Char)
  | c :: cs =>
    if c = 'e' ∨ c = 'E' then
      let (negative, cs) := match cs with
        | '+' :: cs => (false, cs)
        | '-' :: cs => (true, cs)
        | cs => (false, cs)
      (takeSomeDigits? cs).map fun (ds, rest) => (some (negative, ds), rest)
    else some (none, c :: cs)
  | [] => some (none, [])

/-- The literal that the characters spell: no zero stands in front of another digit. -/
def ofChars? (cs : List Char) : Option Literal := do
  let (negative, cs) := match cs with
    | '-' :: cs => (true, cs)
    | cs => (false, cs)
  let (whole, cs) ← takeSomeDigits? cs
  if whole.head? = some 0 ∧ whole.length ≠ 1 then none
  let (fraction, cs) ← takeFraction? cs
  let (exponent, cs) ← takeExponent? cs
  if cs = [] then some ⟨negative, whole, fraction, exponent⟩ else none

/-- Digits put behind a significand for as long as it fits in 64 bits, and how many were. -/
def absorb (significand : Nat) : (digits : List Nat) → (taken : Nat) → Nat × Nat
  | [], taken => (significand, taken)
  | d :: ds, taken =>
    if significand * 10 + d < UInt64.size then absorb (significand * 10 + d) ds (taken + 1)
    else (significand, taken)

/-- The floating-point number nearest to a power of ten up to `10 ^ 308`. -/
def powerOfTen (n : Nat) : Option Binary64 :=
  let (num, den) := inUnits 10 1 1 (-n)
  Binary64.ofRatio? false num den

/-- `x * 10 ^ power`, in steps of at most `10 ^ 308`; none when it is infinite. -/
def timesPower (x : Binary64) (power : Int) : (steps : Nat) → Option Binary64
  | 0 => some x
  | steps + 1 =>
    if power.natAbs ≤ 308 then do
      let p ← powerOfTen power.natAbs
      if 0 ≤ power then x.mul? p else x.div? p
    else if x.rank.val = 0 then some x
    else if 0 ≤ power then none
    else do
      let p ← powerOfTen 308
      timesPower (← x.div? p) (power + 308) steps

/-- `significand * 10 ^ power` with a sign; none when it is infinite. Once the power is below
`-2 ^ 10`, a few steps make any significand zero. -/
def realOf (negative : Bool) (significand : Nat) (power : Int) : Option Number := do
  let x ← Binary64.ofRatio? false significand 1
  let x ← timesPower x power 8
  return .real { x with negative }

/-- The value of the exponent; none when it does not fit in 32 bits with a sign. -/
def exponentOf? (digits : List Nat) : Option Nat :=
  let n := Text.ofDigits digits
  if n ≤ Int32.maxValue.toInt then some n else none

/-- The number that the literal stands for; none when it is too large for floating point. -/
def value? (l : Literal) : Option Number :=
  let (significand, taken) := absorb 0 l.whole 0
  let dropped := l.whole.length - taken
  if l.fraction = none ∧ l.exponent = none ∧ dropped = 0 ∧
      (l.negative → 0 < significand ∧ fitsInt64 (-significand)) then
    some (.int (if l.negative then -significand else significand))
  else
    let (significand, places) := absorb significand (l.fraction.getD []) 0
    let power : Int := dropped - places
    match l.exponent with
    | none => realOf l.negative significand power
    | some (negative, digits) =>
      match exponentOf? digits with
      | some e => realOf l.negative significand (if negative then power - e else power + e)
      | none =>
        if significand ≠ 0 ∧ !negative then none else some (.real (Binary64.zero l.negative))

end Literal

/-- An exponent always has a sign, and no zeros in front. -/
def exponentChars (n : Int) : List Char :=
  'e' :: (if 0 ≤ n then '+' else '-') :: (toString n.natAbs).toList

/-- Which powers of ten are written with a point alone, and how the others are. A magnitude is
written with a point when its first digit stands at one of the places `-5 … 15`. -/
def realChars (x : Binary64) : List Char :=
  let sign := if x.negative then ['-'] else []
  if x.rank.val = 0 then sign ++ ['0', '.', '0']
  else
    let s := Decimal.shortest x
    let digits := s.digits.repr.toList
    let point : Int := digits.length + s.power
    sign ++
      if 0 ≤ s.power ∧ point ≤ 16 then digits ++ List.replicate s.power.toNat '0' ++ ['.', '0']
      else if 0 < point ∧ point ≤ 16 then
        digits.take point.toNat ++ '.' :: digits.drop point.toNat
      else if -5 < point ∧ point ≤ 0 then
        '0' :: '.' :: List.replicate (-point).toNat '0' ++ digits
      else
        digits.take 1 ++ (if digits.length = 1 then [] else '.' :: digits.drop 1) ++
          exponentChars (point - 1)

/-- The written number. -/
def Number.chars : Number → List Char
  | .int n => (toString n).toList
  | .real x => realChars x

end Overhaul.Json
