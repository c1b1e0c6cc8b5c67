import Overhaul.Decimal.Binary64

/-!
# The shortest decimal of a floating-point number

Of the decimals that round to a magnitude, `shortest` has the fewest digits, and of those it is the
nearest. It is found on the grids of one, two, … digits: the first grid with a point between the
bounds of the numbers that round to the magnitude has the answer.
-/

namespace Overhaul.Decimal

/-- A number of digits at a power of ten. -/
structure Scientific where
  digits : Nat
  power : Int
  deriving DecidableEq, Repr

/-- One less than the count of digits before the point, at most one too small. -/
def magnitude (n d : Nat) : Int :=
  if d ≤ n then ((n / d).repr.length : Int) - 1 else -((d / n).repr.length : Int)

/-- The bounds of the numbers that round to `x`, and `x` itself, over four times its denominator;
whether the bounds themselves round to `x`. -/
def bounds (x : Binary64) : Nat × Nat × Nat × Nat × Bool :=
  let m := x.significand
  let narrow := m = implicitBit ∧ -1074 < x.exponent
  let (k, den) := inUnits 2 1 4 (-x.exponent)
  ((4 * m - if narrow then 1 else 2) * k, 4 * m * k, (4 * m + 2) * k, den, m % 2 = 0)

/-- The point of the grid of `10 ^ power` that rounds to `x` and is nearest to it. -/
def onGrid? (x : Binary64) (power : Int) : Option Nat :=
  let (low, mid, high, den, closed) := bounds x
  let inside (p : Nat) : Bool :=
    let (l, dl) := inUnits 10 low den power
    let (h, dh) := inUnits 10 high den power
    if closed then l ≤ p * dl && p * dh ≤ h else l < p * dl && p * dh < h
  let (v, d) := inUnits 10 mid den power
  let below := v / d
  let above := below + 1
  match inside below, inside above with
  | true, true =>
    let r := v % d
    if 2 * r < d then some below else if d < 2 * r then some above else some (below + below % 2)
  | true, false => some below
  | false, true => some above
  | false, false => none

/-- The first of the grids of ever more digits with a point that rounds to `x`. -/
def search (x : Binary64) (power : Int) : (grids : Nat) → Scientific
  | 0 => ⟨(onGrid? x power).getD 0, power⟩
  | grids + 1 =>
    match onGrid? x power with
    | some p => ⟨p, power⟩
    | none => search x (power - 1) grids

/-- Zeros at the end moved into the power; `places` bounds their count. -/
def withoutZeros (s : Scientific) : (places : Nat) → Scientific
  | 0 => s
  | places + 1 =>
    if s.digits % 10 = 0 ∧ s.digits ≠ 0 then withoutZeros ⟨s.digits / 10, s.power + 1⟩ places else s

/-- The shortest decimal that rounds to a magnitude other than zero. -/
def shortest (x : Binary64) : Scientific :=
  let (n, d) := x.ratio
  withoutZeros (search x (magnitude n d) 20) 20

end Overhaul.Decimal
