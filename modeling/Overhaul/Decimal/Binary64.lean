/-!
# Finite binary floating-point numbers

A number of the format binary64 of IEEE 754, other than the infinities and NaN, is a sign and a
position in the list of magnitudes. Arithmetic is done on exact fractions and rounded once, to the
nearest magnitude and to the even one of two that are equally near.
-/

-- powers of natural numbers are those of the core library, also where others are in scope
attribute [local instance (high)] instPowNat

namespace Overhaul

/-- `num / den` in units of `base ^ power`. -/
def inUnits (base num den : Nat) (power : Int) : Nat × Nat :=
  if 0 ≤ power then (num, den * base ^ power.toNat) else (num * base ^ (-power).toNat, den)

/-- The leading bit of a significand, which the format leaves out. -/
def implicitBit : Nat := 1 <<< 52

/-- A finite number of the format binary64. -/
structure Binary64 where
  negative : Bool
  /-- Position among the magnitudes, zero first. -/
  rank : Fin (2047 * implicitBit)
  deriving DecidableEq, Repr

namespace Binary64

/-- The magnitude is `significand * 2 ^ exponent`. -/
def exponent (x : Binary64) : Int :=
  if x.rank.val < implicitBit then -1074 else (x.rank.val / implicitBit : Nat) - 1075

/-- The magnitude is `significand * 2 ^ exponent`. -/
def significand (x : Binary64) : Nat :=
  if x.rank.val < implicitBit then x.rank.val else x.rank.val % implicitBit + implicitBit

/-- A quotient rounded to the nearest whole number, to the even one of two. -/
def nearest (num den : Nat) : Nat :=
  let q := num / den
  let r := num % den
  if 2 * r < den then q else if den < 2 * r then q + 1 else q + q % 2

/-- The position of the magnitude nearest to a fraction; it may lie past the finite ones. -/
def rankOf (num den : Nat) : Nat :=
  if num = 0 then 0
  else
    let guess : Int := max ((num.log2 : Int) - den.log2 - 53) (-1074)
    let (n, d) := inUnits 2 num den guess
    let exponent := if 2 * implicitBit ≤ n / d then guess + 1 else guess
    let (n, d) := inUnits 2 num den exponent
    (exponent + 1074).toNat * implicitBit + nearest n d

/-- The number with the sign nearest to a fraction, unless that is infinite. -/
def ofRatio? (negative : Bool) (num den : Nat) : Option Binary64 :=
  if h : rankOf num den < 2047 * implicitBit then some ⟨negative, ⟨rankOf num den, h⟩⟩ else none

/-- Zero with a sign. -/
def zero (negative : Bool) : Binary64 := ⟨negative, ⟨0, by decide⟩⟩

/-- The magnitude as an exact fraction. -/
def ratio (x : Binary64) : Nat × Nat := inUnits 2 x.significand 1 (-x.exponent)

/-- The product, unless it is infinite. -/
def mul? (x y : Binary64) : Option Binary64 :=
  let (a, b) := x.ratio
  let (c, d) := y.ratio
  ofRatio? (x.negative != y.negative) (a * c) (b * d)

/-- The quotient by a number other than zero, unless it is infinite. -/
def div? (x y : Binary64) : Option Binary64 :=
  let (a, b) := x.ratio
  let (c, d) := y.ratio
  ofRatio? (x.negative != y.negative) (a * d) (b * c)

end Binary64

end Overhaul
