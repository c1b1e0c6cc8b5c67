import Overhaul.Decimal.Binary64
import Overhaul.Json.Node
import Overhaul.Toml.Quoted

/-!
# Numbers and dates in TOML

A whole number has 64 bits with a sign and may be written in four bases. A floating-point number is
the one nearest to what is written. A date, a time, or both is a value of its own kind, which
readers see as a record with one field. Main definition: `takeNumber`.
-/

namespace Overhaul.Toml

/-! ### Numbers -/

/-- Digits that follow a first one, with single underscores between digits. -/
def takeMoreDigits (digit? : Char → Option Nat) : List Char → List Nat × List Char
  | '_' :: c :: cs =>
    match digit? c with
    | some d => let (ds, rest) := takeMoreDigits digit? cs; (d :: ds, rest)
    | none => ([], '_' :: c :: cs)
  | c :: cs =>
    match digit? c with
    | some d => let (ds, rest) := takeMoreDigits digit? cs; (d :: ds, rest)
    | none => ([], c :: cs)
  | [] => ([], [])

/-- At least one digit, with single underscores between digits. -/
def takeSomeDigits (digit? : Char → Option Nat) : List Char → Option (List Nat × List Char)
  | c :: cs => (digit? c).map fun d =>
    let (ds, rest) := takeMoreDigits digit? cs
    (d :: ds, rest)
  | [] => none

/-- A sign, or none: whether it is a minus. -/
def takeSign : List Char → Bool × List Char
  | '-' :: cs => (true, cs)
  | '+' :: cs => (false, cs)
  | cs => (false, cs)

/-- Decimal digits; nothing goes on after a zero in front. -/
def takeWhole : List Char → Option (List Nat × List Char)
  | '0' :: cs => some ([0], cs)
  | cs => takeSomeDigits Text.decimalDigit? cs

/-- A digit of a base up to sixteen. -/
def digitOf? (base : Nat) (c : Char) : Option Nat := (Text.hexDigit? c).filter (· < base)

/-- A whole number of 64 bits. -/
def int? (n : Int) : Option Node := if Json.fitsInt64 n then some (.num (.int n)) else none

/-- The base that the text announces, and what follows. -/
def takeBase : List Char → Option (Nat × List Char)
  | '0' :: 'x' :: cs => some (16, cs)
  | '0' :: 'o' :: cs => some (8, cs)
  | '0' :: 'b' :: cs => some (2, cs)
  | _ => none

/-- A whole number, and what follows. -/
def takeInt (cs : List Char) : Option (Node × List Char) :=
  match takeBase cs with
  | some (base, cs) => do
    let (ds, rest) ← takeSomeDigits (digitOf? base) cs
    return (← int? (ds.foldl (fun n d => n * base + d) 0 : Nat), rest)
  | none => do
    let (negative, cs) := takeSign cs
    let (ds, rest) ← takeWhole cs
    let n : Int := Text.ofDigits ds
    return (← int? (if negative then -n else n), rest)

/-- The exponent of a floating-point number, and what follows. -/
def takeExponent : List Char → Option (Int × List Char)
  | c :: cs =>
    if c = 'e' ∨ c = 'E' then do
      let (negative, cs) := takeSign cs
      let (ds, rest) ← takeSomeDigits Text.decimalDigit? cs
      let n : Int := Text.ofDigits ds
      return (if negative then -n else n, rest)
    else none
  | [] => none

/-- The places behind the point, and what follows. -/
def takePlaces : List Char → Option (List Nat × List Char)
  | '.' :: cs => takeSomeDigits Text.decimalDigit? cs
  | _ => none

/-- `digits * 10 ^ power` as the nearest floating-point number: infinite at `10 ^ 310`, and zero
below `10 ^ -330`. An infinite number is none. -/
def real? (negative : Bool) (digits : List Nat) (power : Int) : Option Binary64 :=
  let n := Text.ofDigits digits
  let magnitude : Int := (toString n).length + power
  if n = 0 ∨ magnitude < -330 then some (.zero negative)
  else if 310 < magnitude then none
  else
    let (num, den) := inUnits 10 n 1 (-power)
    Binary64.ofRatio? negative num den

/-- A floating-point number in digits, and what follows. One that is infinitely large is refused,
one that is infinitely small is not a real number. -/
def takeReal (cs : List Char) : Option (Node × List Char) := do
  let (negative, cs) := takeSign cs
  let (whole, cs) ← takeWhole cs
  let places := takePlaces cs
  let (fraction, cs) := places.getD ([], cs)
  let exponent := takeExponent cs
  let (power, cs) := exponent.getD (0, cs)
  if places.isNone && exponent.isNone then none
  match real? negative (whole ++ fraction) (power - fraction.length) with
  | some x => some (.num (.real x), cs)
  | none => if negative then some (.unreal, cs) else none

/-- A number that is infinite or not a number, and what follows. -/
def takeUnreal (cs : List Char) : Option (Node × List Char) :=
  match (takeSign cs).2 with
  | 'i' :: 'n' :: 'f' :: rest => some (.unreal, rest)
  | 'n' :: 'a' :: 'n' :: rest => some (.unreal, rest)
  | _ => none

/-! ### Dates and times -/

/-- The days of the longest month of that number in a year. -/
def daysIn (year month : Nat) : Nat :=
  if month = 2 then if year % 4 = 0 ∧ (year % 100 ≠ 0 ∨ year % 400 = 0) then 29 else 28
  else if month = 4 ∨ month = 6 ∨ month = 9 ∨ month = 11 then 30
  else 31

/-- A date as it is written, and what follows. -/
def takeDate (cs : List Char) : Option (List Char × List Char) := do
  let (year, cs) ← Text.takeDecimal 4 cs
  let cs ← Text.takeChar '-' cs
  let (month, cs) ← Text.takeDecimal 2 cs
  let cs ← Text.takeChar '-' cs
  let (day, cs) ← Text.takeDecimal 2 cs
  if 1 ≤ month ∧ month ≤ 12 ∧ 1 ≤ day ∧ day ≤ daysIn year month then
    some (Text.padded 10 4 year ++ '-' :: Text.padded 10 2 month ++ '-' :: Text.padded 10 2 day, cs)
  else none

/-- The places of a second, without zeros at the end, as far as nine count; and what follows. -/
def takeSecondPlaces : List Char → Option (List Char × List Char)
  | '.' :: cs =>
    match Text.takeDigits cs with
    | ([], _) => none
    | (ds, rest) =>
      let shown := ((ds.take 9).reverse.dropWhile (· = 0)).reverse.map Text.digitChar
      some (if shown = [] then [] else '.' :: shown, rest)
  | cs => some ([], cs)

/-- A time of day as it is written, and what follows. -/
def takeTime (cs : List Char) : Option (List Char × List Char) := do
  let (hour, cs) ← Text.takeDecimal 2 cs
  let cs ← Text.takeChar ':' cs
  let (minute, cs) ← Text.takeDecimal 2 cs
  let cs ← Text.takeChar ':' cs
  let (second, cs) ← Text.takeDecimal 2 cs
  let (places, cs) ← takeSecondPlaces cs
  if hour ≤ 23 ∧ minute ≤ 59 ∧ second ≤ 60 then
    some (Text.padded 10 2 hour ++ ':' :: Text.padded 10 2 minute ++
      ':' :: Text.padded 10 2 second ++ places, cs)
  else none

/-- An offset as it is written, if there is one, and what follows. -/
def takeOffset : List Char → Option (List Char × List Char)
  | 'Z' :: cs => some (['Z'], cs)
  | 'z' :: cs => some (['Z'], cs)
  | sign :: cs =>
    if sign = '+' ∨ sign = '-' then do
      let (hour, cs) ← Text.takeDecimal 2 cs
      let cs ← Text.takeChar ':' cs
      let (minute, cs) ← Text.takeDecimal 2 cs
      if hour ≤ 23 ∧ minute ≤ 59 then
        let sign := if hour = 0 ∧ minute = 0 then '+' else sign
        some (sign :: Text.padded 10 2 hour ++ ':' :: Text.padded 10 2 minute, cs)
      else none
    else some ([], sign :: cs)
  | [] => some ([], [])

/-- A date, which a time and an offset may follow; and what follows it. -/
def takeDateTime (cs : List Char) : Option (List Char × List Char) := do
  let (date, cs) ← takeDate cs
  match cs with
  | separator :: after =>
    if separator = 'T' ∨ separator = 't' ∨ separator = ' ' then
      match takeTime after with
      | none => some (date, cs)
      | some (time, cs) => do
        let (offset, cs) ← takeOffset cs
        some (date ++ 'T' :: time ++ offset, cs)
    else some (date, cs)
  | [] => some (date, cs)

/-- The record that stands for a date or time. -/
def moment (written : List Char) : Node :=
  .record [("$__toml_private_datetime", .str (String.ofList written))]

/-- A number, date or time, and what follows. -/
def takeNumber (cs : List Char) : Option (Node × List Char) :=
  (takeDateTime cs).map (fun (m, rest) => (moment m, rest)) <|>
    (takeTime cs).map (fun (m, rest) => (moment m, rest)) <|>
    takeReal cs <|> takeUnreal cs <|> takeInt cs

end Overhaul.Toml
