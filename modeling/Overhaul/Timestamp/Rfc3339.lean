import Overhaul.Text.Digits
import Overhaul.Timestamp

/-!
# Written timestamps

A timestamp is written as RFC 3339 lays down: date, `T`, time of day with as many places of a second
as are needed, and `Z` or the offset. Reading takes any one ASCII character between date and time,
any number of places of which nine count, and a leap second at the end of a month in UTC, which
stands for the last nanosecond before it. `plain` is a second, wordier form that every timestamp
has.
-/

namespace Overhaul.Timestamp

/-- The first nine digits of a fraction, as nanoseconds. -/
def nanosOfFraction (digits : List Nat) : Nat :=
  Text.ofDigits ((digits ++ List.replicate 9 0).take 9)

/-- The places after the second as nanoseconds, and what follows; a point needs a digit after it. -/
def takeFraction (cs : List Char) : Option (Nat × List Char) :=
  match cs with
  | '.' :: cs =>
    match Text.takeDigits cs with
    | ([], _) => none
    | (digits, rest) => some (nanosOfFraction digits, rest)
  | cs => some (0, cs)

/-- The offset at the end of the text, in minutes. -/
def readOffset (cs : List Char) : Option Int :=
  match cs with
  | ['Z'] => some 0
  | ['z'] => some 0
  | sign :: cs => do
    let factor ← if sign = '+' then some 1 else if sign = '-' then some (-1) else none
    let (hours, cs) ← Text.takeDecimal 2 cs
    let cs ← Text.takeChar ':' cs
    let (minutes, cs) ← Text.takeDecimal 2 cs
    if hours ≤ 23 ∧ minutes ≤ 59 ∧ cs = [] then some (factor * (hours * 60 + minutes)) else none
  | [] => none

/-- The last second of a month in UTC, which a leap second may follow. -/
def endsMonthInUtc (t : Timestamp) : Bool :=
  match t.inUtc? with
  | some u =>
    u.nanosOfDay / nanosPerSecond = 86399 ∧
      u.date.day = Calendar.daysInMonth u.date.year u.date.month
  | none => false

/-- The timestamp with the given date, time of day and offset, if there is such a time. -/
def ofParts? (date : Calendar.Date) (hour minute second nanos : Nat) (offset : Int) :
    Option Timestamp :=
  let leap := second = 60
  let (second, nanos) := if leap then (59, 999999999) else (second, nanos)
  if date.Valid ∧ hour ≤ 23 ∧ minute ≤ 59 ∧ second ≤ 59 then
    let clock : Int := (date.number - Calendar.epochDay) * nanosPerDay +
      ((hour * 60 + minute) * 60 + second : Nat) * nanosPerSecond + nanos
    match at? (clock - offset * nanosPerMinute) offset with
    | some t => if leap ∧ !endsMonthInUtc t then none else some t
    | none => none
  else none

/-- The timestamp that the characters spell. -/
def ofChars? (cs : List Char) : Option Timestamp := do
  let (year, cs) ← Text.takeDecimal 4 cs
  let cs ← Text.takeChar '-' cs
  let (month, cs) ← Text.takeDecimal 2 cs
  let cs ← Text.takeChar '-' cs
  let (day, cs) ← Text.takeDecimal 2 cs
  let cs ← match cs with
    | separator :: cs => if separator.toNat < 128 then some cs else none
    | [] => none
  let (hour, cs) ← Text.takeDecimal 2 cs
  let cs ← Text.takeChar ':' cs
  let (minute, cs) ← Text.takeDecimal 2 cs
  let cs ← Text.takeChar ':' cs
  let (second, cs) ← Text.takeDecimal 2 cs
  let (nanos, cs) ← takeFraction cs
  let offset ← readOffset cs
  ofParts? ⟨year, month, day⟩ hour minute second nanos offset

/-- The timestamp that the text spells. -/
def ofText? (s : String) : Option Timestamp := ofChars? s.toList

/-- The digits of a fraction of a second, without zeros at the end. -/
def fractionDigits (nanos : Nat) : List Char :=
  ((Text.padded 10 9 nanos).reverse.dropWhile (· = '0')).reverse

/-- The written offset. -/
def offsetChars (offset : Int) : List Char :=
  if offset = 0 then ['Z']
  else
    (if offset < 0 then '-' else '+') ::
      (Text.padded 10 2 (offset.natAbs / 60) ++ ':' :: Text.padded 10 2 (offset.natAbs % 60))

/-- The written timestamp: none before the year 0. -/
def chars? (t : Timestamp) : Option (List Char) :=
  if t.Writable then
    let d := t.date
    let ns := t.nanosOfDay.toNat
    let seconds := ns / 1000000000
    let fraction := fractionDigits (ns % 1000000000)
    some <| Text.padded 10 4 d.year.toNat ++ '-' :: Text.padded 10 2 d.month ++
      '-' :: Text.padded 10 2 d.day ++ 'T' :: Text.padded 10 2 (seconds / 3600) ++
      ':' :: Text.padded 10 2 (seconds / 60 % 60) ++ ':' :: Text.padded 10 2 (seconds % 60) ++
      (if fraction = [] then [] else '.' :: fraction) ++ offsetChars t.offset
  else none

/-- The written timestamp: none before the year 0. -/
def text? (t : Timestamp) : Option String := t.chars?.map String.ofList

/-- A form that every timestamp has: date, hour without padding, at least one place of a second, and
the offset down to seconds. -/
def plain (t : Timestamp) : String :=
  let d := t.date
  let ns := t.nanosOfDay.toNat
  let seconds := ns / 1000000000
  let fraction := fractionDigits (ns % 1000000000)
  String.ofList <|
    (if d.year < 0 then ['-'] else []) ++ Text.padded 10 4 d.year.natAbs ++
    '-' :: Text.padded 10 2 d.month ++ '-' :: Text.padded 10 2 d.day ++
    ' ' :: (toString (seconds / 3600)).toList ++ ':' :: Text.padded 10 2 (seconds / 60 % 60) ++
    ':' :: Text.padded 10 2 (seconds % 60) ++ '.' :: (if fraction = [] then ['0'] else fraction) ++
    ' ' :: (if t.offset < 0 then '-' else '+') :: Text.padded 10 2 (t.offset.natAbs / 60) ++
    ':' :: Text.padded 10 2 (t.offset.natAbs % 60) ++ [':', '0', '0']

/-- The written form where there is one, else the plain form. -/
def shown (t : Timestamp) : String := t.text?.getD t.plain

end Overhaul.Timestamp
