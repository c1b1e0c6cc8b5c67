import Overhaul.Calendar

/-!
# Timestamps

A timestamp is an instant, counted in nanoseconds from the start of 1970 in UTC, together with the
offset of the clock that showed it. Its year on that clock lies in -9999 … 9999. Two timestamps are
compared by their instants alone. Main statements: `shift?` and `inUtc?` fail exactly when the
moved or converted time would leave those years.
-/

namespace Overhaul

/-- Nanoseconds in a second. -/
abbrev nanosPerSecond : Int := 1000000000
/-- Nanoseconds in a minute. -/
abbrev nanosPerMinute : Int := 60000000000
/-- Nanoseconds in an hour. -/
abbrev nanosPerHour : Int := 3600000000000
/-- Nanoseconds in a day. -/
abbrev nanosPerDay : Int := 86400000000000

/-- An instant and the offset of the clock that showed it. Only the offsets that RFC 3339 can write
are modelled: whole minutes, and less than a day. No clock is ahead of UTC, or behind it, by seconds
as well or by a day and more. -/
structure Timestamp where
  /-- Nanoseconds since 1970-01-01T00:00:00 UTC. -/
  unixNanos : Int
  /-- Minutes by which the clock is ahead of UTC. -/
  offset : Int
  offset_lt : -1440 < offset ∧ offset < 1440 := by decide
  /-- The clock's own year is one of -9999 … 9999. -/
  in_years : -4371587 * nanosPerDay ≤ unixNanos + offset * nanosPerMinute ∧
    unixNanos + offset * nanosPerMinute < 2932897 * nanosPerDay := by decide
  deriving DecidableEq, Repr

namespace Timestamp

/-- What the clock shows, as nanoseconds since 1970-01-01T00:00:00 on that clock. -/
def clockNanos (t : Timestamp) : Int := t.unixNanos + t.offset * nanosPerMinute

/-- The bounds in `in_years` are the first and the last day of those years. -/
theorem years_bounds : Calendar.yearStart (-9999) - Calendar.epochDay = -4371587 ∧
    Calendar.yearStart 10000 - Calendar.epochDay = 2932897 := by decide

/-- The instant on a clock with the given offset, if the clock can show it. -/
def at? (unixNanos offset : Int) : Option Timestamp :=
  if h : (-1440 < offset ∧ offset < 1440) ∧
      (-4371587 * nanosPerDay ≤ unixNanos + offset * nanosPerMinute ∧
        unixNanos + offset * nanosPerMinute < 2932897 * nanosPerDay) then
    some ⟨unixNanos, offset, h.1, h.2⟩
  else none

/-- The same clock, `nanos` later. -/
def shift? (t : Timestamp) (nanos : Int) : Option Timestamp := at? (t.unixNanos + nanos) t.offset

/-- The same instant on the clock of UTC. -/
def inUtc? (t : Timestamp) : Option Timestamp := at? t.unixNanos 0

/-- The number of the day that the clock shows. -/
def day (t : Timestamp) : Int := t.clockNanos / nanosPerDay + Calendar.epochDay

/-- The date that the clock shows. -/
def date (t : Timestamp) : Calendar.Date := Calendar.ofDay t.day

/-- Nanoseconds since the clock showed midnight. -/
def nanosOfDay (t : Timestamp) : Int := t.clockNanos % nanosPerDay

/-- The year has four digits and no sign, so that the timestamp has a written form. -/
def Writable (t : Timestamp) : Prop := 0 ≤ t.date.year

instance (t : Timestamp) : Decidable t.Writable := inferInstanceAs (Decidable (0 ≤ _))

theorem at?_eq_some_iff {n o : Int} {t : Timestamp} :
    at? n o = some t ↔ t.unixNanos = n ∧ t.offset = o := by
  constructor
  · intro h
    unfold at? at h
    split at h
    · cases h; exact ⟨rfl, rfl⟩
    · cases h
  · rintro ⟨rfl, rfl⟩
    unfold at?
    rw [dif_pos ⟨t.offset_lt, t.in_years⟩]

/-- A moved time keeps its clock. -/
theorem shift?_eq_some_iff {t u : Timestamp} {d : Int} :
    t.shift? d = some u ↔ u.unixNanos = t.unixNanos + d ∧ u.offset = t.offset :=
  at?_eq_some_iff

/-- A time can be moved exactly when its own clock can show the new time. -/
theorem shift?_isSome_iff {t : Timestamp} {d : Int} :
    (t.shift? d).isSome ↔ -4371587 * nanosPerDay ≤ t.clockNanos + d ∧
      t.clockNanos + d < 2932897 * nanosPerDay := by
  have hoff := t.offset_lt
  unfold shift? at? clockNanos
  split
  · rename_i h; simp only [Option.isSome_some, true_iff]; omega
  · rename_i h; simp only [Option.isSome_none, Bool.false_eq_true, false_iff]; omega

theorem inUtc?_eq_some_iff {t u : Timestamp} :
    t.inUtc? = some u ↔ u.unixNanos = t.unixNanos ∧ u.offset = 0 :=
  at?_eq_some_iff

/-- Equal instants shown by equal clocks are equal timestamps. -/
@[ext] theorem ext {t u : Timestamp} (h : t.unixNanos = u.unixNanos) (h' : t.offset = u.offset) :
    t = u := by
  cases t; cases u; simp_all

end Timestamp

end Overhaul
