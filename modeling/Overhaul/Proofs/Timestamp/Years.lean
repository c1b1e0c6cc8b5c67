import Mathlib.Order.Monotone.Basic
import Overhaul.Timestamp

/-!
# The years that clocks show

A clock can show an instant when the instant falls into one of the years -9999 … 9999 on that clock,
which depends on the offset of the clock. Main statements: a year has begun by a day when the day lies
in that year or a later one (`Calendar.yearStart_le_iff`); a time can be moved, or converted to UTC,
exactly when it does not leave those years (`Timestamp.shift?_isSome_iff_showable`,
`Timestamp.inUtc?_isSome_iff`); and a time that has a written form can only leave them at their end
(`Timestamp.inUtc?_eq_none_iff_of_writable`).
-/

namespace Overhaul

namespace Calendar

theorem yearStart_zero : yearStart 0 = 0 := by decide

theorem yearStart_lt {year later : Int} (h : year < later) : yearStart year < yearStart later := by
  have hmono : StrictMono yearStart := by
    refine strictMono_int_of_lt_succ fun year => ?_
    have hlength := yearStart_succ year
    split at hlength <;> omega
  exact hmono h

theorem yearStart_le {year later : Int} (h : year ≤ later) : yearStart year ≤ yearStart later := by
  obtain rfl | hlt := h.eq_or_lt
  · exact le_rfl
  · exact (yearStart_lt hlt).le

/-- A year has begun by a day when the day lies in that year or a later one. -/
theorem yearStart_le_iff {year day : Int} : yearStart year ≤ day ↔ year ≤ yearOf day := by
  obtain ⟨hfirst, hnext⟩ := yearStart_le_yearOf day
  constructor
  · intro h
    by_contra hlate
    have hle : yearStart (yearOf day + 1) ≤ yearStart year := yearStart_le (by omega)
    omega
  · intro h
    exact (yearStart_le h).trans hfirst

theorem yearOf_le {day later : Int} (h : day ≤ later) : yearOf day ≤ yearOf later :=
  yearStart_le_iff.mp ((yearStart_le_yearOf day).1.trans h)

end Calendar

namespace Timestamp

/-- The year into which an instant falls on a clock with the given offset. -/
def yearOn (unixNanos offset : Int) : Int :=
  Calendar.yearOf ((unixNanos + offset * nanosPerMinute) / nanosPerDay + Calendar.epochDay)

theorem yearOn_mono {n n' : Int} (h : n ≤ n') (offset : Int) : yearOn n offset ≤ yearOn n' offset :=
  Calendar.yearOf_le (by simp only [nanosPerDay]; omega)

/-- A clock with the given offset can show the instant. -/
def Showable (unixNanos offset : Int) : Prop :=
  -9999 ≤ yearOn unixNanos offset ∧ yearOn unixNanos offset ≤ 9999

theorem showable_iff {n o : Int} : Showable n o ↔
    -4371587 * nanosPerDay ≤ n + o * nanosPerMinute ∧
      n + o * nanosPerMinute < 2932897 * nanosPerDay := by
  have hfirst : Calendar.yearStart (-9999) ≤ _ ↔ -9999 ≤ yearOn n o := Calendar.yearStart_le_iff
  have hlast : Calendar.yearStart 10000 ≤ _ ↔ 10000 ≤ yearOn n o := Calendar.yearStart_le_iff
  have hyears := years_bounds
  simp only [Showable, nanosPerDay, nanosPerMinute] at *
  omega

theorem at?_isSome_iff {n o : Int} (ho : -1440 < o ∧ o < 1440) : (at? n o).isSome ↔ Showable n o := by
  rw [showable_iff, at?]
  split
  · rename_i h
    simpa using h.2
  · rename_i h
    simpa [ho] using h

/-- A time can be moved exactly when its own clock can show the new time. -/
theorem shift?_isSome_iff_showable {t : Timestamp} {nanos : Int} :
    (t.shift? nanos).isSome ↔ Showable (t.unixNanos + nanos) t.offset :=
  at?_isSome_iff t.offset_lt

theorem offset_lt_zero : -1440 < (0 : Int) ∧ (0 : Int) < 1440 := by decide

/-- A time can be converted to UTC exactly when a clock of UTC can show it. -/
theorem inUtc?_isSome_iff {t : Timestamp} : t.inUtc?.isSome ↔ Showable t.unixNanos 0 :=
  at?_isSome_iff offset_lt_zero

/-- A time of the year 0 or later on its own clock is not before the years that UTC can show. -/
theorem inUtc?_eq_none_iff_of_writable {t : Timestamp} (h : t.Writable) :
    t.inUtc? = none ↔ 9999 < yearOn t.unixNanos 0 := by
  have hyear : Calendar.yearStart 0 ≤ t.day := Calendar.yearStart_le_iff.mpr h
  have hfirst : -9999 ≤ yearOn t.unixNanos 0 := by
    refine Calendar.yearStart_le_iff.mp ?_
    have hyears := years_bounds.1
    have hoffset := t.offset_lt
    rw [Calendar.yearStart_zero] at hyear
    simp only [day, clockNanos, nanosPerMinute, nanosPerDay, Calendar.epochDay] at *
    omega
  rw [← Option.not_isSome_iff_eq_none, inUtc?_isSome_iff, Showable]
  omega

end Timestamp

end Overhaul
