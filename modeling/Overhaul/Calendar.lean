/-!
# The proleptic Gregorian calendar

Days are numbered from 0000-01-01. A year begins at `yearStart`; `ofDay` finds the date of a day and
`Date.day` its number. Main statements: the day found lies in the year found, and the number of the
date of a day is that day again.
-/

namespace Overhaul.Calendar

/-- Every fourth year, save the hundredths that are not four-hundredths. -/
def isLeap (year : Int) : Bool :=
  year % 4 = 0 ∧ (year % 100 ≠ 0 ∨ year % 400 = 0)

/-- The lengths of the twelve months. -/
def monthLengths (leap : Bool) : List Nat :=
  [31, if leap then 29 else 28, 31, 30, 31, 30, 31, 31, 30, 31, 30, 31]

/-- The length of one month, its number starting at one. -/
def daysInMonth (year : Int) (month : Nat) : Nat :=
  (monthLengths (isLeap year))[month - 1]?.getD 0

/-- The number of the first day of a year. -/
def yearStart (year : Int) : Int :=
  365 * year + (year + 3) / 4 - (year + 99) / 100 + (year + 399) / 400

/-- The year that a day lies in: the mean length of a year gives it up to one. -/
def yearOf (day : Int) : Int :=
  let guess := day * 400 / 146097
  if day < yearStart guess then guess - 1
  else if yearStart (guess + 1) ≤ day then guess + 1
  else guess

/-- The days of successive spans together. -/
def days : (lengths : List Nat) → Nat
  | [] => 0
  | len :: rest => len + days rest

/-- A day counted from zero, in successive spans of days: which span, counted from one, and which
day of it, counted from one. -/
def split : (lengths : List Nat) → (day : Nat) → Nat × Nat
  | [], day => (1, day + 1)
  | len :: rest, day =>
    if day < len then (1, day + 1)
    else
      let (span, d) := split rest (day - len)
      (span + 1, d)

/-- A date of the calendar. -/
structure Date where
  year : Int
  month : Nat
  day : Nat
  deriving DecidableEq, Repr

/-- The month and the day exist. -/
def Date.Valid (d : Date) : Prop :=
  1 ≤ d.month ∧ d.month ≤ 12 ∧ 1 ≤ d.day ∧ d.day ≤ daysInMonth d.year d.month

instance (d : Date) : Decidable d.Valid := inferInstanceAs (Decidable (_ ∧ _ ∧ _ ∧ _))

/-- The number of a date. -/
def Date.number (d : Date) : Int :=
  yearStart d.year + days ((monthLengths (isLeap d.year)).take (d.month - 1)) + d.day - 1

/-- The date of a day. -/
def ofDay (day : Int) : Date :=
  let year := yearOf day
  let (month, d) := split (monthLengths (isLeap year)) (day - yearStart year).toNat
  ⟨year, month, d⟩

/-- The number of 1970-01-01, the day from which instants are counted. -/
def epochDay : Int := 719528

/-- A year starts within two days of where the mean length of a year puts it. -/
theorem yearStart_bounds (year : Int) :
    146097 * year - 400 ≤ 400 * yearStart year ∧ 400 * yearStart year ≤ 146097 * year + 700 := by
  obtain ⟨q, c, e, f, rfl, h⟩ : ∃ q c e f : Int, year = 400 * q + 100 * c + 4 * e + f ∧
      0 ≤ c ∧ c < 4 ∧ 0 ≤ e ∧ e < 25 ∧ 0 ≤ f ∧ f < 4 :=
    ⟨year / 400, year % 400 / 100, year % 100 / 4, year % 4, by omega, by omega, by omega,
      by omega, by omega, by omega, by omega⟩
  have h4 : (400 * q + 100 * c + 4 * e + f + 3) / 4 = 100 * q + 25 * c + e + (f + 3) / 4 := by
    omega
  have h100 : (400 * q + 100 * c + 4 * e + f + 99) / 100 = 4 * q + c + (4 * e + f + 99) / 100 := by
    omega
  have h400 : (400 * q + 100 * c + 4 * e + f + 399) / 400 =
      q + (100 * c + 4 * e + f + 399) / 400 := by
    omega
  simp only [yearStart, h4, h100, h400]
  constructor <;> omega

theorem yearStart_le_yearOf (day : Int) :
    yearStart (yearOf day) ≤ day ∧ day < yearStart (yearOf day + 1) := by
  have h₀ := yearStart_bounds (day * 400 / 146097 - 1)
  have h₂ := yearStart_bounds (day * 400 / 146097 + 1 + 1)
  simp only [yearOf]
  split
  · rw [Int.sub_add_cancel]; omega
  · split <;> omega

/-- A year has 365 days, or 366 in leap years. -/
theorem yearStart_succ (year : Int) :
    yearStart (year + 1) = yearStart year + if isLeap year then 366 else 365 := by
  simp only [yearStart, isLeap, decide_eq_true_eq]
  by_cases h : year % 4 = 0 ∧ (year % 100 ≠ 0 ∨ year % 400 = 0)
  · rw [if_pos h]; omega
  · rw [if_neg h]; omega

theorem days_monthLengths (leap : Bool) :
    days (monthLengths leap) = if leap then 366 else 365 := by
  cases leap <;> rfl

/-- The span found exists, the day lies in it, and counting through the spans before it gives the
day back. -/
theorem split_bounds (lengths : List Nat) (day : Nat) (h : day < days lengths) :
    1 ≤ (split lengths day).1 ∧ (split lengths day).1 ≤ lengths.length ∧
      1 ≤ (split lengths day).2 ∧
      (split lengths day).2 ≤ lengths[(split lengths day).1 - 1]?.getD 0 ∧
      days (lengths.take ((split lengths day).1 - 1)) + (split lengths day).2 = day + 1 := by
  induction lengths generalizing day with
  | nil => simp [days] at h
  | cons len rest ih =>
    simp only [split]
    by_cases hlt : day < len
    · simp only [hlt, if_true, Nat.sub_self, List.take_zero, days, List.length_cons,
        List.getElem?_cons_zero, Option.getD_some]
      omega
    · simp only [hlt, if_false]
      simp only [days] at h
      obtain ⟨h1, h2, h3, h4, h5⟩ := ih (day - len) (by omega)
      generalize split rest (day - len) = r at *
      obtain ⟨span, d⟩ := r
      obtain ⟨k, rfl⟩ : ∃ k, span = k + 1 := ⟨span - 1, by omega⟩
      simp only [Nat.add_sub_cancel, List.length_cons, List.take_succ_cons, days,
        List.getElem?_cons_succ] at *
      omega

theorem ofDay_valid (day : Int) : (ofDay day).Valid := by
  have hyear := yearStart_le_yearOf day
  have hsucc := yearStart_succ (yearOf day)
  have hdays := days_monthLengths (isLeap (yearOf day))
  have := split_bounds (monthLengths (isLeap (yearOf day))) (day - yearStart (yearOf day)).toNat
    (by rw [hdays]; split at hsucc <;> rename_i hl <;> simp [hl] <;> omega)
  exact ⟨this.1, this.2.1, this.2.2.1, this.2.2.2.1⟩

@[simp] theorem number_ofDay (day : Int) : (ofDay day).number = day := by
  have hyear := yearStart_le_yearOf day
  have hsucc := yearStart_succ (yearOf day)
  have hdays := days_monthLengths (isLeap (yearOf day))
  have := (split_bounds (monthLengths (isLeap (yearOf day))) (day - yearStart (yearOf day)).toNat
    (by rw [hdays]; split at hsucc <;> rename_i hl <;> simp [hl] <;> omega)).2.2.2.2
  simp only [ofDay, Date.number]
  omega

example : ofDay epochDay = ⟨1970, 1, 1⟩ := by decide

end Overhaul.Calendar
