import Mathlib.Data.List.TakeWhile
import Overhaul.Proofs.Timestamp.Years
import Overhaul.Timestamp.Rfc3339

/-!
# Written timestamps are read back

A timestamp of the year 0 or later can be written, and the parts of its written form are read back
one after the other: date, time of day, places of a second and offset. What is read from whatever
text is a timestamp of such a year. Main statements: `Timestamp.ofText?_text?` and
`Timestamp.writable_of_ofText?`.
-/

namespace Overhaul

namespace Timestamp

/-! ### Places of a second -/

/-- What is not written of the places are zeros. -/
theorem exists_padded_eq (n : Nat) :
    ∃ zeros, Text.padded 10 9 n = fractionDigits n ++ List.replicate zeros '0' := by
  let places := (Text.padded 10 9 n).reverse
  have hzeros : places.takeWhile (· = '0') =
      List.replicate (places.takeWhile (· = '0')).length '0' := by
    refine List.eq_replicate_iff.mpr ⟨rfl, fun c hc => ?_⟩
    simpa using List.mem_takeWhile_imp hc
  refine ⟨(places.takeWhile (· = '0')).length, ?_⟩
  have hsplit := congrArg List.reverse
    (List.takeWhile_append_dropWhile (p := (· = '0')) (l := places))
  rw [List.reverse_append, hzeros, List.reverse_replicate, List.reverse_reverse] at hsplit
  exact hsplit.symm

theorem exists_digit_of_mem_fractionDigits {n : Nat} {c : Char} (h : c ∈ fractionDigits n) :
    ∃ d, Text.decimalDigit? c = some d := by
  obtain ⟨zeros, hpadded⟩ := exists_padded_eq n
  have hmem : c ∈ Text.padded 10 9 n := by
    rw [hpadded]
    exact List.mem_append_left _ h
  obtain ⟨d, hd, rfl⟩ := Text.exists_digitChar_of_mem_padded (by decide) hmem
  exact ⟨d, Text.decimalDigit?_digitChar hd⟩

/-- The zeros that are not written make no difference to the fraction. -/
theorem nanosOfFraction_fractionDigits {n : Nat} (h : n < 1000000000) :
    nanosOfFraction ((fractionDigits n).map Text.digitValue) = n := by
  obtain ⟨zeros, hpadded⟩ := exists_padded_eq n
  have hlength : (fractionDigits n).length + zeros = 9 := by
    have hwidth := congrArg List.length hpadded
    simp only [Text.length_padded, List.length_append, List.length_replicate] at hwidth
    exact hwidth.symm
  have hzero : Text.digitValue '0' = 0 := by decide
  have hplaces : ((fractionDigits n).map Text.digitValue ++ List.replicate 9 0).take 9 =
      (Text.padded 10 9 n).map Text.digitValue := by
    have hleft : 9 - ((fractionDigits n).map Text.digitValue).length = zeros := by
      rw [List.length_map]
      omega
    have hshort : ((fractionDigits n).map Text.digitValue).length ≤ 9 := by
      rw [List.length_map]
      omega
    rw [hpadded, List.map_append, List.map_replicate, hzero, List.take_append,
      List.take_of_length_le hshort, hleft, List.take_replicate, Nat.min_eq_left (by omega)]
  rw [nanosOfFraction, hplaces, Text.ofDigits_padded 9 n (by omega)]

theorem offsetChars_eq_cons (o : Int) :
    ∃ c rest, offsetChars o = c :: rest ∧ Text.decimalDigit? c = none ∧ c ≠ '.' := by
  unfold offsetChars
  split
  · exact ⟨'Z', [], rfl, by decide, by decide⟩
  · split
    · exact ⟨'-', _, rfl, by decide, by decide⟩
    · exact ⟨'+', _, rfl, by decide, by decide⟩

/-- The places end where the offset begins. -/
theorem takeFraction_written {n : Nat} (h : n < 1000000000) (o : Int) :
    takeFraction
        ((if fractionDigits n = [] then [] else '.' :: fractionDigits n) ++ offsetChars o) =
      some (n, offsetChars o) := by
  obtain ⟨c, rest, hoffset, hdigit, hpoint⟩ := offsetChars_eq_cons o
  have hnanos := nanosOfFraction_fractionDigits h
  split
  · rename_i hnone
    have hzero : n = 0 := by
      rw [hnone] at hnanos
      exact hnanos.symm
    rw [hoffset, hzero, List.nil_append, takeFraction]
    rintro cs hcs
    exact hpoint (List.cons.inj hcs).1
  · rename_i hsome
    have hdigits : Text.takeDigits (fractionDigits n ++ offsetChars o) =
        ((fractionDigits n).map Text.digitValue, offsetChars o) := by
      refine Text.takeDigits_append (fun c hc => exists_digit_of_mem_fractionDigits hc) ?_
      rw [hoffset]
      rintro _ ⟨⟩
      exact hdigit
    obtain ⟨d, ds, hcons⟩ := List.exists_cons_of_ne_nil
      (mt List.map_eq_nil_iff.mp hsome : (fractionDigits n).map Text.digitValue ≠ [])
    rw [List.cons_append, takeFraction, hdigits, hcons]
    simp only [← hcons, hnanos]

/-! ### Offsets -/

theorem readOffset_signed {sign : Char} {factor : Int} {hours minutes : Nat}
    (hsign : sign = '+' ∧ factor = 1 ∨ sign = '-' ∧ factor = -1) (hhours : hours ≤ 23)
    (hminutes : minutes ≤ 59) :
    readOffset (sign :: (Text.padded 10 2 hours ++ ':' :: Text.padded 10 2 minutes)) =
      some (factor * (hours * 60 + minutes)) := by
  have hread := Text.takeDecimal_padded 2 minutes (by omega) []
  rw [List.append_nil] at hread
  rcases hsign with ⟨rfl, rfl⟩ | ⟨rfl, rfl⟩ <;>
    simp [readOffset, Text.takeDecimal_padded 2 hours (by omega), hread, hhours, hminutes]

theorem readOffset_offsetChars {o : Int} (h : -1440 < o ∧ o < 1440) :
    readOffset (offsetChars o) = some o := by
  have hhours : o.natAbs / 60 ≤ 23 := by omega
  have hminutes : o.natAbs % 60 ≤ 59 := by omega
  have hparts : (o.natAbs : Int) = (o.natAbs / 60 : Nat) * 60 + (o.natAbs % 60 : Nat) := by omega
  unfold offsetChars
  split
  · rename_i hzero
    rw [hzero]
    rfl
  · split
    · rename_i hneg
      rw [readOffset_signed (.inr ⟨rfl, rfl⟩) hhours hminutes, ← hparts]
      congr 1
      omega
    · rename_i hpos
      rw [readOffset_signed (.inl ⟨rfl, rfl⟩) hhours hminutes, ← hparts]
      congr 1
      omega

/-! ### Dates -/

theorem daysInMonth_le (year : Int) (month : Nat) : Calendar.daysInMonth year month ≤ 31 := by
  have hlengths : ∀ leap, ∀ n ∈ Calendar.monthLengths leap, n ≤ 31 := by decide
  unfold Calendar.daysInMonth
  cases hmonth : (Calendar.monthLengths (Calendar.isLeap year))[month - 1]? with
  | none => simp
  | some n => exact hlengths _ n (List.mem_of_getElem? hmonth)

/-- The date on a written clock fits into its digits. -/
theorem date_bounds (t : Timestamp) :
    t.date.year < 10000 ∧ t.date.month ≤ 12 ∧ t.date.day ≤ 31 := by
  obtain ⟨-, hmonth, -, hday⟩ := Calendar.ofDay_valid t.day
  refine ⟨?_, hmonth, hday.trans (daysInMonth_le _ _)⟩
  by_contra hlate
  have hbegun : Calendar.yearStart 10000 ≤ t.day := Calendar.yearStart_le_iff.mpr (not_lt.mp hlate)
  have hlast := years_bounds.2
  have hyears := t.in_years.2
  simp only [day, clockNanos, nanosPerDay, nanosPerMinute] at hyears hbegun
  omega

/-! ### Whole timestamps -/

/-- A timestamp is put together again from its parts. -/
theorem ofParts?_parts (t : Timestamp) {hour minute second nanos : Nat} (hhour : hour ≤ 23)
    (hminute : minute ≤ 59) (hsecond : second ≤ 59)
    (hnanos : t.nanosOfDay = ((hour * 60 + minute) * 60 + second : Nat) * nanosPerSecond + nanos) :
    ofParts? t.date hour minute second nanos t.offset = some t := by
  have hleap : second ≠ 60 := by omega
  have hvalid : t.date.Valid := Calendar.ofDay_valid t.day
  have hnumber : t.date.number = t.day := Calendar.number_ofDay t.day
  have hclock : (t.date.number - Calendar.epochDay) * nanosPerDay +
      ((hour * 60 + minute) * 60 + second : Nat) * nanosPerSecond + nanos -
        t.offset * nanosPerMinute = t.unixNanos := by
    rw [hnumber, Int.add_assoc, ← hnanos]
    simp only [day, nanosOfDay, clockNanos, nanosPerDay, nanosPerMinute]
    omega
  have hat : at? t.unixNanos t.offset = some t := at?_eq_some_iff.mpr ⟨rfl, rfl⟩
  simp only [ofParts?, hleap, if_false]
  rw [if_pos ⟨hvalid, hhour, hminute, hsecond⟩, hclock, hat]
  simp

/-- A written timestamp is read back. -/
theorem ofChars?_chars? {t : Timestamp} {cs : List Char} (h : t.chars? = some cs) :
    ofChars? cs = some t := by
  unfold chars? at h
  split at h
  · rename_i hwritable
    have hyear : 0 ≤ t.date.year := hwritable
    obtain ⟨hlate, hmonth, hday⟩ := t.date_bounds
    have hday₀ : 0 ≤ t.nanosOfDay ∧ t.nanosOfDay < 86400000000000 := by
      simp only [nanosOfDay, nanosPerDay]
      omega
    cases h
    generalize hns : t.nanosOfDay.toNat = ns
    have hdate :
        (⟨(t.date.year.toNat : Int), t.date.month, t.date.day⟩ : Calendar.Date) = t.date := by
      rw [Int.toNat_of_nonneg hyear]
    have hparts : t.nanosOfDay = ((ns / 1000000000 / 3600 * 60 + ns / 1000000000 / 60 % 60) * 60 +
        ns / 1000000000 % 60 : Nat) * nanosPerSecond + (ns % 1000000000 : Nat) := by
      simp only [nanosPerSecond]
      omega
    simp only [ofChars?, List.append_assoc, List.cons_append,
      Text.takeDecimal_padded 4 t.date.year.toNat (by omega),
      Text.takeDecimal_padded 2 t.date.month (by omega),
      Text.takeDecimal_padded 2 t.date.day (by omega),
      Text.takeDecimal_padded 2 (ns / 1000000000 / 3600) (by omega),
      Text.takeDecimal_padded 2 (ns / 1000000000 / 60 % 60) (by omega),
      Text.takeDecimal_padded 2 (ns / 1000000000 % 60) (by omega), Text.takeChar_cons,
      takeFraction_written (Nat.mod_lt ns (by decide)), readOffset_offsetChars t.offset_lt,
      Option.bind_eq_bind, Option.bind_some, hdate]
    exact ofParts?_parts t (by omega) (by omega) (by omega) hparts
  · cases h

theorem ofText?_text? {t : Timestamp} {s : String} (h : t.text? = some s) :
    ofText? s = some t := by
  obtain ⟨cs, hcs, rfl⟩ := Option.map_eq_some_iff.mp h
  simpa [ofText?] using ofChars?_chars? hcs

theorem exists_text?_iff {t : Timestamp} : (∃ s, t.text? = some s) ↔ t.Writable := by
  unfold text? chars?
  split
  · rename_i h
    simp [h]
  · rename_i h
    simp [h]

/-- A date of the year 0 or later does not come before the first day of the year 0. -/
theorem number_nonneg {d : Calendar.Date} (hvalid : d.Valid) (hyear : 0 ≤ d.year) :
    0 ≤ d.number := by
  have hstart := Calendar.yearStart_le hyear
  rw [Calendar.yearStart_zero] at hstart
  have hday := hvalid.2.2.1
  unfold Calendar.Date.number
  omega

/-- A time can be written from the first day of the year 0 on its clock. -/
theorem writable_iff_day {t : Timestamp} : t.Writable ↔ 0 ≤ t.day := by
  rw [← Calendar.yearStart_zero]
  exact Calendar.yearStart_le_iff.symm

/-- When a time can be written, then so can all later ones on its clock. -/
theorem Writable.of_le {t u : Timestamp} (h : t.Writable) (hoffset : u.offset = t.offset)
    (hle : t.unixNanos ≤ u.unixNanos) : u.Writable := by
  rw [writable_iff_day] at h ⊢
  simp only [day, clockNanos, nanosPerDay, nanosPerMinute, hoffset] at h ⊢
  omega

/-- What is put together from a date of the year 0 or later can be written. -/
theorem writable_of_ofParts? {date : Calendar.Date} {hour minute second nanos : Nat} {offset : Int}
    {t : Timestamp} (hyear : 0 ≤ date.year)
    (h : ofParts? date hour minute second nanos offset = some t) : t.Writable := by
  unfold ofParts? at h
  dsimp only at h
  -- a leap second stands for the last nanosecond of a day, which makes no difference to the date
  generalize (if second = 60 then ((59, 999999999) : Nat × Nat) else (second, nanos)) = shown at h
  obtain ⟨second', nanos'⟩ := shown
  dsimp only at h
  split at h
  · rename_i hvalid
    split at h
    · rename_i u hat
      split at h
      · cases h
      · cases h
        obtain ⟨hunix, hoffset⟩ := at?_eq_some_iff.mp hat
        have hnumber := number_nonneg hvalid.1 hyear
        have hday : 0 ≤ t.day := by
          simp only [day, clockNanos, hunix, hoffset, nanosPerDay, nanosPerMinute, nanosPerSecond]
          omega
        exact writable_iff_day.mpr hday
    · cases h
  · cases h

/-- What is read can be written. -/
theorem writable_of_ofText? {t : Timestamp} {s : String} (h : ofText? s = some t) : t.Writable := by
  simp only [ofText?, ofChars?, Option.bind_eq_bind, Option.bind_eq_some_iff] at h
  obtain ⟨⟨year, _⟩, -, _, -, ⟨month, _⟩, -, _, -, ⟨day, _⟩, -, h⟩ := h
  split at h
  · split at h
    · simp only [Option.bind_eq_some_iff] at h
      obtain ⟨_, -, ⟨hour, _⟩, -, _, -, ⟨minute, _⟩, -, _, -, ⟨second, _⟩, -, ⟨nanos, _⟩, -,
        offset, -, hparts⟩ := h
      exact writable_of_ofParts? (Int.natCast_nonneg year) hparts
    · cases h
  · cases h

end Timestamp

end Overhaul
