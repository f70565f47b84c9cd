/-
Days and their numbers.

The count of a day and the way back are inverse to each other: every integer is the
number of exactly one day that the calendar has.  Both halves rest on the year.  The
estimate of the year is off by at most one, so mending it once finds the year whose
first day is not after the given day and whose successor's first day is; and no second
year has that property, because the count of days before a year grows with the year.
What is left is taken apart month by month, which undoes the putting together.
-/
import RollCall.Calendar

namespace RollCall

theorem length_monthLengths (leap : Bool) : (monthLengths leap).length = 12 := rfl

/-- A year has as many days as its months together. -/
theorem daysBeforeYear_succ (year : Int) :
    daysBeforeYear (year + 1) =
      daysBeforeYear year + daysOfMonths (monthLengths (isLeapYear year)) 12 := by
  have length : (daysOfMonths (monthLengths (isLeapYear year)) 12 : Int) =
      if isLeapYear year then 366 else 365 := by
    cases isLeapYear year <;> rfl
  rw [length]
  simp only [daysBeforeYear, isLeapYear, Bool.and_eq_true, Bool.or_eq_true, beq_iff_eq, bne_iff_ne]
  split <;> omega

theorem daysBeforeYear_mono {a b : Int} (h : a ≤ b) : daysBeforeYear a ≤ daysBeforeYear b := by
  simp only [daysBeforeYear]
  omega

/-- One more month adds its days. -/
theorem daysOfMonths_succ {lengths : List Nat} {months length : Nat}
    (h : lengths[months]? = some length) :
    daysOfMonths lengths (months + 1) = daysOfMonths lengths months + length := by
  induction lengths generalizing months with
  | nil => simp at h
  | cons first lengths ih =>
    cases months with
    | zero => simpa [daysOfMonths] using h
    | succ months =>
      have rest : daysOfMonths lengths (months + 1) = daysOfMonths lengths months + length :=
        ih (by simpa using h)
      rw [daysOfMonths, daysOfMonths, rest, Nat.add_assoc]

theorem daysOfMonths_mono {lengths : List Nat} {a b : Nat} (h : a ≤ b) :
    daysOfMonths lengths a ≤ daysOfMonths lengths b := by
  induction lengths generalizing a b with
  | nil => simp [daysOfMonths]
  | cons first lengths ih =>
    cases a with
    | zero => simp [daysOfMonths]
    | succ a =>
      cases b with
      | zero => omega
      | succ b =>
        have := ih (a := a) (b := b) (by omega)
        simp only [daysOfMonths]
        omega

namespace Date

/-- The estimate of the year, once mended, is right. -/
theorem yearOf_bounds (days : Int) :
    daysBeforeYear (yearOf days) ≤ days ∧ days < daysBeforeYear (yearOf days + 1) := by
  simp only [yearOf]
  split
  · simp only [daysBeforeYear] at *
    omega
  · split
    · simp only [daysBeforeYear] at *
      omega
    · omega

/-- No other year contains the day. -/
theorem yearOf_eq {days year : Int} (low : daysBeforeYear year ≤ days)
    (high : days < daysBeforeYear (year + 1)) : yearOf days = year := by
  obtain ⟨low', high'⟩ := yearOf_bounds days
  rcases Int.lt_trichotomy (yearOf days) year with h | h | h
  · have := daysBeforeYear_mono (show yearOf days + 1 ≤ year by omega)
    omega
  · exact h
  · have := daysBeforeYear_mono (show year + 1 ≤ yearOf days by omega)
    omega

/-- Whole months and the days left over make up the count. -/
theorem daysOfMonths_splitMonths (lengths : List Nat) (days : Nat)
    (h : days < daysOfMonths lengths lengths.length) :
    daysOfMonths lengths (splitMonths lengths days).1 + (splitMonths lengths days).2 = days ∧
      ∃ length, lengths[(splitMonths lengths days).1]? = some length ∧
        (splitMonths lengths days).2 < length := by
  induction lengths generalizing days with
  | nil => simp [daysOfMonths] at h
  | cons first lengths ih =>
    unfold splitMonths
    split
    · next small => exact ⟨by simp [daysOfMonths], first, by simp, small⟩
    · next large =>
      have bound : days - first < daysOfMonths lengths lengths.length := by
        simp only [daysOfMonths, List.length_cons] at h
        omega
      obtain ⟨sum, found⟩ := ih (days - first) bound
      refine ⟨?_, by simpa using found⟩
      simp only [daysOfMonths]
      omega

/-- Taking off the months that were put together gives them back. -/
theorem splitMonths_daysOfMonths {lengths : List Nat} {months length left : Nat}
    (h : lengths[months]? = some length) (small : left < length) :
    splitMonths lengths (daysOfMonths lengths months + left) = (months, left) := by
  induction lengths generalizing months with
  | nil => simp at h
  | cons first lengths ih =>
    cases months with
    | zero =>
      obtain rfl : first = length := by simpa using h
      simp [splitMonths, daysOfMonths, small]
    | succ months =>
      have rest : splitMonths lengths (daysOfMonths lengths months + left) = (months, left) :=
        ih (by simpa using h)
      have large : ¬ first + daysOfMonths lengths months + left < first := by omega
      have back : first + daysOfMonths lengths months + left - first =
          daysOfMonths lengths months + left := by omega
      simp only [splitMonths, daysOfMonths, back, rest]
      rw [if_neg large]

/-- The days passed in the year of a day are fewer than the year has. -/
theorem daysInYear_lt (days : Int) :
    (days - daysBeforeYear (yearOf days)).toNat <
      daysOfMonths (monthLengths (isLeapYear (yearOf days)))
        (monthLengths (isLeapYear (yearOf days))).length := by
  have spec := yearOf_bounds days
  rw [daysBeforeYear_succ] at spec
  rw [length_monthLengths]
  omega

/-- Every number is the number of a day that the calendar has. -/
theorem valid_ofDayNumber (number : Int) : (ofDayNumber number).Valid := by
  obtain ⟨-, length, found, small⟩ :=
    daysOfMonths_splitMonths _ _ (daysInYear_lt (number + daysBeforeEpoch))
  exact ⟨Nat.le_add_left 1 _, Nat.le_add_left 1 _, length, found, small⟩

@[simp] theorem dayNumber_ofDayNumber (number : Int) : (ofDayNumber number).dayNumber = number := by
  obtain ⟨sum, -⟩ := daysOfMonths_splitMonths _ _ (daysInYear_lt (number + daysBeforeEpoch))
  have spec := (yearOf_bounds (number + daysBeforeEpoch)).1
  simp only [ofDayNumber, dayNumber, Nat.add_sub_cancel]
  omega

/-- A day that the calendar has is found again by its number. -/
theorem ofDayNumber_dayNumber {d : Date} (h : d.Valid) : ofDayNumber d.dayNumber = d := by
  obtain ⟨year, month, day⟩ := d
  obtain ⟨hmonth, hday, length, found, fits⟩ := h
  simp only at hmonth hday found fits
  have inYear : month - 1 < 12 := by
    rw [← length_monthLengths (isLeapYear year)]
    exact (List.getElem?_eq_some_iff.1 found).1
  have bound : daysOfMonths (monthLengths (isLeapYear year)) (month - 1) + length ≤
      daysOfMonths (monthLengths (isLeapYear year)) 12 := by
    rw [← daysOfMonths_succ found]
    exact daysOfMonths_mono inYear
  have sameYear : yearOf (dayNumber ⟨year, month, day⟩ + daysBeforeEpoch) = year := by
    apply yearOf_eq
    · simp only [dayNumber]
      omega
    · rw [daysBeforeYear_succ]
      simp only [dayNumber]
      omega
  have left : (dayNumber ⟨year, month, day⟩ + daysBeforeEpoch - daysBeforeYear year).toNat =
      daysOfMonths (monthLengths (isLeapYear year)) (month - 1) + (day - 1) := by
    simp only [dayNumber]
    omega
  have split := splitMonths_daysOfMonths found (show day - 1 < length by omega)
  simp only [ofDayNumber, sameYear, left, split, mk.injEq, true_and]
  omega

end Date

end RollCall
