/-
The calendar.

Dates of the Gregorian calendar, carried on before its introduction and before the
year 1, are counted in days from 1 January 1970.  The count of a date is a sum: the
days of the years before it, of the months before it in its year, and of the month up
to it.  The way back estimates the year from the mean length of a year, mends the
estimate by at most one, and takes off whole months from what is left.
-/
namespace RollCall

/-- A year with a 29 February. -/
def isLeapYear (year : Int) : Bool :=
  year % 4 == 0 && (year % 100 != 0 || year % 400 == 0)

/-- The lengths of the twelve months. -/
def monthLengths (leap : Bool) : List Nat :=
  [31, if leap then 29 else 28, 31, 30, 31, 30, 31, 31, 30, 31, 30, 31]

/-- The days of the first so many months. -/
def daysOfMonths : List Nat → Nat → Nat
  | length :: lengths, months + 1 => length + daysOfMonths lengths months
  | _, _ => 0

/-- The days from 1 January of the year 1 to 1 January of the given year. -/
def daysBeforeYear (year : Int) : Int :=
  let passed := year - 1
  365 * passed + passed / 4 - passed / 100 + passed / 400

/-- The days from 1 January of the year 1 to 1 January 1970. -/
def daysBeforeEpoch : Int := 719162

/-- A day of the calendar; months and days count from one. -/
structure Date where
  year : Int
  month : Nat
  day : Nat
deriving DecidableEq, Repr, Inhabited

namespace Date

/-- The first year that an instant may fall in. -/
def firstYear : Int := -262143

/-- The last year that an instant may fall in. -/
def lastYear : Int := 262142

/-- A day that the calendar has. -/
def Valid (d : Date) : Prop :=
  1 ≤ d.month ∧ 1 ≤ d.day ∧
    ∃ length, (monthLengths (isLeapYear d.year))[d.month - 1]? = some length ∧ d.day ≤ length

/-- The calendar has the day. -/
def isValid (d : Date) : Bool :=
  1 ≤ d.month && 1 ≤ d.day &&
    (monthLengths (isLeapYear d.year))[d.month - 1]?.any (d.day ≤ ·)

theorem isValid_iff {d : Date} : d.isValid = true ↔ d.Valid := by
  simp [isValid, Valid, and_assoc, Option.any_eq_true]

instance (d : Date) : Decidable d.Valid :=
  decidable_of_iff _ isValid_iff

/-- The number of the day, counted from 1 January 1970. -/
def dayNumber (d : Date) : Int :=
  daysBeforeYear d.year + daysOfMonths (monthLengths (isLeapYear d.year)) (d.month - 1) +
    (d.day - 1 : Int) - daysBeforeEpoch

/-- The year that contains the day which is `days` after 1 January of the year 1. -/
def yearOf (days : Int) : Int :=
  let guess := 400 * days / 146097 + 1
  if days < daysBeforeYear guess then guess - 1
  else if daysBeforeYear (guess + 1) ≤ days then guess + 1
  else guess

/-- Takes whole months off a count of days: how many, and the days left over. -/
def splitMonths : List Nat → Nat → Nat × Nat
  | [], days => (0, days)
  | length :: lengths, days =>
    if days < length then (0, days)
    else
      let (months, left) := splitMonths lengths (days - length)
      (months + 1, left)

/-- The day of the given number. -/
def ofDayNumber (number : Int) : Date :=
  let days := number + daysBeforeEpoch
  let year := yearOf days
  let (months, left) := splitMonths (monthLengths (isLeapYear year))
    (days - daysBeforeYear year).toNat
  ⟨year, months + 1, left + 1⟩

end Date

end RollCall
