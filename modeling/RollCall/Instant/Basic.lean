/-
Instants.

An instant is a second of the calendar without zone and a fraction of it.  During a
leap second, which clocks show as second 60, the count of seconds stays that of the
second before and the fraction runs on to two whole seconds; so an instant is ordered
first by its second and then by its fraction, and one integer, the rank, holds both.

The difference of two instants is the difference of their days and of their times of
day.  A leap second that lies between them lengthens it: if the later time of day
belongs to the first instant, one second more has passed when the other one is itself
a leap second, and one second less when the roles are exchanged.
-/
import RollCall.Calendar
import RollCall.Span

namespace RollCall

/-- A second counted from 1 January 1970, and the nanoseconds passed in it; those of a leap second
go on past one second. -/
structure Instant where
  seconds : Int
  nanos : Nat
  nanos_lt : nanos < 2000000000 := by omega
deriving DecidableEq, Repr

namespace Instant

instance : Inhabited Instant := ⟨⟨0, 0, by decide⟩⟩

/-- The seconds of a day. -/
def day : Int := 86400

/-- An integer that orders the instants. -/
def rank (t : Instant) : Int :=
  t.seconds * 2000000000 + t.nanos

instance : LE Instant := ⟨fun a b => a.rank ≤ b.rank⟩

instance : LT Instant := ⟨fun a b => a.rank < b.rank⟩

instance (a b : Instant) : Decidable (a ≤ b) := inferInstanceAs (Decidable (a.rank ≤ b.rank))

instance (a b : Instant) : Decidable (a < b) := inferInstanceAs (Decidable (a.rank < b.rank))

instance : Ord Instant := ⟨fun a b => compare a.rank b.rank⟩

instance : Max Instant := ⟨fun a b => if a ≤ b then b else a⟩

/-- Different instants have different ranks. -/
theorem rank_injective {a b : Instant} (h : a.rank = b.rank) : a = b := by
  obtain ⟨s, n, hn⟩ := a
  obtain ⟨s', n', hn'⟩ := b
  simp only [rank] at h
  simp only [mk.injEq]
  omega

/-- The order is by the second, and by the fraction within a second. -/
theorem le_iff {a b : Instant} :
    a ≤ b ↔ a.seconds < b.seconds ∨ a.seconds = b.seconds ∧ a.nanos ≤ b.nanos := by
  have := a.nanos_lt
  have := b.nanos_lt
  show a.rank ≤ b.rank ↔ _
  simp only [rank]
  omega

/-- The instant lies in a leap second. -/
def isLeap (t : Instant) : Bool :=
  1000000000 ≤ t.nanos

/-- The seconds passed since midnight. -/
def timeOfDay (t : Instant) : Int :=
  t.seconds % day

/-- The date of an instant. -/
def date (t : Instant) : Date :=
  Date.ofDayNumber (t.seconds / day)

/-- The second that a leap second adds to a difference, or takes from it. -/
def leapCorrection (a b : Instant) : Int :=
  if b.timeOfDay < a.timeOfDay && b.isLeap then 1
  else if a.timeOfDay < b.timeOfDay && a.isLeap then -1
  else 0

instance : HSub Instant Instant Span where
  hSub a b :=
    ⟨(a.seconds - b.seconds + leapCorrection a b) * Span.second + ((a.nanos : Int) - b.nanos)⟩

/-- A year of the years 0 to 9999 has four digits; any other has a sign in front of at least
four. -/
def yearText (year : Int) : List Char :=
  if year < 0 then '-' :: Text.padded 4 year.natAbs
  else if 9999 < year then '+' :: Text.padded 4 year.natAbs
  else Text.padded 4 year.natAbs

/-- The text `YYYY-MM-DD HH:MM:SS` of an instant.  A leap second shows as second 60, or one more
than the second it follows; fractions are not shown. -/
def text (t : Instant) : List Char :=
  let second := t.timeOfDay.toNat
  yearText t.date.year ++ '-' :: Text.padded 2 t.date.month ++ '-' :: Text.padded 2 t.date.day ++
    ' ' :: Text.padded 2 (second / 3600) ++ ':' :: Text.padded 2 (second % 3600 / 60) ++
    ':' :: Text.padded 2 (second % 60 + t.nanos / 1000000000)

/-- The text of an instant as a string. -/
def render (t : Instant) : String :=
  String.ofList t.text

/-- The instant at a time of day on a date of the calendar.  The hour runs to 23 and the minute
to 59; second 60 is a leap second. -/
def ofClock? (date : Date) (hour minute second : Nat) : Option Instant :=
  if date.isValid && Date.firstYear ≤ date.year && date.year ≤ Date.lastYear &&
      hour ≤ 23 && minute ≤ 59 && second ≤ 60 then
    let start := date.dayNumber * day + (hour * 3600 + minute * 60 : Nat)
    if second = 60 then some ⟨start + 59, 1000000000, by decide⟩
    else some ⟨start + second, 0, by decide⟩
  else none

/-- A leap second shows as second 60. -/
example : (ofClock? ⟨2016, 12, 31⟩ 23 59 60).map render = some "2016-12-31 23:59:60" := by
  decide +kernel

example : (ofClock? ⟨12021, 2, 28⟩ 0 0 0).map render = some "+12021-02-28 00:00:00" := by
  decide +kernel

example : ofClock? ⟨2021, 2, 29⟩ 0 0 0 = none := by decide +kernel

end Instant

end RollCall
