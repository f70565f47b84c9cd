/-
Spans of time.

A span is a whole number of nanoseconds and may be negative.  People read it in hours,
minutes and seconds; fractions of a second are cut off toward zero before the sign is
looked at, so that half a second before noon is no minus zero.  Where a query is written,
each of the three parts has the sign.
-/
import RollCall.Text.Digits

namespace RollCall

/-- A length of time, as a whole number of nanoseconds. -/
structure Span where
  nanos : Int
deriving DecidableEq, Repr, Inhabited

namespace Span

/-- The nanoseconds of one second. -/
def second : Int := 1000000000

/-- The empty span. -/
def zero : Span := ⟨0⟩

/-- A span of whole seconds. -/
def ofSeconds (seconds : Int) : Span := ⟨seconds * second⟩

instance : Add Span := ⟨fun a b => ⟨a.nanos + b.nanos⟩⟩

instance : LE Span := ⟨fun a b => a.nanos ≤ b.nanos⟩

instance : LT Span := ⟨fun a b => a.nanos < b.nanos⟩

instance (a b : Span) : Decidable (a ≤ b) := inferInstanceAs (Decidable (a.nanos ≤ b.nanos))

instance (a b : Span) : Decidable (a < b) := inferInstanceAs (Decidable (a.nanos < b.nanos))

instance : Ord Span := ⟨fun a b => compare a.nanos b.nanos⟩

/-- The sum of some spans, added up from the first. -/
def total (spans : List Span) : Span :=
  spans.foldl (· + ·) zero

/-- The whole seconds of a span, cut off toward zero. -/
def wholeSeconds (d : Span) : Int :=
  d.nanos.tdiv second

@[simp] theorem wholeSeconds_ofSeconds (n : Int) : (ofSeconds n).wholeSeconds = n :=
  Int.mul_tdiv_cancel n (by decide)

/-- Hours, minutes and seconds of a count of seconds, the hours with at least the given count of
digits. -/
def clockText (hourDigits seconds : Nat) : List Char :=
  Text.padded hourDigits (seconds / 3600) ++ ':' :: Text.padded 2 (seconds % 3600 / 60) ++
    ':' :: Text.padded 2 (seconds % 60)

/-- The text `H:MM:SS` of a span, with a sign if its whole seconds are negative. -/
def text (d : Span) : List Char :=
  (if d.wholeSeconds < 0 then ['-'] else []) ++ clockText 1 d.wholeSeconds.natAbs

/-- The text `HH:MM:SS` of a span as queries have it, in which every part has its own sign. -/
def partsText (d : Span) : List Char :=
  let seconds := d.wholeSeconds
  Text.paddedInt 2 (seconds.tdiv 3600) ++ ':' :: Text.paddedInt 2 ((seconds.tmod 3600).tdiv 60) ++
    ':' :: Text.paddedInt 2 (seconds.tmod 60)

/-- Nothing has a sign in a span that is not negative. -/
theorem partsText_ofSeconds (seconds : Nat) :
    (ofSeconds seconds).partsText = clockText 2 seconds := by
  rw [partsText, wholeSeconds_ofSeconds]
  rfl

/-- The text of a span as a string. -/
def render (d : Span) : String :=
  String.ofList d.text

/-- The text of some spans: between brackets, with commas. -/
def listText (spans : List Span) : List Char :=
  '[' :: List.intercalate [',', ' '] (spans.map text) ++ [']']

/-- The text of some spans as a string. -/
def renderList (spans : List Span) : String :=
  String.ofList (listText spans)

example : (ofSeconds 3661).render = "1:01:01" := by decide +kernel

/-- Half a second less than nothing has no whole second, and so no sign. -/
example : (⟨-500000000⟩ : Span).render = "0:00:00" := by decide +kernel

/-- One hour, two minutes and five seconds less than nothing. -/
example : String.ofList (ofSeconds (-3725)).partsText = "-1:-2:-5" := by decide +kernel

example : renderList [ofSeconds 600, ofSeconds (-1)] = "[0:10:00, -0:00:01]" := by decide +kernel

end Span

end RollCall
