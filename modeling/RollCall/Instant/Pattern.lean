/-
Patterns that written instants follow.

A pattern is a list of parts: marks that have to stand there, gaps of any width, and
numbers.  Blanks in front of a number are passed over and a number may be shorter than
its usual width, but never longer; only a year with a sign has no limit.  A reading
has to use up the whole text and to name a date of the calendar.
-/
import RollCall.Instant.Basic
import RollCall.Text.Blank

namespace RollCall.Instant

/-- One part of a pattern. -/
inductive Part where
  /-- exactly this character -/
  | mark (c : Char)
  /-- any number of blanks, or none -/
  | gap
  | year
  | month
  | day
  /-- an hour of the whole day, 0 to 23 -/
  | hour
  /-- an hour of half a day, 1 to 12 -/
  | halfDayHour
  | minute
  | second
  /-- AM or PM, in any case -/
  | halfDay
deriving DecidableEq, Repr

/-- What the parts read so far have said. -/
structure Reading where
  year : Int := 0
  month : Nat := 0
  day : Nat := 0
  hour : Nat := 0
  minute : Nat := 0
  second : Nat := 0
  afternoon : Bool := false
deriving DecidableEq, Repr, Inhabited

/-- The instant that a complete reading names, if the calendar has it. -/
def Reading.instant? (r : Reading) : Option Instant :=
  ofClock? ⟨r.year, r.month, r.day⟩ (if r.afternoon then r.hour + 12 else r.hour) r.minute r.second

/-- A number of one digit or more, and at most the given count of digits, behind any blanks. -/
def readNumber (width : Nat) (cs : List Char) : Option (Nat × List Char) :=
  let cs := Text.dropBlanks cs
  let ds := (cs.take width).takeWhile Char.isDigit
  if ds.isEmpty then none else some (Text.ofDigits ds, cs.drop ds.length)

/-- A number within bounds. -/
def readBounded (width low high : Nat) (cs : List Char) : Option (Nat × List Char) :=
  (readNumber width cs).filter fun (n, _) => low ≤ n && n ≤ high

/-- The digits right behind the sign of a year, however many there are. -/
def readAfterSign (cs : List Char) : Option (Nat × List Char) :=
  let (ds, rest) := Text.spanDigits cs
  if ds.isEmpty then none else some (Text.ofDigits ds, rest)

/-- A year: up to four digits, or a sign and any number of digits. -/
def readYear (cs : List Char) : Option (Int × List Char) :=
  match Text.dropBlanks cs with
  | '-' :: rest => (readAfterSign rest).map fun (n, rest) => (-(n : Int), rest)
  | '+' :: rest => (readAfterSign rest).map fun (n, rest) => ((n : Int), rest)
  | rest => (readNumber 4 rest).map fun (n, rest) => ((n : Int), rest)

/-- AM gives false, PM gives true. -/
def readHalfDay : List Char → Option (Bool × List Char)
  | c :: m :: rest =>
    if m.toUpper = 'M' then
      if c.toUpper = 'A' then some (false, rest)
      else if c.toUpper = 'P' then some (true, rest)
      else none
    else none
  | _ => none

/-- Reads one part off the front of a text.  Twelve o'clock begins a half day. -/
def Part.read (r : Reading) (cs : List Char) : Part → Option (Reading × List Char)
  | .mark c => if cs.head? = some c then some (r, cs.tail) else none
  | .gap => some (r, Text.dropBlanks cs)
  | .year => (readYear cs).map fun (n, rest) => ({ r with year := n }, rest)
  | .month => (readBounded 2 1 12 cs).map fun (n, rest) => ({ r with month := n }, rest)
  | .day => (readBounded 2 1 31 cs).map fun (n, rest) => ({ r with day := n }, rest)
  | .hour => (readBounded 2 0 23 cs).map fun (n, rest) => ({ r with hour := n }, rest)
  | .halfDayHour => (readBounded 2 1 12 cs).map fun (n, rest) => ({ r with hour := n % 12 }, rest)
  | .minute => (readBounded 2 0 59 cs).map fun (n, rest) => ({ r with minute := n }, rest)
  | .second => (readBounded 2 0 60 cs).map fun (n, rest) => ({ r with second := n }, rest)
  | .halfDay => (readHalfDay cs).map fun (late, rest) => ({ r with afternoon := late }, rest)

/-- Reads the parts one after the other and asks that nothing is left. -/
def readParts : List Part → Reading → List Char → Option Reading
  | [], r, cs => if cs.isEmpty then some r else none
  | part :: parts, r, cs =>
    match part.read r cs with
    | none => none
    | some (r, rest) => readParts parts r rest

/-- The instant that a text names under a pattern. -/
def read? (pattern : List Part) (cs : List Char) : Option Instant :=
  (readParts pattern {} cs).bind Reading.instant?

/-- The pattern `YYYY-MM-DD HH:MM:SS`. -/
def wholeDayPattern : List Part :=
  [.year, .mark '-', .month, .mark '-', .day, .gap, .hour, .mark ':', .minute, .mark ':', .second]

/-- The pattern `M/D/YYYY, h:mm:ss AM` or `PM`. -/
def halfDayPattern : List Part :=
  [.month, .mark '/', .day, .mark '/', .year, .mark ',', .gap, .halfDayHour, .mark ':', .minute,
    .mark ':', .second, .gap, .halfDay]

/-- The patterns that a report may follow, in the order in which they are tried. -/
def reportPatterns : List (List Part) :=
  [halfDayPattern, wholeDayPattern]

/-- The instant that a cell of a report names; blanks around it do not count. -/
def ofReport? (cell : String) : Option Instant :=
  reportPatterns.findSome? (read? · (Text.trim cell.toList))

/-- Both patterns name the same instant. -/
example : ofReport? " 3/15/2021, 12:58:31 am" = ofReport? "2021-03-15 00:58:31" := by
  decide +kernel

/-- Gaps may be missing and numbers may be short. -/
example : (ofReport? "3/5/21,9:8:7PM").map render = some "0021-03-05 21:08:07" := by
  decide +kernel

end RollCall.Instant
