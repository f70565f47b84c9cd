/-
Attendance reports.

A report is a table whose first row names the columns.  Three of them matter, in
whatever order they stand: the name, what the person did and when.  Every row has to
have as many cells as the first; blanks around a cell do not count.  The first row that
cannot be read is the error, and of the faults of one row that of its cells comes
first, then that of the columns, that of the action and that of the time.

The entries of one name make an attendee.  Attendees stand in the order in which their
names first appear, and the latest time of the whole report is the end of the meeting
for all of them.
-/
import RollCall.Attendance
import RollCall.Instant.Pattern
import RollCall.Table.Delimited
import RollCall.Text.Blank
import RollCall.Text.Quoted

namespace RollCall

open Table

/-- The columns that matter. -/
inductive Column where
  | name
  | action
  | time
deriving DecidableEq, Repr

namespace Column

/-- The columns in the order in which they are missed. -/
def all : List Column :=
  [.name, .action, .time]

/-- The title of a column. -/
def title : Column → String
  | .name => "Full Name"
  | .action => "User Action"
  | .time => "Timestamp"

/-- The column of a title; any other title is of no account. -/
def ofTitle? (s : String) : Option Column :=
  all.find? (·.title = s)

end Column

/-- Why a row cannot be read. -/
inductive RowFault where
  /-- not as many cells as the first row -/
  | length (found expected : Nat)
  | duplicate (c : Column)
  | missing (c : Column)
  | unknownAction (cell : String)
  | unknownTime (cell : String)
deriving DecidableEq, Repr

/-- A row that cannot be read: its number, counted from one behind the titles, and its place. -/
structure ReportError where
  number : Nat
  place : Place
  fault : RowFault
deriving DecidableEq, Repr

/-- What is said about a row that cannot be read. -/
def ReportError.message (e : ReportError) : String :=
  let line := toString e.place.line
  let place := "record " ++ toString e.number ++ " (line: " ++ line ++ ", byte: " ++
    toString e.place.byte ++ "): "
  match e.fault with
  | .length found expected =>
    "CSV error: " ++ place ++ "found record with " ++ toString found ++
      " fields, but the previous record has " ++ toString expected ++ " fields"
  | .duplicate c => "CSV deserialize error: " ++ place ++ "duplicate field `" ++ c.title ++ "`"
  | .missing c => "CSV deserialize error: " ++ place ++ "missing field `" ++ c.title ++ "`"
  | .unknownAction cell => "line " ++ line ++ ": unknown user action " ++ Text.quoted cell
  | .unknownTime cell => "line " ++ line ++ ": unrecognised timestamp " ++ Text.quoted cell

/-- One row of a report. -/
structure Entry where
  name : String
  action : Status
  time : Instant
deriving DecidableEq, Repr, Inhabited

namespace Entry

/-- What an entry says without the name. -/
def event (e : Entry) : Event :=
  ⟨e.action, e.time⟩

end Entry

namespace Report

/-- What the word of a report says of a person. -/
def actionOf? (cell : String) : Option Status :=
  if cell = "Joined" ∨ cell = "Joined before" then some .joined
  else if cell = "Left" then some .left
  else none

/-- Two words say that a person joined, and one that a person left. -/
theorem actionOf?_eq_some_iff {cell : String} {s : Status} :
    actionOf? cell = some s ↔
      s = .joined ∧ (cell = "Joined" ∨ cell = "Joined before") ∨ s = .left ∧ cell = "Left" := by
  unfold actionOf?
  by_cases hjoined : cell = "Joined" ∨ cell = "Joined before"
  · have hleft : cell ≠ "Left" := by rcases hjoined with rfl | rfl <;> decide
    simp [hjoined, hleft, eq_comm]
  · by_cases hleft : cell = "Left" <;> simp [hjoined, hleft, eq_comm]

/-- No other word is known. -/
theorem actionOf?_eq_none_iff {cell : String} :
    actionOf? cell = none ↔ cell ∉ ["Joined", "Joined before", "Left"] := by
  simp only [Option.eq_none_iff_forall_ne_some, ne_eq, actionOf?_eq_some_iff, List.mem_cons,
    List.not_mem_nil, or_false]
  constructor
  · rintro h (hcell | hcell | hcell)
    · exact h .joined (.inl ⟨rfl, .inl hcell⟩)
    · exact h .joined (.inl ⟨rfl, .inr hcell⟩)
    · exact h .left (.inr ⟨rfl, hcell⟩)
  · rintro h s (⟨-, hcell | hcell⟩ | ⟨-, hcell⟩)
    · exact h (.inl hcell)
    · exact h (.inr (.inl hcell))
    · exact h (.inr (.inr hcell))

/-- The first column that has stood among the titles before. -/
def repeated? (seen : List Column) : List String → Option Column
  | [] => none
  | title :: titles =>
    match Column.ofTitle? title with
    | none => repeated? seen titles
    | some c => if c ∈ seen then some c else repeated? (c :: seen) titles

/-- What is wrong with the titles of a report. -/
def titlesFault? (titles : List String) : Option RowFault :=
  match repeated? [] titles with
  | some c => some (.duplicate c)
  | none => (Column.all.find? fun c => !titles.contains c.title).map .missing

/-- The cell of a row in a column. -/
def cellOf (titles cells : List String) (c : Column) : String :=
  ((titles.zip cells).find? (·.1 = c.title)).elim "" Prod.snd

/-- The entry of a row, given the titles. -/
def entryOf (titles cells : List String) : Except RowFault Entry :=
  if cells.length ≠ titles.length then .error (.length cells.length titles.length)
  else
    match titlesFault? titles with
    | some fault => .error fault
    | none =>
      let action := cellOf titles cells .action
      let time := cellOf titles cells .time
      match actionOf? action, Instant.ofReport? time with
      | none, _ => .error (.unknownAction action)
      | some _, none => .error (.unknownTime time)
      | some action, some time => .ok ⟨cellOf titles cells .name, action, time⟩

/-- The entries of some rows, the first of which has the given number. -/
def entriesFrom (titles : List String) : (number : Nat) → List Row → Except ReportError (List Entry)
  | _, [] => .ok []
  | number, row :: rows =>
    match entryOf titles (row.cells.map Text.trimmed) with
    | .error fault => .error ⟨number, row.place, fault⟩
    | .ok entry => (entriesFrom titles (number + 1) rows).map (entry :: ·)

/-- The entries of the rows of a report, the first of which has the titles. -/
def entriesOfRows : List Row → Except ReportError (List Entry)
  | [] => .ok []
  | titles :: rows => entriesFrom (titles.cells.map Text.trimmed) 1 rows

/-- The latest time of some entries. -/
def latest? : List Entry → Option Instant
  | [] => none
  | e :: es => some (es.foldl (fun t e => max t e.time) e.time)

/-- The names of some entries, in the order in which they first appear. -/
def names (entries : List Entry) : List String :=
  (entries.map Entry.name).eraseDups

/-- The events of one name. -/
def eventsOf (name : String) (entries : List Entry) : List Event :=
  (entries.filter (·.name = name)).map Entry.event

/-- The attendees of some entries. -/
def attendeesOf (entries : List Entry) : List Attendee :=
  match latest? entries with
  | none => []
  | some closedAt =>
    (names entries).map fun name => Attendee.ofEvents name (eventsOf name entries) closedAt

/-- The attendees of the rows of a report. -/
def attendeesOfRows (rows : List Row) : Except ReportError (List Attendee) :=
  (entriesOfRows rows).map attendeesOf

/-- The attendees of a report. -/
def attendees (text : String) : Except ReportError (List Attendee) :=
  attendeesOfRows (rows text)

end Report

end RollCall
