/-
Values.

What a query compares and a line shows: texts, numbers, spans, instants, truth values,
statuses, and the list of spans that the sessions of one person make.
-/
import RollCall.Attendance
import RollCall.Binary64.Shortest

namespace RollCall

/-- The kinds of values. -/
inductive Kind where
  | text
  | number
  | span
  | instant
  | truth
  | status
  | spans
deriving DecidableEq, Repr, Inhabited

/-- The name of a kind in messages. -/
def Kind.name : Kind → String
  | .text => "string"
  | .number => "number"
  | .span => "duration"
  | .instant => "timestamp"
  | .truth => "bool"
  | .status => "status"
  | .spans => "duration list"

/-- A value that is written in a query or read off an attendee. -/
inductive Value where
  | text (s : String)
  | number (x : Binary64)
  | span (d : Span)
  | instant (t : Instant)
  | truth (b : Bool)
  | status (s : Status)
  | spans (ds : List Span)
deriving DecidableEq, Repr

namespace Value

instance : Inhabited Value := ⟨.truth false⟩

/-- The kind of a value. -/
def kind : Value → Kind
  | .text _ => .text
  | .number _ => .number
  | .span _ => .span
  | .instant _ => .instant
  | .truth _ => .truth
  | .status _ => .status
  | .spans _ => .spans

/-- The words for the truth values. -/
def truthWord (b : Bool) : String :=
  if b then "true" else "false"

/-- The text that a value shows. -/
def render : Value → String
  | .text s => s
  | .number x => x.render
  | .span d => d.render
  | .instant t => t.render
  | .truth b => truthWord b
  | .status s => s.word
  | .spans ds => Span.renderList ds

end Value

end RollCall
