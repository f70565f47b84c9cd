/-
The fields of an attendee.

Queries and line templates name six things that can be said of an attendee.
-/
import RollCall.Attendance.Session
import RollCall.Value

namespace RollCall

/-- Something that can be said of an attendee. -/
inductive Field where
  | name
  | firstJoin
  | lastLeft
  | durations
  | total
  | finalStatus
deriving DecidableEq, Repr, Inhabited

namespace Field

/-- All fields, in the order in which they are listed. -/
def all : List Field :=
  [.name, .firstJoin, .lastLeft, .durations, .total, .finalStatus]

/-- The word by which a field is asked for. -/
def keyword : Field → String
  | .name => "name"
  | .firstJoin => "first_join"
  | .lastLeft => "last_left"
  | .durations => "durations"
  | .total => "total"
  | .finalStatus => "final_status"

/-- The field of a keyword. -/
def ofKeyword? (word : String) : Option Field :=
  all.find? (·.keyword = word)

/-- Every field is found by its keyword. -/
@[simp] theorem ofKeyword?_keyword (f : Field) : ofKeyword? f.keyword = some f := by
  cases f <;> decide

/-- Only its keyword finds a field. -/
theorem keyword_of_ofKeyword? {word : String} {f : Field} (h : ofKeyword? word = some f) :
    f.keyword = word := by
  simpa using List.find?_some h

/-- The kind of what a field holds, whoever it is read off. -/
def kind : Field → Kind
  | .name => .text
  | .firstJoin | .lastLeft => .instant
  | .durations => .spans
  | .total => .span
  | .finalStatus => .status

/-- What a field holds for an attendee. -/
def read (f : Field) (a : Attendee) : Value :=
  match f with
  | .name => .text a.name
  | .firstJoin => .instant a.firstJoin
  | .lastLeft => .instant a.lastLeft
  | .durations => .spans a.durations
  | .total => .span a.total
  | .finalStatus => .status a.finalStatus

@[simp] theorem kind_read (f : Field) (a : Attendee) : (f.read a).kind = f.kind := by
  cases f <;> rfl

end Field

end RollCall
