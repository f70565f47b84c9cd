/-
Searching a report.

A search is a line template and a query, both read before the report is.  The report is
then decoded and grouped into attendees, everybody is asked about in turn, and only if
nobody's answer is an error are the lines of those who match written.  Whatever fails
first is the failure of the whole search.
-/
import RollCall.Encoding
import RollCall.Query.Predicate
import RollCall.Table.Report
import RollCall.Template

namespace RollCall.Command

/-- Why a file cannot be read. -/
inductive FileError where
  | missing
  | isDirectory
  | other (text : String)
deriving DecidableEq, Repr

/-- What is said about a file that cannot be read. -/
def FileError.message : FileError → String
  | .missing => "No such file or directory (os error 2)"
  | .isDirectory => "Is a directory (os error 21)"
  | .other text => text

/-- Why a search fails. -/
inductive Failure where
  | template (e : TemplateError)
  | query (e : Query.Error)
  | file (path : String) (e : FileError)
  | encoding (e : Encoding)
  | report (e : ReportError)
  | evaluation (e : CompareError)
deriving DecidableEq, Repr

/-- The notes on a failure; the fault of a query is told only to those who ask for details. -/
def Failure.notes (details : Bool) : Failure → List String
  | .template e => ["Format error: " ++ e.message]
  | .query e => "Invalid query entered!" :: if details then [e.message] else []
  | .file path e => ["Error: cannot read " ++ path ++ ": " ++ e.message]
  | .encoding e => ["Error: " ++ e.invalidMessage]
  | .report e => ["Error: " ++ e.message]
  | .evaluation e => ["Error: " ++ e.message]

/-- What is looked for, and how it is shown. -/
structure Search where
  template : Template
  query : Option Query.Expr
deriving DecidableEq, Repr

namespace Search

/-- The search that a template text and a query text ask for. -/
def ofTexts (format query : String) : Except Failure Search :=
  match Template.ofText format with
  | .error e => .error (.template e)
  | .ok template =>
    match Query.request query with
    | .error e => .error (.query e)
    | .ok request => .ok ⟨template, request⟩

/-- Who matches, in order; the first error stands for all. -/
def select (accepts : Query.Predicate) : List Attendee → Except CompareError (List Attendee)
  | [] => .ok []
  | a :: rest =>
    match accepts a with
    | .error e => .error e
    | .ok matched => (select accepts rest).map fun chosen => if matched then a :: chosen else chosen

/-- The attendees who match. -/
def chosen (s : Search) (attendees : List Attendee) : Except Failure (List Attendee) :=
  (select (Query.Predicate.ofRequest s.query) attendees).mapError .evaluation

/-- The lines of some attendees, each ended by a line feed. -/
def text (s : Search) (attendees : List Attendee) : String :=
  String.join (attendees.map fun a => s.template.render a ++ "\n")

end Search

/-- The attendees of a file, given what reading it brought. -/
def load (path : String) (encoding : Encoding) (content : Except FileError (List UInt8)) :
    Except Failure (List Attendee) :=
  match content with
  | .error e => .error (.file path e)
  | .ok bytes =>
    match encoding.decode? bytes with
    | none => .error (.encoding encoding)
    | some text => (Report.attendees text).mapError .report

end RollCall.Command
