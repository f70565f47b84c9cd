/-
Carrying out a command.

A run ends in one of three ways: somebody matches, nobody does, or something fails.
Lines are written to the output in the first case alone.  Besides, a run leaves notes,
among them its log: what the query was understood as, how many attendees were loaded,
and how many of them match.

The work is cut in two where the file is read, so that the outer layer can read it in
between: what goes wrong before that shows without the file being touched.
-/
import RollCall.Command.Options
import RollCall.Command.Search
import RollCall.Text.Lines

namespace RollCall.Command

/-- How a run ends. -/
inductive Ending where
  | matched
  | nobody
  | failed
deriving DecidableEq, Repr

/-- The exit code of an ending. -/
def Ending.exitCode : Ending → Nat
  | .matched => 0
  | .nobody => 1
  | .failed => 2

/-- What a run leaves: its ending, its output, and its notes. -/
structure Outcome where
  ending : Ending
  output : String
  notes : List String
deriving DecidableEq, Repr

/-- The notes as one text. -/
def Outcome.noteText (o : Outcome) : String :=
  String.join (o.notes.map (· ++ "\n"))

/-- The lines of the notes; a note that repeats a line feed takes more than one. -/
def Outcome.noteLines (o : Outcome) : List String :=
  (Text.lines o.noteText.toList).map String.ofList

/-- A failed run. -/
def Outcome.failure (notes : List String) : Outcome :=
  ⟨.failed, "", notes⟩

/-- A line of the log, if its level is among those that are told. -/
def logLine (told level : Level) (target text : String) : List String :=
  if level.rank ≤ told.rank then ["[" ++ level.tag ++ " " ++ target ++ "] " ++ text] else []

/-- A run whose file is to be read next. -/
structure Job where
  options : Options
  search : Search
  notes : List String
deriving DecidableEq, Repr

namespace Job

/-- The log of a query that was read. -/
def queryLog (o : Options) : Option Query.Expr → List String
  | none => []
  | some e => logLine o.level .debug "mstatq::query::compile" ("parsed query: " ++ e.render)

/-- Begins a run: all that can be done before the file is read. -/
def begin (o : Options) : Except Outcome Job :=
  match Search.ofTexts o.format o.query with
  | .error e => .error (.failure (e.notes o.verbose))
  | .ok search => .ok ⟨o, search, queryLog o search.query⟩

/-- The log of a report that was loaded. -/
def loadLog (o : Options) (attendees : List Attendee) : List String :=
  logLine o.level .debug "mstatq::table"
    ("loaded " ++ toString attendees.length ++ " attendees from " ++ o.file ++ " (" ++
      o.encoding.name ++ ")")

/-- The log of a search that came to its end. -/
def matchLog (o : Options) (chosen attendees : List Attendee) : List String :=
  logLine o.level .info "mstatq"
    (toString chosen.length ++ " of " ++ toString attendees.length ++ " attendees matched")

/-- Ends a run, given what reading the file brought. -/
def finish (job : Job) (content : Except FileError (List UInt8)) : Outcome :=
  let o := job.options
  match load o.file o.encoding content with
  | .error e => .failure (job.notes ++ e.notes o.verbose)
  | .ok attendees =>
    let notes := job.notes ++ loadLog o attendees
    match job.search.chosen attendees with
    | .error e => .failure (notes ++ e.notes o.verbose)
    | .ok chosen =>
      ⟨if chosen.isEmpty then .nobody else .matched, job.search.text chosen,
        notes ++ matchLog o chosen attendees⟩

end Job

/-- Begins the run of a command line. -/
def start (words : List String) (s : Surroundings) : Except Outcome Job :=
  match Options.read words s with
  | .error e => .error (.failure e.notes)
  | .ok o => Job.begin o

/-- The run of a command line, given what reading each file brings. -/
def run (words : List String) (s : Surroundings)
    (files : String → Except FileError (List UInt8)) : Outcome :=
  match start words s with
  | .error outcome => outcome
  | .ok job => job.finish (files job.options.file)

end RollCall.Command
