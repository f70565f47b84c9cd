/-
Options.

The encoding and the line template come from the arguments, else from a variable of the
surroundings, else from a default.  How much is told besides the result comes from the
surroundings first, else from the arguments.
-/
import RollCall.Command.Arguments

namespace RollCall.Command

/-- The variables of the surroundings that the command looks at. -/
structure Surroundings where
  encoding : Option String := none
  format : Option String := none
  logLevel : Option String := none
deriving DecidableEq, Repr

/-- How much is told besides the result. -/
inductive Level where
  | off
  | error
  | warn
  | info
  | debug
  | trace
deriving DecidableEq, Repr

namespace Level

/-- The place of a level: each tells what those before it tell, and more. -/
def rank : Level → Nat
  | .off => 0
  | .error => 1
  | .warn => 2
  | .info => 3
  | .debug => 4
  | .trace => 5

/-- The name of a level in five characters. -/
def tag : Level → String
  | .off => "OFF  "
  | .error => "ERROR"
  | .warn => "WARN "
  | .info => "INFO "
  | .debug => "DEBUG"
  | .trace => "TRACE"

/-- All levels, from the one that tells least. -/
def all : List Level :=
  [.off, .error, .warn, .info, .debug, .trace]

/-- The name of a level. -/
def name : Level → String
  | .off => "off"
  | .error => "error"
  | .warn => "warn"
  | .info => "info"
  | .debug => "debug"
  | .trace => "trace"

/-- The level of a name, in any case. -/
def ofName? (s : String) : Option Level :=
  let folded := String.ofList (s.toList.map Char.toLower)
  all.find? (·.name = folded)

end Level

/-- What the command is to do. -/
structure Options where
  encoding : Encoding
  format : String
  verbose : Bool
  level : Level
  file : String
  query : String
deriving DecidableEq, Repr

namespace Options

/-- The line template that is used if none is asked for. -/
def defaultFormat : String := "\x7bname\x7d"

/-- The encoding of the surroundings, looked at only if no argument names one. -/
def surroundingEncoding (a : Arguments) (s : Surroundings) : Except UsageError Encoding :=
  match a.encoding, s.encoding with
  | some e, _ => .ok e
  | none, some name => (Encoding.ofName? name).elim (.error (.unknownEncoding name)) .ok
  | none, none => .ok .utf8

/-- The level that the surroundings ask for, else a low or a high one as the arguments say. -/
def levelOf (a : Arguments) (s : Surroundings) : Level :=
  match s.logLevel with
  | some name => (Level.ofName? name).getD .off
  | none => if a.verbose then .debug else .warn

/-- What the arguments and the surroundings ask for. -/
def ofArguments (a : Arguments) (s : Surroundings) : Except UsageError Options :=
  match surroundingEncoding a s, a.file with
  | .error e, _ => .error e
  | .ok _, none => .error .noFile
  | .ok encoding, some file =>
    .ok {
      encoding := if a.utf16 then .utf16 else encoding
      format := a.format.getD (s.format.getD defaultFormat)
      verbose := a.verbose
      level := levelOf a s
      file := file
      query := a.query.getD "" }

/-- What a command line asks for. -/
def read (words : List String) (s : Surroundings) : Except UsageError Options :=
  match Arguments.read words with
  | .ok a => ofArguments a s
  | .error e => .error e

end Options

end RollCall.Command
