/-
Arguments.

The command takes a file, and a query if there is one to ask, and besides parameters, which
have a value, and flags, which have none.  Either is named behind two hyphens, and some have
a letter that may stand behind one; letters may be drawn together up to that of a parameter.
The value of a parameter stands behind its name or its letter, or in the next word if that
does not look like an option.  Nothing may be given twice.  Behind two hyphens alone every
word is taken as it is.

The file, and a value in a word of its own, are looked at only when something else is met
that may follow them.  So a word that is nothing known, or one word too many, is refused
before what stands in front of it.

Words that are refused are repeated as a terminal shows them, so that nobody's
arguments steer the terminal that the message is read on.
-/
import RollCall.Encoding
import RollCall.Text.ControlSequence

namespace RollCall.Command

/-- What is given with a value. -/
inductive Parameter where
  | encoding
  | format
deriving DecidableEq, Repr

/-- What is given or not. -/
inductive Flag where
  | utf16
  | verbose
deriving DecidableEq, Repr

/-- What a command line may say besides the file and the query. -/
inductive Setting where
  | parameter (p : Parameter)
  | flag (f : Flag)
deriving DecidableEq, Repr

namespace Setting

/-- All settings. -/
def all : List Setting :=
  [.parameter .encoding, .flag .utf16, .parameter .format, .flag .verbose]

/-- The name of a setting, which stands behind two hyphens. -/
def name : Setting → String
  | .parameter .encoding => "encoding"
  | .parameter .format => "format"
  | .flag .utf16 => "utf16"
  | .flag .verbose => "verbose"

/-- The letter of a setting, if it has one. -/
def letter? : Setting → Option Char
  | .parameter .format => some 'f'
  | .flag .verbose => some 'v'
  | .parameter .encoding | .flag .utf16 => none

/-- How messages speak of a setting: a parameter is shown with a place for its value. -/
def title (s : Setting) : String :=
  match s with
  | .parameter _ =>
    "--" ++ s.name ++ " <" ++ String.ofList (s.name.toList.map Char.toUpper) ++ ">"
  | .flag _ => "--" ++ s.name

/-- The setting of a name. -/
def ofName? (name : String) : Option Setting :=
  all.find? (·.name = name)

/-- The setting of a letter. -/
def ofLetter? (c : Char) : Option Setting :=
  all.find? (·.letter? = some c)

end Setting

/-- Why a command cannot be carried out. -/
inductive UsageError where
  | unknownEncoding (name : String)
  | emptyFile
  | noFile
  | unexpected (word : String)
  | noValue (p : Parameter)
  /-- a flag was given a value -/
  | unneeded (value : String) (f : Flag)
  | repeated (s : Setting)
deriving DecidableEq, Repr

/-- What is said about a command that cannot be carried out. -/
def UsageError.message : UsageError → String
  | .unknownEncoding name =>
    "invalid value '" ++ Text.visible name ++ "' for '" ++ (Setting.parameter .encoding).title ++
      "': " ++ Encoding.unknownMessage name
  | .emptyFile => "a value is required for '<FILE>' but none was supplied"
  | .noFile => "the following required arguments were not provided: <FILE>"
  | .unexpected word => "unexpected argument '" ++ Text.visible word ++ "' found"
  | .noValue p =>
    "a value is required for '" ++ (Setting.parameter p).title ++ "' but none was supplied"
  | .unneeded value f =>
    "unexpected value '" ++ Text.visible value ++ "' for '" ++ (Setting.flag f).title ++
      "' found; no more were expected"
  | .repeated s => "the argument '" ++ s.title ++ "' cannot be used multiple times"

/-- The notes on a command that cannot be carried out. -/
def UsageError.notes (e : UsageError) : List String :=
  ["error: " ++ e.message, "", "For more information, try '--help'."]

/-- The arguments as they were given. -/
structure Arguments where
  encoding : Option Encoding := none
  format : Option String := none
  utf16 : Bool := false
  verbose : Bool := false
  file : Option String := none
  query : Option String := none
deriving DecidableEq, Repr

namespace Arguments

/-- Whether a setting has been given. -/
def has (a : Arguments) : Setting → Bool
  | .parameter .encoding => a.encoding.isSome
  | .parameter .format => a.format.isSome
  | .flag .utf16 => a.utf16
  | .flag .verbose => a.verbose

/-- Takes the value of a parameter. -/
def choose (a : Arguments) (p : Parameter) (value : String) : Except UsageError Arguments :=
  if a.has (.parameter p) then .error (.repeated (.parameter p))
  else
    match p with
    | .encoding =>
      match Encoding.ofName? value with
      | some e => .ok { a with encoding := some e }
      | none => .error (.unknownEncoding value)
    | .format => .ok { a with format := some value }

/-- Takes a flag. -/
def raise (a : Arguments) (f : Flag) : Except UsageError Arguments :=
  if a.has (.flag f) then .error (.repeated (.flag f))
  else
    match f with
    | .utf16 => .ok { a with utf16 := true }
    | .verbose => .ok { a with verbose := true }

end Arguments

/-- What was met last, if it is still to be looked at. -/
inductive Pending where
  | nothing
  /-- a parameter, and its value unless that is still to come -/
  | parameter (p : Parameter) (value : Option String)
  | file (word : String)
deriving DecidableEq, Repr

/-- How far the words have been read. -/
structure Progress where
  taken : Arguments := {}
  pending : Pending := .nothing
deriving DecidableEq, Repr

namespace Progress

/-- Looks at what was met last. -/
def settle (r : Progress) : Except UsageError Arguments :=
  match r.pending with
  | .nothing => .ok r.taken
  | .parameter p none => .error (.noValue p)
  | .parameter p (some value) => r.taken.choose p value
  | .file word => if word.isEmpty then .error .emptyFile else .ok { r.taken with file := some word }

@[simp] theorem settle_nothing (a : Arguments) : settle ⟨a, .nothing⟩ = .ok a := rfl

/-- Takes a parameter; its value may still be to come. -/
def takeParameter (r : Progress) (p : Parameter) (value : Option String) :
    Except UsageError Progress :=
  match r.settle, value with
  | .error e, _ => .error e
  | .ok a, none => .ok ⟨a, .parameter p none⟩
  | .ok a, some value => (a.choose p value).map (⟨·, .nothing⟩)

/-- Takes a flag. -/
def takeFlag (r : Progress) (f : Flag) : Except UsageError Progress :=
  match r.settle with
  | .error e => .error e
  | .ok a => (a.raise f).map (⟨·, .nothing⟩)

/-- Takes a name, and what stands behind an equals sign. -/
def takeName (r : Progress) (name : String) (value : Option String) : Except UsageError Progress :=
  match Setting.ofName? name, value with
  | none, _ => .error (.unexpected ("--" ++ name))
  | some (.parameter p), value => r.takeParameter p value
  | some (.flag f), none => r.takeFlag f
  | some (.flag f), some value => .error (.unneeded value f)

/-- What stands behind the letter of a parameter, with or without an equals sign. -/
def behindLetter : List Char → Option String
  | [] => none
  | '=' :: value => some (String.ofList value)
  | value => some (String.ofList value)

/-- Takes letters; behind that of a parameter stands its value. -/
def takeLetters (r : Progress) : List Char → Except UsageError Progress
  | [] => .ok r
  | c :: cs =>
    match Setting.ofLetter? c with
    | none => .error (.unexpected (String.ofList ['-', c]))
    | some (.parameter p) => r.takeParameter p (behindLetter cs)
    | some (.flag f) =>
      match r.takeFlag f with
      | .error e => .error e
      | .ok r => r.takeLetters cs

/-- Takes a word that is no option: the file first, then the query. -/
def takePlain (r : Progress) (word : String) : Except UsageError Progress :=
  if r.taken.query.isSome then .error (.unexpected word)
  else
    match r.settle with
    | .error e => .error e
    | .ok a =>
      if a.file.isNone then .ok ⟨a, .file word⟩ else .ok ⟨{ a with query := some word }, .nothing⟩

/-- Takes words none of which is an option. -/
def takePlains (r : Progress) : List String → Except UsageError Progress
  | [] => .ok r
  | word :: rest =>
    match r.takePlain word with
    | .error e => .error e
    | .ok r => r.takePlains rest

/-- Takes a word that may be an option, or the value of the parameter in front of it; a single
hyphen is no option. -/
def takeWord (r : Progress) (word : String) : Except UsageError Progress :=
  match word.toList, r.pending with
  | '-' :: '-' :: cs, _ =>
    let name := cs.takeWhile (· ≠ '=')
    r.takeName (String.ofList name) ((cs.drop name.length).tail?.map String.ofList)
  | '-' :: c :: cs, _ => r.takeLetters (c :: cs)
  | _, .parameter p none => .ok { r with pending := .parameter p (some word) }
  | _, _ => r.takePlain word

/-- Takes words; behind two hyphens none is an option any more. -/
def takeWords (r : Progress) : List String → Except UsageError Progress
  | [] => .ok r
  | word :: rest =>
    if word = "--" then r.takePlains rest
    else
      match r.takeWord word with
      | .error e => .error e
      | .ok r => r.takeWords rest

end Progress

/-- The arguments of a command line. -/
def Arguments.read (words : List String) : Except UsageError Arguments :=
  match Progress.takeWords {} words with
  | .error e => .error e
  | .ok r => r.settle

end RollCall.Command
