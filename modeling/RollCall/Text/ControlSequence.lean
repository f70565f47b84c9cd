/-
Control sequences.

A text may hold sequences that steer a terminal and are not shown.  An escape character
begins a sequence, and what stands behind it says of which sort the sequence is and so
how far it reaches.  Wherever it stands, an escape character begins anew, and a cancel
or a substitute character ends what is open.

`visible` leaves the sequences out, and so every control character that is not blank.
A blank control character inside a short sequence is shown nevertheless, and so is what
follows it; the next control character that is not shown takes the sequence up again.
-/
namespace RollCall.Text

/-- A mark between an escape character and the end of its sequence. -/
def isMark (c : Char) : Bool :=
  ' ' ≤ c && c ≤ '/'

/-- A parameter of a sequence: a digit or one of the six signs behind the digits. -/
def isParameter (c : Char) : Bool :=
  '0' ≤ c && c ≤ '?'

/-- A character that ends a sequence: the ASCII characters from the commercial at to the tilde. -/
def isFinal (c : Char) : Bool :=
  '@' ≤ c && c ≤ '~'

/-- The control characters that are blank: tab, line feed, form feed and carriage return. -/
def isBlankControl (c : Char) : Bool :=
  c = '\t' || c = '\n' || c = '\x0c' || c = '\r'

/-- A character that a terminal shows, or leaves a blank for. -/
def isShown (c : Char) : Bool :=
  (' ' ≤ c && c ≠ '\x7f') || isBlankControl c

/-- The byte that ends data is among those that encode the character. -/
def holdsTerminator (c : Char) : Bool :=
  (String.utf8EncodeChar c).contains 0x9c

/-- A sequence that is open. -/
inductive ControlSequence where
  /-- nothing but the escape character -/
  | escape
  /-- an escape character and marks -/
  | marked
  /-- a command to the terminal -/
  | command
  /-- a command to the system around the terminal, which only a bell ends -/
  | systemCommand
  /-- a command to a device, up to its first parameter -/
  | device
  /-- a command to a device, up to its first mark -/
  | deviceParameters
  /-- a command to a device, up to its data -/
  | deviceMarks
  /-- data, of whatever use -/
  | data
deriving DecidableEq, Repr

namespace ControlSequence

/-- A sequence that is soon over shows the blank control characters inside it. -/
def isShort : ControlSequence → Bool
  | .escape | .marked | .command => true
  | _ => false

/-- What is open behind one more character, if anything is. -/
def next? (s : ControlSequence) (c : Char) : Option ControlSequence :=
  match s with
  | .escape =>
    if isMark c then some .marked
    else if c = '[' then some .command
    else if c = ']' then some .systemCommand
    else if c = 'P' then some .device
    else if c = 'X' ∨ c = '^' ∨ c = '_' then some .data
    else if isParameter c || isFinal c then none
    else some .escape
  | .marked => if isParameter c || isFinal c then none else some .marked
  | .command => if isFinal c then none else some .command
  | .systemCommand => if c = '\x07' then none else some .systemCommand
  | .device =>
    if isMark c then some .deviceMarks
    else if isParameter c then some .deviceParameters
    else if isFinal c then some .data
    else some .device
  | .deviceParameters =>
    if isMark c then some .deviceMarks
    else if ('<' ≤ c ∧ c ≤ '?') ∨ isFinal c then some .data
    else some .deviceParameters
  | .deviceMarks => if isParameter c || isFinal c then some .data else some .deviceMarks
  | .data => if holdsTerminator c then none else some .data

end ControlSequence

/-- How a text is read at some place. -/
inductive Reading where
  | plain
  | inside (s : ControlSequence)
  /-- plainly, behind a blank control character inside a sequence -/
  | interrupted (s : ControlSequence)
deriving DecidableEq, Repr

namespace Reading

/-- Whether a character is shown, and how the text is read behind it. -/
def step (r : Reading) (c : Char) : Bool × Reading :=
  if c = '\x1b' then (false, .inside .escape)
  else if c = '\x18' ∨ c = '\x1a' then (false, .plain)
  else
    match r with
    | .plain => (isShown c, .plain)
    | .inside s =>
      if s.isShort && isBlankControl c then (true, .interrupted s)
      else (false, (s.next? c).elim .plain .inside)
    | .interrupted s =>
      if isShown c then (true, if c ≤ '\x7f' then .interrupted s else .plain)
      else (false, .inside s)

/-- The characters of a text that are shown. -/
def visible : Reading → List Char → List Char
  | _, [] => []
  | r, c :: cs =>
    match r.step c with
    | (true, next) => c :: next.visible cs
    | (false, next) => next.visible cs

/-- Nothing is left out of a text without control characters. -/
theorem visible_plain {cs : List Char} (shown : ∀ c ∈ cs, isShown c = true) :
    plain.visible cs = cs := by
  induction cs with
  | nil => rfl
  | cons c cs ih =>
    have first : isShown c = true := shown c List.mem_cons_self
    have escape : c ≠ '\x1b' := by rintro rfl; exact absurd first (by decide)
    have cancel : c ≠ '\x18' := by rintro rfl; exact absurd first (by decide)
    have substitute : c ≠ '\x1a' := by rintro rfl; exact absurd first (by decide)
    have rest : plain.visible cs = cs := ih fun c h => shown c (List.mem_cons_of_mem _ h)
    simp [visible, step, escape, cancel, substitute, first, rest]

end Reading

/-- What a terminal shows of a text. -/
def visible (s : String) : String :=
  String.ofList (Reading.plain.visible s.toList)

example : visible "a\x1b[31mb\x07c" = "abc" := by decide +kernel

/-- A sequence that is not ended takes the rest of the text with it. -/
example : visible "a\x1b]0;bcd" = "a" := by decide +kernel

/-- A tab inside a command is shown, and so are the letters behind it up to the bell; the first
letter behind the bell ends the command. -/
example : visible "\x1b[\tab\x07cd" = "\tabd" := by decide +kernel

end RollCall.Text
