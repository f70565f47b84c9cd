/-
From characters to tokens.

The first character of a token decides how far it reaches.  Digits are looked at
longest shape first: a date with a time of day, then a time alone, which is a span,
and only then a number.  A scan gives the symbol and how many characters follow the
first one, so nothing of the text can be lost between two tokens; the walk over the
text then passes over that many characters and goes on behind them.

A fault always stands where its token begins.
-/
import RollCall.Binary64.Numeral
import RollCall.Instant.Pattern
import RollCall.Query.Token
import RollCall.Text.Measure
import RollCall.Text.Quoted

namespace RollCall.Query

/-- Why no token begins with the characters at some place. -/
inductive Fault where
  | unexpected (c : Char)
  | unknownWord (word : String)
  /-- a quotation mark that is not answered by another -/
  | unterminated
  /-- the shape of an instant, but no instant of the calendar -/
  | noSuchInstant (text : String)
deriving DecidableEq, Repr

/-- A fault and the place where it stands. -/
structure ScanError where
  position : Nat
  fault : Fault
deriving DecidableEq, Repr

/-- What is said about a fault. -/
def ScanError.message (e : ScanError) : String :=
  let place := " at position " ++ toString e.position
  match e.fault with
  | .unexpected c => "unexpected character " ++ Text.quotedChar c ++ place
  | .unknownWord word => "unknown word " ++ Text.quoted word ++ place
  | .unterminated => "unterminated string starting" ++ place
  | .noSuchInstant text => "invalid timestamp " ++ Text.quoted text ++ place

namespace Token

/-- What a character behind a backslash stands for; a backslash in front of any other character
stands for itself. -/
def unescape (c : Char) : List Char :=
  if c = 'n' then ['\n']
  else if c = 't' then ['\t']
  else if c = 'r' then ['\r']
  else if c = '"' ∨ c = '\\' then [c]
  else ['\\', c]

/-- The text up to the closing quotation mark, and how many characters it takes with that mark. -/
def readText : List Char → Option (List Char × Nat)
  | [] => none
  | [c] => if c = '"' then some ([], 1) else none
  | c :: d :: cs =>
    if c = '"' then some ([], 1)
    else if c = '\\' then (readText cs).map fun (text, n) => (unescape d ++ text, n + 2)
    else (readText (d :: cs)).map fun (text, n) => (c :: text, n + 1)

/-- A text begins with a shape, in which a nine stands for any digit. -/
def fits : List Char → List Char → Bool
  | [], _ => true
  | _ :: _, [] => false
  | s :: shape, c :: cs => (if s = '9' then c.isDigit else c == s) && fits shape cs

/-- The shape of an instant. -/
def instantShape : List Char :=
  ['9', '9', '9', '9', '-', '9', '9', '-', '9', '9', ' ', '9', '9', ':', '9', '9', ':', '9', '9']

/-- The shape of a span. -/
def spanShape : List Char :=
  ['9', '9', ':', '9', '9', ':', '9', '9']

/-- The span that hours, minutes and seconds of two digits each add up to; minutes and seconds may
go past fifty-nine. -/
def readSpan (cs : List Char) : Span :=
  let part := fun place => (Text.ofDigits ((cs.drop place).take 2) : Int)
  .ofSeconds (part 0 * 3600 + part 3 * 60 + part 6)

/-- A numeral. -/
def scanNumeral (c : Char) (cs : List Char) : Except Fault (Symbol × Nat) :=
  match Binary64.Numeral.read? (c :: cs) with
  | some n => .ok (.literal (.number n.value), n.text.length - 1)
  | none => .error (.unexpected c)

/-- What begins with a digit: an instant, a span or a numeral. -/
def scanDigits (c : Char) (cs : List Char) : Except Fault (Symbol × Nat) :=
  if fits instantShape (c :: cs) then
    let text := (c :: cs).take instantShape.length
    match Instant.read? Instant.wholeDayPattern text with
    | some t => .ok (.literal (.instant t), instantShape.length - 1)
    | none => .error (.noSuchInstant (String.ofList text))
  else if fits spanShape (c :: cs) then
    .ok (.literal (.span (readSpan (c :: cs))), spanShape.length - 1)
  else scanNumeral c cs

/-- An operator; an equals sign or an exclamation mark has to have an equals sign behind it. -/
def scanOperator (c : Char) (cs : List Char) : Except Fault (Symbol × Nat) :=
  let withEquals := cs.head? == some '='
  match c, withEquals with
  | '=', true => .ok (.operator .eq, 1)
  | '!', true => .ok (.operator .ne, 1)
  | '<', true => .ok (.operator .le, 1)
  | '>', true => .ok (.operator .ge, 1)
  | '<', false => .ok (.operator .lt, 0)
  | '>', false => .ok (.operator .gt, 0)
  | _, _ => .error (.unexpected c)

/-- A text between quotation marks. -/
def scanText (cs : List Char) : Except Fault (Symbol × Nat) :=
  match readText cs with
  | some (text, n) => .ok (.literal (.text (String.ofList text)), n)
  | none => .error .unterminated

/-- A character that may begin a word. -/
def beginsWord (c : Char) : Bool :=
  c.isAlpha || c == '_'

/-- A character that may go on in a word. -/
def continuesWord (c : Char) : Bool :=
  c.isAlphanum || c == '_'

/-- A word: the longest run of letters, digits and underscores. -/
def scanWord (c : Char) (cs : List Char) : Except Fault (Symbol × Nat) :=
  let rest := cs.takeWhile continuesWord
  let word := String.ofList (c :: rest)
  match Symbol.ofWord? word with
  | some symbol => .ok (symbol, rest.length)
  | none => .error (.unknownWord word)

/-- The symbol that a text begins with, and how many characters it takes behind the first. -/
def scan (c : Char) (cs : List Char) : Except Fault (Symbol × Nat) :=
  if c = '(' then .ok (.opening, 0)
  else if c = ')' then .ok (.closing, 0)
  else if c = '%' then .ok (.operator .contains, 0)
  else if c = '=' ∨ c = '!' ∨ c = '<' ∨ c = '>' then scanOperator c cs
  else if c = '"' then scanText cs
  else if c.isDigit then scanDigits c cs
  else if c = '+' ∨ c = '-' ∨ c = '.' then scanNumeral c cs
  else if beginsWord c then scanWord c cs
  else .error (.unexpected c)

end Token

namespace Tokens

/-- The tokens with one more in front. -/
def push (t : Token) (ts : Tokens) : Tokens :=
  { ts with list := t :: ts.list }

/-- The tokens of a text that begins at the given place, when its first characters, as many as
`skip` says, belong to a token already taken. -/
def scanFrom : (skip : Nat) → (position : Nat) → List Char → Except ScanError Tokens
  | _, position, [] => .ok ⟨[], position⟩
  | skip + 1, position, c :: cs => scanFrom skip (position + c.utf8Size) cs
  | 0, position, c :: cs =>
    if Text.isBlank c then scanFrom 0 (position + c.utf8Size) cs
    else
      match Token.scan c cs with
      | .error fault => .error ⟨position, fault⟩
      | .ok (symbol, extra) =>
        let token := ⟨symbol, String.ofList (c :: cs.take extra), position⟩
        (scanFrom extra (position + c.utf8Size) cs).map (push token)

/-- Characters that belong to a token already taken are passed over. -/
theorem scanFrom_skip (skip position : Nat) (cs : List Char) :
    scanFrom skip position cs =
      scanFrom 0 (position + Text.byteLength (cs.take skip)) (cs.drop skip) := by
  induction skip generalizing position cs with
  | zero => simp
  | succ skip ih =>
    cases cs with
    | nil => simp [scanFrom]
    | cons c cs => simp [scanFrom, ih, Nat.add_assoc]

/-- The tokens of a text. -/
def ofText (text : String) : Except ScanError Tokens :=
  scanFrom 0 0 text.toList

end Tokens

end RollCall.Query
