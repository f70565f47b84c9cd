/-
Why a text is no query.

Either no token begins with the characters at some place, or a token does not fit what
stands in front of it, or a status is put between quotation marks, or the text goes past
one of two limits.  A token that does not fit is told together with all that would have
fitted there.
-/
import RollCall.Query.Token.Scan

namespace RollCall.Query

/-- Something that a query might have gone on with. -/
inductive Label where
  | opening
  | closing
  | connective (c : Connective)
  | operator (op : Operator)
  | field
  | text
  | number
  | truth
  | status
  | span
  | instant
  | bracketedSpan
  | bracketedInstant
  /-- the word for a status, without quotation marks -/
  | statusWord (s : Status)
  | endOfText
deriving DecidableEq, Repr

/-- How messages speak of what was expected. -/
def Label.description : Label → String
  | .opening => "`(`"
  | .closing => "`)`"
  | .connective c => "`" ++ c.word ++ "`"
  | .operator op => "`" ++ op.symbol ++ "`"
  | .field => "field name"
  | .text => "string"
  | .number => "number"
  | .truth => "boolean"
  | .status => "status"
  | .span => "duration"
  | .instant => "timestamp"
  | .bracketedSpan => "`(` duration `)`"
  | .bracketedInstant => "`(` timestamp `)`"
  | .statusWord s => "`" ++ s.word ++ "`"
  | .endOfText => "end of input"

/-- A token that does not fit, or the end of the text if there is none, where it stands, and what
would have fitted. -/
structure Misplaced where
  position : Nat
  found : Option Token
  expected : List Label
deriving DecidableEq, Repr

/-- What is said about a token that does not fit. -/
def Misplaced.message (e : Misplaced) : String :=
  "unexpected " ++ (e.found.map Token.description).getD Label.endOfText.description ++
    " at position " ++ toString e.position ++ ", expected one of: " ++
    String.intercalate ", " (e.expected.map Label.description)

/-- Why a text is no query. -/
inductive Error where
  | scan (e : ScanError)
  | misplaced (e : Misplaced)
  /-- a text that spells a status, and is compared with one -/
  | misquoted (t : Token)
  | tooLong (bytes : Nat)
  | tooDeep
deriving DecidableEq, Repr

/-- The most bytes that a query may have. -/
def longestQuery : Nat := 4096

/-- The most groups that may be open at one time. -/
def deepestNesting : Nat := 64

/-- What is said about a text that is no query. -/
def Error.message : Error → String
  | .scan e => e.message
  | .misplaced e => e.message
  | .misquoted t =>
    Misplaced.message ⟨t.position, some t, [.statusWord .joined, .statusWord .left]⟩
  | .tooLong bytes =>
    "query is " ++ toString bytes ++ " bytes long, the limit is " ++ toString longestQuery
  | .tooDeep => "query nests parentheses deeper than " ++ toString deepestNesting ++ " levels"

end RollCall.Query
