/-
The words of a query.

A query is a row of tokens.  Each has a symbol, which is all that the grammar looks at,
and besides the characters it was written with and the place where they stand.
-/
import RollCall.Field
import RollCall.Operator

namespace RollCall.Query

/-- What joins two comparisons. -/
inductive Connective where
  | and
  | or
deriving DecidableEq, Repr, Inhabited

/-- The word for a connective. -/
def Connective.word : Connective → String
  | .and => "and"
  | .or => "or"

/-- A value that can be written in a query. -/
inductive Literal where
  | text (s : String)
  | number (x : Binary64)
  | truth (b : Bool)
  | status (s : Status)
  | span (d : Span)
  | instant (t : Instant)
deriving DecidableEq, Repr

namespace Literal

/-- The value of a literal. -/
def value : Literal → Value
  | .text s => .text s
  | .number x => .number x
  | .truth b => .truth b
  | .status s => .status s
  | .span d => .span d
  | .instant t => .instant t

/-- Spans and instants have to stand between brackets. -/
def needsBrackets : Literal → Bool
  | .span _ | .instant _ => true
  | _ => false

/-- How messages speak of a literal. -/
def description : Literal → String
  | .text _ => "string"
  | .number _ => "number"
  | .truth _ => "boolean"
  | .status _ => "status"
  | .span _ => "duration"
  | .instant _ => "timestamp"

end Literal

/-- What a token stands for. -/
inductive Symbol where
  | connective (c : Connective)
  | opening
  | closing
  | operator (op : Operator)
  | field (f : Field)
  | literal (l : Literal)
deriving DecidableEq, Repr

namespace Symbol

instance : Inhabited Symbol := ⟨.opening⟩

/-- How messages speak of a symbol. -/
def description : Symbol → String
  | .connective .and => "`and`"
  | .connective .or => "`or`"
  | .opening => "`(`"
  | .closing => "`)`"
  | .operator _ => "operator"
  | .field _ => "field name"
  | .literal l => l.description

/-- The symbol of a word: a connective, a truth value, a status or a field. -/
def ofWord? (word : String) : Option Symbol :=
  if word = "and" then some (.connective .and)
  else if word = "or" then some (.connective .or)
  else if word = "true" then some (.literal (.truth true))
  else if word = "false" then some (.literal (.truth false))
  else if word = "joined" then some (.literal (.status .joined))
  else if word = "left" then some (.literal (.status .left))
  else (Field.ofKeyword? word).map .field

end Symbol

/-- A symbol, its characters, and the place of the first of them. -/
structure Token where
  symbol : Symbol
  lexeme : String
  position : Nat
deriving DecidableEq, Repr, Inhabited

/-- How messages speak of a token: its description and its characters. -/
def Token.description (t : Token) : String :=
  t.symbol.description ++ " `" ++ t.lexeme ++ "`"

/-- The tokens of a text, and the place where the text ends. -/
structure Tokens where
  list : List Token
  stop : Nat
deriving DecidableEq, Repr, Inhabited

end RollCall.Query
