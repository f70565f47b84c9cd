/-
Queries as trees.

A query compares operands and joins the comparisons by `and` and `or`.  Its written
form puts brackets around every pair that is joined and around spans and instants, and
leaves them out everywhere else.
-/
import RollCall.Query.Token
import RollCall.Text.Quoted

namespace RollCall.Query

/-- One side of a comparison: something said of the attendee, or a value. -/
inductive Operand where
  | field (f : Field)
  | literal (l : Literal)
deriving DecidableEq, Repr

/-- A query. -/
inductive Expr where
  | compare (op : Operator) (left right : Operand)
  | join (c : Connective) (left right : Expr)
deriving DecidableEq, Repr

/-- The written form of a literal. -/
def Literal.written : Literal → List Char
  | .text s => (Text.quoted s).toList
  | .number x => x.text
  | .truth b => (Value.truthWord b).toList
  | .status s => s.word.toList
  | .span d => '(' :: d.partsText ++ [')']
  | .instant t => '(' :: t.text ++ [')']

namespace Operand

instance : Inhabited Operand := ⟨.field .name⟩

/-- The value of an operand for an attendee. -/
def read (a : Attendee) : Operand → Value
  | .field f => f.read a
  | .literal l => l.value

/-- The written form of an operand. -/
def written : Operand → List Char
  | .field f => f.keyword.toList
  | .literal l => l.written

end Operand

namespace Expr

instance : Inhabited Expr := ⟨.compare .eq default default⟩

/-- The written form of a query. -/
def written : Expr → List Char
  | .compare op left right => left.written ++ ' ' :: op.symbol.toList ++ ' ' :: right.written
  | .join c left right =>
    '(' :: left.written ++ ' ' :: c.word.toList ++ ' ' :: right.written ++ [')']

/-- The written form of a query as a string. -/
def render (e : Expr) : String :=
  String.ofList e.written

end Expr

end RollCall.Query
