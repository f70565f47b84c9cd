/-
Predicates on attendees.

A predicate answers for an attendee with yes, no or an error.  Joining two of them
asks the left one first: its error is the answer, and so is its result when that
settles the matter; otherwise the right one answers.

What is asked about every attendee is not the query itself but a tree made from it once,
whose operators are looked up and whose literals are values.  Its answers are those of the
query.
-/
import RollCall.Query.Reader

namespace RollCall.Query

/-- An answer for every attendee, or the reason why there is none. -/
abbrev Predicate := Attendee → Except CompareError Bool

namespace Predicate

/-- Accepts everybody. -/
def everybody : Predicate :=
  fun _ => .ok true

/-- Compares what two operands hold. -/
def compare (op : Operator) (left right : Operand) : Predicate :=
  fun a => op.apply (left.read a) (right.read a)

/-- The left result that settles the matter for a connective. -/
def settles : Connective → Bool
  | .and => false
  | .or => true

/-- Asks the left predicate and, unless it fails or settles the matter, the right one. -/
def join (c : Connective) (left right : Predicate) : Predicate :=
  fun a =>
    match left a with
    | .error e => .error e
    | .ok result => if result = settles c then .ok result else right a

/-- The predicate of a query. -/
def ofExpr : Expr → Predicate
  | .compare op left right => compare op left right
  | .join c left right => join c (ofExpr left) (ofExpr right)

end Predicate

/-- Where a comparison finds a value: with the attendee, or at hand. -/
inductive Slot where
  | field (f : Field)
  | value (v : Value)

/-- The value that a slot holds for an attendee. -/
def Slot.read (a : Attendee) : Slot → Value
  | .field f => f.read a
  | .value v => v

/-- A query made ready to be asked: what an operator does stands where the operator did. -/
inductive Node where
  | compare (apply : Value → Value → Except CompareError Bool) (left right : Slot)
  | join (c : Connective) (left right : Node)

/-- The answers of a query that was made ready. -/
def Node.evaluate : Node → Predicate
  | .compare apply left right => fun a => apply (left.read a) (right.read a)
  | .join c left right => Predicate.join c left.evaluate right.evaluate

/-- The slot of an operand. -/
def Operand.lower : Operand → Slot
  | .field f => .field f
  | .literal l => .value l.value

/-- Makes a query ready: every operator is looked up here, once and for all attendees. -/
def Expr.lower : Expr → Node
  | .compare op left right => .compare op.apply left.lower right.lower
  | .join c left right => .join c left.lower right.lower

@[simp] theorem Operand.read_lower (o : Operand) (a : Attendee) : o.lower.read a = o.read a := by
  cases o <;> rfl

/-- **A query that was made ready has the answers of the query.** -/
theorem Expr.evaluate_lower (e : Expr) : e.lower.evaluate = Predicate.ofExpr e := by
  induction e with
  | compare op left right =>
    funext a
    simp only [lower, Node.evaluate, Operand.read_lower, Predicate.ofExpr, Predicate.compare]
  | join c left right ihl ihr => rw [lower, Node.evaluate, ihl, ihr, Predicate.ofExpr]

/-- What a text asks for: nothing, if it is empty, or a query. -/
def request (text : String) : Except Error (Option Expr) :=
  if text.isEmpty then .ok none else (Expr.ofText text).map some

/-- The predicate of what is asked for; who asks for nothing accepts everybody. -/
def Predicate.ofRequest : Option Expr → Predicate
  | none => everybody
  | some e => e.lower.evaluate

@[simp] theorem Predicate.ofRequest_some (e : Expr) : ofRequest (some e) = ofExpr e :=
  e.evaluate_lower

/-- The predicate of what a text asks for. -/
def Predicate.ofText (text : String) : Except Error Predicate :=
  (request text).map ofRequest

end RollCall.Query
