/-
Reading by routines that call each other.

The reader takes one token after the other and keeps on a stack what it will come back to.
The same reading can be left to routines, one for each phrase of the grammar, which find the
tokens by their places: they look at the one where they stand or at the one behind it, move on
by one token, and call each other for the parts of a phrase.  What was on the stack is then
what the open calls are waiting for, and a counter tells how many groups are open.

Nothing says beforehand that such routines come to an end.  So those that may call themselves
are given fuel, which each call takes one from: a run that is out of fuel has no result, and that
some fuel is enough is a matter of proof.  For the same reason a run keeps a trail of what it has
done: the calls that were open when one began, the places that were looked at, and the tokens
that were taken.
-/
import RollCall.Query.Reader

namespace RollCall.Query

namespace Descent

/-! ### Cursors and their trails -/

/-- The routines; a pass is one round of the loop over the terms of a chain, and the next round is
called from within it. -/
inductive Routine where
  | expr
  | pass
  | term
  | comparison
  | value
deriving DecidableEq, Repr

/-- A call of a routine, where it began, and how many groups were open. -/
structure Call where
  routine : Routine
  position : Nat
  depth : Nat
deriving DecidableEq, Repr

/-- Something that is done on the way. -/
inductive Event where
  /-- a call begins; it is the first of those that are open then, the innermost first -/
  | called (calls : List Call)
  /-- the token at a place is looked at -/
  | looked (place : Nat)
  /-- the token at a place is passed over -/
  | took (place : Nat)
deriving DecidableEq, Repr

/-- The place of the token that is next, how many groups are open, and what has been done. -/
structure Cursor where
  position : Nat
  depth : Nat
  trail : List Event
deriving DecidableEq, Repr

/-- The cursor before the first token. -/
def Cursor.start : Cursor :=
  ⟨0, 0, []⟩

end Descent

/-- A run from a cursor: it leads to a result and another cursor, or it is out of fuel. -/
abbrev Descent :=
  ExceptT Error (StateT Descent.Cursor Option)

namespace Descent

open Reader (plainOperand? bracketedOperand? spellsStatus holdsStatus valueStart)

/-- Puts an event on the trail. -/
def note (event : Event) : Descent Unit :=
  modify fun c => { c with trail := c.trail ++ [event] }

/-- Begins a call, given those that are open; the result is the open calls with this one. -/
def enter (routine : Routine) (calls : List Call) : Descent (List Call) := do
  let c ← get
  let calls := ⟨routine, c.position, c.depth⟩ :: calls
  note (.called calls)
  return calls

variable (ts : Tokens)

/-! ### Single tokens -/

/-- The token so many places on; the end of the text stands behind the last token, and is found
in its place and at any place behind it. -/
def peekAt (offset : Nat) : Descent (Option Token) := do
  let place := (← get).position + offset
  note (.looked place)
  return ts.list[min place ts.list.length]?

/-- Moves on by one token; at the end of the text the cursor stays. -/
def advance : Descent Unit := do
  let c ← get
  note (.took c.position)
  if c.position < ts.list.length then modify fun c => { c with position := c.position + 1 }

/-- The next token has the given symbol. -/
def sees (s : Symbol) : Descent Bool := do
  return (← peekAt ts 0).map Token.symbol = some s

/-- Fails at the next token, or at the end of the text. -/
def unexpected {α : Type} (labels : List Label) : Descent α := do
  let found ← peekAt ts 0
  throw (.misplaced ⟨(found.map Token.position).getD ts.stop, found, labels⟩)

/-- Passes over the next token if it has the given symbol. -/
def expect (s : Symbol) (labels : List Label) : Descent Unit := do
  if ← sees ts s then advance ts else unexpected ts labels

/-! ### Values and comparisons -/

/-- A literal between brackets. -/
def bracketed : Descent Operand := do
  advance ts
  match (← peekAt ts 0).bind bracketedOperand? with
  | some operand =>
    advance ts
    expect ts .closing [.closing]
    return operand
  | none => unexpected ts [.span, .instant]

/-- One side of a comparison; where a term begins, a group might stand as well. -/
def value (calls : List Call) (first : Bool) : Descent Operand := do
  let _ ← enter .value calls
  match (← peekAt ts 0).bind plainOperand? with
  | some operand =>
    advance ts
    return operand
  | none =>
    if ← sees ts .opening then bracketed ts
    else unexpected ts (if first then .opening :: valueStart else valueStart)

/-- The operator that a token is. -/
def operatorOf? (t : Token) : Option Operator :=
  match t.symbol with
  | .operator op => some op
  | _ => none

/-- Refuses a text that spells a status, and is compared with one; it stands at the given place. -/
def refuseQuoted (operand : Operand) (place : Nat) (other : Operand) : Descent Unit := do
  if spellsStatus operand && holdsStatus other then
    note (.looked place)
    throw (.misquoted (ts.list[place]?.getD default))

/-- The right side of a comparison; its left side stands at the given place. -/
def rightSide (calls : List Call) (left : Operand) (leftAt : Nat) (op : Operator) :
    Descent Expr := do
  let rightAt := (← get).position
  let right ← value ts calls false
  refuseQuoted ts left leftAt right
  refuseQuoted ts right rightAt left
  return .compare op left right

/-- Two values and an operator between them. -/
def comparison (calls : List Call) : Descent Expr := do
  let calls ← enter .comparison calls
  let leftAt := (← get).position
  let left ← value ts calls true
  match (← peekAt ts 0).bind operatorOf? with
  | some op =>
    advance ts
    rightSide ts calls left leftAt op
  | none => unexpected ts (Operator.all.map .operator)

/-! ### Terms and chains -/

/-- The connective that a token is. -/
def connectiveOf? (t : Token) : Option Connective :=
  match t.symbol with
  | .connective c => some c
  | _ => none

/-- A bracket opens a group, unless a span or an instant follows it. -/
def opensGroup : Descent Bool := do
  if ← sees ts .opening then return ((← peekAt ts 1).bind bracketedOperand?).isNone
  else return false

/-- A group around a chain.  The counter is put back only if the group is closed. -/
def group (chain : Descent Expr) : Descent Expr := do
  modify fun c => { c with depth := c.depth + 1 }
  if deepestNesting < (← get).depth then throw .tooDeep
  else
    advance ts
    let e ← chain
    expect ts .closing [.closing, .connective .and, .connective .or]
    modify fun c => { c with depth := c.depth - 1 }
    return e

/-- A run that is out of fuel. -/
def unfinished {α : Type} : Descent α :=
  ExceptT.mk fun _ => none

mutual

/-- A chain of terms. -/
def expr : Nat → List Call → Descent Expr
  | 0, _ => unfinished
  | fuel + 1, calls => do
    let calls ← enter .expr calls
    let first ← term fuel calls
    pass fuel calls first

/-- The rest of a chain, joined to what stands in front of it. -/
def pass : Nat → List Call → Expr → Descent Expr
  | 0, _, _ => unfinished
  | fuel + 1, calls, left => do
    let calls ← enter .pass calls
    match (← peekAt ts 0).bind connectiveOf? with
    | some b =>
      advance ts
      let right ← term fuel calls
      pass fuel calls (.join b left right)
    | none => return left

/-- A group or a comparison. -/
def term : Nat → List Call → Descent Expr
  | 0, _ => unfinished
  | fuel + 1, calls => do
    let calls ← enter .term calls
    if ← opensGroup ts then group ts (expr fuel calls) else comparison ts calls

end

/-- A whole query. -/
def parse (fuel : Nat) : Descent Expr := do
  let e ← expr ts fuel []
  if (← peekAt ts 0).isSome then
    unexpected ts [.connective .and, .connective .or, .endOfText]
  else return e

end Descent

end RollCall.Query
