/-
From tokens to a tree.

The reader takes the tokens one by one and keeps three things: what is due next, the
part of the query that the term to come will be joined to, and the same for every
group that is still open.  `and` and `or` bind alike, so a chain is joined from left
to right as it is read.

A bracket at the start of a term is ambiguous for one token: if a span or an instant
follows, the bracket belongs to that literal, and otherwise it opens a group.  Groups
nest to a fixed depth; the depth is looked at before the token that follows.

A comparison of a status with the text "joined" or "left" is refused, since it is
never what was meant: the words stand for the statuses without quotation marks.

What was expected where the reading failed depends on the state alone.
-/
import RollCall.Query.Error
import RollCall.Query.Expr

namespace RollCall.Query

namespace Reader

/-- An operand and the token that says it. -/
structure Placed where
  operand : Operand
  token : Token
deriving DecidableEq, Repr, Inhabited

/-- What is due next. -/
inductive Due where
  /-- a term: a group or a comparison -/
  | term
  /-- what follows a bracket at the start of a term -/
  | afterOpening
  /-- the bracket behind a literal on the left -/
  | leftClosing (left : Placed)
  /-- the operator of a comparison -/
  | operator (left : Placed)
  /-- the right side of a comparison -/
  | right (left : Placed) (op : Operator)
  /-- the literal in a bracket on the right -/
  | rightLiteral (left : Placed) (op : Operator)
  /-- the bracket behind a literal on the right -/
  | rightClosing (left : Placed) (op : Operator) (right : Placed)
  /-- whatever may follow a term -/
  | joint (e : Expr)
deriving DecidableEq, Repr

/-- What a term to come will be joined to, if anything stands in front of it in its group. -/
abbrev Pending := Option (Expr × Connective)

/-- Where the reader is: what is due, what the next term is joined to, and the same for the groups
around it from the inside out. -/
structure State where
  due : Due
  pending : Pending
  enclosing : List Pending
deriving DecidableEq, Repr

/-- The state before the first token. -/
def start : State :=
  ⟨.term, none, []⟩

/-- A term as it stands, or joined to what is pending. -/
def Pending.close (e : Expr) : Pending → Expr
  | none => e
  | some (left, c) => .join c left e

/-- The state after a term of a group. -/
def State.afterTerm (pending : Pending) (enclosing : List Pending) (e : Expr) : State :=
  ⟨.joint (pending.close e), none, enclosing⟩

/-- The ways in which a value may begin. -/
def valueStart : List Label :=
  [.field, .status, .bracketedSpan, .bracketedInstant, .text, .number, .truth]

/-- What a query may go on with in a state. -/
def State.expected (s : State) : List Label :=
  match s.due with
  | .term | .afterOpening => .opening :: valueStart
  | .leftClosing _ | .rightClosing _ _ _ => [.closing]
  | .operator _ => Operator.all.map .operator
  | .right _ _ => valueStart
  | .rightLiteral _ _ => [.span, .instant]
  | .joint _ =>
    if s.enclosing.isEmpty then [.connective .and, .connective .or, .endOfText]
    else [.closing, .connective .and, .connective .or]

/-- The error at a token that does not fit a state. -/
def State.refuse (s : State) (t : Token) : Error :=
  .misplaced ⟨t.position, some t, s.expected⟩

/-- The operand is a text that spells a status. -/
def spellsStatus : Operand → Bool
  | .literal (.text s) => s = Status.joined.word || s = Status.left.word
  | _ => false

/-- The operand is a status, whoever is looked at. -/
def holdsStatus : Operand → Bool
  | .literal (.status _) | .field .finalStatus => true
  | _ => false

/-- The token of a text that spells a status and is compared with one. -/
def misquoted? (left right : Placed) : Option Token :=
  if spellsStatus left.operand && holdsStatus right.operand then some left.token
  else if spellsStatus right.operand && holdsStatus left.operand then some right.token
  else none

/-- The state after a comparison, unless it compares a status with a text that spells one. -/
def State.closeComparison (s : State) (left : Placed) (op : Operator) (right : Placed) :
    Except Error State :=
  match misquoted? left right with
  | some t => .error (.misquoted t)
  | none => .ok (.afterTerm s.pending s.enclosing (.compare op left.operand right.operand))

/-- A token that is a value by itself. -/
def plainOperand? (t : Token) : Option Operand :=
  match t.symbol with
  | .field f => some (.field f)
  | .literal l => if l.needsBrackets then none else some (.literal l)
  | _ => none

/-- A token that is a value between brackets. -/
def bracketedOperand? (t : Token) : Option Operand :=
  match t.symbol with
  | .literal l => if l.needsBrackets then some (.literal l) else none
  | _ => none

/-- Takes a token where a term is due. -/
def State.takeTerm (s : State) (t : Token) : Except Error State :=
  match plainOperand? t with
  | some operand => .ok { s with due := .operator ⟨operand, t⟩ }
  | none =>
    if t.symbol = .opening then .ok { s with due := .afterOpening }
    else .error (s.refuse t)

/-- Opens a group, whose first term is due. -/
def State.openGroup (s : State) : Except Error State :=
  if s.enclosing.length < deepestNesting then .ok ⟨.term, none, s.pending :: s.enclosing⟩
  else .error .tooDeep

/-- Takes one token. -/
def State.take (s : State) (t : Token) : Except Error State :=
  match s.due with
  | .term => s.takeTerm t
  | .afterOpening =>
    match bracketedOperand? t with
    | some operand => .ok { s with due := .leftClosing ⟨operand, t⟩ }
    | none =>
      match s.openGroup with
      | .ok inner => inner.takeTerm t
      | .error e => .error e
  | .leftClosing left =>
    if t.symbol = .closing then .ok { s with due := .operator left } else .error (s.refuse t)
  | .operator left =>
    match t.symbol with
    | .operator op => .ok { s with due := .right left op }
    | _ => .error (s.refuse t)
  | .right left op =>
    match plainOperand? t with
    | some operand => s.closeComparison left op ⟨operand, t⟩
    | none =>
      if t.symbol = .opening then .ok { s with due := .rightLiteral left op }
      else .error (s.refuse t)
  | .rightLiteral left op =>
    match bracketedOperand? t with
    | some operand => .ok { s with due := .rightClosing left op ⟨operand, t⟩ }
    | none => .error (s.refuse t)
  | .rightClosing left op right =>
    if t.symbol = .closing then s.closeComparison left op right else .error (s.refuse t)
  | .joint e =>
    match t.symbol, s.enclosing with
    | .connective c, _ => .ok { s with due := .term, pending := some (e, c) }
    | .closing, outer :: enclosing => .ok (.afterTerm outer enclosing e)
    | _, _ => .error (s.refuse t)

/-- Takes the end of the text, at the given place. -/
def State.finish (s : State) (stop : Nat) : Except Error Expr :=
  match s.due, s.enclosing with
  | .joint e, [] => .ok e
  | .afterOpening, _ =>
    match s.openGroup with
    | .ok inner => .error (.misplaced ⟨stop, none, inner.expected⟩)
    | .error e => .error e
  | _, _ => .error (.misplaced ⟨stop, none, s.expected⟩)

/-- Takes the tokens in turn. -/
def State.takeAll (s : State) : List Token → Except Error State
  | [] => .ok s
  | t :: ts =>
    match s.take t with
    | .ok next => next.takeAll ts
    | .error e => .error e

/-- Tokens may be taken in two goes. -/
theorem State.takeAll_append (s : State) (ts us : List Token) :
    s.takeAll (ts ++ us) =
      match s.takeAll ts with
      | .ok next => next.takeAll us
      | .error e => .error e := by
  induction ts generalizing s with
  | nil => rfl
  | cons t ts ih =>
    simp only [List.cons_append, takeAll]
    cases s.take t with
    | error e => rfl
    | ok next => exact ih next

end Reader

/-- The query that some tokens write. -/
def Expr.ofTokens (ts : Tokens) : Except Error Expr :=
  match Reader.start.takeAll ts.list with
  | .ok s => s.finish ts.stop
  | .error e => .error e

/-- The query that a text writes. -/
def Expr.ofText (text : String) : Except Error Expr :=
  let bytes := Text.byteLength text.toList
  if longestQuery < bytes then .error (.tooLong bytes)
  else
    match Tokens.ofText text with
    | .ok ts => Expr.ofTokens ts
    | .error e => .error (.scan e)

end RollCall.Query
