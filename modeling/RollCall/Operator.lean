/-
Comparing two values.

Equality is for two values of one kind.  So is order, save that lists of spans have
none; texts go by their code points and false comes before true.  Containment asks
whether a text occurs in a text or a span is among the spans of a list.  Everything
else is an error, decided by the kinds alone.
-/
import RollCall.Value

namespace RollCall

/-- The operators of a comparison. -/
inductive Operator where
  | eq
  | ne
  | le
  | ge
  | lt
  | gt
  | contains
deriving DecidableEq, Repr, Inhabited

namespace Operator

/-- All operators, in the order in which messages list them. -/
def all : List Operator :=
  [.eq, .ne, .le, .ge, .lt, .gt, .contains]

/-- How an operator is written. -/
def symbol : Operator → String
  | .eq => "=="
  | .ne => "!="
  | .le => "<="
  | .ge => ">="
  | .lt => "<"
  | .gt => ">"
  | .contains => "%"

/-- The operator that is written so. -/
def ofSymbol? (s : String) : Option Operator :=
  all.find? (·.symbol = s)

/-- Every operator is known by its symbol, and nothing else is an operator. -/
theorem ofSymbol?_eq_some_iff {s : String} {op : Operator} :
    ofSymbol? s = some op ↔ s = op.symbol := by
  constructor
  · intro h
    simpa [eq_comm] using List.find?_some h
  · rintro rfl
    cases op <;> decide

theorem symbol_injective {op op' : Operator} (h : op.symbol = op'.symbol) : op = op' :=
  Option.some.inj ((ofSymbol?_eq_some_iff.mpr rfl).symm.trans (ofSymbol?_eq_some_iff.mpr h))

end Operator

/-- Why two values cannot be compared. -/
inductive CompareError where
  /-- the operator is not for values of these two kinds -/
  | mismatch (op : Operator) (left right : Kind)
  /-- containment was asked of what holds nothing -/
  | holdsNothing (left : Kind)
deriving DecidableEq, Repr

/-- What is said about two values that cannot be compared. -/
def CompareError.message : CompareError → String
  | .mismatch op left right =>
    "cannot apply `" ++ op.symbol ++ "` to " ++ left.name ++ " and " ++ right.name
  | .holdsNothing left =>
    "`%` needs a string or duration list on the left, got " ++ left.name

namespace Value

/-- A text occurs in another as a run of adjacent characters. -/
def occursIn (needle : List Char) : List Char → Bool
  | [] => needle.isEmpty
  | c :: cs => needle.isPrefixOf (c :: cs) || occursIn needle cs

/-- Whether two values of one kind are equal; none for values of two kinds. -/
def equal? : Value → Value → Option Bool
  | .text a, .text b => some (a == b)
  | .number a, .number b => some (a.equal b)
  | .span a, .span b => some (a == b)
  | .instant a, .instant b => some (a == b)
  | .truth a, .truth b => some (a == b)
  | .status a, .status b => some (a == b)
  | .spans a, .spans b => some (a == b)
  | _, _ => none

/-- How two values of one kind are ordered; none where their kinds have no common order.  The
inner option is empty for numbers that are not comparable. -/
def order? : Value → Value → Option (Option Ordering)
  | .text a, .text b => some (some (compare a b))
  | .number a, .number b => some (a.compare? b)
  | .span a, .span b => some (some (compare a b))
  | .instant a, .instant b => some (some (compare a b))
  | .truth a, .truth b => some (some (compare a.toNat b.toNat))
  | .status a, .status b => some (some (compare a.rank b.rank))
  | _, _ => none

/-- Whether the first value holds the second; none where it could not. -/
def contains? : Value → Value → Option Bool
  | .text a, .text b => some (occursIn b.toList a.toList)
  | .spans ds, .span d => some (ds.contains d)
  | _, _ => none

end Value

namespace Operator

/-- The result of an operator that looks at the order, such as "less or equal". -/
def accepts (op : Operator) (o : Ordering) : Bool :=
  match op with
  | .eq => o.isEq
  | .ne => o.isNe
  | .le => o.isLE
  | .ge => o.isGE
  | .lt => o.isLT
  | .gt => o.isGT
  | .contains => false

/-- The error of an operator that is not for the two kinds. -/
def refusal (op : Operator) (left right : Kind) : CompareError :=
  match op, left with
  | .contains, .text | .contains, .spans => .mismatch .contains left right
  | .contains, left => .holdsNothing left
  | op, left => .mismatch op left right

/-- Whether an operator holds between two values; none where it is not for their kinds. -/
def holds? (op : Operator) (a b : Value) : Option Bool :=
  match op with
  | .eq => a.equal? b
  | .ne => (a.equal? b).map (!·)
  | .contains => a.contains? b
  | op => (a.order? b).map fun o => o.any op.accepts

/-- Whether an operator holds between two values. -/
def apply (op : Operator) (a b : Value) : Except CompareError Bool :=
  match op.holds? a b with
  | some result => .ok result
  | none => .error (op.refusal a.kind b.kind)

end Operator

end RollCall
