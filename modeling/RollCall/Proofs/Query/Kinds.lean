/-
What a query may fail on is written in it.

Every operand has a kind that is known before anybody is asked about: a literal has the
kind of its value, and a field holds values of one kind for everybody.  A comparison
whose operator is not for the kinds of its operands is ill typed, and its error is known
as well.

Asking a query about an attendee goes from left to right and leaves out what stands
behind a connective whose left side settles the matter.  `Settles` and `Reaches` say so
without mentioning errors: the one tells how a part comes out that meets no ill-typed
comparison, the other which comparisons come to be asked.  An answer is an error exactly
if an ill-typed comparison is reached, and then it is the error of that comparison.
-/
import RollCall.Proofs.Operator
import RollCall.Query.Predicate

namespace RollCall.Query

/-- The kind of a literal, whatever its value. -/
def Literal.kind : Literal → Kind
  | .text _ => .text
  | .number _ => .number
  | .truth _ => .truth
  | .status _ => .status
  | .span _ => .span
  | .instant _ => .instant

/-- The kind of an operand, whoever is looked at. -/
def Operand.kind : Operand → Kind
  | .field f => f.kind
  | .literal l => l.kind

theorem Operand.kind_read (o : Operand) (a : Attendee) : (o.read a).kind = o.kind := by
  cases o with
  | field f => exact Field.kind_read f a
  | literal l => cases l <;> rfl

/-- A comparison of a query. -/
structure Comparison where
  op : Operator
  left : Operand
  right : Operand

namespace Comparison

/-- The error of an ill-typed comparison; none for one that is well typed. -/
def error? (x : Comparison) : Option CompareError :=
  x.op.kindError? x.left.kind x.right.kind

theorem apply_eq_error_iff {x : Comparison} {a : Attendee} {err : CompareError} :
    x.op.apply (x.left.read a) (x.right.read a) = .error err ↔ x.error? = some err := by
  rw [Operator.apply_eq_error_iff, Operand.kind_read, Operand.kind_read, error?]

end Comparison

/-- The comparisons of a query from left to right. -/
def Expr.comparisons : Expr → List Comparison
  | .compare op l r => [⟨op, l, r⟩]
  | .join _ l r => l.comparisons ++ r.comparisons

/-! ### The scan from left to right -/

/-- Every comparison that is asked on the way has an answer, and the query comes out so. -/
inductive Settles (a : Attendee) : Expr → Bool → Prop
  | compare {op : Operator} {l r : Operand} {b : Bool}
      (h : op.apply (l.read a) (r.read a) = .ok b) : Settles a (.compare op l r) b
  | short {c : Connective} {l r : Expr} (h : Settles a l (Predicate.settles c)) :
      Settles a (.join c l r) (Predicate.settles c)
  | long {c : Connective} {l r : Expr} {b b' : Bool} (hl : Settles a l b)
      (hb : b ≠ Predicate.settles c) (hr : Settles a r b') : Settles a (.join c l r) b'

/-- The comparison comes to be asked, and every one before it has an answer. -/
inductive Reaches (a : Attendee) : Expr → Comparison → Prop
  | here (op : Operator) (l r : Operand) : Reaches a (.compare op l r) ⟨op, l, r⟩
  | left {c : Connective} {l r : Expr} {x : Comparison} (h : Reaches a l x) :
      Reaches a (.join c l r) x
  | right {c : Connective} {l r : Expr} {b : Bool} {x : Comparison} (hl : Settles a l b)
      (hb : b ≠ Predicate.settles c) (h : Reaches a r x) : Reaches a (.join c l r) x

theorem Reaches.mem_comparisons {a : Attendee} {e : Expr} {x : Comparison}
    (h : Reaches a e x) : x ∈ e.comparisons := by
  induction h with
  | here => simp [Expr.comparisons]
  | left _ ih => simp [Expr.comparisons, ih]
  | right _ _ _ ih => simp [Expr.comparisons, ih]

/-- Whoever is asked about, the leftmost comparison is asked. -/
theorem reaches_head? (a : Attendee) :
    ∀ (e : Expr), ∃ x, e.comparisons.head? = some x ∧ Reaches a e x := by
  intro e
  induction e with
  | compare op l r => exact ⟨⟨op, l, r⟩, rfl, .here op l r⟩
  | join c l r ihl _ =>
      obtain ⟨x, hx, hr⟩ := ihl
      exact ⟨x, by simp [Expr.comparisons, hx], .left hr⟩

/-! ### The scan and the predicate -/

theorem ofExpr_eq_ok_of_settles {a : Attendee} {e : Expr} {b : Bool} (h : Settles a e b) :
    Predicate.ofExpr e a = .ok b := by
  induction h with
  | compare h => exact h
  | short _ ih => simp [Predicate.ofExpr, Predicate.join, ih]
  | long _ hb _ ihl ihr => simp [Predicate.ofExpr, Predicate.join, ihl, hb, ihr]

theorem settles_of_ofExpr_eq_ok {a : Attendee} :
    ∀ (e : Expr) (b : Bool), Predicate.ofExpr e a = .ok b → Settles a e b := by
  intro e
  induction e with
  | compare op l r => intro b h; exact .compare h
  | join c l r ihl ihr =>
      intro b h
      simp only [Predicate.ofExpr, Predicate.join] at h
      split at h
      · cases h
      · rename_i result hl
        by_cases hset : result = Predicate.settles c
        · rw [if_pos hset] at h
          obtain rfl := Except.ok.inj h
          subst hset
          exact .short (ihl _ hl)
        · rw [if_neg hset] at h
          exact .long (ihl _ hl) hset (ihr _ h)

/-- A query comes out as its predicate answers. -/
theorem settles_iff {a : Attendee} {e : Expr} {b : Bool} :
    Settles a e b ↔ Predicate.ofExpr e a = .ok b :=
  ⟨ofExpr_eq_ok_of_settles, settles_of_ofExpr_eq_ok e b⟩

theorem ofExpr_eq_error_of_reaches {a : Attendee} {e : Expr} {x : Comparison}
    {err : CompareError} (h : Reaches a e x) (hx : x.error? = some err) :
    Predicate.ofExpr e a = .error err := by
  induction h with
  | here op l r => exact Comparison.apply_eq_error_iff.mpr hx
  | left _ ih => simp [Predicate.ofExpr, Predicate.join, ih hx]
  | right hl hb _ ih =>
      simp [Predicate.ofExpr, Predicate.join, settles_iff.mp hl, hb, ih hx]

theorem reaches_of_ofExpr_eq_error {a : Attendee} {err : CompareError} :
    ∀ (e : Expr), Predicate.ofExpr e a = .error err →
      ∃ x, Reaches a e x ∧ x.error? = some err := by
  intro e
  induction e with
  | compare op l r =>
      intro h
      exact ⟨⟨op, l, r⟩, .here op l r, Comparison.apply_eq_error_iff.mp h⟩
  | join c l r ihl ihr =>
      intro h
      simp only [Predicate.ofExpr, Predicate.join] at h
      split at h
      · rename_i err' hl
        obtain rfl := Except.error.inj h
        obtain ⟨x, hx, herr⟩ := ihl hl
        exact ⟨x, .left hx, herr⟩
      · rename_i result hl
        by_cases hset : result = Predicate.settles c
        · rw [if_pos hset] at h
          cases h
        · rw [if_neg hset] at h
          obtain ⟨x, hx, herr⟩ := ihr h
          exact ⟨x, .right (settles_iff.mpr hl) hset hx, herr⟩

/-- **An answer is an error exactly if an ill-typed comparison is reached**, and then it is the
error of that comparison. -/
theorem ofExpr_eq_error_iff {a : Attendee} {e : Expr} {err : CompareError} :
    Predicate.ofExpr e a = .error err ↔ ∃ x, Reaches a e x ∧ x.error? = some err :=
  ⟨reaches_of_ofExpr_eq_error e,
    fun ⟨_, hx, herr⟩ => ofExpr_eq_error_of_reaches hx herr⟩

/-- A query without ill-typed comparisons has an answer for everybody. -/
theorem ofExpr_eq_ok_of_wellTyped {e : Expr} (h : ∀ x ∈ e.comparisons, x.error? = none)
    (a : Attendee) : ∃ b, Predicate.ofExpr e a = .ok b := by
  cases hres : Predicate.ofExpr e a with
  | ok b => exact ⟨b, rfl⟩
  | error err =>
      obtain ⟨x, hx, herr⟩ := ofExpr_eq_error_iff.mp hres
      rw [h x hx.mem_comparisons] at herr
      cases herr

end RollCall.Query
