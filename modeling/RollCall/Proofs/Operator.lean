/-
Operators and kinds.

Whether an operator answers two values is a matter of their kinds alone.  `kindError?`
is the table: what an operator has to say about a pair of kinds, and nothing where it is
for them.  It is written without looking at any value, and `apply_eq_error_iff` says
that applying an operator follows it.

The values are taken apart once, for each of the three questions that operators ask;
everything else is a matter of seven kinds.
-/
import RollCall.Operator

namespace RollCall

namespace Operator

/--
The error of an operator on two kinds, if it is not for them.

Equality is for equal kinds and so is order, but lists of spans have none; containment
is for a text in a text and for a span in a list of spans.  What could hold something
but not this is a mismatch, and what could never hold anything is said to be so.
-/
def kindError? (op : Operator) (l r : Kind) : Option CompareError :=
  match op with
  | .eq | .ne => if l = r then none else some (.mismatch op l r)
  | .le | .ge | .lt | .gt => if l = r ∧ l ≠ .spans then none else some (.mismatch op l r)
  | .contains =>
    match l, r with
    | .text, .text | .spans, .span => none
    | .text, _ | .spans, _ => some (.mismatch .contains l r)
    | _, _ => some (.holdsNothing l)

/-- The table and the model's refusal name the same error. -/
theorem refusal_of_kindError? {op : Operator} {l r : Kind} {err : CompareError}
    (h : op.kindError? l r = some err) : op.refusal l r = err := by
  cases op
  case contains => cases l <;> cases r <;> simp_all [kindError?, refusal]
  all_goals
    simp only [kindError?] at h
    split at h
    · cases h
    · simpa [refusal] using h

end Operator

namespace Value

/-! ### The three questions -/

theorem equal?_isSome (a b : Value) : (a.equal? b).isSome = decide (a.kind = b.kind) := by
  cases a <;> cases b <;> rfl

theorem order?_isSome (a b : Value) :
    (a.order? b).isSome = decide (a.kind = b.kind ∧ a.kind ≠ .spans) := by
  cases a <;> cases b <;> rfl

theorem contains?_isSome (a b : Value) :
    (a.contains? b).isSome = (Operator.contains.kindError? a.kind b.kind).isNone := by
  cases a <;> cases b <;> rfl

/-- A value of the kind of instants is one. -/
theorem exists_instant_of_kind {v : Value} (h : v.kind = .instant) : ∃ t, v = .instant t := by
  cases v with
  | instant t => exact ⟨t, rfl⟩
  | _ => cases h

/-! ### Texts in texts -/

/-- **A text occurs in another exactly if it is a part of it.** -/
theorem occursIn_iff {needle : List Char} :
    ∀ (hay : List Char), occursIn needle hay = true ↔ needle <:+: hay := by
  intro hay
  induction hay with
  | nil => simp [occursIn]
  | cons c cs ih =>
      rw [occursIn, Bool.or_eq_true, List.isPrefixOf_iff_prefix, ih, List.infix_cons_iff]

end Value

namespace Operator

/-- An operator answers two values exactly if the table has nothing to say about their kinds. -/
theorem holds?_isSome (op : Operator) (a b : Value) :
    (op.holds? a b).isSome = (op.kindError? a.kind b.kind).isNone := by
  cases op
  case eq | ne =>
    simp only [holds?, Option.isSome_map, Value.equal?_isSome, kindError?]
    split
    · exact decide_eq_true ‹_›
    · exact decide_eq_false ‹_›
  case contains => exact Value.contains?_isSome a b
  all_goals
    simp only [holds?, Option.isSome_map, Value.order?_isSome, kindError?]
    split
    · exact decide_eq_true ‹_›
    · exact decide_eq_false ‹_›

/-- **The kinds decide whether an operator fails, and how.** -/
theorem apply_eq_error_iff {op : Operator} {a b : Value} {err : CompareError} :
    op.apply a b = .error err ↔ op.kindError? a.kind b.kind = some err := by
  have hsome := holds?_isSome op a b
  unfold apply
  cases hh : op.holds? a b with
  | some result =>
      rw [hh] at hsome
      have hnone : op.kindError? a.kind b.kind = none := by
        simpa using hsome.symm
      simp [hnone]
  | none =>
      rw [hh] at hsome
      obtain ⟨err', herr⟩ : ∃ err', op.kindError? a.kind b.kind = some err' := by
        rw [← Option.isSome_iff_exists]
        simpa [Option.isSome_eq_false_iff] using hsome.symm
      rw [herr, refusal_of_kindError? herr]
      simp

end Operator

end RollCall
