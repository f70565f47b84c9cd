/-
Grouping matters only where `and` and `or` are mixed.

A connective leaves the answer to its right side exactly if the left one answers with the
value that is neutral for it, yes for `and` and no for `or`; in every other case, an error
among them, the left answer stands (`join_apply`).  Going through a list of answers for the
first that is not the neutral one does the same where two lists are put together
(`firstOther_append`).  So a query with one connective throughout answers as its comparisons
do from left to right, whatever the shape of the tree, and brackets make no difference to it.
-/
import Mathlib.Data.List.Basic
import RollCall.Proofs.Query.Kinds

namespace RollCall.Query

/-- The answer that leaves the matter to the other side. -/
def Connective.neutral : Connective → Bool
  | .and => true
  | .or => false

/-- The first answer other than the given one; the given one, if there is no other. -/
def firstOther (same : Except CompareError Bool) (answers : List (Except CompareError Bool)) :
    Except CompareError Bool :=
  (answers.find? (· ≠ same)).getD same

/-- What a comparison answers about an attendee. -/
def Comparison.answer (a : Attendee) (x : Comparison) : Except CompareError Bool :=
  x.op.apply (x.left.read a) (x.right.read a)

namespace Expr

/-- The connective is the only one in the query. -/
inductive IsChain (c : Connective) : Expr → Prop
  | compare (op : Operator) (l r : Operand) : IsChain c (.compare op l r)
  | join {l r : Expr} (hl : IsChain c l) (hr : IsChain c r) : IsChain c (.join c l r)

/-- What the comparisons of a query answer, from left to right. -/
def answers (a : Attendee) (e : Expr) : List (Except CompareError Bool) :=
  e.comparisons.map (Comparison.answer a)

theorem answers_join (a : Attendee) (c : Connective) (l r : Expr) :
    (Expr.join c l r).answers a = l.answers a ++ r.answers a :=
  List.map_append

end Expr

/-! ### One connective -/

/-- Behind answers that are all the same the first other one is that of the rest. -/
theorem firstOther_append (same : Except CompareError Bool)
    (front rest : List (Except CompareError Bool)) :
    firstOther same (front ++ rest) =
      if firstOther same front = same then firstOther same rest else firstOther same front := by
  unfold firstOther
  rw [List.find?_append]
  cases hfind : front.find? (· ≠ same) with
  | none => simp
  | some answer =>
      have hother : answer ≠ same := by
        simpa using List.find?_some hfind
      simp [hother]

theorem Connective.settles_eq (c : Connective) : Predicate.settles c = !c.neutral := by
  cases c <;> rfl

/-- The right side answers exactly if the left one is neutral. -/
theorem Predicate.join_apply (c : Connective) (left right : Predicate) (a : Attendee) :
    join c left right a = if left a = .ok c.neutral then right a else left a := by
  unfold join
  rw [c.settles_eq]
  cases hleft : left a with
  | error err => simp
  | ok b =>
      by_cases hb : b = c.neutral
      · simp [hb]
      · have hsettled : b = !c.neutral := Bool.eq_not_of_ne hb
        simp [hsettled]

/-- **A chain answers as the first of its comparisons that is not neutral.** -/
theorem Expr.IsChain.ofExpr_eq {c : Connective} {e : Expr} (h : e.IsChain c) (a : Attendee) :
    Predicate.ofExpr e a = firstOther (.ok c.neutral) (e.answers a) := by
  induction h with
  | compare op l r =>
      show op.apply (l.read a) (r.read a) =
        firstOther (.ok c.neutral) [op.apply (l.read a) (r.read a)]
      by_cases hneutral : op.apply (l.read a) (r.read a) = .ok c.neutral <;>
        simp [firstOther, hneutral]
  | @join l r _ _ ihl ihr =>
      show Predicate.join c (Predicate.ofExpr l) (Predicate.ofExpr r) a = _
      rw [Predicate.join_apply, ihl, ihr, Expr.answers_join, firstOther_append]

/-- Where the connectives are mixed, brackets matter. -/
example :
    let yes : Expr := .compare .eq (.literal (.truth true)) (.literal (.truth true))
    let no : Expr := .compare .ne (.literal (.truth true)) (.literal (.truth true))
    let a := Attendee.ofEvents "Ann" [] default
    Predicate.ofExpr (.join .and (.join .or yes no) no) a = .ok false ∧
      Predicate.ofExpr (.join .or yes (.join .and no no)) a = .ok true :=
  ⟨rfl, rfl⟩

end RollCall.Query
