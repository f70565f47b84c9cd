/-
Asking no more than is needed.

`Answers` gives the meaning of a query as rules on the tree, connective by connective: a
comparison applies its operator to what its operands hold, an error of the left side is the
answer, a false left side of `and` and a true one of `or` is the answer too, and in all other
cases the right side answers.  The predicate of a query follows these rules.

`strictly` asks both sides whatever the left one says.  It meets every comparison, so it has a
result only if all of them are well typed, and then the predicate has the same.  Where the two
differ, the strict way has met an ill-typed comparison that the other one has passed over:
`Skips` says which comparisons stand behind a left side that settles the matter.
-/
import RollCall.Proofs.Query.Kinds

namespace RollCall.Query

/-! ### The meaning of a query -/

/-- What a query answers about an attendee. -/
inductive Answers (a : Attendee) : Expr → Except CompareError Bool → Prop
  | compare (op : Operator) (l r : Operand) :
      Answers a (.compare op l r) (op.apply (l.read a) (r.read a))
  | failed {c : Connective} {l r : Expr} {err : CompareError} (h : Answers a l (.error err)) :
      Answers a (.join c l r) (.error err)
  | andFalse {l r : Expr} (h : Answers a l (.ok false)) : Answers a (.join .and l r) (.ok false)
  | andTrue {l r : Expr} {result : Except CompareError Bool} (hl : Answers a l (.ok true))
      (hr : Answers a r result) : Answers a (.join .and l r) result
  | orTrue {l r : Expr} (h : Answers a l (.ok true)) : Answers a (.join .or l r) (.ok true)
  | orFalse {l r : Expr} {result : Except CompareError Bool} (hl : Answers a l (.ok false))
      (hr : Answers a r result) : Answers a (.join .or l r) result

theorem ofExpr_eq_of_answers {a : Attendee} {e : Expr} {result : Except CompareError Bool}
    (h : Answers a e result) : Predicate.ofExpr e a = result := by
  induction h with
  | compare op l r => rfl
  | failed _ ih => simp [Predicate.ofExpr, Predicate.join, ih]
  | andFalse _ ih => simp [Predicate.ofExpr, Predicate.join, Predicate.settles, ih]
  | andTrue _ _ ihl ihr => simp [Predicate.ofExpr, Predicate.join, Predicate.settles, ihl, ihr]
  | orTrue _ ih => simp [Predicate.ofExpr, Predicate.join, Predicate.settles, ih]
  | orFalse _ _ ihl ihr => simp [Predicate.ofExpr, Predicate.join, Predicate.settles, ihl, ihr]

/-- There is a rule for every query, whatever its left side answers. -/
theorem exists_answers (a : Attendee) : ∀ (e : Expr), ∃ result, Answers a e result := by
  intro e
  induction e with
  | compare op l r => exact ⟨_, .compare op l r⟩
  | join c l r ihl ihr =>
      obtain ⟨left, hl⟩ := ihl
      obtain ⟨right, hr⟩ := ihr
      cases left with
      | error err => exact ⟨_, .failed hl⟩
      | ok b =>
          cases c <;> cases b
          · exact ⟨_, .andFalse hl⟩
          · exact ⟨_, .andTrue hl hr⟩
          · exact ⟨_, .orFalse hl hr⟩
          · exact ⟨_, .orTrue hl⟩

/-- **The predicate of a query follows the rules.** -/
theorem answers_iff {a : Attendee} {e : Expr} {result : Except CompareError Bool} :
    Answers a e result ↔ Predicate.ofExpr e a = result := by
  refine ⟨ofExpr_eq_of_answers, fun h => ?_⟩
  obtain ⟨result', hanswers⟩ := exists_answers a e
  rw [← h, ofExpr_eq_of_answers hanswers]
  exact hanswers

/-! ### Asking both sides -/

/-- What a connective makes of the results of both sides. -/
def Connective.both : Connective → Bool → Bool → Bool
  | .and => (· && ·)
  | .or => (· || ·)

/-- A left side that settles the matter does so whatever stands on the right. -/
theorem Connective.both_settles (c : Connective) (b : Bool) :
    c.both (Predicate.settles c) b = Predicate.settles c := by
  cases c <;> rfl

/-- Otherwise the right side decides. -/
theorem Connective.both_of_ne {c : Connective} {b : Bool} (h : b ≠ Predicate.settles c)
    (b' : Bool) : c.both b b' = b' := by
  cases c <;> cases b <;> first | rfl | exact absurd rfl h

/-- What a query answers if both sides of every connective are asked; the left error goes before
the right one. -/
def strictly : Expr → Predicate
  | .compare op l r => Predicate.compare op l r
  | .join c l r => fun a =>
    match strictly l a, strictly r a with
    | .error err, _ => .error err
    | .ok _, .error err => .error err
    | .ok b, .ok b' => .ok (c.both b b')

theorem strictly_join_of_error {a : Attendee} {l : Expr} {err : CompareError}
    (h : strictly l a = .error err) (c : Connective) (r : Expr) :
    strictly (.join c l r) a = .error err := by
  simp only [strictly, h]

/-- A left side that settles the matter leaves the error of the right one. -/
theorem strictly_join_of_settles {a : Attendee} {c : Connective} {l : Expr}
    (h : strictly l a = .ok (Predicate.settles c)) (r : Expr) :
    strictly (.join c l r) a = (strictly r a).map fun _ => Predicate.settles c := by
  simp only [strictly, h]
  cases strictly r a with
  | error err => rfl
  | ok b => exact congrArg Except.ok (c.both_settles b)

/-- A left side that does not is of no account. -/
theorem strictly_join_of_ne {a : Attendee} {c : Connective} {l : Expr} {b : Bool}
    (h : strictly l a = .ok b) (hb : b ≠ Predicate.settles c) (r : Expr) :
    strictly (.join c l r) a = strictly r a := by
  simp only [strictly, h]
  cases strictly r a with
  | error err => rfl
  | ok b' => exact congrArg Except.ok (Connective.both_of_ne hb b')

/-- **Asked strictly, a query fails exactly on its first ill-typed comparison**, whoever is asked
about. -/
theorem strictly_eq_error_iff {a : Attendee} {err : CompareError} :
    ∀ (e : Expr), strictly e a = .error err ↔
      e.comparisons.findSome? Comparison.error? = some err := by
  intro e
  induction e generalizing err with
  | compare op l r =>
      have hfirst : (Expr.compare op l r).comparisons.findSome? Comparison.error? =
          Comparison.error? ⟨op, l, r⟩ := by
        simp [Expr.comparisons]
      rw [hfirst, ← Comparison.apply_eq_error_iff (a := a)]
      rfl
  | join c l r ihl ihr =>
      rw [Expr.comparisons, List.findSome?_append]
      cases hl : strictly l a with
      | error err' =>
          rw [strictly_join_of_error hl, ihl.mp hl]
          simp
      | ok b =>
          -- A left side with a result has no ill-typed comparison, so the first is on the right.
          have hnone : l.comparisons.findSome? Comparison.error? = none := by
            cases hfirst : l.comparisons.findSome? Comparison.error? with
            | none => rfl
            | some err' =>
                rw [ihl.mpr hfirst] at hl
                cases hl
          rw [hnone, Option.none_or, ← ihr]
          by_cases hb : b = Predicate.settles c
          · subst hb
            rw [strictly_join_of_settles hl]
            cases strictly r a <;> simp [Except.map]
          · rw [strictly_join_of_ne hl hb]

/-- An error of the strict way is that of a comparison of the query. -/
theorem exists_of_strictly_eq_error {a : Attendee} {e : Expr} {err : CompareError}
    (h : strictly e a = .error err) : ∃ x ∈ e.comparisons, x.error? = some err :=
  List.exists_of_findSome?_eq_some ((strictly_eq_error_iff e).mp h)

/-! ### What is passed over -/

/-- The comparison stands behind a left side that is asked and settles the matter. -/
inductive Skips (a : Attendee) : Expr → Comparison → Prop
  | short {c : Connective} {l r : Expr} {x : Comparison} (hl : Settles a l (Predicate.settles c))
      (hx : x ∈ r.comparisons) : Skips a (.join c l r) x
  | left {c : Connective} {l r : Expr} {x : Comparison} (h : Skips a l x) :
      Skips a (.join c l r) x
  | right {c : Connective} {l r : Expr} {b : Bool} {x : Comparison} (hl : Settles a l b)
      (hb : b ≠ Predicate.settles c) (h : Skips a r x) : Skips a (.join c l r) x

theorem Skips.mem_comparisons {a : Attendee} {e : Expr} {x : Comparison} (h : Skips a e x) :
    x ∈ e.comparisons := by
  induction h with
  | short _ hx => exact List.mem_append_right _ hx
  | left _ ih => exact List.mem_append_left _ ih
  | right _ _ _ ih => exact List.mem_append_right _ ih

/-- **Only an ill-typed comparison that is passed over makes a difference.** -/
theorem exists_skips_of_ne {a : Attendee} :
    ∀ (e : Expr), strictly e a ≠ Predicate.ofExpr e a →
      ∃ x err, Skips a e x ∧ x.error? = some err := by
  intro e
  induction e with
  | compare op l r => intro h; exact absurd rfl h
  | join c l r ihl ihr =>
      intro h
      by_cases hsame : strictly l a = Predicate.ofExpr l a
      · cases hl : Predicate.ofExpr l a with
        | error err =>
            rw [strictly_join_of_error (hsame.trans hl)] at h
            simp [Predicate.ofExpr, Predicate.join, hl] at h
        | ok b =>
            by_cases hb : b = Predicate.settles c
            · subst hb
              rw [strictly_join_of_settles (hsame.trans hl)] at h
              cases hr : strictly r a with
              | ok b' => simp [Predicate.ofExpr, Predicate.join, hl, hr, Except.map] at h
              | error err =>
                  obtain ⟨x, hx, herr⟩ := exists_of_strictly_eq_error hr
                  exact ⟨x, err, .short (settles_iff.mpr hl) hx, herr⟩
            · rw [strictly_join_of_ne (hsame.trans hl) hb] at h
              have hright : Predicate.ofExpr (.join c l r) a = Predicate.ofExpr r a := by
                simp [Predicate.ofExpr, Predicate.join, hl, hb]
              rw [hright] at h
              obtain ⟨x, err, hx, herr⟩ := ihr h
              exact ⟨x, err, .right (settles_iff.mpr hl) hb hx, herr⟩
      · obtain ⟨x, err, hx, herr⟩ := ihl hsame
        exact ⟨x, err, .left hx, herr⟩

/-- The two ways coincide on a query without ill-typed comparisons. -/
theorem strictly_eq_of_wellTyped {e : Expr} (h : ∀ x ∈ e.comparisons, x.error? = none)
    (a : Attendee) : strictly e a = Predicate.ofExpr e a := by
  by_cases hsame : strictly e a = Predicate.ofExpr e a
  · exact hsame
  · obtain ⟨x, err, hx, herr⟩ := exists_skips_of_ne e hsame
    rw [h x hx.mem_comparisons] at herr
    cases herr

/-- The strict way has a result exactly if all comparisons are well typed, and then it is that of
the predicate. -/
theorem strictly_eq_ok_iff {a : Attendee} {e : Expr} {b : Bool} :
    strictly e a = .ok b ↔
      (∀ x ∈ e.comparisons, x.error? = none) ∧ Predicate.ofExpr e a = .ok b := by
  constructor
  · intro h
    have hnone : e.comparisons.findSome? Comparison.error? = none := by
      cases hfirst : e.comparisons.findSome? Comparison.error? with
      | none => rfl
      | some err =>
          rw [(strictly_eq_error_iff e).mpr hfirst] at h
          cases h
    have hwell := List.findSome?_eq_none_iff.mp hnone
    exact ⟨hwell, strictly_eq_of_wellTyped hwell a ▸ h⟩
  · rintro ⟨hwell, h⟩
    rw [strictly_eq_of_wellTyped hwell, h]

/-- Who is not called Bob is spared a comparison of the name with a truth value, unless everything
is asked. -/
example :
    let e : Expr := .join .and (.compare .eq (.field .name) (.literal (.text "Bob")))
      (.compare .eq (.field .name) (.literal (.truth true)))
    let a := Attendee.ofEvents "Ann" [] default
    Predicate.ofExpr e a = .ok false ∧ strictly e a = .error (.mismatch .eq .text .truth) :=
  ⟨rfl, rfl⟩

end RollCall.Query
