/-
The operators agree with each other.

Equality and order are asked of the values separately, and what decides differs from kind to
kind.  Yet within a kind there is one linear order, of texts or of integers, in which each
value has its place, and equality and order are those of the places: `exists_comparesAs`
goes through the kinds once and finds it.  Whatever the operators of equality and of order
have to do with each other is then a matter of linear orders.

Lists of spans have no order, and what is not a number has no place: it is neither equal to
anything nor before or behind it.
-/
import Mathlib.Data.String.Basic
import RollCall.Proofs.Operator

namespace RollCall

theorem Span.nanos_injective : Function.Injective Span.nanos := by
  rintro ⟨m⟩ ⟨n⟩ h
  exact congrArg Span.mk h

namespace Value

/-- The value is a number that is none. -/
def isNaN : Value → Bool
  | .number x => x.isNaN
  | _ => false

theorem kind_of_isNaN {v : Value} (h : v.isNaN = true) : v.kind = .number := by
  cases v with
  | number x => rfl
  | _ => cases h

/-- A value of the kind of numbers is one. -/
theorem exists_number_of_kind {v : Value} (h : v.kind = .number) : ∃ x, v = .number x := by
  cases v with
  | number x => exact ⟨x, rfl⟩
  | _ => cases h

/-- Equality may be read off anything that tells the values apart. -/
theorem beq_eq_decide_of_injective {α β : Type} [DecidableEq α] [DecidableEq β] {f : α → β}
    (hf : Function.Injective f) (x y : α) : (x == y) = decide (f x = f y) := by
  rw [beq_eq_decide, decide_eq_decide, hf.eq_iff]

/-- Two values compare as two elements of a linear order. -/
structure ComparesAs {α : Type} [LinearOrder α] (a b : Value) (x y : α) : Prop where
  order : a.order? b = some (some (compare x y))
  equal : a.equal? b = some (decide (x = y))

/-- The place of a text. -/
def string : Value → String
  | .text s => s
  | _ => ""

/-- The place of a value that is no text among those of its kind. -/
def rank : Value → Int
  | .number x => x.rank
  | .span d => d.nanos
  | .instant t => t.rank
  | .truth b => b.toNat
  | .status s => s.rank
  | .text _ | .spans _ => 0

theorem comparesAs_rank {a b : Value} (hkind : a.kind = b.kind) (htext : a.kind ≠ .text)
    (hspans : a.kind ≠ .spans) (ha : a.isNaN = false) (hb : b.isNaN = false) :
    ComparesAs a b a.rank b.rank := by
  cases a with
  | text s => exact absurd rfl htext
  | spans ds => exact absurd rfl hspans
  | number x =>
      obtain ⟨y, rfl⟩ := exists_number_of_kind hkind.symm
      have hcompare : x.compare? y = some (compare x.rank y.rank) := by
        rw [isNaN] at ha hb
        simp [Binary64.compare?, ha, hb]
      refine ⟨congrArg some hcompare, ?_⟩
      rw [equal?, Binary64.equal, hcompare, Option.some_beq_some, Option.some.injEq,
        Bool.eq_iff_iff, beq_iff_eq, decide_eq_true_iff, compare_eq_iff_eq]
      exact Iff.rfl
  | span d =>
      cases b <;> cases hkind
      exact ⟨rfl, congrArg some (beq_eq_decide_of_injective Span.nanos_injective _ _)⟩
  | instant t =>
      cases b <;> cases hkind
      have hrank : Function.Injective Instant.rank := fun _ _ => Instant.rank_injective
      exact ⟨rfl, congrArg some (beq_eq_decide_of_injective hrank _ _)⟩
  | truth x =>
      cases b <;> cases hkind
      rename_i y
      constructor <;> cases x <;> cases y <;> rfl
  | status s =>
      cases b <;> cases hkind
      rename_i t
      constructor <;> cases s <;> cases t <;> rfl

/-- **The values of a kind that has an order have their places in a linear order**, but for what is
not a number. -/
theorem exists_comparesAs {k : Kind} (hk : k ≠ .spans) :
    ∃ (α : Type) (_ : LinearOrder α) (place : Value → α), ∀ a b : Value, a.kind = k → b.kind = k →
      a.isNaN = false → b.isNaN = false → ComparesAs a b (place a) (place b) := by
  by_cases htext : k = .text
  · refine ⟨String, inferInstance, string, ?_⟩
    rintro a b rfl hb - -
    cases a <;> cases htext
    cases b <;> cases hb
    exact ⟨rfl, rfl⟩
  · refine ⟨Int, inferInstance, rank, ?_⟩
    rintro a b rfl hb hx hy
    exact comparesAs_rank hb.symm htext hk hx hy

end Value

namespace Operator

/-- The operator answers that it holds between the values. -/
def Holds (op : Operator) (a b : Value) : Prop :=
  op.apply a b = .ok true

theorem apply_eq_ok_iff {op : Operator} {a b : Value} {r : Bool} :
    op.apply a b = .ok r ↔ op.holds? a b = some r := by
  unfold apply
  cases op.holds? a b <;> simp

theorem holds_iff {op : Operator} {a b : Value} : op.Holds a b ↔ op.holds? a b = some true :=
  apply_eq_ok_iff

/-! ### Operators of a linear order -/

section

variable {α : Type} [LinearOrder α] {a b : Value} {x y : α} (h : a.ComparesAs b x y)

include h

theorem holds_eq : eq.Holds a b ↔ x = y := by
  rw [holds_iff, holds?, h.equal]
  simp

/-- An operator that asks for the order holds if it accepts how the places compare. -/
theorem holds_of_order {op : Operator} (hop : op ∈ [lt, le, gt, ge]) :
    op.Holds a b ↔ op.accepts (compare x y) = true := by
  have hholds : op.holds? a b = (a.order? b).map fun o => o.any op.accepts := by
    simp only [List.mem_cons, List.not_mem_nil, or_false] at hop
    rcases hop with rfl | rfl | rfl | rfl <;> rfl
  rw [holds_iff, hholds, h.order]
  simp

theorem holds_lt : lt.Holds a b ↔ x < y := by
  rw [holds_of_order h (by decide), accepts, Ordering.isLT_iff_eq_lt, compare_lt_iff_lt]

theorem holds_gt : gt.Holds a b ↔ y < x := by
  rw [holds_of_order h (by decide), accepts, Ordering.isGT_iff_eq_gt, compare_gt_iff_gt]

theorem holds_le : le.Holds a b ↔ x ≤ y := by
  rw [holds_of_order h (by decide), accepts, Ordering.isLE_iff_ne_gt, compare_gt_iff_gt, not_lt]

theorem holds_ge : ge.Holds a b ↔ y ≤ x := by
  rw [holds_of_order h (by decide), accepts, Ordering.isGE_iff_ne_lt, compare_lt_iff_lt, not_lt]

end

/-! ### Whom an operator answers -/

/-- The kinds that an operator is for. -/
def Admits (op : Operator) (l r : Kind) : Prop :=
  match op with
  | .eq | .ne => l = r
  | .le | .ge | .lt | .gt => l = r ∧ l ≠ .spans
  | .contains => l = .text ∧ r = .text ∨ l = .spans ∧ r = .span

/-- The error of an operator on kinds that it is not for. -/
def errorFor (op : Operator) (l r : Kind) : CompareError :=
  if op = .contains ∧ l ≠ .text ∧ l ≠ .spans then .holdsNothing l else .mismatch op l r

instance (op : Operator) (l r : Kind) : Decidable (op.Admits l r) :=
  match op with
  | .eq | .ne => inferInstanceAs (Decidable (l = r))
  | .le | .ge | .lt | .gt => inferInstanceAs (Decidable (l = r ∧ l ≠ .spans))
  | .contains => inferInstanceAs (Decidable (l = .text ∧ r = .text ∨ l = .spans ∧ r = .span))

/-- The table of errors is empty for the kinds that an operator is for, and else has its error. -/
theorem kindError?_eq (op : Operator) (l r : Kind) :
    op.kindError? l r = if op.Admits l r then none else some (op.errorFor l r) := by
  cases op
  case contains => cases l <;> cases r <;> rfl
  all_goals rfl

theorem apply_eq_error {op : Operator} {a b : Value} (h : ¬ op.Admits a.kind b.kind) :
    op.apply a b = .error (op.errorFor a.kind b.kind) := by
  rw [apply_eq_error_iff, kindError?_eq, if_neg h]

/-- **An operator answers the kinds that it is for, and no others.** -/
theorem exists_apply_eq_ok_iff {op : Operator} {a b : Value} :
    (∃ r, op.apply a b = .ok r) ↔ op.Admits a.kind b.kind := by
  constructor
  · rintro ⟨r, hr⟩
    by_contra hnot
    rw [apply_eq_error hnot] at hr
    cases hr
  · intro hadmits
    cases happly : op.apply a b with
    | ok r => exact ⟨r, rfl⟩
    | error err =>
        rw [apply_eq_error_iff, kindError?_eq, if_pos hadmits] at happly
        cases happly

theorem apply_ne_eq_ok_iff {a b : Value} {r : Bool} :
    ne.apply a b = .ok r ↔ eq.apply a b = .ok (!r) := by
  rw [apply_eq_ok_iff, apply_eq_ok_iff, holds?, holds?]
  cases a.equal? b with
  | none => simp
  | some e => cases e <;> cases r <;> simp

/-! ### What is not a number -/

/-- What is not a number is neither equal to a number nor in front of it nor behind. -/
theorem apply_of_isNaN {op : Operator} (hop : op ∈ [eq, lt, le, gt, ge]) {a b : Value}
    (hkind : a.kind = b.kind) (h : a.isNaN = true ∨ b.isNaN = true) : op.apply a b = .ok false := by
  have hnumber : a.kind = .number := by
    rcases h with h | h
    · exact Value.kind_of_isNaN h
    · exact hkind.trans (Value.kind_of_isNaN h)
  obtain ⟨x, rfl⟩ := Value.exists_number_of_kind hnumber
  obtain ⟨y, rfl⟩ := Value.exists_number_of_kind (hkind.symm.trans hnumber)
  have hnone : x.compare? y = none := Binary64.compare?_eq_none_iff.mpr h
  rw [apply_eq_ok_iff]
  simp only [List.mem_cons, List.not_mem_nil, or_false] at hop
  rcases hop with rfl | rfl | rfl | rfl | rfl
  · simp [holds?, Value.equal?, Binary64.equal, hnone]
  all_goals simp [holds?, Value.order?, hnone]

/-- Values between which an operator of order holds have places in one order. -/
theorem comparable_of_holds {op : Operator} (hop : op ∈ [lt, le, gt, ge]) {a b : Value}
    (h : op.Holds a b) :
    a.kind = b.kind ∧ a.kind ≠ .spans ∧ a.isNaN = false ∧ b.isNaN = false := by
  have hadmits : a.kind = b.kind ∧ a.kind ≠ .spans := by
    have := exists_apply_eq_ok_iff.mp ⟨true, h⟩
    simp only [List.mem_cons, List.not_mem_nil, or_false] at hop
    rcases hop with rfl | rfl | rfl | rfl <;> exact this
  have hnumbers : ¬ (a.isNaN = true ∨ b.isNaN = true) := by
    intro hnan
    rw [Holds, apply_of_isNaN (List.mem_cons_of_mem _ hop) hadmits.1 hnan] at h
    cases h
  rw [not_or, Bool.not_eq_true, Bool.not_eq_true] at hnumbers
  exact ⟨hadmits.1, hadmits.2, hnumbers⟩

theorem holds_lt_iff_gt {a b : Value} : lt.Holds a b ↔ gt.Holds b a := by
  constructor
  · intro h
    obtain ⟨hkind, hspans, ha, hb⟩ := comparable_of_holds (by decide) h
    obtain ⟨α, _, place, hplace⟩ := Value.exists_comparesAs hspans
    rw [holds_lt (hplace a b rfl hkind.symm ha hb)] at h
    exact (holds_gt (hplace b a hkind.symm rfl hb ha)).mpr h
  · intro h
    obtain ⟨hkind, hspans, hb, ha⟩ := comparable_of_holds (by decide) h
    obtain ⟨α, _, place, hplace⟩ := Value.exists_comparesAs hspans
    rw [holds_gt (hplace b a rfl hkind.symm hb ha)] at h
    exact (holds_lt (hplace a b hkind.symm rfl ha hb)).mpr h

theorem holds_lt_trans {a b c : Value} (hab : lt.Holds a b) (hbc : lt.Holds b c) :
    lt.Holds a c := by
  obtain ⟨hkind, hspans, ha, hb⟩ := comparable_of_holds (by decide) hab
  obtain ⟨hkind', -, -, hc⟩ := comparable_of_holds (by decide) hbc
  obtain ⟨α, _, place, hplace⟩ := Value.exists_comparesAs hspans
  have hcKind := (hkind.trans hkind').symm
  rw [holds_lt (hplace a b rfl hkind.symm ha hb)] at hab
  rw [holds_lt (hplace b c hkind.symm hcKind hb hc)] at hbc
  exact (holds_lt (hplace a c rfl hcKind ha hc)).mpr (hab.trans hbc)

/-- Of being less, equal and greater exactly one is so of two places. -/
theorem existsUnique_holds {α : Type} [LinearOrder α] {a b : Value} {x y : α}
    (h : a.ComparesAs b x y) : ∃! op, op ∈ [lt, eq, gt] ∧ op.Holds a b := by
  have hall : ∀ op, (op ∈ [lt, eq, gt] ∧ op.Holds a b) ↔
      (op = lt ∧ x < y) ∨ (op = eq ∧ x = y) ∨ (op = gt ∧ y < x) := by
    intro op
    rw [← holds_lt h, ← holds_eq h, ← holds_gt h]
    simp only [List.mem_cons, List.not_mem_nil, or_false]
    constructor
    · rintro ⟨rfl | rfl | rfl, hop⟩ <;> simp [hop]
    · rintro (⟨rfl, hop⟩ | ⟨rfl, hop⟩ | ⟨rfl, hop⟩) <;> simp [hop]
  simp only [hall]
  rcases lt_trichotomy x y with hxy | hxy | hxy
  · exact ⟨lt, .inl ⟨rfl, hxy⟩, by simp [hxy.ne, hxy.not_gt]⟩
  · exact ⟨eq, .inr (.inl ⟨rfl, hxy⟩), by simp [hxy]⟩
  · exact ⟨gt, .inr (.inr ⟨rfl, hxy⟩), by simp [hxy.ne', hxy.not_gt]⟩

/-! ### Texts in texts -/

theorem holds_contains_texts {s t : String} :
    contains.Holds (.text s) (.text t) ↔ t.toList <:+: s.toList := by
  rw [holds_iff, holds?, Value.contains?, Option.some.injEq, Value.occursIn_iff]

theorem holds_eq_texts {s t : String} : eq.Holds (.text s) (.text t) ↔ s = t := by
  rw [holds_iff, holds?, Value.equal?, Option.some.injEq, beq_iff_eq]

/-- Two texts that hold each other are one. -/
theorem holds_contains_both_iff {s t : String} :
    contains.Holds (.text s) (.text t) ∧ contains.Holds (.text t) (.text s) ↔
      eq.Holds (.text s) (.text t) := by
  rw [holds_contains_texts, holds_contains_texts, holds_eq_texts]
  constructor
  · rintro ⟨hts, hst⟩
    have hlength := Nat.le_antisymm hst.length_le hts.length_le
    exact String.toList_inj.mp (hst.eq_of_length hlength)
  · rintro rfl
    exact ⟨List.infix_rfl, List.infix_rfl⟩

/--
**The operators agree with each other.**

Each answers the kinds that it is for and has the error of the kinds for any others.  Where
they answer, to be different is not to be equal; of less, equal and greater exactly one
holds and the other two operators follow from these, unless a side is not a number, which
no operator of equality or order holds of; less is greater with the sides exchanged, and goes
from value to value.  Two texts that hold each other are equal.
-/
theorem apply_coherent (a b c : Value) :
    (∀ op : Operator, (∃ r, op.apply a b = .ok r) ↔ op.Admits a.kind b.kind) ∧
      (∀ op : Operator, ¬ op.Admits a.kind b.kind →
        op.apply a b = .error (op.errorFor a.kind b.kind)) ∧
      (∀ r, ne.apply a b = .ok r ↔ eq.apply a b = .ok (!r)) ∧
      (a.kind = b.kind → a.kind ≠ .spans → a.isNaN = false → b.isNaN = false →
        (∃! op, op ∈ [lt, eq, gt] ∧ op.Holds a b) ∧
        (le.Holds a b ↔ lt.Holds a b ∨ eq.Holds a b) ∧
        (ge.Holds a b ↔ gt.Holds a b ∨ eq.Holds a b)) ∧
      (lt.Holds a b ↔ gt.Holds b a) ∧
      (lt.Holds a b → lt.Holds b c → lt.Holds a c) ∧
      (a.kind = b.kind → a.isNaN = true ∨ b.isNaN = true →
        ∀ op ∈ [eq, lt, le, gt, ge], op.apply a b = .ok false) ∧
      (∀ s t, a = .text s → b = .text t →
        (contains.Holds a b ∧ contains.Holds b a ↔ eq.Holds a b)) := by
  refine ⟨fun _ => exists_apply_eq_ok_iff, fun _ => apply_eq_error, fun _ => apply_ne_eq_ok_iff, ?_,
    holds_lt_iff_gt, holds_lt_trans, fun hkind h op hop => apply_of_isNaN hop hkind h, ?_⟩
  · intro hkind hspans ha hb
    obtain ⟨α, _, place, hplace⟩ := Value.exists_comparesAs hspans
    have h := hplace a b rfl hkind.symm ha hb
    refine ⟨existsUnique_holds h, ?_, ?_⟩
    · rw [holds_le h, holds_lt h, holds_eq h, le_iff_lt_or_eq]
    · rw [holds_ge h, holds_gt h, holds_eq h, le_iff_lt_or_eq, eq_comm]
  · rintro s t rfl rfl
    exact holds_contains_both_iff

/-- One, two and three, and what is not a number beside one of them. -/
theorem apply_coherent_numbers :
    (∃! op, op ∈ [lt, eq, gt] ∧
      op.Holds (.number ⟨0x3FF0000000000000⟩) (.number ⟨0x4000000000000000⟩)) ∧
      lt.Holds (.number ⟨0x3FF0000000000000⟩) (.number ⟨0x4008000000000000⟩) ∧
      ge.apply (.number ⟨0x7FF8000000000000⟩) (.number ⟨0x3FF0000000000000⟩) = .ok false := by
  obtain ⟨-, -, -, horder, -, htrans, -, -⟩ := apply_coherent
    (.number ⟨0x3FF0000000000000⟩) (.number ⟨0x4000000000000000⟩) (.number ⟨0x4008000000000000⟩)
  obtain ⟨-, -, -, -, -, -, hnan, -⟩ := apply_coherent
    (.number ⟨0x7FF8000000000000⟩) (.number ⟨0x3FF0000000000000⟩) (.number ⟨0x3FF0000000000000⟩)
  exact ⟨(horder rfl nofun rfl rfl).1, htrans rfl rfl, hnan rfl (.inl rfl) ge (by decide)⟩

end Operator

end RollCall
