/-
Reading on from a place.

The reader is given the tokens as a list and never asks where it stands.  Here its states
are put at places instead: `readFrom` is what becomes of a state if the tokens from a place on
are still to come.  One token moves a state to the next place; a state that refuses what
stands there names the place; and where a value is due, on either side of an operator, one or
three tokens lead to the state behind the value.
-/
import RollCall.Proofs.Query.Reading

namespace RollCall.Query

namespace Reader

/-- What comes of a state if the tokens from a place on are still to be taken. -/
def State.readFrom (ts : Tokens) (s : State) (i : Nat) : Except Error Expr :=
  (s.takeAll (ts.list.drop i)).bind (State.finish · ts.stop)

/-- The error at a place where something else was expected; the end of the text stands at every
place behind the tokens. -/
def misplacedAt (ts : Tokens) (i : Nat) (labels : List Label) : Error :=
  .misplaced ⟨(ts.list[i]?.map Token.position).getD ts.stop, ts.list[i]?, labels⟩

/-- The whole reading. -/
theorem readFrom_start (ts : Tokens) : start.readFrom ts 0 = Expr.ofTokens ts := by
  simp only [State.readFrom, Expr.ofTokens, List.drop_zero]
  cases start.takeAll ts.list <;> rfl

variable {ts : Tokens} {s s' : State} {i : Nat} {t : Token}

/-! ### One token -/

theorem readFrom_of_some (h : ts.list[i]? = some t) :
    s.readFrom ts i = (s.take t).bind (State.readFrom ts · (i + 1)) := by
  obtain ⟨hi, ht⟩ := List.getElem?_eq_some_iff.mp h
  unfold State.readFrom
  rw [List.drop_eq_getElem_cons hi, ht, State.takeAll]
  cases s.take t <;> rfl

theorem readFrom_of_none (h : ts.list[i]? = none) : s.readFrom ts i = s.finish ts.stop := by
  unfold State.readFrom
  rw [List.drop_eq_nil_of_le (List.getElem?_eq_none_iff.mp h)]
  rfl

theorem readFrom_of_take (h : ts.list[i]? = some t) (htake : s.take t = .ok s') :
    s.readFrom ts i = s'.readFrom ts (i + 1) := by
  rw [readFrom_of_some h, htake]
  rfl

/-- A state that fits neither the token at a place nor the end of the text there. -/
theorem readFrom_of_refuse (htake : ∀ t, ts.list[i]? = some t → s.take t = .error (s.refuse t))
    (hfinish : ts.list[i]? = none →
      s.finish ts.stop = .error (.misplaced ⟨ts.stop, none, s.expected⟩)) :
    s.readFrom ts i = .error (misplacedAt ts i s.expected) := by
  cases h : ts.list[i]? with
  | none => rw [readFrom_of_none h, hfinish h, misplacedAt, h, Option.map_none, Option.getD_none]
  | some t =>
      rw [readFrom_of_some h, htake t h, misplacedAt, h]
      rfl

/-! ### Values -/

/-- A value is due, and this is what becomes of it; the flag tells whether a term begins with it. -/
inductive WantsValue : Bool → State → (Placed → Except Error State) → Prop
  | left (p : Pending) (enc : List Pending) :
      WantsValue true ⟨.term, p, enc⟩ fun l => .ok ⟨.operator l, p, enc⟩
  | right (left : Placed) (op : Operator) (p : Pending) (enc : List Pending) :
      WantsValue false ⟨.right left op, p, enc⟩ (State.closeComparison ⟨.term, p, enc⟩ left op)

variable {first : Bool} {k : Placed → Except Error State} {o : Operand}

/-- What a value may begin with; a group may begin there too if a term does. -/
def valueLabels (first : Bool) : List Label :=
  if first then .opening :: valueStart else valueStart

/-- A value that is a token by itself. -/
theorem WantsValue.readFrom_plain (h : WantsValue first s k) (hi : ts.list[i]? = some t)
    (ht : plainOperand? t = some o) :
    s.readFrom ts i = (k ⟨o, t⟩).bind (State.readFrom ts · (i + 1)) := by
  have htake : s.take t = k ⟨o, t⟩ := by
    cases h with
    | left p enc => simp [State.take, State.takeTerm, ht]
    | right left op p enc =>
        simp only [State.take, ht]
        rfl
  rw [readFrom_of_some hi, htake]

/-- Nothing that a value begins with. -/
theorem WantsValue.readFrom_refused (h : WantsValue first s k)
    (hplain : ts.list[i]?.bind plainOperand? = none)
    (hopening : ts.list[i]?.map Token.symbol ≠ some .opening) :
    s.readFrom ts i = .error (misplacedAt ts i (valueLabels first)) := by
  have hnot : ∀ t, ts.list[i]? = some t → plainOperand? t = none ∧ t.symbol ≠ .opening := by
    intro t ht
    simpa [ht] using And.intro hplain hopening
  cases h with
  | left p enc =>
      refine readFrom_of_refuse (s := ⟨.term, p, enc⟩) (fun t ht => ?_) fun _ => rfl
      simp [State.take, State.takeTerm, hnot t ht]
  | right left op p enc =>
      refine readFrom_of_refuse (s := ⟨.right left op, p, enc⟩) (fun t ht => ?_) fun _ => rfl
      simp [State.take, hnot t ht]

variable {a c : Token}

/-- A value between brackets, up to the closing one: what it comes to depends on that. -/
theorem WantsValue.exists_closing (h : WantsValue first s k) (ha : ts.list[i]? = some a)
    (hopening : a.symbol = .opening) (ht : ts.list[i + 1]? = some t)
    (hliteral : bracketedOperand? t = some o) :
    ∃ inside : State, s.readFrom ts i = inside.readFrom ts (i + 2) ∧
      inside.expected = [.closing] ∧
      (∀ c, inside.take c = if c.symbol = .closing then k ⟨o, t⟩ else .error (inside.refuse c)) ∧
      inside.finish ts.stop = .error (.misplaced ⟨ts.stop, none, inside.expected⟩) := by
  have hplain : plainOperand? a = none := by simp [plainOperand?, hopening]
  cases h with
  | left p enc =>
      refine ⟨⟨.leftClosing ⟨o, t⟩, p, enc⟩, ?_, rfl, fun _ => rfl, rfl⟩
      have hbegun : State.take ⟨.term, p, enc⟩ a = .ok ⟨.afterOpening, p, enc⟩ := by
        simp [State.take, State.takeTerm, hplain, hopening]
      rw [readFrom_of_take ha hbegun]
      exact readFrom_of_take ht (by simp [State.take, hliteral])
  | right left op p enc =>
      refine ⟨⟨.rightClosing left op ⟨o, t⟩, p, enc⟩, ?_, rfl, fun _ => rfl, rfl⟩
      have hbegun : State.take ⟨.right left op, p, enc⟩ a =
          .ok ⟨.rightLiteral left op, p, enc⟩ := by
        simp [State.take, hplain, hopening]
      rw [readFrom_of_take ha hbegun]
      exact readFrom_of_take ht (by simp [State.take, hliteral])

/-- A value between brackets. -/
theorem WantsValue.readFrom_bracketed (h : WantsValue first s k) (ha : ts.list[i]? = some a)
    (hopening : a.symbol = .opening) (ht : ts.list[i + 1]? = some t)
    (hliteral : bracketedOperand? t = some o) (hc : ts.list[i + 2]? = some c)
    (hclosing : c.symbol = .closing) :
    s.readFrom ts i = (k ⟨o, t⟩).bind (State.readFrom ts · (i + 3)) := by
  obtain ⟨inside, hinside, -, htake, -⟩ := h.exists_closing ha hopening ht hliteral
  rw [hinside, readFrom_of_some hc, htake, if_pos hclosing]

/-- A value behind which the bracket is not closed. -/
theorem WantsValue.readFrom_unclosed (h : WantsValue first s k) (ha : ts.list[i]? = some a)
    (hopening : a.symbol = .opening) (ht : ts.list[i + 1]? = some t)
    (hliteral : bracketedOperand? t = some o)
    (hclosing : ∀ c, ts.list[i + 2]? = some c → c.symbol ≠ .closing) :
    s.readFrom ts i = .error (misplacedAt ts (i + 2) [.closing]) := by
  obtain ⟨inside, hinside, hexpected, htake, hfinish⟩ := h.exists_closing ha hopening ht hliteral
  rw [hinside, ← hexpected]
  exact readFrom_of_refuse (fun c hc => by rw [htake, if_neg (hclosing c hc)]) fun _ => hfinish

/-- On the right a bracket cannot open a group. -/
theorem WantsValue.readFrom_unbracketed (h : WantsValue false s k) (ha : ts.list[i]? = some a)
    (hopening : a.symbol = .opening)
    (hliteral : ts.list[i + 1]?.bind bracketedOperand? = none) :
    s.readFrom ts i = .error (misplacedAt ts (i + 1) [.span, .instant]) := by
  have hplain : plainOperand? a = none := by simp [plainOperand?, hopening]
  cases h with
  | right left op p enc =>
      have hbegun : State.take ⟨.right left op, p, enc⟩ a =
          .ok ⟨.rightLiteral left op, p, enc⟩ := by
        simp [State.take, hplain, hopening]
      rw [readFrom_of_take ha hbegun]
      refine readFrom_of_refuse (s := ⟨.rightLiteral left op, p, enc⟩) (fun t ht => ?_) fun _ => rfl
      rw [ht] at hliteral
      simp [State.take, show bracketedOperand? t = none from hliteral]

/-! ### Comparisons, groups and chains -/

variable {p : Pending} {enc : List Pending}

theorem readFrom_operator {left : Placed} {op : Operator} (ht : ts.list[i]? = some t)
    (hop : t.symbol = .operator op) :
    State.readFrom ts ⟨.operator left, p, enc⟩ i =
      State.readFrom ts ⟨.right left op, p, enc⟩ (i + 1) :=
  readFrom_of_take ht (by simp [State.take, hop])

theorem readFrom_operator_refused {left : Placed}
    (h : ∀ t op, ts.list[i]? = some t → t.symbol ≠ .operator op) :
    State.readFrom ts ⟨.operator left, p, enc⟩ i =
      .error (misplacedAt ts i (Operator.all.map .operator)) := by
  refine readFrom_of_refuse (s := ⟨.operator left, p, enc⟩) (fun t ht => ?_) fun _ => rfl
  simp only [State.take]
  split
  · rename_i op hop
    exact absurd hop (h t op ht)
  · rfl

/-- A bracket that opens a group stands at the place. -/
def OpensGroup (ts : Tokens) (i : Nat) : Prop :=
  ts.list[i]?.map Token.symbol = some .opening ∧ ts.list[i + 1]?.bind bracketedOperand? = none

theorem OpensGroup.lt (h : OpensGroup ts i) : i < ts.list.length := by
  obtain ⟨a, ha, -⟩ := Option.map_eq_some_iff.mp h.1
  exact (List.getElem?_eq_some_iff.mp ha).1

/-- The group begins, if the limit allows it. -/
theorem readFrom_openGroup (h : OpensGroup ts i) :
    State.readFrom ts ⟨.term, p, enc⟩ i =
      if enc.length < deepestNesting then State.readFrom ts ⟨.term, none, p :: enc⟩ (i + 1)
      else .error .tooDeep := by
  obtain ⟨hsymbol, hliteral⟩ := h
  obtain ⟨a, ha, hopening⟩ := Option.map_eq_some_iff.mp hsymbol
  have hplain : plainOperand? a = none := by simp [plainOperand?, hopening]
  have hbegun : State.take ⟨.term, p, enc⟩ a = .ok ⟨.afterOpening, p, enc⟩ := by
    simp [State.take, State.takeTerm, hplain, hopening]
  rw [readFrom_of_take ha hbegun]
  cases ht : ts.list[i + 1]? with
  | none =>
      rw [readFrom_of_none ht, readFrom_of_none ht]
      by_cases hroom : enc.length < deepestNesting <;> simp [State.finish, State.openGroup, hroom]
  | some t =>
      rw [ht] at hliteral
      have hnone : bracketedOperand? t = none := hliteral
      rw [readFrom_of_some ht, readFrom_of_some ht]
      by_cases hroom : enc.length < deepestNesting
      · simp [State.take, State.openGroup, hnone, hroom]
      · simp [State.take, State.openGroup, hnone, hroom]
        rfl

variable {e : Expr}

theorem readFrom_connective {b : Connective} (ht : ts.list[i]? = some t)
    (hb : t.symbol = .connective b) :
    State.readFrom ts ⟨.joint e, none, enc⟩ i =
      State.readFrom ts ⟨.term, some (e, b), enc⟩ (i + 1) :=
  readFrom_of_take ht (by simp [State.take, hb])

theorem readFrom_closing (ht : ts.list[i]? = some t) (hclosing : t.symbol = .closing) :
    State.readFrom ts ⟨.joint e, none, p :: enc⟩ i =
      State.readFrom ts (.afterTerm p enc e) (i + 1) :=
  readFrom_of_take ht (by simp [State.take, hclosing])

/-- Behind a term, neither a connective, nor the bracket or the end of the text that is due. -/
theorem readFrom_joint_refused
    (hconnective : ∀ t b, ts.list[i]? = some t → t.symbol ≠ .connective b)
    (hclosing : enc ≠ [] → ∀ t, ts.list[i]? = some t → t.symbol ≠ .closing)
    (hend : ts.list[i]? = none → enc ≠ []) :
    State.readFrom ts ⟨.joint e, none, enc⟩ i =
      .error (misplacedAt ts i (State.expected ⟨.joint e, none, enc⟩)) := by
  refine readFrom_of_refuse (s := ⟨.joint e, none, enc⟩) (fun t ht => ?_) fun ht => ?_
  · simp only [State.take]
    split
    · rename_i b hb
      exact absurd hb (hconnective t b ht)
    · rename_i outer enc' hsymbol
      exact absurd hsymbol (hclosing (List.cons_ne_nil outer enc') t ht)
    · rfl
  · cases enc with
    | nil => exact absurd rfl (hend ht)
    | cons outer enc => rfl

/-- The end of a query. -/
theorem readFrom_joint_end (ht : ts.list[i]? = none) :
    State.readFrom ts ⟨.joint e, none, []⟩ i = .ok e := by
  rw [readFrom_of_none ht]
  rfl

end Reader

end RollCall.Query
