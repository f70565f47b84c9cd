/-
Where a row of tokens stops being the beginning of a query.

The reader refuses a token as soon as no query goes on with it, and not later.  That it
has not waited too long is plain: what it has refused it never takes, whatever follows.
That it has not been too hasty rests on `completable_of_reads`: from every state that
tokens lead to, some tokens lead to the end of a query.  So `viable_iff`: the beginnings of
queries are the rows of tokens that the reader takes.

What it says it had expected is checked one label at a time, on a symbol that the label
describes.  One label promises too much: a status is not wanted on the right if a text that
spells one stands on the left.
-/
import RollCall.Proofs.Query.Reading

namespace RollCall.Query

/-! ### Beginnings -/

/-- Some query begins with the tokens. -/
def Viable (before : List Token) : Prop :=
  ∃ more stop e, Expr.ofTokens ⟨before ++ more, stop⟩ = .ok e

/-- Some query goes on behind the tokens with the given one, or ends there if none is given. -/
def ViableThrough (before : List Token) : Option Token → Prop
  | some t => Viable (before ++ [t])
  | none => ∃ stop e, Expr.ofTokens ⟨before, stop⟩ = .ok e

/-- What a label stands for: symbols, or the end of the text.  A label that begins with a bracket
stands for the bracket. -/
def Label.Describes : Label → Option Symbol → Prop
  | .opening, s => s = some .opening
  | .closing, s => s = some .closing
  | .connective c, s => s = some (.connective c)
  | .operator op, s => s = some (.operator op)
  | .field, s => ∃ f, s = some (.field f)
  | .text, s => ∃ text, s = some (.literal (.text text))
  | .number, s => ∃ x, s = some (.literal (.number x))
  | .truth, s => ∃ b, s = some (.literal (.truth b))
  | .status, s => ∃ w, s = some (.literal (.status w))
  | .span, s => ∃ d, s = some (.literal (.span d))
  | .instant, s => ∃ t, s = some (.literal (.instant t))
  | .bracketedSpan, s => s = some .opening
  | .bracketedInstant, s => s = some .opening
  | .statusWord w, s => s = some (.literal (.status w))
  | .endOfText, s => s = none

/-- A symbol that a label describes. -/
def Label.sample? : Label → Option Symbol
  | .opening | .bracketedSpan | .bracketedInstant => some .opening
  | .closing => some .closing
  | .connective c => some (.connective c)
  | .operator op => some (.operator op)
  | .field => some (.field .name)
  | .text => some (.literal (.text ""))
  | .number => some (.literal (.number default))
  | .truth => some (.literal (.truth true))
  | .status => some (.literal (.status .joined))
  | .span => some (.literal (.span default))
  | .instant => some (.literal (.instant default))
  | .statusWord w => some (.literal (.status w))
  | .endOfText => none

theorem Label.describes_sample? (l : Label) : l.Describes l.sample? := by
  cases l <;> first | rfl | exact ⟨_, rfl⟩

/-- Some query goes on behind the tokens with something that the label describes. -/
def Label.Fits (l : Label) (before : List Token) : Prop :=
  ∃ found : Option Token, l.Describes (found.map Token.symbol) ∧ ViableThrough before found

/-- The left side of a comparison has just been read, operator and all, and is a text that spells a
status. -/
def AfterStatusText (before : List Token) : Prop :=
  ∃ front word op, (word = "joined" ∨ word = "left") ∧
    before.map Token.symbol = front ++ [.literal (.text word), .operator op]

/-- A token for a symbol; how it is written and where it stands does not matter. -/
def Symbol.token (s : Symbol) : Token :=
  ⟨s, "", 0⟩

namespace Reader

/-! ### Every state can be completed -/

/-- Some tokens lead from the state to the end of a query. -/
def Completable (s : State) : Prop :=
  ∃ more s' e, s.takeAll more = .ok s' ∧ ∀ stop, s'.finish stop = .ok e

theorem Completable.of_take {s s' : State} (h : Completable s') (t : Token)
    (ht : s.take t = .ok s') : Completable s := by
  obtain ⟨more, s'', e, hmore, hfinish⟩ := h
  refine ⟨t :: more, s'', e, ?_, hfinish⟩
  simp only [State.takeAll, ht, hmore]

/-- Behind a term the open groups are closed one after the other. -/
theorem completable_joint (e : Expr) (p : Pending) (enc : List Pending) :
    Completable ⟨.joint e, p, enc⟩ := by
  induction enc generalizing e p with
  | nil => exact ⟨[], _, e, rfl, fun _ => rfl⟩
  | cons outer enc ih =>
      exact (ih (outer.close e) none).of_take (Symbol.token .closing) rfl

theorem completable_afterTerm (p : Pending) (enc : List Pending) (e : Expr) :
    Completable (.afterTerm p enc e) :=
  completable_joint _ _ _

/-- A token that closes a comparison completes a term. -/
theorem completable_of_close {s : State} {left right : Placed} {op : Operator} (t : Token)
    (ht : s.take t = s.closeComparison left op right)
    (hq : ¬ Misquoted left.operand right.operand) : Completable s := by
  have hterm := completable_afterTerm s.pending s.enclosing
    (.compare op left.operand right.operand)
  refine hterm.of_take t ?_
  rw [ht]
  exact closeComparison_eq_ok_iff.mpr ⟨hq, rfl⟩

/-- A number may face anything. -/
theorem completable_right (left : Placed) (op : Operator) (p : Pending) (enc : List Pending) :
    Completable ⟨.right left op, p, enc⟩ := by
  let t := Symbol.token (.literal (.number default))
  have ht : State.take ⟨.right left op, p, enc⟩ t =
      State.closeComparison ⟨.right left op, p, enc⟩ left op
        ⟨.literal (.number default), t⟩ := rfl
  refine completable_of_close t ht ?_
  simp [Misquoted, Operand.SpellsStatus, Operand.HoldsStatus]

theorem completable_operator (left : Placed) (p : Pending) (enc : List Pending) :
    Completable ⟨.operator left, p, enc⟩ :=
  (completable_right left .eq p enc).of_take (Symbol.token (.operator .eq)) rfl

theorem completable_leftClosing (left : Placed) (p : Pending) (enc : List Pending) :
    Completable ⟨.leftClosing left, p, enc⟩ :=
  (completable_operator left p enc).of_take (Symbol.token .closing) rfl

theorem completable_term (p : Pending) (enc : List Pending) : Completable ⟨.term, p, enc⟩ :=
  (completable_operator _ p enc).of_take (Symbol.token (.field .name)) rfl

theorem completable_afterOpening (p : Pending) (enc : List Pending) :
    Completable ⟨.afterOpening, p, enc⟩ :=
  (completable_leftClosing _ p enc).of_take (Symbol.token (.literal (.span default))) rfl

/-- What stands between brackets neither spells a status nor holds one. -/
theorem completable_rightClosing {l : Literal} (hl : l.needsBrackets = true) (left : Placed)
    (op : Operator) (t : Token) (p : Pending) (enc : List Pending) :
    Completable ⟨.rightClosing left op ⟨.literal l, t⟩, p, enc⟩ := by
  refine completable_of_close (Symbol.token .closing) rfl ?_
  cases l <;> simp [Literal.needsBrackets, Misquoted, Operand.SpellsStatus, Operand.HoldsStatus]
    at hl ⊢

theorem completable_rightLiteral (left : Placed) (op : Operator) (p : Pending)
    (enc : List Pending) : Completable ⟨.rightLiteral left op, p, enc⟩ :=
  (completable_rightClosing rfl left op _ p enc).of_take
    (Symbol.token (.literal (.span default))) rfl

/-- **Every state that tokens lead to can be completed.** -/
theorem completable_of_reads {s : State} {ss : List Symbol} (h : Reads s ss) : Completable s := by
  cases h with
  | within _ hdue =>
      cases hdue with
      | term => exact completable_term _ _
      | afterOpening => exact completable_afterOpening _ _
      | leftClosing => exact completable_leftClosing _ _ _
      | operator => exact completable_operator _ _ _
      | right => exact completable_right _ _ _ _
      | rightLiteral => exact completable_rightLiteral _ _ _ _
      | rightClosing _ hr => exact completable_rightClosing hr _ _ _ _ _
  | behind => exact completable_joint _ _ _

/-- **The beginnings of queries are the rows of tokens that the reader takes.** -/
theorem viable_iff {before : List Token} :
    Viable before ↔ ∃ s, start.takeAll before = .ok s := by
  constructor
  · rintro ⟨more, stop, e, h⟩
    unfold Expr.ofTokens at h
    split at h
    · rename_i s hs
      obtain ⟨m, hm, -⟩ := takeAll_append_eq_ok hs
      exact ⟨m, hm⟩
    · cases h
  · rintro ⟨s, hs⟩
    obtain ⟨more, s', e, hmore, hfinish⟩ := completable_of_reads (reads_takeAll before reads_start hs)
    refine ⟨more, 0, e, ?_⟩
    simp only [Expr.ofTokens, takeAll_append_of_ok hs, hmore, hfinish]

/-- What the reader makes of one more token, or of the end. -/
def State.Accepts (s : State) : Option Token → Prop
  | some t => ∃ s', s.take t = .ok s'
  | none => ∃ stop e, s.finish stop = .ok e

theorem viableThrough_iff {before : List Token} {s : State} (hs : start.takeAll before = .ok s)
    (found : Option Token) : ViableThrough before found ↔ s.Accepts found := by
  cases found with
  | some t => simp only [ViableThrough, viable_iff, takeAll_append_singleton hs, State.Accepts]
  | none => simp only [ViableThrough, Expr.ofTokens, hs, State.Accepts]

/-! ### What is refused -/

/-- There is room for a group, if a bracket is going to open one. -/
def State.Roomy (s : State) : Prop :=
  s.due = .afterOpening → s.enclosing.length < deepestNesting

theorem roomy_of_ne {s : State} (h : s.due ≠ .afterOpening) : s.Roomy :=
  fun hdue => absurd hdue h

theorem expected_openGroup {s s' : State} (hdue : s.due = .afterOpening)
    (h : s.openGroup = .ok s') : s'.expected = s.expected ∧ s.Roomy := by
  unfold State.openGroup at h
  split at h
  · rename_i hroom
    obtain rfl := Except.ok.inj h
    exact ⟨by simp [State.expected, hdue], fun _ => hroom⟩
  · cases h

theorem openGroup_ne_misplaced (s : State) (e : Misplaced) :
    s.openGroup ≠ .error (.misplaced e) := by
  unfold State.openGroup
  split <;> simp

/-- The error of a token that is refused. -/
def State.refusal (s : State) (t : Token) : Misplaced :=
  ⟨t.position, some t, s.expected⟩

theorem eq_refusal {s : State} {t : Token} {e : Misplaced}
    (h : (Except.error (s.refuse t) : Except Error State) = .error (.misplaced e)) :
    e = s.refusal t :=
  (Error.misplaced.inj (Except.error.inj h)).symm

/-- A comparison is refused only for what it compares. -/
theorem closeComparison_ne_misplaced (s : State) (left : Placed) (op : Operator) (right : Placed)
    (e : Misplaced) : s.closeComparison left op right ≠ .error (.misplaced e) := by
  unfold State.closeComparison
  cases misquoted? left right with
  | none => simp
  | some t => simp

theorem takeTerm_eq_misplaced {s : State} {t : Token} {e : Misplaced}
    (h : s.takeTerm t = .error (.misplaced e)) : e = s.refusal t := by
  unfold State.takeTerm at h
  split at h
  · cases h
  · split at h
    · cases h
    · exact eq_refusal h

/-- **A token that does not fit is told as it is, with what the state expects.** -/
theorem take_eq_misplaced {s : State} {t : Token} {e : Misplaced}
    (h : s.take t = .error (.misplaced e)) : e = s.refusal t ∧ s.Roomy := by
  by_cases hopening : s.due = .afterOpening
  · simp only [State.take, hopening] at h
    split at h
    · cases h
    · split at h
      · rename_i inner hinner
        obtain ⟨hexpected, hroomy⟩ := expected_openGroup hopening hinner
        obtain rfl := takeTerm_eq_misplaced h
        exact ⟨by rw [State.refusal, State.refusal, hexpected], hroomy⟩
      · rename_i e' hfull
        obtain rfl := Except.error.inj h
        exact absurd hfull (openGroup_ne_misplaced s e)
  · refine ⟨?_, roomy_of_ne hopening⟩
    cases hdue : s.due with
    | afterOpening => exact absurd hdue hopening
    | term =>
        simp only [State.take, hdue] at h
        exact takeTerm_eq_misplaced h
    | right left op =>
        simp only [State.take, hdue] at h
        split at h
        · exact absurd h (closeComparison_ne_misplaced _ _ _ _ _)
        · split at h
          · cases h
          · exact eq_refusal h
    | rightClosing left op value =>
        simp only [State.take, hdue] at h
        split at h
        · exact absurd h (closeComparison_ne_misplaced _ _ _ _ _)
        · exact eq_refusal h
    | joint e' =>
        simp only [State.take, hdue] at h
        split at h
        · cases h
        · cases h
        · exact eq_refusal h
    | leftClosing left | operator left | rightLiteral left op =>
        simp only [State.take, hdue] at h
        split at h
        · cases h
        · exact eq_refusal h

theorem finish_eq_misplaced {s : State} {stop : Nat} {e : Misplaced}
    (h : s.finish stop = .error (.misplaced e)) :
    e = ⟨stop, none, s.expected⟩ ∧ s.Roomy := by
  unfold State.finish at h
  split at h
  · cases h
  · rename_i hdue
    split at h
    · rename_i inner hinner
      obtain ⟨hexpected, hroomy⟩ := expected_openGroup hdue hinner
      obtain rfl := Error.misplaced.inj (Except.error.inj h)
      exact ⟨by rw [hexpected], hroomy⟩
    · rename_i e' hfull
      obtain rfl := Except.error.inj h
      exact absurd hfull (openGroup_ne_misplaced s e)
  · rename_i hopening _
    exact ⟨(Error.misplaced.inj (Except.error.inj h)).symm, roomy_of_ne hopening⟩

/-- An error comes up at one token, and those in front of it have been taken. -/
theorem takeAll_eq_error {s : State} {ts : List Token} {e : Error} (h : s.takeAll ts = .error e) :
    ∃ before t after s', ts = before ++ t :: after ∧ s.takeAll before = .ok s' ∧
      s'.take t = .error e := by
  induction ts generalizing s with
  | nil => cases h
  | cons t ts ih =>
      cases htake : s.take t with
      | error e' =>
          simp only [State.takeAll, htake] at h
          obtain rfl := Except.error.inj h
          exact ⟨[], t, ts, s, rfl, rfl, htake⟩
      | ok next =>
          simp only [State.takeAll, htake] at h
          obtain ⟨before, u, after, s', rfl, hbefore, hu⟩ := ih h
          refine ⟨t :: before, u, after, s', rfl, ?_, hu⟩
          simp only [State.takeAll, htake, hbefore]

/-! ### What was expected -/

/-- A text that spells a status stands on the left, and the right side is due. -/
def State.BehindStatusText (s : State) : Prop :=
  ∃ left op, s.due = .right left op ∧ left.operand.SpellsStatus

/-- A value fits on the right, if it spells no status and is none that the left side spells. -/
theorem accepts_right {left : Placed} {op : Operator} {p : Pending} {enc : List Pending}
    {t : Token} {o : Operand} (ht : plainOperand? t = some o) (hspells : ¬ o.SpellsStatus)
    (hholds : left.operand.SpellsStatus → ¬ o.HoldsStatus) :
    State.Accepts ⟨.right left op, p, enc⟩ (some t) := by
  have hq : ¬ Misquoted left.operand o := by
    rintro (⟨hl, ho⟩ | ⟨ho, -⟩)
    · exact hholds hl ho
    · exact hspells ho
  have htake : State.take ⟨.right left op, p, enc⟩ t =
      State.closeComparison ⟨.right left op, p, enc⟩ left op ⟨o, t⟩ := by
    simp only [State.take, ht]
  exact ⟨_, htake.trans (closeComparison_eq_ok_iff.mpr ⟨hq, rfl⟩)⟩

/-- Within a comparison, or where one begins, what is expected fits. -/
theorem accepts_sample?_within {due : Due} {p : Pending} {enc : List Pending} {us : List Symbol}
    (hdue : Begun due us) (hroomy : State.Roomy ⟨due, p, enc⟩) {l : Label}
    (hl : l ∈ State.expected ⟨due, p, enc⟩)
    (hstatus : l = .status → ¬ State.BehindStatusText ⟨due, p, enc⟩) :
    State.Accepts ⟨due, p, enc⟩ (l.sample?.map Symbol.token) := by
  cases hdue with
  | term =>
      simp only [State.expected, valueStart, List.mem_cons, List.not_mem_nil, or_false] at hl
      rcases hl with rfl | rfl | rfl | rfl | rfl | rfl | rfl | rfl <;> exact ⟨_, rfl⟩
  | afterOpening =>
      have hopen : ∀ t : Token, bracketedOperand? t = none →
          State.Accepts ⟨.term, none, p :: enc⟩ (some t) →
          State.Accepts ⟨.afterOpening, p, enc⟩ (some t) := by
        rintro t ht ⟨s', hs'⟩
        refine ⟨s', ?_⟩
        simp only [State.take, ht, State.openGroup, if_pos (hroomy rfl)]
        exact hs'
      simp only [State.expected, valueStart, List.mem_cons, List.not_mem_nil, or_false] at hl
      rcases hl with rfl | rfl | rfl | rfl | rfl | rfl | rfl | rfl <;>
        exact hopen _ rfl ⟨_, rfl⟩
  | leftClosing =>
      simp only [State.expected, List.mem_singleton] at hl
      subst hl
      exact ⟨_, rfl⟩
  | operator =>
      simp only [State.expected, List.mem_map] at hl
      obtain ⟨op, -, rfl⟩ := hl
      exact ⟨_, rfl⟩
  | @right _ left op =>
      have hnot : l = .status → ¬ left.operand.SpellsStatus :=
        fun h hspells => hstatus h ⟨left, op, rfl, hspells⟩
      simp only [State.expected, valueStart, List.mem_cons, List.not_mem_nil, or_false] at hl
      rcases hl with rfl | rfl | rfl | rfl | rfl | rfl | rfl
      · exact accepts_right rfl (by simp [Operand.SpellsStatus])
          fun _ => by simp [Operand.HoldsStatus]
      · exact accepts_right rfl (by simp [Operand.SpellsStatus])
          fun hspells => absurd hspells (hnot rfl)
      · exact ⟨_, rfl⟩
      · exact ⟨_, rfl⟩
      · exact accepts_right rfl (by simp [Operand.SpellsStatus])
          fun _ => by simp [Operand.HoldsStatus]
      · exact accepts_right rfl (by simp [Operand.SpellsStatus])
          fun _ => by simp [Operand.HoldsStatus]
      · exact accepts_right rfl (by simp [Operand.SpellsStatus])
          fun _ => by simp [Operand.HoldsStatus]
  | rightLiteral =>
      simp only [State.expected, List.mem_cons, List.not_mem_nil, or_false] at hl
      rcases hl with rfl | rfl <;> exact ⟨_, rfl⟩
  | @rightClosing _ left op l' t _ hr =>
      simp only [State.expected, List.mem_singleton] at hl
      subst hl
      have hq : ¬ Misquoted left.operand (.literal l') := by
        cases l' <;> simp [Literal.needsBrackets, Misquoted, Operand.SpellsStatus,
          Operand.HoldsStatus] at hr ⊢
      exact ⟨_, closeComparison_eq_ok_iff.mpr ⟨hq, rfl⟩⟩

/-- Behind an expression what is expected fits, the end of the text included. -/
theorem accepts_sample?_behind {e : Expr} {enc : List Pending} {l : Label}
    (hl : l ∈ State.expected ⟨.joint e, none, enc⟩) :
    State.Accepts ⟨.joint e, none, enc⟩ (l.sample?.map Symbol.token) := by
  cases enc with
  | nil =>
      simp only [State.expected, List.isEmpty_nil, if_true, List.mem_cons, List.not_mem_nil,
        or_false] at hl
      rcases hl with rfl | rfl | rfl
      · exact ⟨_, rfl⟩
      · exact ⟨_, rfl⟩
      · exact ⟨0, e, rfl⟩
  | cons outer enc =>
      simp only [State.expected, List.isEmpty_cons, Bool.false_eq_true, if_false, List.mem_cons,
        List.not_mem_nil, or_false] at hl
      rcases hl with rfl | rfl | rfl <;> exact ⟨_, rfl⟩

/-- **Whatever is expected fits**, but for a status behind a text that spells one. -/
theorem accepts_sample? {s : State} {ss : List Symbol} (hs : Reads s ss) (hroomy : s.Roomy)
    {l : Label} (hl : l ∈ s.expected) (hstatus : l = .status → ¬ s.BehindStatusText) :
    s.Accepts (l.sample?.map Symbol.token) := by
  cases hs with
  | within _ hdue => exact accepts_sample?_within hdue hroomy hl hstatus
  | behind => exact accepts_sample?_behind hl

/-- Behind a text that spells a status no status fits. -/
theorem not_accepts_status {s : State} (hs : s.BehindStatusText) {found : Option Token}
    (hfound : Label.status.Describes (found.map Token.symbol)) : ¬ s.Accepts found := by
  obtain ⟨left, op, hdue, hspells⟩ := hs
  obtain ⟨w, hw⟩ := hfound
  obtain ⟨t, rfl, ht⟩ := Option.map_eq_some_iff.mp hw
  rintro ⟨s', hs'⟩
  have hplain : plainOperand? t = some (.literal (.status w)) := by
    simp [plainOperand?, ht, Literal.needsBrackets]
  simp only [State.take, hdue, hplain] at hs'
  exact (closeComparison_eq_ok_iff.mp hs').1 (.inl ⟨hspells, .inl ⟨w, rfl⟩⟩)

/-! ### Texts that spell a status, behind an operator -/

theorem takeTerm_operator {s : State} {t : Token} {op : Operator} (ht : t.symbol = .operator op) :
    s.takeTerm t = .error (s.refuse t) := by
  simp [State.takeTerm, plainOperand?, ht]

/-- An operator is taken in one state only. -/
theorem take_operator {s s' : State} {t : Token} {op : Operator} (ht : t.symbol = .operator op)
    (h : s.take t = .ok s') : ∃ left, s.due = .operator left ∧ s'.due = .right left op := by
  cases hdue : s.due with
  | operator left =>
      simp only [State.take, hdue, ht] at h
      obtain rfl := Except.ok.inj h
      exact ⟨left, rfl, rfl⟩
  | afterOpening =>
      simp only [State.take, hdue, bracketedOperand?, ht] at h
      split at h
      · rw [takeTerm_operator ht] at h
        cases h
      · cases h
  | term =>
      simp only [State.take, hdue, takeTerm_operator ht] at h
      cases h
  | _ => simp [State.take, hdue, plainOperand?, bracketedOperand?, ht] at h

theorem takeTerm_text {s : State} {t : Token} {w : String} (ht : t.symbol = .literal (.text w)) :
    s.takeTerm t = .ok { s with due := .operator ⟨.literal (.text w), t⟩ } := by
  simp [State.takeTerm, plainOperand?, ht, Literal.needsBrackets]

/-- A text that is taken and leaves an operator due is the left side of a comparison. -/
theorem take_text {s s' : State} {t : Token} {w : String} (ht : t.symbol = .literal (.text w))
    (h : s.take t = .ok s') {left : Placed} (hdue' : s'.due = .operator left) :
    left.operand = .literal (.text w) := by
  cases hdue : s.due with
  | term =>
      simp only [State.take, hdue, takeTerm_text ht] at h
      obtain rfl := Except.ok.inj h
      obtain rfl := Due.operator.inj hdue'
      rfl
  | afterOpening =>
      have hbare : bracketedOperand? t = none := by
        simp [bracketedOperand?, ht, Literal.needsBrackets]
      simp only [State.take, hdue, hbare] at h
      split at h
      · rw [takeTerm_text ht] at h
        obtain rfl := Except.ok.inj h
        obtain rfl := Due.operator.inj hdue'
        rfl
      · cases h
  | right l op =>
      simp only [State.take, hdue, plainOperand?, ht, Literal.needsBrackets] at h
      obtain ⟨-, rfl⟩ := closeComparison_eq_ok_iff.mp h
      cases hdue'
  | _ => simp [State.take, hdue, bracketedOperand?, ht, Literal.needsBrackets] at h

theorem operand_text {ls : List Symbol} {w : String} (h : IsOperand ls (.literal (.text w))) :
    ls = [.literal (.text w)] := by
  cases h
  rfl

/-- **What has been read on the left shows in the tokens.** -/
theorem behindStatusText_iff {before : List Token} {s : State}
    (hs : start.takeAll before = .ok s) : s.BehindStatusText ↔ AfterStatusText before := by
  constructor
  · rintro ⟨left, op, hdue, hspells⟩
    have hreads := reads_takeAll before reads_start hs
    obtain ⟨due, p, enc⟩ := s
    obtain rfl : due = .right left op := hdue
    generalize hss : [] ++ before.map Token.symbol = ss at hreads
    rw [List.nil_append] at hss
    cases hreads with
    | @within _ _ _ lead _ hp hdue =>
        cases hdue with
        | @right ls _ _ hl =>
            have htext : ∃ w, (w = "joined" ∨ w = "left") ∧ left.operand = .literal (.text w) := by
              rcases hspells with h | h
              · exact ⟨_, .inl rfl, h⟩
              · exact ⟨_, .inr rfl, h⟩
            obtain ⟨w, hw, hoperand⟩ := htext
            rw [hoperand] at hl
            refine ⟨lead, w, op, hw, ?_⟩
            rw [hss, operand_text hl]
            rfl
  · rintro ⟨front, w, op, hw, hsymbols⟩
    obtain ⟨front, last, rfl, -, hlast⟩ := List.map_eq_append_iff.mp hsymbols
    obtain ⟨t, _, rfl, ht, hlast⟩ := List.map_eq_cons_iff.mp hlast
    obtain ⟨u, _, rfl, hu, hnil⟩ := List.map_eq_cons_iff.mp hlast
    obtain rfl := List.map_eq_nil_iff.mp hnil
    obtain ⟨m, -, hm⟩ := takeAll_append_eq_ok hs
    obtain ⟨n, ht', hu'⟩ := takeAll_append_eq_ok (List.singleton_append ▸ hm)
    rw [takeAll_singleton] at ht' hu'
    obtain ⟨left, hleft, hdue⟩ := take_operator hu hu'
    refine ⟨left, op, hdue, ?_⟩
    rw [take_text ht ht' hleft]
    exact hw.imp (fun h => by rw [h]) fun h => by rw [h]

/-- Where the reader stood when it refused a token or the end of the text. -/
theorem exists_refusal {ts : Tokens} {e : Misplaced}
    (h : Expr.ofTokens ts = .error (.misplaced e)) :
    ∃ before after s, ts.list = before ++ e.found.toList ++ after ∧
      (e.found = none → after = []) ∧ e.position = (e.found.map Token.position).getD ts.stop ∧
      start.takeAll before = .ok s ∧ ¬ s.Accepts e.found ∧ e.expected = s.expected ∧
      s.Roomy := by
  unfold Expr.ofTokens at h
  split at h
  · rename_i s hs
    obtain ⟨rfl, hroomy⟩ := finish_eq_misplaced h
    refine ⟨ts.list, [], s, by simp, fun _ => rfl, rfl, hs, ?_, rfl, hroomy⟩
    rintro ⟨stop, e, hfinish⟩
    obtain ⟨hdue, henc⟩ := finish_eq_ok hfinish
    simp [State.finish, hdue, henc] at h
  · rename_i e' hs
    obtain ⟨before, t, after, s, hlist, hbefore, htake⟩ := takeAll_eq_error hs
    obtain rfl := Except.error.inj h
    obtain ⟨rfl, hroomy⟩ := take_eq_misplaced htake
    refine ⟨before, after, s, by simp [hlist, State.refusal], by simp [State.refusal], rfl,
      hbefore, ?_, rfl, hroomy⟩
    rintro ⟨s', hs'⟩
    rw [htake] at hs'
    cases hs'

end Reader

/--
**An error tells the first token that no query goes on with.**

Some query begins with the tokens in front of it, and none with those and the token itself;
if it is the end of the text that is refused, no query ends there.  The error stands where
the token does, and all that was expected is a way to go on: some query has it in place of
the token.  The one label that may promise too much is the one for a status, and it does so
exactly if the left side that has just been read is a text that spells one.
-/
theorem misplaced_first_unviable {ts : Tokens} {e : Misplaced}
    (h : Expr.ofTokens ts = .error (.misplaced e)) :
    ∃ before after, ts.list = before ++ e.found.toList ++ after ∧
      (e.found = none → after = []) ∧ e.position = (e.found.map Token.position).getD ts.stop ∧
      Viable before ∧ ¬ ViableThrough before e.found ∧
      ∀ l ∈ e.expected, (l.Fits before ↔ ¬ (l = .status ∧ AfterStatusText before)) := by
  obtain ⟨before, after, s, hlist, hend, hposition, hs, hnot, hexpected, hroomy⟩ :=
    Reader.exists_refusal h
  have hreads := Reader.reads_takeAll before Reader.reads_start hs
  refine ⟨before, after, hlist, hend, hposition, Reader.viable_iff.mpr ⟨s, hs⟩, ?_, ?_⟩
  · rwa [Reader.viableThrough_iff hs]
  · intro l hl
    rw [hexpected] at hl
    rw [← Reader.behindStatusText_iff hs]
    constructor
    · rintro ⟨found, hdescribes, hthrough⟩ ⟨rfl, hbehind⟩
      exact Reader.not_accepts_status hbehind hdescribes
        ((Reader.viableThrough_iff hs found).mp hthrough)
    · intro hstatus
      refine ⟨l.sample?.map Symbol.token, ?_, ?_⟩
      · have hsample : (l.sample?.map Symbol.token).map Token.symbol = l.sample? := by
          cases l.sample? <;> rfl
        rw [hsample]
        exact l.describes_sample?
      · rw [Reader.viableThrough_iff hs]
        exact Reader.accepts_sample? hreads hroomy hl fun h hbehind => hstatus ⟨h, hbehind⟩

/-- A bracket is closed where a value is due, in `"left" == )`.  A field would have fitted there, a
status would not. -/
theorem misplaced_first_unviable_closing :
    Viable [Symbol.token (.literal (.text "left")), Symbol.token (.operator .eq)] ∧
      ¬ Viable [Symbol.token (.literal (.text "left")), Symbol.token (.operator .eq),
        Symbol.token .closing] ∧
      Label.field.Fits [Symbol.token (.literal (.text "left")), Symbol.token (.operator .eq)] ∧
      ¬ Label.status.Fits [Symbol.token (.literal (.text "left")), Symbol.token (.operator .eq)] := by
  let left := Symbol.token (.literal (.text "left"))
  let eq := Symbol.token (.operator .eq)
  let closing := Symbol.token .closing
  have h : Expr.ofTokens ⟨[left, eq, closing], 0⟩ =
      .error (.misplaced ⟨0, some closing, Reader.valueStart⟩) := rfl
  obtain ⟨before, after, hlist, -, -, hviable, hnot, hlabels⟩ := misplaced_first_unviable h
  obtain rfl : before = [left, eq] := by
    match before with
    | [] => simp [left, closing, Symbol.token] at hlist
    | [_] => simp [eq, closing, Symbol.token] at hlist
    | [_, _] => simp at hlist; simp [hlist]
    | _ :: _ :: _ :: _ => simp at hlist
  have hbehind : AfterStatusText [left, eq] := ⟨[], "left", .eq, .inr rfl, rfl⟩
  refine ⟨hviable, hnot, ?_, ?_⟩
  · exact (hlabels .field (by decide)).mpr fun hstatus => by cases hstatus.1
  · exact fun hfits => (hlabels .status (by decide)).mp hfits ⟨rfl, hbehind⟩

end RollCall.Query
