/-
What is missing from what was expected.

The error of a token that does not fit lists ways to go on.  A list is complete if every token
that some query goes on with has a label in it.  What the reader takes depends on what is due,
and so does the list, so they are compared state by state: they agree in all but one.

That one is the state behind a bracket at the start of a term.  There a span or an instant
makes the bracket part of a literal, and anything else opens a group; but the list is that of
the group's first term, in which spans and instants do not stand without brackets of their own.
The tokens show that state: an opening bracket is the last of them, and no operator is in front
of it.
-/
import RollCall.Proofs.Query.Viable

namespace RollCall.Query

/-- The last token is a bracket at the start of a term: no operator is in front of it. -/
def AfterLeadingBracket (before : List Token) : Prop :=
  ∃ front, before.map Token.symbol = front ++ [.opening] ∧
    ∀ op, front.getLast? ≠ some (.operator op)

/-- Something in a list of labels describes what was found. -/
def Labelled (labels : List Label) (found : Option Token) : Prop :=
  ∃ l ∈ labels, l.Describes (found.map Token.symbol)

/-- A span or an instant, without the bracket that belongs in front of it. -/
def IsBare (found : Option Token) : Prop :=
  ∃ t, found = some t ∧ t.symbol.needsBrackets = true

namespace Reader

/-! ### Labels of what the reader takes -/

theorem labelled_of_plainOperand? {t : Token} {o : Operand} (h : plainOperand? t = some o) :
    Labelled valueStart (some t) := by
  have hoperand := isOperand_of_plainOperand? h
  generalize hs : [t.symbol] = ss at hoperand
  cases hoperand with
  | field f => exact ⟨.field, by decide, f, by simpa using hs⟩
  | status s => exact ⟨.status, by decide, s, by simpa using hs⟩
  | text s => exact ⟨.text, by decide, s, by simpa using hs⟩
  | number x => exact ⟨.number, by decide, x, by simpa using hs⟩
  | truth b => exact ⟨.truth, by decide, b, by simpa using hs⟩
  | span d => simp at hs
  | instant u => simp at hs

/-- A term begins with a value or with a bracket. -/
theorem labelled_of_takeTerm {s s' : State} {t : Token} (h : s.takeTerm t = .ok s') :
    Labelled (.opening :: valueStart) (some t) := by
  unfold State.takeTerm at h
  split at h
  · rename_i o ho
    obtain ⟨l, hl, hdescribes⟩ := labelled_of_plainOperand? ho
    exact ⟨l, List.mem_cons_of_mem _ hl, hdescribes⟩
  · by_cases ht : t.symbol = .opening
    · exact ⟨.opening, List.mem_cons_self, congrArg some ht⟩
    · rw [if_neg ht] at h
      cases h

theorem mem_all (op : Operator) : op ∈ Operator.all := by
  cases op <;> decide

/-- Behind an expression a connective is expected, in a group and outside. -/
theorem connective_mem_expected (e : Expr) (p : Pending) (enc : List Pending) (c : Connective) :
    .connective c ∈ State.expected ⟨.joint e, p, enc⟩ := by
  cases enc with
  | nil => cases c <;> simp [State.expected]
  | cons outer enc => cases c <;> simp [State.expected]

/-- **Whatever the reader takes has a label**, but for a span or an instant behind a bracket at
the start of a term. -/
theorem labelled_of_take {s s' : State} {t : Token} (h : s.take t = .ok s') :
    Labelled s.expected (some t) ∨ s.due = .afterOpening ∧ IsBare (some t) := by
  obtain ⟨due, p, enc⟩ := s
  cases due with
  | term => exact .inl (labelled_of_takeTerm h)
  | afterOpening =>
      simp only [State.take] at h
      split at h
      · rename_i o ho
        obtain ⟨l, ht, hl, -⟩ := literal_of_bracketedOperand? ho
        exact .inr ⟨rfl, t, rfl, by rw [ht]; exact hl⟩
      · split at h
        · exact .inl (labelled_of_takeTerm h)
        · cases h
  | leftClosing left | rightClosing left op right =>
      simp only [State.take] at h
      split at h
      · rename_i ht
        exact .inl ⟨.closing, List.mem_cons_self, congrArg some ht⟩
      · cases h
  | operator left =>
      simp only [State.take] at h
      split at h
      · rename_i op ht
        exact .inl ⟨.operator op, List.mem_map_of_mem (mem_all op), congrArg some ht⟩
      · cases h
  | right left op =>
      simp only [State.take] at h
      split at h
      · rename_i o ho
        exact .inl (labelled_of_plainOperand? ho)
      · split at h
        · rename_i ht
          have hmem : Label.bracketedSpan ∈ valueStart := by decide
          exact .inl ⟨.bracketedSpan, hmem, congrArg some ht⟩
        · cases h
  | rightLiteral left op =>
      simp only [State.take] at h
      split at h
      · rename_i o ho
        obtain ⟨l, ht, hl, -⟩ := literal_of_bracketedOperand? ho
        cases l with
        | span d => exact .inl ⟨.span, List.mem_cons_self, d, congrArg some ht⟩
        | instant u =>
            exact .inl ⟨.instant, List.mem_cons_of_mem _ List.mem_cons_self, u, congrArg some ht⟩
        | _ => cases hl
      · cases h
  | joint e =>
      simp only [State.take] at h
      split at h
      · rename_i c ht
        exact .inl ⟨.connective c, connective_mem_expected e p _ c, congrArg some ht⟩
      · rename_i outer enclosing ht
        exact .inl ⟨.closing, List.mem_cons_self, congrArg some ht⟩
      · cases h

theorem labelled_of_accepts {s : State} {found : Option Token} (h : s.Accepts found) :
    Labelled s.expected found ∨ s.due = .afterOpening ∧ IsBare found := by
  cases found with
  | some t =>
      obtain ⟨s', hs'⟩ := h
      exact labelled_of_take hs'
  | none =>
      obtain ⟨stop, e, hfinish⟩ := h
      obtain ⟨hdue, henc⟩ := finish_eq_ok hfinish
      refine .inl ⟨.endOfText, ?_, rfl⟩
      simp [State.expected, hdue, henc]

/-- Behind a bracket at the start of a term, a span or an instant is taken and has no label. -/
theorem bare_afterOpening {s : State} (hdue : s.due = .afterOpening) {found : Option Token}
    (h : IsBare found) : s.Accepts found ∧ ¬ Labelled s.expected found := by
  obtain ⟨t, rfl, ht⟩ := h
  cases hsymbol : t.symbol with
  | literal l =>
      rw [hsymbol] at ht
      have hl : l.needsBrackets = true := ht
      have hoperand : bracketedOperand? t = some (.literal l) := by
        simp [bracketedOperand?, hsymbol, hl]
      have htake : s.take t = .ok { s with due := .leftClosing ⟨.literal l, t⟩ } := by
        simp only [State.take, hdue, hoperand]
      refine ⟨⟨_, htake⟩, ?_⟩
      rintro ⟨label, hlabel, hdescribes⟩
      simp only [State.expected, hdue, valueStart, List.mem_cons, List.not_mem_nil, or_false]
        at hlabel
      rw [Option.map_some, hsymbol] at hdescribes
      rcases hlabel with rfl | rfl | rfl | rfl | rfl | rfl | rfl | rfl <;>
        cases l <;> simp [Literal.needsBrackets, Label.Describes] at hl hdescribes
  | _ => simp [hsymbol, Symbol.needsBrackets] at ht

/-! ### The bracket shows in the tokens -/

/-- A bracket is taken where a term is due or on the right side of a comparison. -/
theorem take_opening {s s' : State} {t : Token} (ht : t.symbol = .opening)
    (h : s.take t = .ok s') :
    s'.due = .afterOpening ∨ ∃ left op, s.due = .right left op := by
  have hplain : plainOperand? t = none := by simp [plainOperand?, ht]
  have hbare : bracketedOperand? t = none := by simp [bracketedOperand?, ht]
  have hterm : ∀ r : State, r.takeTerm t = .ok { r with due := .afterOpening } := by
    intro r
    simp [State.takeTerm, hplain, ht]
  cases hdue : s.due with
  | term =>
      simp only [State.take, hdue, hterm] at h
      obtain rfl := Except.ok.inj h
      exact .inl rfl
  | afterOpening =>
      simp only [State.take, hdue, hbare] at h
      split at h
      · rw [hterm] at h
        obtain rfl := Except.ok.inj h
        exact .inl rfl
      · cases h
  | right left op => exact .inr ⟨left, op, rfl⟩
  | _ => simp [State.take, hdue, hbare, ht] at h

/-- What leads to a term does not end with an operator. -/
theorem Leads.getLast?_ne {p : Pending} {enc : List Pending} {ss : List Symbol}
    (h : Leads p enc ss) (op : Operator) : ss.getLast? ≠ some (.operator op) := by
  obtain ⟨before, us, henc, hled, rfl⟩ := h
  cases hled with
  | first =>
      cases henc with
      | outermost => simp
      | group => simp
  | joint => simp

/-- Where the right side of a comparison is due, an operator is the last symbol. -/
theorem Reads.getLast?_right {s : State} {ss : List Symbol} (h : Reads s ss) {left : Placed}
    {op : Operator} (hdue : s.due = .right left op) : ss.getLast? = some (.operator op) := by
  cases h with
  | within _ hbegun =>
      obtain rfl := hdue
      cases hbegun with
      | right => simp
  | behind => cases hdue

/-- **The bracket at the start of a term shows in the tokens.** -/
theorem afterOpening_iff {before : List Token} {s : State} (hs : start.takeAll before = .ok s) :
    s.due = .afterOpening ↔ AfterLeadingBracket before := by
  have hreads := reads_takeAll before reads_start hs
  rw [List.nil_append] at hreads
  constructor
  · intro hdue
    generalize hss : before.map Token.symbol = ss at hreads
    cases hreads with
    | within hp hbegun =>
        obtain rfl := hdue
        cases hbegun with
        | afterOpening => exact ⟨_, hss, hp.getLast?_ne⟩
    | behind => cases hdue
  · rintro ⟨front, hsymbols, hfront⟩
    obtain ⟨front, last, rfl, rfl, hlast⟩ := List.map_eq_append_iff.mp hsymbols
    obtain ⟨t, _, rfl, ht, hnil⟩ := List.map_eq_cons_iff.mp hlast
    obtain rfl := List.map_eq_nil_iff.mp hnil
    obtain ⟨m, hm, ht'⟩ := takeAll_append_eq_ok hs
    rw [takeAll_singleton] at ht'
    rcases take_opening ht ht' with hdue | ⟨left, op, hdue⟩
    · exact hdue
    · have hfrontReads := reads_takeAll front reads_start hm
      rw [List.nil_append] at hfrontReads
      exact absurd (hfrontReads.getLast?_right hdue) (hfront op)

end Reader

/--
**What was expected is complete, but for spans and instants behind a bracket that begins a
term.**

The error stands at the first token that no query goes on with.  Of what some query has in its
place, tokens or the end of the text, everything has a label in the list of the error, with one
exception: behind an opening bracket that no operator is in front of, every span and every
instant would fit, and none has a label.
-/
theorem misplaced_expected_iff {ts : Tokens} {e : Misplaced}
    (h : Expr.ofTokens ts = .error (.misplaced e)) :
    ∃ before after, ts.list = before ++ e.found.toList ++ after ∧
      (e.found = none → after = []) ∧ Viable before ∧ ¬ ViableThrough before e.found ∧
      (∀ found, ViableThrough before found →
        (Labelled e.expected found ↔ ¬ (AfterLeadingBracket before ∧ IsBare found))) ∧
      (AfterLeadingBracket before → ∀ found, IsBare found → ViableThrough before found) := by
  obtain ⟨before, after, s, hlist, hend, -, hs, hnot, hexpected, -⟩ := Reader.exists_refusal h
  refine ⟨before, after, hlist, hend, Reader.viable_iff.mpr ⟨s, hs⟩, ?_, ?_⟩
  · rwa [Reader.viableThrough_iff hs]
  · rw [hexpected, ← Reader.afterOpening_iff hs]
    constructor
    · intro found hfound
      rw [Reader.viableThrough_iff hs] at hfound
      constructor
      · rintro hlabelled ⟨hdue, hbare⟩
        exact (Reader.bare_afterOpening hdue hbare).2 hlabelled
      · intro hcomplete
        rcases Reader.labelled_of_accepts hfound with hlabelled | hmissing
        · exact hlabelled
        · exact absurd hmissing hcomplete
    · intro hdue found hbare
      rw [Reader.viableThrough_iff hs]
      exact (Reader.bare_afterOpening hdue hbare).1

/-- In `name )` an operator is missing, and all operators have labels. -/
theorem misplaced_expected_iff_operator :
    let before := [Symbol.token (.field .name)]
    ¬ AfterLeadingBracket before ∧
      ∀ found, ViableThrough before found → Labelled (Operator.all.map .operator) found := by
  intro before
  have h : Expr.ofTokens ⟨before ++ [Symbol.token .closing], 0⟩ =
      .error (.misplaced ⟨0, some (Symbol.token .closing), Operator.all.map .operator⟩) := rfl
  obtain ⟨front, after, hlist, -, -, -, hlabels, -⟩ := misplaced_expected_iff h
  obtain rfl : front = before := by
    match front with
    | [] => simp [before, Symbol.token] at hlist
    | [t] => exact congrArg (fun u => [u]) (List.cons.inj hlist).1.symm
    | _ :: _ :: _ => simp [before] at hlist
  have hbracket : ¬ AfterLeadingBracket before := by
    rintro ⟨us, hus, -⟩
    have hlast := congrArg List.getLast? hus
    simp [before, Symbol.token] at hlast
  exact ⟨hbracket, fun found hfound => (hlabels found hfound).mpr fun h => hbracket h.1⟩

/-- In `()` a span would fit behind the bracket, and what was expected does not say so. -/
theorem misplaced_expected_no_span :
    let opening : Token := ⟨.opening, "(", 0⟩
    let closing : Token := ⟨.closing, ")", 1⟩
    ∃ e, Tokens.ofText "()" = .ok ⟨[opening, closing], 2⟩ ∧
      Expr.ofTokens ⟨[opening, closing], 2⟩ = .error (.misplaced e) ∧ e.found = some closing ∧
      ViableThrough [opening] (some (Symbol.token (.literal (.span default)))) ∧
      ¬ Labelled e.expected (some (Symbol.token (.literal (.span default)))) := by
  intro opening closing
  refine ⟨⟨1, some closing, .opening :: Reader.valueStart⟩, rfl, rfl, rfl, ?_, ?_⟩
  · rw [Reader.viableThrough_iff (s := ⟨.afterOpening, none, []⟩) rfl]
    exact ⟨_, rfl⟩
  · rintro ⟨l, hl, hdescribes⟩
    simp only [Reader.valueStart, List.mem_cons, List.not_mem_nil, or_false] at hl
    rcases hl with rfl | rfl | rfl | rfl | rfl | rfl | rfl | rfl <;>
      simp [Label.Describes, Symbol.token] at hdescribes

end RollCall.Query
