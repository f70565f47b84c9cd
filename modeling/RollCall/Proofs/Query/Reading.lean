/-
The reader accepts what the grammar derives, and nothing else.

Completeness is by induction on the derivation: from a state where a term is due, the
symbols of a term lead to the state after it, provided that the groups already open
leave room for those of the term.  The one place where the reader does not follow the
grammar step by step is the bracket at the start of a term, whose meaning it leaves
open for one token; `takeAll_openGroup` says that nothing is lost by that.

Soundness needs to know what the symbols taken so far have said.  `Reads` is that
invariant: it splits them into what stands in front of the innermost open group, what
the term due will be joined to, and the part of that term which has been read.  One
token preserves it, hence any number does, and in the only state in which the text may
end it is a derivation.
-/
import RollCall.Proofs.Query.Grammar

namespace RollCall.Query

namespace Reader

/-! ### Texts that spell a status -/

theorem spellsStatus_iff {o : Operand} : spellsStatus o = true ↔ o.SpellsStatus := by
  cases o with
  | field f => simp [spellsStatus, Operand.SpellsStatus]
  | literal l =>
      cases l with
      | text s =>
          simp only [spellsStatus, Bool.or_eq_true, decide_eq_true_eq]
          simp [Operand.SpellsStatus, Status.word]
      | _ => simp [spellsStatus, Operand.SpellsStatus]

theorem holdsStatus_iff {o : Operand} : holdsStatus o = true ↔ o.HoldsStatus := by
  cases o with
  | field f => cases f <;> simp [holdsStatus, Operand.HoldsStatus]
  | literal l => cases l <;> simp [holdsStatus, Operand.HoldsStatus]

theorem misquoted?_eq_none_iff {left right : Placed} :
    misquoted? left right = none ↔ ¬ Misquoted left.operand right.operand := by
  unfold misquoted? Misquoted
  rw [← spellsStatus_iff, ← spellsStatus_iff, ← holdsStatus_iff, ← holdsStatus_iff]
  by_cases h1 : (spellsStatus left.operand && holdsStatus right.operand) = true
  · rw [if_pos h1]
    simp_all
  · rw [if_neg h1]
    simp_all

theorem closeComparison_eq_ok_iff {s s' : State} {left right : Placed} {op : Operator} :
    s.closeComparison left op right = .ok s' ↔
      ¬ Misquoted left.operand right.operand ∧
        s' = .afterTerm s.pending s.enclosing (.compare op left.operand right.operand) := by
  rw [← misquoted?_eq_none_iff]
  unfold State.closeComparison
  cases misquoted? left right with
  | none => simp [eq_comm]
  | some t => simp

/-! ### Tokens one after the other -/

theorem takeAll_append_of_ok {s s' : State} {ts : List Token} (h : s.takeAll ts = .ok s')
    (us : List Token) : s.takeAll (ts ++ us) = s'.takeAll us := by
  rw [State.takeAll_append, h]

theorem takeAll_append_eq_ok {s s' : State} {ts us : List Token}
    (h : s.takeAll (ts ++ us) = .ok s') :
    ∃ m, s.takeAll ts = .ok m ∧ m.takeAll us = .ok s' := by
  rw [State.takeAll_append] at h
  cases hts : s.takeAll ts with
  | ok m =>
      rw [hts] at h
      exact ⟨m, rfl, h⟩
  | error e =>
      rw [hts] at h
      cases h

@[simp] theorem takeAll_singleton (s : State) (t : Token) : s.takeAll [t] = s.take t := by
  simp only [State.takeAll]
  cases s.take t <;> rfl

theorem takeAll_append_singleton {s s' : State} {ts : List Token} {t : Token}
    (h : s.takeAll ts = .ok s') : s.takeAll (ts ++ [t]) = s'.take t := by
  rw [takeAll_append_of_ok h, takeAll_singleton]

/-! ### Operands -/

theorem isOperand_of_plainOperand? {t : Token} {o : Operand} (h : plainOperand? t = some o) :
    IsOperand [t.symbol] o := by
  unfold plainOperand? at h
  split at h
  · rename_i f hf
    obtain rfl : .field f = o := by simpa using h
    rw [hf]
    exact .field f
  · rename_i l hl
    rw [hl]
    cases l <;> simp [Literal.needsBrackets] at h <;> subst h <;> constructor
  · simp at h

theorem literal_of_bracketedOperand? {t : Token} {o : Operand}
    (h : bracketedOperand? t = some o) :
    ∃ l, t.symbol = .literal l ∧ l.needsBrackets = true ∧ o = .literal l := by
  unfold bracketedOperand? at h
  split at h
  · rename_i l hl
    by_cases hb : l.needsBrackets = true
    · exact ⟨l, hl, hb, by simpa [hb, eq_comm] using h⟩
    · simp [hb] at h
  · simp at h

theorem isOperand_bracketed {l : Literal} (h : l.needsBrackets = true) :
    IsOperand [.opening, .literal l, .closing] (.literal l) := by
  cases l <;> first | constructor | simp [Literal.needsBrackets] at h

/-- An operand is a token that is a value by itself, or one that is a value between brackets. -/
theorem tokens_of_isOperand {ts : List Token} {o : Operand}
    (h : IsOperand (ts.map Token.symbol) o) :
    (∃ t, ts = [t] ∧ plainOperand? t = some o) ∨
      ∃ a t c, ts = [a, t, c] ∧ a.symbol = .opening ∧ bracketedOperand? t = some o ∧
        c.symbol = .closing := by
  generalize hss : ts.map Token.symbol = ss at h
  cases h
  case span | instant =>
    simp only [List.map_eq_cons_iff, List.map_eq_nil_iff] at hss
    obtain ⟨a, _, rfl, ha, t, _, rfl, ht, c, _, rfl, hc, rfl⟩ := hss
    exact .inr ⟨a, t, c, rfl, ha, by simp [bracketedOperand?, ht, Literal.needsBrackets], hc⟩
  all_goals
    simp only [List.map_eq_cons_iff, List.map_eq_nil_iff] at hss
    obtain ⟨t, _, rfl, ht, rfl⟩ := hss
    exact .inl ⟨t, rfl, by simp [plainOperand?, ht, Literal.needsBrackets]⟩

/-! ### Completeness -/

/-- The left side of a comparison, where a term is due. -/
theorem takeAll_left {ts : List Token} {o : Operand} (h : IsOperand (ts.map Token.symbol) o)
    (p : Pending) (enc : List Pending) :
    ∃ t, State.takeAll ⟨.term, p, enc⟩ ts = .ok ⟨.operator ⟨o, t⟩, p, enc⟩ := by
  rcases tokens_of_isOperand h with ⟨t, rfl, ht⟩ | ⟨a, t, c, rfl, ha, ht, hc⟩
  · exact ⟨t, by simp [State.take, State.takeTerm, ht]⟩
  · have hplain : plainOperand? a = none := by simp [plainOperand?, ha]
    exact ⟨t, by simp [State.takeAll, State.take, State.takeTerm, hplain, ha, ht, hc]⟩

/-- The right side of a comparison closes it. -/
theorem takeAll_right {ts : List Token} {o : Operand} (h : IsOperand (ts.map Token.symbol) o)
    (left : Placed) (op : Operator) (p : Pending) (enc : List Pending) :
    ∃ t, State.takeAll ⟨.right left op, p, enc⟩ ts =
      State.closeComparison ⟨.term, p, enc⟩ left op ⟨o, t⟩ := by
  rcases tokens_of_isOperand h with ⟨t, rfl, ht⟩ | ⟨a, t, c, rfl, ha, ht, hc⟩
  · refine ⟨t, ?_⟩
    rw [takeAll_singleton]
    simp only [State.take, ht]
    rfl
  · have hplain : plainOperand? a = none := by simp [plainOperand?, ha]
    have htwo : State.takeAll ⟨.right left op, p, enc⟩ [a, t] =
        .ok ⟨.rightClosing left op ⟨o, t⟩, p, enc⟩ := by
      simp [State.takeAll, State.take, hplain, ha, ht]
    refine ⟨t, ?_⟩
    rw [show [a, t, c] = [a, t] ++ [c] from rfl, takeAll_append_singleton htwo]
    simp only [State.take, hc, if_true]
    rfl

theorem bracketedOperand?_eq_none {t : Token} (ht : t.symbol.needsBrackets = false) :
    bracketedOperand? t = none := by
  unfold bracketedOperand?
  unfold Symbol.needsBrackets at ht
  split <;> simp_all

/-- Behind a bracket that opens a group the reader goes on as at the start of the group. -/
theorem takeAll_openGroup {p : Pending} {enc : List Pending} {t : Token} {ts : List Token}
    (ht : t.symbol.needsBrackets = false) (hroom : enc.length < deepestNesting) :
    State.takeAll ⟨.afterOpening, p, enc⟩ (t :: ts) =
      State.takeAll ⟨.term, none, p :: enc⟩ (t :: ts) := by
  simp [State.takeAll, State.take, bracketedOperand?_eq_none ht, State.openGroup, hroom]

/-- A group that has been opened had room. -/
theorem length_lt_of_openGroup {p : Pending} {enc : List Pending} {t : Token} {ts : List Token}
    {s : State} (ht : t.symbol.needsBrackets = false)
    (h : State.takeAll ⟨.afterOpening, p, enc⟩ (t :: ts) = .ok s) :
    enc.length < deepestNesting := by
  by_cases hroom : enc.length < deepestNesting
  · exact hroom
  · simp [State.takeAll, State.take, bracketedOperand?_eq_none ht, State.openGroup, hroom] at h

/--
What the grammar derives, the reader takes.

For a term the reader may stand anywhere that a term is due; an expression has to begin
its group, so nothing is pending there.
-/
theorem takeAll_of_derives {ph : Phrase} {n : Nat} {ss : List Symbol} {e : Expr}
    (h : Derives ph n ss e) :
    ∀ (p : Pending) (enc : List Pending) (ts : List Token),
      ts.map Token.symbol = ss → enc.length + n ≤ deepestNesting → (ph = .expr → p = none) →
      State.takeAll ⟨.term, p, enc⟩ ts = .ok (.afterTerm p enc e) := by
  induction h with
  | compare hl hr hq =>
      intro p enc ts hts _ _
      obtain ⟨ls, us, rfl, hls, hus⟩ := List.map_eq_append_iff.mp hts
      obtain ⟨o, rs, rfl, ho, hrs⟩ := List.map_eq_cons_iff.mp hus
      obtain ⟨lt, hleft⟩ := takeAll_left (hls ▸ hl) p enc
      rw [takeAll_append_of_ok hleft]
      obtain ⟨rt, hright⟩ := takeAll_right (hrs ▸ hr) ⟨_, lt⟩ _ p enc
      simp only [State.takeAll, State.take, ho]
      rw [hright]
      exact closeComparison_eq_ok_iff.mpr ⟨hq, rfl⟩
  | @group n ss e hd ih =>
      intro p enc ts hts hroom _
      obtain ⟨us, cs, rfl, hus, hcs⟩ := List.map_eq_append_iff.mp hts
      obtain ⟨a, is, rfl, ha, his⟩ := List.map_eq_cons_iff.mp hus
      obtain ⟨c, _, rfl, hc, hnil⟩ := List.map_eq_cons_iff.mp hcs
      obtain rfl := List.map_eq_nil_iff.mp hnil
      obtain ⟨s, rest, rfl, hs⟩ := hd.head
      obtain ⟨t, is, rfl, ht, -⟩ := List.map_eq_cons_iff.mp his
      have hin := ih none (p :: enc) (t :: is) his (by simp; omega) fun _ => rfl
      rw [← takeAll_openGroup (by rw [ht]; exact hs) (by omega)] at hin
      have hall : State.takeAll ⟨.term, p, enc⟩ (a :: t :: is) =
          .ok (.afterTerm none (p :: enc) e) := by
        rw [← hin]
        simp [State.takeAll, State.take, State.takeTerm, plainOperand?, ha]
      rw [takeAll_append_singleton hall]
      simp [State.afterTerm, State.take, hc, Pending.close]
  | single _ ih =>
      intro p enc ts hts hroom hp
      exact ih p enc ts hts hroom (by simp)
  | joined _ _ ihl ihr =>
      intro p enc ts hts hroom hp
      obtain rfl := hp rfl
      obtain ⟨ls, us, rfl, hls, hus⟩ := List.map_eq_append_iff.mp hts
      obtain ⟨o, rs, rfl, ho, hrs⟩ := List.map_eq_cons_iff.mp hus
      rw [takeAll_append_of_ok (ihl none enc ls hls hroom fun _ => rfl)]
      simp only [State.takeAll, State.take, State.afterTerm, ho]
      exact ihr _ enc rs hrs hroom (by simp)

/-! ### Soundness

`Led` speaks of one group, `Enclosed` of all the groups around it, and `Reads` adds the
part of a term that has been read.  The depth that the grammar still allows is what the
open groups leave of the limit.
-/

/-- The symbols of a group in front of a term say what that term will be joined to. -/
inductive Led (n : Nat) : Pending → List Symbol → Prop
  | first : Led n none []
  | joint {ss : List Symbol} {e : Expr} (h : Derives .expr n ss e) (c : Connective) :
      Led n (some (e, c)) (ss ++ [.connective c])

/-- The symbols in front of the innermost open group, its bracket included. -/
inductive Enclosed : List Pending → List Symbol → Prop
  | outermost : Enclosed [] []
  | group {enc : List Pending} {p : Pending} {before ss : List Symbol}
      (h : Enclosed enc before) (hp : Led (deepestNesting - enc.length) p ss)
      (hroom : enc.length < deepestNesting) :
      Enclosed (p :: enc) (before ++ ss ++ [.opening])

/-- The symbols in front of the term that is due or has been begun. -/
def Leads (p : Pending) (enc : List Pending) (ss : List Symbol) : Prop :=
  ∃ before us, Enclosed enc before ∧ Led (deepestNesting - enc.length) p us ∧ ss = before ++ us

/-- What is due next tells how far a term has been read; a term that is complete belongs to the
expression that it ends, so nothing is said of it here. -/
inductive Begun : Due → List Symbol → Prop
  | term : Begun .term []
  | afterOpening : Begun .afterOpening [.opening]
  | leftClosing {l : Literal} {t : Token} (hl : l.needsBrackets = true) :
      Begun (.leftClosing ⟨.literal l, t⟩) [.opening, .literal l]
  | operator {ls : List Symbol} {left : Placed} (hl : IsOperand ls left.operand) :
      Begun (.operator left) ls
  | right {ls : List Symbol} {left : Placed} {op : Operator} (hl : IsOperand ls left.operand) :
      Begun (.right left op) (ls ++ [.operator op])
  | rightLiteral {ls : List Symbol} {left : Placed} {op : Operator}
      (hl : IsOperand ls left.operand) :
      Begun (.rightLiteral left op) (ls ++ [.operator op, .opening])
  | rightClosing {ls : List Symbol} {left : Placed} {op : Operator} {l : Literal} {t : Token}
      (hl : IsOperand ls left.operand) (hr : l.needsBrackets = true) :
      Begun (.rightClosing left op ⟨.literal l, t⟩) (ls ++ [.operator op, .opening, .literal l])

/-- The symbols that bring the reader to a state. -/
inductive Reads : State → List Symbol → Prop
  | within {due : Due} {p : Pending} {enc : List Pending} {ss us : List Symbol}
      (hp : Leads p enc ss) (hdue : Begun due us) : Reads ⟨due, p, enc⟩ (ss ++ us)
  | behind {e : Expr} {enc : List Pending} {before us : List Symbol}
      (henc : Enclosed enc before) (he : Derives .expr (deepestNesting - enc.length) us e) :
      Reads ⟨.joint e, none, enc⟩ (before ++ us)

theorem reads_start : Reads start [] := by
  have hp : Leads none [] [] := ⟨[], [], .outermost, .first, rfl⟩
  exact Reads.within hp .term

/-- A term that is complete is joined to what is pending. -/
theorem reads_afterTerm {p : Pending} {enc : List Pending} {ss us : List Symbol} {e : Expr}
    (hp : Leads p enc ss) (he : Derives .term (deepestNesting - enc.length) us e) :
    Reads (.afterTerm p enc e) (ss ++ us) := by
  obtain ⟨before, vs, henc, hled, rfl⟩ := hp
  rw [List.append_assoc]
  refine Reads.behind henc ?_
  cases hled with
  | first => exact .single he
  | joint hd c => simpa [Pending.close] using Derives.joined hd he

theorem reads_closeComparison {s s' : State} {left right : Placed} {op : Operator}
    {ss ls rs : List Symbol} (hp : Leads s.pending s.enclosing ss)
    (hl : IsOperand ls left.operand) (hr : IsOperand rs right.operand)
    (h : s.closeComparison left op right = .ok s') :
    Reads s' (ss ++ (ls ++ .operator op :: rs)) := by
  obtain ⟨hq, rfl⟩ := closeComparison_eq_ok_iff.mp h
  exact reads_afterTerm hp (.compare hl hr hq)

theorem reads_takeTerm {s s' : State} {ss : List Symbol} {t : Token}
    (hp : Leads s.pending s.enclosing ss) (h : s.takeTerm t = .ok s') :
    Reads s' (ss ++ [t.symbol]) := by
  unfold State.takeTerm at h
  split at h
  · rename_i o ho
    obtain rfl : { s with due := .operator ⟨o, t⟩ } = s' := by simpa using h
    exact Reads.within hp (.operator (isOperand_of_plainOperand? ho))
  · by_cases ht : t.symbol = .opening
    · obtain rfl : { s with due := .afterOpening } = s' := by simpa [ht] using h
      rw [ht]
      exact Reads.within hp .afterOpening
    · simp [ht] at h

theorem leads_openGroup {s s' : State} {ss : List Symbol}
    (hp : Leads s.pending s.enclosing ss) (h : s.openGroup = .ok s') :
    Leads s'.pending s'.enclosing (ss ++ [.opening]) := by
  unfold State.openGroup at h
  by_cases hroom : s.enclosing.length < deepestNesting
  · obtain rfl : (⟨.term, none, s.pending :: s.enclosing⟩ : State) = s' := by
      simpa [hroom] using h
    obtain ⟨before, us, henc, hled, rfl⟩ := hp
    exact ⟨_, [], .group henc hled hroom, .first, by simp⟩
  · simp [hroom] at h

/-- A token within a comparison, or where one begins, goes on with it. -/
theorem reads_take_within {due : Due} {p : Pending} {enc : List Pending} {s' : State}
    {ss us : List Symbol} {t : Token} (hp : Leads p enc ss) (hdue : Begun due us)
    (h : State.take ⟨due, p, enc⟩ t = .ok s') : Reads s' (ss ++ us ++ [t.symbol]) := by
  cases hdue with
  | term => simpa using reads_takeTerm hp h
  | afterOpening =>
      simp only [State.take] at h
      split at h
      · rename_i o ho
        obtain ⟨l, ht, hl, rfl⟩ := literal_of_bracketedOperand? ho
        obtain rfl := Except.ok.inj h
        simpa [ht] using Reads.within hp (.leftClosing hl)
      · split at h
        · rename_i inner hinner
          exact reads_takeTerm (leads_openGroup hp hinner) h
        · cases h
  | @leftClosing l _ hl =>
      simp only [State.take] at h
      split at h
      · rename_i ht
        obtain rfl := Except.ok.inj h
        simpa [ht] using Reads.within hp (.operator (isOperand_bracketed hl))
      · cases h
  | operator hl =>
      simp only [State.take] at h
      split at h
      · rename_i op ht
        obtain rfl := Except.ok.inj h
        simpa [ht] using Reads.within hp (.right hl)
      · cases h
  | right hl =>
      simp only [State.take] at h
      split at h
      · rename_i o ho
        simpa using reads_closeComparison hp hl (isOperand_of_plainOperand? ho) h
      · split at h
        · rename_i ht
          obtain rfl := Except.ok.inj h
          simpa [ht] using Reads.within hp (.rightLiteral hl)
        · cases h
  | rightLiteral hl =>
      simp only [State.take] at h
      split at h
      · rename_i o ho
        obtain ⟨l, ht, hr, rfl⟩ := literal_of_bracketedOperand? ho
        obtain rfl := Except.ok.inj h
        simpa [ht] using Reads.within hp (.rightClosing hl hr)
      · cases h
  | rightClosing hl hr =>
      simp only [State.take] at h
      split at h
      · rename_i ht
        simpa [ht] using reads_closeComparison hp hl (isOperand_bracketed hr) h
      · cases h

/-- A token behind an expression joins it to another one or closes its group. -/
theorem reads_take_behind {e : Expr} {enc : List Pending} {s' : State} {before us : List Symbol}
    {t : Token} (henc : Enclosed enc before)
    (he : Derives .expr (deepestNesting - enc.length) us e)
    (h : State.take ⟨.joint e, none, enc⟩ t = .ok s') : Reads s' (before ++ us ++ [t.symbol]) := by
  simp only [State.take] at h
  split at h
  · rename_i c ht
    obtain rfl := Except.ok.inj h
    have hp := (⟨before, _, henc, .joint he c, rfl⟩ :
      Leads (some (e, c)) _ (before ++ (us ++ [.connective c])))
    simpa [ht] using Reads.within hp .term
  · rename_i outer enclosing ht
    obtain rfl := Except.ok.inj h
    cases henc with
    | @group _ _ before ss henc hled hroom =>
        -- The group that is closed had one level less to spend than the one around it.
        have hlevel : deepestNesting - (outer :: enclosing).length + 1 =
            deepestNesting - enclosing.length := by
          simp only [List.length_cons]
          omega
        have hterm := Derives.group he
        rw [hlevel] at hterm
        simpa [ht] using reads_afterTerm ⟨before, ss, henc, hled, rfl⟩ hterm
  · cases h

/-- **One token keeps the invariant.** -/
theorem reads_take {s s' : State} {ss : List Symbol} {t : Token} (hs : Reads s ss)
    (h : s.take t = .ok s') : Reads s' (ss ++ [t.symbol]) := by
  cases hs with
  | within hp hdue => exact reads_take_within hp hdue h
  | behind henc he => exact reads_take_behind henc he h

/-- Any number of tokens keeps it. -/
theorem reads_takeAll :
    ∀ (ts : List Token) {s s' : State} {ss : List Symbol}, Reads s ss →
      s.takeAll ts = .ok s' → Reads s' (ss ++ ts.map Token.symbol) := by
  intro ts
  induction ts with
  | nil =>
      intro s s' ss hs h
      obtain rfl := Except.ok.inj h
      simpa using hs
  | cons t ts ih =>
      intro s s' ss hs h
      unfold State.takeAll at h
      split at h
      · rename_i next hnext
        simpa using ih (reads_take hs hnext) h
      · cases h

/-- The text may end only behind an expression outside all groups. -/
theorem finish_eq_ok {s : State} {stop : Nat} {e : Expr} (h : s.finish stop = .ok e) :
    s.due = .joint e ∧ s.enclosing = [] := by
  unfold State.finish at h
  split at h
  · rename_i e' hdue henc
    obtain rfl := Except.ok.inj h
    exact ⟨hdue, henc⟩
  · split at h <;> cases h
  · cases h

end Reader

/-! ### Acceptance -/

/-- The symbols of some tokens. -/
def Tokens.symbols (ts : Tokens) : List Symbol :=
  ts.list.map Token.symbol

/-- **Tokens are a query exactly if the grammar derives it**, and no token counts but by its
symbol. -/
theorem ofTokens_eq_ok_iff {ts : Tokens} {e : Expr} :
    Expr.ofTokens ts = .ok e ↔ Derives .expr deepestNesting ts.symbols e := by
  unfold Expr.ofTokens
  constructor
  · intro h
    split at h
    · rename_i s hs
      obtain ⟨hdue, henc⟩ := Reader.finish_eq_ok h
      have hreads := Reader.reads_takeAll ts.list Reader.reads_start hs
      obtain ⟨due, p, enc⟩ := s
      obtain rfl : due = .joint e := hdue
      obtain rfl : enc = [] := henc
      generalize hss : [] ++ ts.list.map Token.symbol = ss at hreads
      cases hreads with
      | within _ hbegun => cases hbegun
      | behind hout he =>
          cases hout
          rw [Tokens.symbols, ← List.nil_append (ts.list.map _), hss]
          simpa using he
    · cases h
  · intro h
    have hall : Reader.start.takeAll ts.list = .ok (.afterTerm none [] e) :=
      Reader.takeAll_of_derives h none [] ts.list rfl (by simp) fun _ => rfl
    rw [hall]
    rfl

/--
**What a row of tokens writes.**  The reader answers with a tree exactly if the grammar derives
the tree from the symbols, with at most sixty-four groups inside each other; the grammar
derives at most one; and a chain stands for the left fold of its terms.
-/
theorem ofTokens_grammar (ts : Tokens) :
    (∀ e, Expr.ofTokens ts = .ok e ↔ Derives .expr 64 ts.symbols e) ∧
      (∀ e e', Derives .expr 64 ts.symbols e → Derives .expr 64 ts.symbols e' → e = e') ∧
      ∀ e, Derives .expr 64 ts.symbols e ↔
        ∃ (fs : List Symbol) (first : Expr) (links : List Link),
          Derives .term 64 fs first ∧ (∀ k ∈ links, Derives .term 64 k.symbols k.term) ∧
          ts.symbols = fs ++ links.flatMap Link.spelled ∧ e = foldLinks first links := by
  refine ⟨fun e => ofTokens_eq_ok_iff, fun e e' he he' => ?_, fun e => derives_expr_iff_fold⟩
  have h := ofTokens_eq_ok_iff.mpr he
  rw [ofTokens_eq_ok_iff.mpr he'] at h
  exact (Except.ok.inj h).symm

end RollCall.Query
