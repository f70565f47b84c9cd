/-
The routines come to an end, and read what the reader reads.

Each routine is taken for itself.  What it does at a place is compared with what becomes of the
state of the reader there, and if it succeeds it has moved on.  A value and a comparison call
nothing that could call them again, so they need no fuel.  A chain, the rest of a chain and a
term call each other.  If k tokens are left, they need at most

    2 k + 1 for a term,    2 k + 1 for the rest of a chain,    2 k + 2 for a chain

since all that they call begins behind a token that has been taken, but for the term at the
beginning of a chain.  So one induction on the fuel does for the three; what each does if the
others do what they have to is said before, in a lemma for each.
-/
import RollCall.Proofs.Query.Runs

namespace RollCall.Query

namespace Descent

open Reader

variable {ts : Tokens} {outset i d : Nat} {c : Cursor} {calls : List Call}

/-! ### What a routine achieves -/

/-- A routine that began at a place, with so many groups open: if it succeeds it has moved on, and
as many groups are open. -/
def Advances {α : Type} (i d : Nat) (r : Except Error α) (c : Cursor) : Prop :=
  ∀ a, r = .ok a → i < c.position ∧ c.depth = d

theorem Advances.at {α : Type} {a : α} (h : Advances i d (.ok a) c) : At c.position d c :=
  ⟨rfl, (h a rfl).2⟩

theorem At.advances {α : Type} {r : Except Error α} {j : Nat} (h : At j d c) (hj : i < j) :
    Advances i d r c :=
  fun _ _ => ⟨h.position ▸ hj, h.depth⟩

/-- The reader, in a state at a place, comes to the same: the error, or what becomes of the state
behind the phrase. -/
def Follows (ts : Tokens) (s : State) (i : Nat) (next : Expr → State) (r : Except Error Expr)
    (c : Cursor) : Prop :=
  s.readFrom ts i = r.bind fun e => (next e).readFrom ts c.position

/-! ### Values -/

theorem not_spellsStatus_of_bracketedOperand? {t : Token} {o : Operand}
    (h : bracketedOperand? t = some o) : spellsStatus o = false := by
  obtain ⟨l, -, hl, rfl⟩ := literal_of_bracketedOperand? h
  cases l <;> first | rfl | simp [Literal.needsBrackets] at hl

theorem runs_bracketed {P : Except Error Operand → Cursor → Prop} {a : Token} (hc : At i d c)
    (ha : ts.list[i]? = some a)
    (hok : ∀ t o b c', ts.list[i + 1]? = some t → bracketedOperand? t = some o →
      ts.list[i + 2]? = some b → b.symbol = .closing → At (i + 3) d c' → P (.ok o) c')
    (hopen : ∀ t o c', ts.list[i + 1]? = some t → bracketedOperand? t = some o →
      (∀ b, ts.list[i + 2]? = some b → b.symbol ≠ .closing) →
      P (.error (misplacedAt ts (i + 2) [.closing])) c')
    (hother : ∀ c', ts.list[i + 1]?.bind bracketedOperand? = none →
      P (.error (misplacedAt ts (i + 1) [.span, .instant])) c') :
    Runs ts outset (bracketed ts) c P := by
  obtain ⟨hi, -⟩ := List.getElem?_eq_some_iff.mp ha
  unfold bracketed
  refine runs_advance_bind hc hi fun c₁ h₁ => ?_
  refine runs_peek_bind h₁ hi fun c₂ h₂ => ?_
  cases hbracketed : ts.list[i + 1]?.bind bracketedOperand? with
  | none => exact runs_unexpected h₂ hi fun c₃ => hother c₃ hbracketed
  | some o =>
      obtain ⟨t, ht, ho⟩ := Option.bind_eq_some_iff.mp hbracketed
      obtain ⟨hi', -⟩ := List.getElem?_eq_some_iff.mp ht
      refine runs_advance_bind h₂ hi' fun c₃ h₃ => ?_
      refine runs_expect_bind h₃ hi' (fun c₄ b hb hs h₄ => ?_) fun c₄ hb => ?_
      · exact runs_pure (hok t o b c₄ ht ho hb hs h₄)
      · exact hopen t o c₄ ht ho hb

/-- **A value.**  If it is a text that spells a status, the token found at the place is the one that
says it. -/
theorem runs_value (first : Bool) (hc : At i d c) (hi : i ≤ ts.list.length)
    (hcalls : Under outset calls ⟨.value, i, d⟩) :
    Runs ts outset (value ts calls first) c fun r c' => Advances i d r c' ∧
      ((first = true → ¬ OpensGroup ts i) →
      ∃ t, (∀ o, r = .ok o → spellsStatus o = true → ts.list[i]? = some t) ∧
        ∀ s k, WantsValue first s k →
          s.readFrom ts i = r.bind fun o => (k ⟨o, t⟩).bind (State.readFrom ts · c'.position)) := by
  unfold value
  refine runs_enter_bind hc hi hcalls fun c₁ h₁ => ?_
  refine runs_peek_bind h₁ hi fun c₂ h₂ => ?_
  cases hplain : ts.list[i]?.bind plainOperand? with
  | some o =>
      obtain ⟨t, ht, ho⟩ := Option.bind_eq_some_iff.mp hplain
      obtain ⟨hlt, -⟩ := List.getElem?_eq_some_iff.mp ht
      refine runs_advance_bind h₂ hlt fun c₃ h₃ => runs_pure ?_
      refine ⟨h₃.advances (Nat.lt_succ_self i), fun _ => ⟨t, fun _ _ _ => ht, fun s k hs => ?_⟩⟩
      rw [h₃.position]
      exact hs.readFrom_plain ht ho
  | none =>
      refine runs_sees_bind h₂ hi fun c₃ h₃ => ?_
      by_cases hopening : ts.list[i]?.map Token.symbol = some .opening
      · obtain ⟨a, ha, hsymbol⟩ := Option.map_eq_some_iff.mp hopening
        simp only [hopening, decide_true, if_true]
        -- Only where a group could have been opened does the reader do something else.
        refine runs_bracketed h₃ ha (fun t o b c₄ ht ho hb hclosing h₄ => ?_)
          (fun t o c₄ ht ho hb => ?_) fun c₄ hliteral => ?_
        · refine ⟨h₄.advances (by omega), fun _ => ⟨t, fun o' ho' hspells => ?_, fun s k hs => ?_⟩⟩
          · obtain rfl := Except.ok.inj ho'
            exact absurd hspells (by simp [not_spellsStatus_of_bracketedOperand? ho])
          · rw [h₄.position]
            exact hs.readFrom_bracketed ha hsymbol ht ho hb hclosing
        · exact ⟨nofun, fun _ => ⟨t, nofun, fun s k hs => hs.readFrom_unclosed ha hsymbol ht ho hb⟩⟩
        · refine ⟨nofun, fun hgroup => ⟨default, nofun, fun s k hs => ?_⟩⟩
          cases first with
          | true => exact absurd ⟨hopening, hliteral⟩ (hgroup rfl)
          | false => exact hs.readFrom_unbracketed ha hsymbol hliteral
      · simp only [hopening, decide_false, Bool.false_eq_true, if_false]
        refine runs_unexpected h₃ hi fun c₄ => ⟨nofun, fun _ => ⟨default, nofun, fun s k hs => ?_⟩⟩
        exact hs.readFrom_refused hplain hopening

/-! ### Comparisons -/

theorem runs_refuseQuoted_bind {α : Type} {P : Except Error α → Cursor → Prop}
    {operand other : Operand} {place : Nat} {f : Unit → Descent α} (hc : At i d c)
    (hplace : place ≤ ts.list.length)
    (hok : (spellsStatus operand && holdsStatus other) = false →
      ∀ c', At i d c' → Runs ts outset (f ()) c' P)
    (herror : (spellsStatus operand && holdsStatus other) = true →
      ∀ c', P (.error (.misquoted (ts.list[place]?.getD default))) c') :
    Runs ts outset (refuseQuoted ts operand place other >>= f) c P := by
  unfold refuseQuoted
  cases h : spellsStatus operand && holdsStatus other with
  | false =>
      simp only [Bool.false_eq_true, if_false, pure_bind]
      exact hok h c hc
  | true =>
      simp only [if_true, bind_assoc]
      refine runs_note_bind hc hplace rfl fun c' _ => ?_
      exact Runs.bind_fails (runs_throw rfl) (herror h)

theorem runs_rightSide {left : Operand} {leftAt : Nat} {op : Operator} (hc : At i d c)
    (hi : i ≤ ts.list.length) (hleftAt : leftAt ≤ ts.list.length)
    (hcalls : Under outset calls ⟨.value, i, d⟩) :
    Runs ts outset (rightSide ts calls left leftAt op) c fun r c' => Advances i d r c' ∧
      ∀ lt, (spellsStatus left = true → ts.list[leftAt]? = some lt) →
        ∀ p enc, Follows ts ⟨.right ⟨left, lt⟩ op, p, enc⟩ i (.afterTerm p enc) r c' := by
  unfold rightSide
  refine runs_get_bind ?_
  simp only [hc.position]
  refine (runs_value false hc hi hcalls).bind (fun right c₁ _ hright => ?_) fun e c₁ _ herror => ?_
  · obtain ⟨hadvances, hvalue⟩ := hright
    obtain ⟨rt, hrt, hfollows⟩ := hvalue nofun
    -- The reader closes the comparison on this token; the routine asks for each side in turn.
    have hfollows := fun lt p enc => hfollows _ _ (.right ⟨left, lt⟩ op p enc)
    refine runs_refuseQuoted_bind hadvances.at hleftAt (fun hleft c₂ h₂ => ?_) fun hleft c₂ => ?_
    · refine runs_refuseQuoted_bind h₂ hi (fun hright c₃ h₃ => ?_) fun hright c₃ => ?_
      · refine runs_pure ⟨h₃.advances (hadvances right rfl).1, fun lt _ p enc => ?_⟩
        rw [Follows, hfollows lt p enc, h₃.position]
        simp [State.closeComparison, misquoted?, hleft, hright, Except.bind]
      · refine ⟨nofun, fun lt _ p enc => ?_⟩
        have hspells : spellsStatus right = true := (Bool.and_eq_true_iff.mp hright).1
        rw [Follows, hfollows lt p enc, hrt right rfl hspells]
        simp [State.closeComparison, misquoted?, hleft, hright, Except.bind]
    · refine ⟨nofun, fun lt hlt p enc => ?_⟩
      have hspells : spellsStatus left = true := (Bool.and_eq_true_iff.mp hleft).1
      rw [Follows, hfollows lt p enc, hlt hspells]
      simp [State.closeComparison, misquoted?, hleft, Except.bind]
  · obtain ⟨-, hvalue⟩ := herror
    obtain ⟨rt, -, hfollows⟩ := hvalue nofun
    exact ⟨nofun, fun lt _ p enc => hfollows _ _ (.right ⟨left, lt⟩ op p enc)⟩

/-- A symbol that a function of tokens knows does not stand where it finds none. -/
theorem symbol_ne_of_bind_eq_none {β : Type} {f : β → Symbol} {g : Token → Option β}
    (hg : ∀ {t b}, g t = some b ↔ t.symbol = f b) (h : ts.list[i]?.bind g = none) :
    ∀ t b, ts.list[i]? = some t → t.symbol ≠ f b := by
  intro t b ht hb
  have hnone : g t = none := Option.bind_eq_none_iff.mp h t ht
  rw [hg.mpr hb] at hnone
  cases hnone

theorem operatorOf?_eq_some_iff {t : Token} {op : Operator} :
    operatorOf? t = some op ↔ t.symbol = .operator op := by
  unfold operatorOf?
  cases t.symbol <;> simp

/-- **A comparison.** -/
theorem runs_comparison (hc : At i d c) (hi : i ≤ ts.list.length)
    (hcalls : Under outset calls ⟨.comparison, i, d⟩) :
    Runs ts outset (comparison ts calls) c fun r c' => Advances i d r c' ∧
      (¬ OpensGroup ts i → ∀ p enc, Follows ts ⟨.term, p, enc⟩ i (.afterTerm p enc) r c') := by
  unfold comparison
  refine runs_enter_bind hc hi hcalls fun c₁ h₁ => runs_get_bind ?_
  simp only [h₁.position]
  refine (runs_value true h₁ hi (hcalls.here (by decide))).bind (fun left c₂ hext hleft => ?_)
    fun e c₂ _ herror => ?_
  · obtain ⟨hadvances, hvalue⟩ := hleft
    have hlt := (hadvances left rfl).1
    have hle := hext.within (h₁.position ▸ hi)
    refine runs_peek_bind hadvances.at hle fun c₃ h₃ => ?_
    cases hoperator : ts.list[c₂.position]?.bind operatorOf? with
    | none =>
        refine runs_unexpected h₃ hle fun c₄ => ⟨nofun, fun hgroup p enc => ?_⟩
        obtain ⟨lt, -, hfollows⟩ := hvalue fun _ => hgroup
        refine (hfollows _ _ (.left p enc)).trans ?_
        exact readFrom_operator_refused
          (symbol_ne_of_bind_eq_none operatorOf?_eq_some_iff hoperator)
    | some op =>
        obtain ⟨t, ht, hop⟩ := Option.bind_eq_some_iff.mp hoperator
        obtain ⟨hlt', -⟩ := List.getElem?_eq_some_iff.mp ht
        refine runs_advance_bind h₃ hlt' fun c₄ h₄ => ?_
        refine (runs_rightSide h₄ hlt' hi (hcalls.onward (by omega))).imp fun r c₅ _ hright => ?_
        refine ⟨fun a ha => ?_, fun hgroup p enc => ?_⟩
        · exact ⟨by have := (hright.1 a ha).1; omega, (hright.1 a ha).2⟩
        · obtain ⟨lt, hlt, hfollows⟩ := hvalue fun _ => hgroup
          refine (hfollows _ _ (.left p enc)).trans ?_
          exact (readFrom_operator ht (operatorOf?_eq_some_iff.mp hop)).trans
            (hright.2 lt (hlt left rfl) p enc)
  · refine ⟨nofun, fun hgroup p enc => ?_⟩
    obtain ⟨lt, -, hfollows⟩ := herror.2 fun _ => hgroup
    exact hfollows _ _ (.left p enc)

/-! ### Terms and chains -/

theorem connectiveOf?_eq_some_iff {t : Token} {b : Connective} :
    connectiveOf? t = some b ↔ t.symbol = .connective b := by
  unfold connectiveOf?
  cases t.symbol <;> simp

theorem runs_opensGroup_bind {α : Type} {P : Except Error α → Cursor → Prop} {f : Bool → Descent α}
    (hc : At i d c) (hi : i ≤ ts.list.length)
    (hgroup : OpensGroup ts i → ∀ c', At i d c' → Runs ts outset (f true) c' P)
    (hother : ¬ OpensGroup ts i → ∀ c', At i d c' → Runs ts outset (f false) c' P) :
    Runs ts outset (opensGroup ts >>= f) c P := by
  rw [opensGroup, bind_assoc]
  refine runs_sees_bind hc hi fun c₁ h₁ => ?_
  by_cases hopening : ts.list[i]?.map Token.symbol = some .opening
  · obtain ⟨a, ha, -⟩ := Option.map_eq_some_iff.mp hopening
    obtain ⟨hlt, -⟩ := List.getElem?_eq_some_iff.mp ha
    simp only [hopening, decide_true, if_true, bind_assoc]
    refine runs_peekAt_bind h₁ hlt fun c₂ h₂ => ?_
    rw [pure_bind]
    cases hliteral : ts.list[i + 1]?.bind bracketedOperand? with
    | none => exact hgroup ⟨hopening, hliteral⟩ c₂ h₂
    | some o => exact hother (fun h => by simp [h.2] at hliteral) c₂ h₂
  · simp only [hopening, decide_false, Bool.false_eq_true, if_false, pure_bind]
    exact hother (fun h => hopening h.1) c₁ h₁

/-- What a term has to do at a place. -/
def TermRuns (ts : Tokens) (fuel outset i d : Nat) : Prop :=
  ∀ c calls, At i d c → Under outset calls ⟨.term, i, d⟩ →
    Runs ts outset (term ts fuel calls) c fun r c' => Advances i d r c' ∧
      ∀ p enc, enc.length = d → Follows ts ⟨.term, p, enc⟩ i (.afterTerm p enc) r c'

/-- No connective stands at the place. -/
def ChainEnds (ts : Tokens) (i : Nat) : Prop :=
  ∀ t b, ts.list[i]? = some t → t.symbol ≠ .connective b

/-- What a chain has to do at a place; it stops where no connective follows. -/
def ExprRuns (ts : Tokens) (fuel outset i d : Nat) : Prop :=
  ∀ c calls, At i d c → Under outset calls ⟨.expr, i, d⟩ →
    Runs ts outset (expr ts fuel calls) c fun r c' => Advances i d r c' ∧
      (∀ e, r = .ok e → ChainEnds ts c'.position) ∧
      ∀ enc, enc.length = d → Follows ts ⟨.term, none, enc⟩ i (.afterTerm none enc) r c'

/-- What the rest of a chain has to do at a place; it may be empty. -/
def PassRuns (ts : Tokens) (fuel outset i d : Nat) : Prop :=
  ∀ c calls left, At i d c → Under outset calls ⟨.pass, i, d⟩ →
    Runs ts outset (pass ts fuel calls left) c fun r c' =>
      (∀ e, r = .ok e → c'.depth = d ∧ ChainEnds ts c'.position) ∧
      ∀ enc, enc.length = d →
        Follows ts (.afterTerm none enc left) i (.afterTerm none enc) r c'

variable {fuel : Nat}

/-- A group within a term, given what the chain in it does. -/
theorem runs_group (hgroup : OpensGroup ts i) (hexpr : ExprRuns ts fuel outset (i + 1) (d + 1))
    (hc : At i d c) (hcalls : Under outset calls ⟨.term, i, d⟩) :
    Runs ts outset (group ts (expr ts fuel (⟨.term, i, d⟩ :: calls))) c fun r c' =>
      Advances i d r c' ∧
        ∀ p enc, enc.length = d → Follows ts ⟨.term, p, enc⟩ i (.afterTerm p enc) r c' := by
  unfold group
  refine runs_setDepth_bind hc fun c₁ h₁ => runs_get_bind ?_
  simp only [h₁.depth]
  -- The counter is looked at before the bracket is passed over, as the reader does.
  by_cases hdeep : deepestNesting < d + 1
  · rw [if_pos hdeep]
    refine runs_throw ⟨nofun, fun p enc henc => ?_⟩
    rw [Follows, readFrom_openGroup hgroup, if_neg (by omega)]
    rfl
  · rw [if_neg hdeep]
    have hopened : ∀ p enc, enc.length = d → State.readFrom ts ⟨.term, p, enc⟩ i =
        State.readFrom ts ⟨.term, none, p :: enc⟩ (i + 1) := by
      intro p enc henc
      rw [readFrom_openGroup hgroup, if_pos (by omega)]
    have hcalls' : Under outset (⟨.term, i, d⟩ :: calls) ⟨.expr, i + 1, d + 1⟩ :=
      hcalls.inward (Nat.lt_succ_self i) (Nat.le_of_not_lt hdeep)
    refine runs_advance_bind h₁ hgroup.lt fun c₂ h₂ => ?_
    refine (hexpr c₂ _ h₂ hcalls').bind (fun e c₃ hext hinner => ?_) fun e c₃ _ herror => ?_
    · obtain ⟨hadvances, hends, hfollows⟩ := hinner
      have hfollows := fun p enc (henc : enc.length = d) =>
        (hopened p enc henc).trans (hfollows (p :: enc) (congrArg (· + 1) henc))
      have hle := hext.within (h₂.position ▸ hgroup.lt)
      refine runs_expect_bind hadvances.at hle (fun c₄ t ht hs h₄ => ?_) fun c₄ hs => ?_
      · refine runs_setDepth_bind (g := (· - 1)) h₄ fun c₅ h₅ => ?_
        refine runs_pure ⟨?_, fun p enc henc => ?_⟩
        · have := (hadvances e rfl).1
          exact h₅.advances (by omega)
        · rw [Follows, h₅.position]
          exact (hfollows p enc henc).trans (readFrom_closing ht hs)
      · -- No connective follows the chain, so what is not the bracket the reader refuses too.
        refine ⟨nofun, fun p enc henc => (hfollows p enc henc).trans ?_⟩
        exact readFrom_joint_refused (hends e rfl) (fun _ => hs) fun _ => List.cons_ne_nil p enc
    · refine ⟨nofun, fun p enc henc => ?_⟩
      exact (hopened p enc henc).trans (herror.2.2 (p :: enc) (congrArg (· + 1) henc))

/-- A term, given what a chain does behind the token that is next. -/
theorem termRuns_succ (hi : i ≤ ts.list.length)
    (hexpr : i < ts.list.length → ExprRuns ts fuel outset (i + 1) (d + 1)) :
    TermRuns ts (fuel + 1) outset i d := by
  intro c calls hc hcalls
  rw [term]
  refine runs_enter_bind hc hi hcalls fun c₁ h₁ => ?_
  refine runs_opensGroup_bind h₁ hi (fun hgroup c₂ h₂ => ?_) fun hgroup c₂ h₂ => ?_
  · exact runs_group hgroup (hexpr hgroup.lt) h₂ hcalls
  · refine (runs_comparison h₂ hi (hcalls.here (by decide))).imp fun r c₃ _ hcomparison => ?_
    exact ⟨hcomparison.1, fun p enc _ => hcomparison.2 hgroup p enc⟩

/-- The rest of a chain, given what a term and the rest do further on. -/
theorem passRuns_succ (hi : i ≤ ts.list.length)
    (hterm : i < ts.list.length → TermRuns ts fuel outset (i + 1) d)
    (hpass : ∀ j, i < j → j ≤ ts.list.length → PassRuns ts fuel outset j d) :
    PassRuns ts (fuel + 1) outset i d := by
  intro c calls left hc hcalls
  rw [pass]
  refine runs_enter_bind hc hi hcalls fun c₁ h₁ => ?_
  refine runs_peek_bind h₁ hi fun c₂ h₂ => ?_
  cases hconnective : ts.list[i]?.bind connectiveOf? with
  | none =>
      have hends : ChainEnds ts i :=
        symbol_ne_of_bind_eq_none connectiveOf?_eq_some_iff hconnective
      refine runs_pure ⟨fun e _ => ⟨h₂.depth, h₂.position ▸ hends⟩, fun enc _ => ?_⟩
      rw [Follows, h₂.position]
      rfl
  | some b =>
      obtain ⟨t, ht, hb⟩ := Option.bind_eq_some_iff.mp hconnective
      obtain ⟨hlt, -⟩ := List.getElem?_eq_some_iff.mp ht
      have hjoined : ∀ enc, State.readFrom ts (.afterTerm none enc left) i =
          State.readFrom ts ⟨.term, some (left, b), enc⟩ (i + 1) :=
        fun enc => readFrom_connective ht (connectiveOf?_eq_some_iff.mp hb)
      refine runs_advance_bind h₂ hlt fun c₃ h₃ => ?_
      refine (hterm hlt c₃ _ h₃ (hcalls.onward (Nat.lt_succ_self i))).bind
        (fun right c₄ hext hright => ?_) fun e c₄ _ herror => ?_
      · obtain ⟨hadvances, hfollows⟩ := hright
        have hle := hext.within (h₃.position ▸ hlt)
        have hfurther : i < c₄.position := by
          have := (hadvances right rfl).1
          omega
        refine (hpass c₄.position hfurther hle c₄ _ (.join b left right) hadvances.at
          (hcalls.onward hfurther)).imp fun r c₅ _ hrest => ?_
        refine ⟨hrest.1, fun enc henc => ?_⟩
        exact (hjoined enc).trans ((hfollows _ enc henc).trans (hrest.2 enc henc))
      · refine ⟨nofun, fun enc henc => ?_⟩
        exact (hjoined enc).trans (herror.2 _ enc henc)

/-- A chain, given what the term it begins with and the rest of it do. -/
theorem exprRuns_succ (hi : i ≤ ts.list.length) (hterm : TermRuns ts fuel outset i d)
    (hpass : ∀ j, i < j → j ≤ ts.list.length → PassRuns ts fuel outset j d) :
    ExprRuns ts (fuel + 1) outset i d := by
  intro c calls hc hcalls
  rw [expr]
  refine runs_enter_bind hc hi hcalls fun c₁ h₁ => ?_
  refine (hterm c₁ _ h₁ (hcalls.here (by decide))).bind (fun first c₂ hext hfirst => ?_)
    fun e c₂ _ herror => ?_
  · obtain ⟨hadvances, hfollows⟩ := hfirst
    have hlt := (hadvances first rfl).1
    have hle := hext.within (h₁.position ▸ hi)
    refine (hpass c₂.position hlt hle c₂ _ first hadvances.at (hcalls.onward hlt)).imp
      fun r c₃ hext' hrest => ?_
    refine ⟨fun e he => ⟨?_, (hrest.1 e he).1⟩, fun e he => (hrest.1 e he).2, fun enc henc => ?_⟩
    · exact Nat.lt_of_lt_of_le hlt hext'.forward
    · exact (hfollows none enc henc).trans (hrest.2 enc henc)
  · exact ⟨nofun, nofun, fun enc henc => herror.2 none enc henc⟩

/-- The fuel that a term, and the rest of a chain, need at most: two for each token that is left,
and one more.  A chain needs one more than the term it begins with. -/
def enough (ts : Tokens) (i : Nat) : Nat :=
  2 * (ts.list.length - i) + 1

theorem enough_of_lt {j : Nat} (hlt : i < j) (hj : j ≤ ts.list.length) :
    enough ts j + 2 ≤ enough ts i := by
  unfold enough
  omega

/-- **Enough fuel lets every run end.**  Whatever is called begins further on, or it is the term
that a chain begins with. -/
theorem runs_of_enough (ts : Tokens) (outset : Nat) :
    ∀ fuel i d, i ≤ ts.list.length →
      (enough ts i ≤ fuel → TermRuns ts fuel outset i d) ∧
      (enough ts i ≤ fuel → PassRuns ts fuel outset i d) ∧
      (enough ts i + 1 ≤ fuel → ExprRuns ts fuel outset i d) := by
  intro fuel
  induction fuel with
  | zero =>
      intro i d _
      exact ⟨nofun, nofun, nofun⟩
  | succ fuel ih =>
      intro i d hi
      have hpass : enough ts i ≤ fuel + 1 →
          ∀ j, i < j → j ≤ ts.list.length → PassRuns ts fuel outset j d := by
        intro henough j hlt hj
        have := enough_of_lt hlt hj
        exact (ih j d hj).2.1 (by omega)
      refine ⟨fun henough => ?term, fun henough => ?pass, fun henough => ?expr⟩
      case term =>
        refine termRuns_succ hi fun hlt => (ih (i + 1) (d + 1) hlt).2.2 ?_
        have := enough_of_lt (Nat.lt_add_one i) hlt
        omega
      case pass =>
        refine passRuns_succ hi (fun hlt => (ih (i + 1) d hlt).1 ?_) (hpass henough)
        have := enough_of_lt (Nat.lt_add_one i) hlt
        omega
      case expr =>
        exact exprRuns_succ hi ((ih i d hi).1 (by omega)) (hpass (by omega))

/-! ### Whole queries -/

theorem runs_parse (henough : enough ts 0 + 1 ≤ fuel) :
    Runs ts 0 (parse ts fuel) .start fun r _ => r = Expr.ofTokens ts := by
  have hexpr := (runs_of_enough ts 0 fuel 0 0 (Nat.zero_le _)).2.2 henough .start []
    ⟨rfl, rfl⟩ under_nil
  rw [parse, ← readFrom_start]
  refine hexpr.bind (fun e c₁ hext he => ?_) fun e c₁ _ herror => ?_
  · obtain ⟨hadvances, hends, hfollows⟩ := he
    have hread := hfollows [] rfl
    have hle := hext.within (Nat.zero_le _)
    refine runs_peek_bind hadvances.at hle fun c₂ h₂ => ?_
    cases ht : ts.list[c₁.position]? with
    | none => exact runs_pure ((hread.trans (readFrom_joint_end ht)).symm)
    | some t =>
        refine runs_unexpected h₂ hle fun c₃ => Eq.symm (hread.trans ?_)
        have hend : ts.list[c₁.position]? ≠ none := by simp [ht]
        exact readFrom_joint_refused (hends e rfl) (fun h => absurd rfl h) fun h => absurd h hend
  · exact (herror.2.2 [] rfl).symm

/-- A routine, called anywhere in the text while some calls are open: it ends, all that it does is
in order, and if it succeeds it has moved on within the text and has closed what it opened. -/
def Progresses {α : Type} (ts : Tokens) (routine : Routine) (m : List Call → Descent α) : Prop :=
  ∀ (outset : Nat) (calls : List Call) (c : Cursor), c.position ≤ ts.list.length →
    Under outset calls ⟨routine, c.position, c.depth⟩ →
    Runs ts outset (m calls) c fun r c' => c'.position ≤ ts.list.length ∧
      ∀ a, r = .ok a → c.position < c'.position ∧ c'.depth = c.depth

theorem Runs.progresses {α : Type} {m : Descent α} {Q : Except Error α → Cursor → Prop}
    (h : Runs ts outset m c fun r c' => Advances c.position c.depth r c' ∧ Q r c')
    (hi : c.position ≤ ts.list.length) :
    Runs ts outset m c fun r c' => c'.position ≤ ts.list.length ∧
      ∀ a, r = .ok a → c.position < c'.position ∧ c'.depth = c.depth :=
  h.imp fun _ _ hext hr => ⟨hext.within hi, hr.1⟩

/--
**The routines make progress and come to an end.**  Wherever in the text a value, a comparison, a
term or a chain is looked for, the search ends; if it succeeds, it stops further on, at the end of
the text at most, has taken the tokens on its way and nothing else, and has left the counter of
open groups as it was.  A routine that is called again within itself, a chain within another call
and each pass over a chain begin further on than every call they are made from; within a group
the counter is at most sixty-four.  So the search for a whole query ends, with what the reader
answers, and has looked at nothing behind the end of the text.
-/
theorem routines_advance (ts : Tokens) (fuel : Nat) (henough : 2 * ts.list.length + 2 ≤ fuel) :
    ((∀ first, Progresses ts .value (value ts · first)) ∧
      Progresses ts .comparison (comparison ts) ∧ Progresses ts .term (term ts fuel) ∧
      Progresses ts .expr (expr ts fuel)) ∧
    ∃ c, (parse ts fuel).run.run .start = some (Expr.ofTokens ts, c) ∧
      ∀ event ∈ c.trail, event.Sound ts.list.length 0 := by
  have henough' : ∀ i, enough ts i + 1 ≤ fuel := by
    unfold enough
    omega
  refine ⟨⟨fun first => ?value, ?comparison, ?term, ?expr⟩, ?parse⟩
  case value =>
    exact fun _ _ _ hi hcalls => (runs_value first ⟨rfl, rfl⟩ hi hcalls).progresses hi
  case comparison =>
    exact fun _ _ _ hi hcalls => (runs_comparison ⟨rfl, rfl⟩ hi hcalls).progresses hi
  case term =>
    intro outset calls c hi hcalls
    have hterm := (runs_of_enough ts outset fuel _ c.depth hi).1 (Nat.le_of_lt (henough' _))
    exact (hterm c calls ⟨rfl, rfl⟩ hcalls).progresses hi
  case expr =>
    intro outset calls c hi hcalls
    have hexpr := (runs_of_enough ts outset fuel _ c.depth hi).2.2 (henough' _)
    exact (hexpr c calls ⟨rfl, rfl⟩ hcalls).progresses hi
  case parse =>
    obtain ⟨r, c, hrun, hext, rfl⟩ := runs_parse (henough' 0)
    obtain ⟨events, htrail, hsound, -⟩ := hext.trail
    refine ⟨c, hrun, fun event hevent => hsound event ?_⟩
    simpa [htrail, Cursor.start] using hevent

/-- For `(name == name)` twelve is enough.  The chain between the brackets is looked for at the
second token, from within the term and the chain that begin at the first. -/
theorem routines_advance_group :
    let ts : Tokens := ⟨[⟨.opening, "(", 0⟩, ⟨.field .name, "name", 1⟩, ⟨.operator .eq, "==", 6⟩,
      ⟨.field .name, "name", 9⟩, ⟨.closing, ")", 13⟩], 14⟩
    2 * ts.list.length + 2 ≤ 12 ∧
      Runs ts 0 (expr ts 12 [⟨.term, 0, 0⟩, ⟨.expr, 0, 0⟩]) ⟨1, 1, []⟩ (fun r c' =>
        c'.position ≤ 5 ∧ ∀ a, r = .ok a → 1 < c'.position ∧ c'.depth = 1) ∧
      ∃ c, (parse ts 12).run.run .start =
          some (.ok (.compare .eq (.field .name) (.field .name)), c) ∧
        ∀ event ∈ c.trail, event.Sound 5 0 := by
  intro ts
  obtain ⟨⟨-, -, -, hexpr⟩, hparse⟩ := routines_advance ts 12 (by decide)
  have hterm : Under 0 [⟨.expr, 0, 0⟩] ⟨.term, 0, 0⟩ := under_nil.here (by decide)
  exact ⟨by decide, hexpr 0 _ ⟨1, 1, []⟩ (by decide) (hterm.inward (by decide) (by decide)), hparse⟩

end Descent

end RollCall.Query
