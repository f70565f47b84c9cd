/-
Runs of the routines that end.

What is to be known of a run comes in two parts.  `Runs` says that it ends, that its trail is
in order, and what it ends with; the order of the trail passes from one run to the next by
itself, so a rule for a step only has to say what the rest of the run meets.

The calls on a trail are in order because each that is open precedes each that is made
within it: it began further back, or at the same place and belongs to a routine of smaller
rank.  That is transitive, hence a call has to be compared with its caller only.
-/
import RollCall.Proofs.Query.Descent
import RollCall.Proofs.Query.Places

namespace RollCall.Query

namespace Descent

open Reader (misplacedAt)

/-! ### Enclosing calls -/

/-- A routine calls, at the place where it began, only routines of a greater rank. -/
def Routine.rank : Routine → Nat
  | .expr | .pass => 0
  | .term => 1
  | .comparison => 2
  | .value => 3

/-- How an open call stands to one that is made within it. -/
structure Call.Encloses (outer inner : Call) : Prop where
  /-- no call goes back -/
  behind : outer.position ≤ inner.position
  /-- a routine that is called again, a chain and a pass within another call begin further on -/
  onward : inner.routine = outer.routine ∨ inner.routine = .expr ∨ inner.routine = .pass →
    outer.position < inner.position
  /-- no group is closed that was open -/
  nested : outer.depth ≤ inner.depth
  /-- within a group the counter keeps to the limit -/
  bounded : outer.depth < inner.depth → inner.depth ≤ deepestNesting

/-- The same with an order of the calls at one place, so that it passes from call to call. -/
structure Call.Precedes (outer inner : Call) : Prop where
  onward : outer.position < inner.position ∨
    outer.position = inner.position ∧ outer.routine.rank < inner.routine.rank
  nested : outer.depth ≤ inner.depth
  bounded : outer.depth < inner.depth → inner.depth ≤ deepestNesting

theorem Call.Precedes.trans {a b c : Call} (hab : a.Precedes b) (hbc : b.Precedes c) :
    a.Precedes c where
  onward := by
    have hab := hab.onward
    have hbc := hbc.onward
    omega
  nested := Nat.le_trans hab.nested hbc.nested
  bounded hac := by
    by_cases h : b.depth < c.depth
    · exact hbc.bounded h
    · have heq : b.depth = c.depth := Nat.le_antisymm hbc.nested (Nat.le_of_not_lt h)
      exact heq ▸ hab.bounded (heq ▸ hac)

theorem Call.Precedes.encloses {outer inner : Call} (h : outer.Precedes inner) :
    outer.Encloses inner where
  behind := by
    have := h.onward
    omega
  onward hagain := by
    rcases h.onward with hlt | ⟨-, hrank⟩
    · exact hlt
    · rcases hagain with heq | heq | heq
      · rw [heq] at hrank
        exact absurd hrank (Nat.lt_irrefl _)
      all_goals
        rw [heq] at hrank
        exact absurd hrank (Nat.not_lt_zero _)
  nested := h.nested
  bounded := h.bounded

/-- What holds of a call that is about to be made, in a run that began with so many groups open: it
keeps to the limit, unless the run did not, and all open calls precede it. -/
structure Under (outset : Nat) (calls : List Call) (inner : Call) : Prop where
  within : inner.depth ≤ max outset deepestNesting
  precede : ∀ outer ∈ calls, outer.Precedes inner

variable {outset : Nat} {calls : List Call} {routine callee : Routine} {i j d d' : Nat}

theorem under_nil : Under outset [] ⟨routine, i, outset⟩ where
  within := Nat.le_max_left outset deepestNesting
  precede := nofun

/-- What is called from within a call. -/
theorem Under.cons (h : Under outset calls ⟨routine, i, d⟩)
    (hinner : Call.Precedes ⟨routine, i, d⟩ ⟨callee, j, d'⟩) :
    Under outset (⟨routine, i, d⟩ :: calls) ⟨callee, j, d'⟩ where
  within := by
    have hd : d ≤ max outset deepestNesting := h.within
    have hbounded : d < d' → d' ≤ deepestNesting := hinner.bounded
    show d' ≤ max outset deepestNesting
    omega
  precede outer houter := by
    rcases List.mem_cons.mp houter with rfl | houter
    · exact hinner
    · exact (h.precede outer houter).trans hinner

/-- A call at the place where its caller began. -/
theorem Under.here (h : Under outset calls ⟨routine, i, d⟩) (hrank : routine.rank < callee.rank) :
    Under outset (⟨routine, i, d⟩ :: calls) ⟨callee, i, d⟩ :=
  h.cons ⟨.inr ⟨rfl, hrank⟩, Nat.le_refl d, fun hd => absurd hd (Nat.lt_irrefl d)⟩

/-- A call further on. -/
theorem Under.onward (h : Under outset calls ⟨routine, i, d⟩) (hlt : i < j) :
    Under outset (⟨routine, i, d⟩ :: calls) ⟨callee, j, d⟩ :=
  h.cons ⟨.inl hlt, Nat.le_refl d, fun hd => absurd hd (Nat.lt_irrefl d)⟩

/-- A call within a group that has been opened. -/
theorem Under.inward (h : Under outset calls ⟨routine, i, d⟩) (hlt : i < j)
    (hroom : d < deepestNesting) :
    Under outset (⟨routine, i, d⟩ :: calls) ⟨callee, j, d + 1⟩ :=
  h.cons ⟨.inl hlt, Nat.le_succ d, fun _ => hroom⟩

/-! ### What a run does -/

/-- What may be done on the way through so many tokens, in a run that began with so many groups
open: calls begin within the text, keep to the limit and are made as the open ones permit, only
tokens and the end of the text are looked at, and only tokens are taken. -/
def Event.Sound (n outset : Nat) : Event → Prop
  | .called [] => False
  | .called (inner :: outers) =>
    inner.position ≤ n ∧ inner.depth ≤ max outset deepestNesting ∧
      ∀ outer ∈ outers, outer.Encloses inner
  | .looked place => place ≤ n
  | .took place => place < n

/-- The token that is passed over. -/
def Event.taken? : Event → Option Nat
  | .took place => some place
  | _ => none

/-- What stands on a trail between two cursors: everything is in order, and the tokens between them
have been taken, each once and in their order. -/
structure Extends (n outset : Nat) (c c' : Cursor) : Prop where
  forward : c.position ≤ c'.position
  within : c.position ≤ n → c'.position ≤ n
  trail : ∃ events, c'.trail = c.trail ++ events ∧ (∀ event ∈ events, event.Sound n outset) ∧
    events.filterMap Event.taken? = List.range' c.position (c'.position - c.position)

theorem Extends.refl (n outset : Nat) (c : Cursor) : Extends n outset c c where
  forward := Nat.le_refl _
  within := id
  trail := ⟨[], by simp, by simp, by simp⟩

theorem Extends.trans {n : Nat} {a b c : Cursor} (hab : Extends n outset a b)
    (hbc : Extends n outset b c) : Extends n outset a c where
  forward := Nat.le_trans hab.forward hbc.forward
  within h := hbc.within (hab.within h)
  trail := by
    obtain ⟨es, hes, hsound, htaken⟩ := hab.trail
    obtain ⟨fs, hfs, hsound', htaken'⟩ := hbc.trail
    have hab := hab.forward
    have hbc := hbc.forward
    refine ⟨es ++ fs, by rw [hfs, hes, List.append_assoc], ?_, ?_⟩
    · intro event hevent
      exact (List.mem_append.mp hevent).elim (hsound event) (hsound' event)
    · rw [List.filterMap_append, htaken, htaken',
        show c.position - a.position = b.position - a.position + (c.position - b.position) by omega,
        ← List.range'_append_1, show a.position + (b.position - a.position) = b.position by omega]

/-- An event by which no token is taken. -/
theorem extends_note {n : Nat} (c : Cursor) {event : Event} (hsound : event.Sound n outset)
    (htaken : event.taken? = none) : Extends n outset c { c with trail := c.trail ++ [event] } where
  forward := Nat.le_refl _
  within := id
  trail := ⟨[event], rfl, by simpa using hsound, by simp [htaken]⟩

theorem extends_took {n : Nat} {c : Cursor} (h : c.position < n) :
    Extends n outset c
      { c with position := c.position + 1, trail := c.trail ++ [.took c.position] } where
  forward := Nat.le_succ _
  within _ := h
  trail := ⟨[.took c.position], rfl, by simpa [Event.Sound] using h, by simp [Event.taken?]⟩

/-! ### Runs that end -/

variable {ts : Tokens} {α β : Type} {c : Cursor} {m : Descent α}
  {P : Except Error α → Cursor → Prop}

/-- The run from the cursor ends, all that it does is in order, and what it ends with is as
described. -/
def Runs (ts : Tokens) (outset : Nat) (m : Descent α) (c : Cursor)
    (P : Except Error α → Cursor → Prop) : Prop :=
  ∃ r c', m.run.run c = some (r, c') ∧ Extends ts.list.length outset c c' ∧ P r c'

theorem Runs.imp {Q : Except Error α → Cursor → Prop} (h : Runs ts outset m c Q)
    (himp : ∀ r c', Extends ts.list.length outset c c' → Q r c' → P r c') :
    Runs ts outset m c P := by
  obtain ⟨r, c', hrun, hc, hq⟩ := h
  exact ⟨r, c', hrun, hc, himp r c' hc hq⟩

/-- One run behind the other. -/
theorem Runs.bind {Q : Except Error β → Cursor → Prop} {m : Descent β} {f : β → Descent α}
    (hm : Runs ts outset m c Q)
    (hok : ∀ b c', Extends ts.list.length outset c c' → Q (.ok b) c' → Runs ts outset (f b) c' P)
    (herror : ∀ e c', Extends ts.list.length outset c c' → Q (.error e) c' → P (.error e) c') :
    Runs ts outset (m >>= f) c P := by
  obtain ⟨r, c', hrun, hc, hq⟩ := hm
  have hbind : (m >>= f).run.run c =
      (m.run.run c).bind fun rc => match rc.1 with
        | .ok b => (f b).run.run rc.2
        | .error e => some (.error e, rc.2) := by
    show Option.bind _ _ = Option.bind _ _
    congr 1
    funext ⟨r, c'⟩
    cases r <;> rfl
  rw [hrun] at hbind
  cases r with
  | ok b =>
      obtain ⟨r', c'', hrun', hc', hp⟩ := hok b c' hc hq
      exact ⟨r', c'', hbind.trans hrun', hc.trans hc', hp⟩
  | error e => exact ⟨.error e, c', hbind, hc, herror e c' hc hq⟩

/-- Behind a run that fails nothing is done. -/
theorem Runs.bind_fails {m : Descent β} {f : β → Descent α} {e : Error}
    (hm : Runs ts outset m c fun r _ => r = .error e) (hP : ∀ c', P (.error e) c') :
    Runs ts outset (m >>= f) c P := by
  refine hm.bind (fun _ _ _ h => nomatch h) fun e' c' _ he => ?_
  obtain rfl := Except.error.inj he
  exact hP c'

theorem runs_pure {a : α} (h : P (.ok a) c) : Runs ts outset (pure a) c P :=
  ⟨.ok a, c, rfl, .refl _ _ _, h⟩

theorem runs_throw {e : Error} (h : P (.error e) c) : Runs ts outset (throw e) c P :=
  ⟨.error e, c, rfl, .refl _ _ _, h⟩

/-! ### Steps

Each rule says what the rest of a run meets behind a step; all it knows of the cursor is where that
is, and how many groups are open.
-/

/-- The cursor stands at a place, with so many groups open. -/
structure At (place depth : Nat) (c : Cursor) : Prop where
  position : c.position = place
  depth : c.depth = depth

/-- A step with one outcome. -/
theorem runs_bind_of_run {m : Descent β} {f : β → Descent α} {b : β} {c' : Cursor}
    (hrun : m.run.run c = some (.ok b, c')) (hc : Extends ts.list.length outset c c')
    (hf : Runs ts outset (f b) c' P) : Runs ts outset (m >>= f) c P := by
  have hm : Runs ts outset m c fun r d => r = .ok b ∧ d = c' := ⟨.ok b, c', hrun, hc, rfl, rfl⟩
  refine hm.bind (fun b' d _ h => ?_) fun e d _ h => nomatch h.1
  obtain ⟨h, rfl⟩ := h
  obtain rfl := Except.ok.inj h
  exact hf

theorem runs_get_bind {f : Cursor → Descent α} (hf : Runs ts outset (f c) c P) :
    Runs ts outset (get >>= f) c P :=
  runs_bind_of_run rfl (.refl _ _ _) hf

theorem runs_setDepth_bind {f : Unit → Descent α} {g : Nat → Nat} (hc : At i d c)
    (hf : ∀ c', At i (g d) c' → Runs ts outset (f ()) c' P) :
    Runs ts outset ((modify fun c => { c with depth := g c.depth }) >>= f) c P :=
  runs_bind_of_run rfl ⟨Nat.le_refl _, id, [], by simp, by simp, by simp⟩
    (hf _ ⟨hc.position, congrArg g hc.depth⟩)

theorem runs_note_bind {event : Event} {f : Unit → Descent α} (hc : At i d c)
    (hsound : event.Sound ts.list.length outset) (htaken : event.taken? = none)
    (hf : ∀ c', At i d c' → Runs ts outset (f ()) c' P) : Runs ts outset (note event >>= f) c P :=
  runs_bind_of_run rfl (extends_note c hsound htaken) (hf _ ⟨hc.position, hc.depth⟩)

theorem runs_enter_bind {routine : Routine} {calls : List Call} {f : List Call → Descent α}
    (hc : At i d c) (hi : i ≤ ts.list.length) (hcalls : Under outset calls ⟨routine, i, d⟩)
    (hf : ∀ c', At i d c' → Runs ts outset (f (⟨routine, i, d⟩ :: calls)) c' P) :
    Runs ts outset (enter routine calls >>= f) c P := by
  obtain ⟨rfl, rfl⟩ := hc
  have hsound : (Event.called (⟨routine, c.position, c.depth⟩ :: calls)).Sound ts.list.length
      outset := ⟨hi, hcalls.within, fun outer houter => (hcalls.precede outer houter).encloses⟩
  exact runs_bind_of_run rfl (extends_note c hsound rfl) (hf _ ⟨rfl, rfl⟩)

theorem runs_peekAt_bind {offset : Nat} {f : Option Token → Descent α} (hc : At i d c)
    (hi : i + offset ≤ ts.list.length)
    (hf : ∀ c', At i d c' → Runs ts outset (f ts.list[i + offset]?) c' P) :
    Runs ts outset (peekAt ts offset >>= f) c P := by
  obtain ⟨rfl, rfl⟩ := hc
  have hrun : (peekAt ts offset).run.run c =
      some (.ok ts.list[min (c.position + offset) ts.list.length]?,
        { c with trail := c.trail ++ [.looked (c.position + offset)] }) := rfl
  have hsound : (Event.looked (c.position + offset)).Sound ts.list.length outset := hi
  rw [Nat.min_eq_left hi] at hrun
  exact runs_bind_of_run hrun (extends_note c hsound rfl) (hf _ ⟨rfl, rfl⟩)

/-- The token that is next. -/
theorem runs_peek_bind {f : Option Token → Descent α} (hc : At i d c)
    (hi : i ≤ ts.list.length) (hf : ∀ c', At i d c' → Runs ts outset (f ts.list[i]?) c' P) :
    Runs ts outset (peekAt ts 0 >>= f) c P :=
  runs_peekAt_bind hc hi hf

theorem runs_sees_bind {s : Symbol} {f : Bool → Descent α} (hc : At i d c)
    (hi : i ≤ ts.list.length)
    (hf : ∀ c', At i d c' → Runs ts outset (f (ts.list[i]?.map Token.symbol = some s)) c' P) :
    Runs ts outset (sees ts s >>= f) c P := by
  rw [sees, bind_assoc]
  exact runs_peek_bind hc hi fun c' hc' => by
    rw [pure_bind]
    exact hf c' hc'

theorem runs_advance_bind {f : Unit → Descent α} (hc : At i d c) (hi : i < ts.list.length)
    (hf : ∀ c', At (i + 1) d c' → Runs ts outset (f ()) c' P) :
    Runs ts outset (advance ts >>= f) c P := by
  obtain ⟨rfl, rfl⟩ := hc
  have hrun : (advance ts).run.run c =
      (if c.position < ts.list.length then modify fun c => { c with position := c.position + 1 }
        else pure () : Descent Unit).run.run
          { c with trail := c.trail ++ [.took c.position] } := rfl
  rw [if_pos hi] at hrun
  exact runs_bind_of_run hrun (extends_took hi) (hf _ ⟨rfl, rfl⟩)

theorem runs_unexpected {labels : List Label} (hc : At i d c) (hi : i ≤ ts.list.length)
    (hP : ∀ c', P (.error (misplacedAt ts i labels)) c') :
    Runs ts outset (unexpected ts labels) c P :=
  runs_peek_bind hc hi fun c' _ => runs_throw (hP c')

theorem runs_expect_bind {s : Symbol} {labels : List Label} {f : Unit → Descent α}
    (hc : At i d c) (hi : i ≤ ts.list.length)
    (hok : ∀ c' t, ts.list[i]? = some t → t.symbol = s → At (i + 1) d c' →
      Runs ts outset (f ()) c' P)
    (herror : ∀ c', (∀ t, ts.list[i]? = some t → t.symbol ≠ s) →
      P (.error (misplacedAt ts i labels)) c') :
    Runs ts outset (expect ts s labels >>= f) c P := by
  rw [expect, bind_assoc]
  refine runs_sees_bind hc hi fun c' hc' => ?_
  by_cases h : ts.list[i]?.map Token.symbol = some s
  · obtain ⟨t, ht, hs⟩ := Option.map_eq_some_iff.mp h
    obtain ⟨hlt, -⟩ := List.getElem?_eq_some_iff.mp ht
    simp only [h, decide_true, if_true]
    exact runs_advance_bind hc' hlt fun c'' hc'' => hok c'' t ht hs hc''
  · have hnot : ∀ t, ts.list[i]? = some t → t.symbol ≠ s := by
      intro t ht hs
      exact h (by rw [ht, Option.map_some, hs])
    have hfail : Runs ts outset (unexpected ts labels : Descent Unit) c' fun r _ =>
        r = .error (misplacedAt ts i labels) :=
      runs_unexpected hc' hi fun _ => rfl
    simp only [h, decide_false, Bool.false_eq_true, if_false]
    exact hfail.bind_fails fun c'' => herror c'' hnot

end Descent

end RollCall.Query
