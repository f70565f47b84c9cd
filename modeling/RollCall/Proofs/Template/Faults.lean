/-
Where a text is no template.

A text is gone through from left to right, in steps: a character that is no brace, two braces
of one kind, or a keyword between braces.  A brace at which no step can be taken is a bad one,
and `Tells` says of each fault what makes it so, by the text from the brace on.  None of this
mentions the reader.

At every place of a text either a step can be taken or a bad brace stands there, so a text is
passed as a whole or up to its first bad brace (`passable_or_stops`).  The reader does what it
should in both cases: it follows a step, whatever comes behind it, and it fails at a bad
brace.  So the place and the fault of an error are those of the first bad brace, and where
there is none there is no error.
-/
import RollCall.Proofs.Template.Written

namespace RollCall

open Text (byteLength)

/-- What a fault says of the text from its brace on. -/
def TemplateFault.Tells (cs : List Char) : TemplateFault → Prop
  | .unmatched => ∃ rest, cs = '\x7d' :: rest ∧ rest.head? ≠ some '\x7d'
  | .unclosed => ∃ rest, cs = '\x7b' :: rest ∧ rest.head? ≠ some '\x7b' ∧ '\x7d' ∉ rest
  -- The name goes up to the next closing brace, over whatever stands there.
  | .unknownField name => ∃ rest after, cs = '\x7b' :: rest ∧ rest.head? ≠ some '\x7b' ∧
      rest = name.toList ++ '\x7d' :: after ∧ '\x7d' ∉ name.toList ∧
      ∀ f : Field, f.keyword ≠ name

namespace Template

/-- What is passed in one step. -/
inductive IsStep : List Char → Prop
  | plain {c : Char} (hopen : c ≠ '\x7b') (hclose : c ≠ '\x7d') : IsStep [c]
  | doubled {c : Char} (hc : c = '\x7b' ∨ c = '\x7d') : IsStep [c, c]
  | field (f : Field) : IsStep ('\x7b' :: f.keyword.toList ++ ['\x7d'])

/-- The text is passed step by step. -/
inductive Passable : List Char → Prop
  | nil : Passable []
  | step {front cs : List Char} (hfront : IsStep front) (h : Passable cs) : Passable (front ++ cs)

/-- Behind what is passed stands a bad brace. -/
structure Stops (cs before rest : List Char) (fault : TemplateFault) : Prop where
  split : cs = before ++ rest
  passable : Passable before
  tells : fault.Tells rest

/-! ### Going through a text -/

theorem IsStep.length_pos {front : List Char} (h : IsStep front) : 0 < front.length := by
  cases h <;> simp

/-- A step moves the place where a text stops. -/
theorem Stops.step {front cs before rest : List Char} {fault : TemplateFault}
    (h : Stops cs before rest fault) (hfront : IsStep front) :
    Stops (front ++ cs) (front ++ before) rest fault :=
  ⟨by rw [h.split, List.append_assoc], .step hfront h.passable, h.tells⟩

/-- An opening brace that is not doubled begins a field, or it is a bad one. -/
theorem exists_field_or_tells {rest : List Char} (hhead : rest.head? ≠ some '\x7b') :
    (∃ (f : Field) (after : List Char), rest = f.keyword.toList ++ '\x7d' :: after) ∨
      ∃ fault : TemplateFault, fault.Tells ('\x7b' :: rest) := by
  by_cases hmem : '\x7d' ∈ rest
  · obtain ⟨name, after, rfl, hname⟩ := List.eq_append_cons_of_mem hmem
    by_cases hfield : ∃ f : Field, f.keyword = String.ofList name
    · obtain ⟨f, hf⟩ := hfield
      refine .inl ⟨f, after, ?_⟩
      rw [hf, String.toList_ofList]
    · refine .inr ⟨.unknownField (String.ofList name), _, after, rfl, hhead, ?_, ?_, ?_⟩
      · rw [String.toList_ofList]
      · rwa [String.toList_ofList]
      · intro f hf
        exact hfield ⟨f, hf⟩
  · exact .inr ⟨.unclosed, rest, rfl, hhead, hmem⟩

/-- **A step can be taken, or a bad brace stands here.** -/
theorem exists_step_or_tells (c : Char) (cs : List Char) :
    (∃ front after, IsStep front ∧ c :: cs = front ++ after) ∨
      ∃ fault : TemplateFault, fault.Tells (c :: cs) := by
  by_cases hdoubled : (c = '\x7b' ∨ c = '\x7d') ∧ cs.head? = some c
  · -- Two braces of one kind go together, whatever the second one could begin.
    obtain ⟨hc, hhead⟩ := hdoubled
    obtain ⟨after, rfl⟩ := List.head?_eq_some_iff.mp hhead
    exact .inl ⟨[c, c], after, .doubled hc, rfl⟩
  · by_cases hclose : c = '\x7d'
    · subst hclose
      exact .inr ⟨.unmatched, cs, rfl, fun h => hdoubled ⟨.inr rfl, h⟩⟩
    · by_cases hopen : c = '\x7b'
      · subst hopen
        rcases exists_field_or_tells fun h => hdoubled ⟨.inl rfl, h⟩ with ⟨f, after, rfl⟩ | hbad
        · exact .inl ⟨_, after, .field f, by simp⟩
        · exact .inr hbad
      · exact .inl ⟨[c], cs, .plain hopen hclose, rfl⟩

/-- **A text is passed, or it stops at a bad brace.** -/
theorem passable_or_stops :
    ∀ cs : List Char, Passable cs ∨ ∃ before rest fault, Stops cs before rest fault := by
  intro cs
  induction hn : cs.length using Nat.strong_induction_on generalizing cs with
  | _ n ih =>
      cases cs with
      | nil => exact .inl .nil
      | cons c cs =>
          rcases exists_step_or_tells c cs with ⟨front, after, hfront, hsplit⟩ | ⟨fault, hbad⟩
          · have hlength := congrArg List.length hsplit
            have hpos := hfront.length_pos
            rw [List.length_append] at hlength
            rw [hsplit]
            rcases ih after.length (by omega) after rfl with
              hpass | ⟨before, rest, fault, hstops⟩
            · exact .inl (.step hfront hpass)
            · exact .inr ⟨_, rest, fault, hstops.step hfront⟩
          · exact .inr ⟨[], c :: cs, fault, rfl, .nil, hbad⟩

/-! ### The reader -/

/-- The reader follows a step and puts something in front of what it reads behind it. -/
theorem IsStep.exists_pieces {front : List Char} (h : IsStep front) :
    ∃ put : List Piece → List Piece, ∀ (position : Nat) (rest : List Char),
      piecesFrom 0 position (front ++ rest) =
        (piecesFrom 0 (position + byteLength front) rest).map put := by
  cases h with
  | @plain c hopen hclose =>
      have hescaped : Piece.escaped c = [c] := if_neg (not_or.mpr ⟨hopen, hclose⟩)
      exact ⟨_, fun position rest => hescaped ▸ piecesFrom_escaped c position rest⟩
  | @doubled c hc =>
      have hescaped : Piece.escaped c = [c, c] := if_pos hc
      exact ⟨_, fun position rest => hescaped ▸ piecesFrom_escaped c position rest⟩
  | field f => exact ⟨_, piecesFrom_field f⟩

/-- **The reader passes what can be passed**, whatever comes behind it. -/
theorem Passable.exists_pieces {before : List Char} (h : Passable before) :
    ∃ put : List Piece → List Piece, ∀ (position : Nat) (rest : List Char),
      piecesFrom 0 position (before ++ rest) =
        (piecesFrom 0 (position + byteLength before) rest).map put := by
  induction h with
  | nil => exact ⟨id, fun position rest => by simp [Except.map_id]⟩
  | @step front cs hfront _ ih =>
      obtain ⟨first, hfirst⟩ := hfront.exists_pieces
      obtain ⟨put, hput⟩ := ih
      refine ⟨first ∘ put, fun position rest => ?_⟩
      rw [List.append_assoc, hfirst, hput, Text.byteLength_append, Nat.add_assoc]
      cases piecesFrom 0 (position + (byteLength front + byteLength cs)) rest <;> rfl

/-- The reader fails at a bad brace. -/
theorem piecesFrom_of_tells {cs : List Char} {fault : TemplateFault} (h : fault.Tells cs)
    (position : Nat) : piecesFrom 0 position cs = .error ⟨position, fault⟩ := by
  cases fault with
  | unmatched =>
      obtain ⟨rest, rfl, hhead⟩ := h
      simp [piecesFrom, hhead]
  | unclosed =>
      obtain ⟨rest, rfl, hhead, hnone⟩ := h
      have hname : nameOf? rest = none := by
        simp [nameOf?, hnone]
      simp [piecesFrom, hhead, hname]
  | unknownField name =>
      obtain ⟨rest, after, rfl, hhead, hrest, hclose, hunknown⟩ := h
      have hname : nameOf? rest = some name.toList := nameOf?_eq_some.mpr ⟨hclose, after, hrest⟩
      have hfield : Field.ofKeyword? name = none := by
        cases hf : Field.ofKeyword? name with
        | none => rfl
        | some f => exact absurd (Field.keyword_of_ofKeyword? hf) (hunknown f)
      simp [piecesFrom, hhead, hname, hfield]

theorem Passable.exists_ofText {before : List Char} (h : Passable before) :
    ∃ t, ofText (String.ofList before) = .ok t := by
  obtain ⟨put, hput⟩ := h.exists_pieces
  have hread : piecesFrom 0 0 before = .ok (put []) := by
    simpa [piecesFrom, Except.map] using hput 0 []
  rw [ofText, String.toList_ofList, hread]
  exact ⟨_, rfl⟩

theorem Stops.ofText_eq_error {text : String} {before rest : List Char} {fault : TemplateFault}
    (h : Stops text.toList before rest fault) :
    ofText text = .error ⟨byteLength before, fault⟩ := by
  obtain ⟨put, hput⟩ := h.passable.exists_pieces
  rw [ofText, h.split, hput, piecesFrom_of_tells h.tells, Nat.zero_add]
  rfl

/-- **An error is that of the first bad brace.** -/
theorem ofText_eq_error_iff {text : String} {e : TemplateError} :
    ofText text = .error e ↔
      ∃ before rest, Stops text.toList before rest e.fault ∧ e.position = byteLength before := by
  constructor
  · intro h
    rcases passable_or_stops text.toList with hpass | ⟨before, rest, fault, hstops⟩
    · obtain ⟨t, ht⟩ := hpass.exists_ofText
      rw [String.ofList_toList, h] at ht
      cases ht
    · obtain rfl := Except.error.inj (h.symm.trans hstops.ofText_eq_error)
      exact ⟨before, rest, hstops, rfl⟩
  · intro h
    obtain ⟨before, rest, hstops, hposition⟩ := h
    rw [hstops.ofText_eq_error, ← hposition]

/--
**A template is refused for its first bad brace.**

If a text is no template, the fault stands between two characters of it, what is in front is a
template, and what the fault says is so of the text from there on.  And a text is refused for
a fault exactly if going through it from left to right, with doubled braces together and
fields passed over, stops there at that fault.
-/
theorem ofText_first_bad_brace (text : String) :
    (∀ e, ofText text = .error e →
      ∃ before rest, text.toList = before ++ rest ∧ e.position = byteLength before ∧
        (∃ t, ofText (String.ofList before) = .ok t) ∧ e.fault.Tells rest) ∧
    ∀ e, ofText text = .error e ↔
      ∃ before rest, Stops text.toList before rest e.fault ∧ e.position = byteLength before := by
  refine ⟨fun e h => ?_, fun e => ofText_eq_error_iff⟩
  obtain ⟨before, rest, hstops, hposition⟩ := ofText_eq_error_iff.mp h
  exact ⟨before, rest, hstops.split, hposition, hstops.passable.exists_ofText, hstops.tells⟩

/-- The third of three opening braces begins a name, and the name goes on over the next one. -/
theorem ofText_first_bad_brace_nested :
    ofText "ä\x7b\x7b\x7bna\x7bme\x7d\x7d" = .error ⟨4, .unknownField "na\x7bme"⟩ ∧
      ∃ before rest, "ä\x7b\x7b\x7bna\x7bme\x7d\x7d".toList = before ++ rest ∧
        4 = byteLength before ∧ (∃ t, ofText (String.ofList before) = .ok t) ∧
        (TemplateFault.unknownField "na\x7bme").Tells rest := by
  have herror : ofText "ä\x7b\x7b\x7bna\x7bme\x7d\x7d" =
      .error ⟨4, .unknownField "na\x7bme"⟩ := by
    decide +kernel
  exact ⟨herror, (ofText_first_bad_brace _).1 _ herror⟩

end Template

end RollCall
