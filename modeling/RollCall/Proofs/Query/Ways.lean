/-
By which way a symbol is scanned.

The first character of a token decides how it is scanned, and each way has symbols of its own:
a quotation mark begins a text and nothing else does, a numeral is scanned where neither shape
of digits fits, a word has one of four meanings.  So the symbol tells the way back.  `Way`
says this once, with what each way knows, and `Symbol.Means` says it of words.

An operator is even told by its characters alone, since they are its symbol.
-/
import RollCall.Query.Token.Scan

namespace RollCall.Query

/-- What a word stands for: it joins comparisons, is a truth value or a status, or names a field. -/
inductive Symbol.Means (word : String) : Symbol → Prop
  | connective (c : Connective) (h : word = c.word) : Means word (.connective c)
  | truth (b : Bool) (h : word = Value.truthWord b) : Means word (.literal (.truth b))
  | status (s : Status) (h : word = s.word) : Means word (.literal (.status s))
  | field (f : Field) (h : word = f.keyword) : Means word (.field f)

theorem Symbol.means_of_ofWord? {word : String} {s : Symbol} (h : ofWord? word = some s) :
    Means word s := by
  unfold ofWord? at h
  split at h
  · obtain rfl := Option.some.inj h
    exact .connective .and ‹_›
  split at h
  · obtain rfl := Option.some.inj h
    exact .connective .or ‹_›
  split at h
  · obtain rfl := Option.some.inj h
    exact .truth true ‹_›
  split at h
  · obtain rfl := Option.some.inj h
    exact .truth false ‹_›
  split at h
  · obtain rfl := Option.some.inj h
    exact .status .joined ‹_›
  split at h
  · obtain rfl := Option.some.inj h
    exact .status .left ‹_›
  · obtain ⟨f, hf, rfl⟩ := Option.map_eq_some_iff.mp h
    exact .field f (Field.keyword_of_ofKeyword? hf).symm

namespace Token

variable {c : Char} {cs : List Char} {s : Symbol} {n : Nat}

/-- The ways to come by a symbol, and by how many characters behind the first. -/
inductive Way (c : Char) (cs : List Char) : Symbol → Nat → Prop
  | opening (hc : c = '(') : Way c cs .opening 0
  | closing (hc : c = ')') : Way c cs .closing 0
  | containment (hc : c = '%') : Way c cs (.operator .contains) 0
  | operator {op : Operator} {n : Nat} (h : scanOperator c cs = .ok (.operator op, n))
      (htext : c :: cs.take n = op.symbol.toList) : Way c cs (.operator op) n
  | text {s : String} {n : Nat} (hc : c = '"') (h : scanText cs = .ok (.literal (.text s), n)) :
      Way c cs (.literal (.text s)) n
  | instant {t : Instant} (hc : c.isDigit = true) (hshape : fits instantShape (c :: cs) = true)
      (h : Instant.read? Instant.wholeDayPattern ((c :: cs).take instantShape.length) = some t) :
      Way c cs (.literal (.instant t)) (instantShape.length - 1)
  | span (hc : c.isDigit = true) (hshape : fits spanShape (c :: cs) = true) :
      Way c cs (.literal (.span (readSpan (c :: cs)))) (spanShape.length - 1)
  | number {x : Binary64} {n : Nat}
      (hshape : c.isDigit = true →
        fits instantShape (c :: cs) = false ∧ fits spanShape (c :: cs) = false)
      (h : scanNumeral c cs = .ok (.literal (.number x), n)) : Way c cs (.literal (.number x)) n
  | word {s : Symbol} {n : Nat} (h : scanWord c cs = .ok (s, n))
      (hs : s.Means (String.ofList (c :: cs.take n))) : Way c cs s n

/-- An operator takes the characters that it is written with. -/
theorem scanOperator_eq_ok (h : scanOperator c cs = .ok (s, n)) :
    ∃ op : Operator, s = .operator op ∧ c :: cs.take n = op.symbol.toList := by
  simp only [scanOperator] at h
  by_cases heq : cs.head? = some '='
  · obtain ⟨ds, rfl⟩ := List.head?_eq_some_iff.mp heq
    split at h <;> cases h
    all_goals exact ⟨_, rfl, rfl⟩
  · have hbare : (cs.head? == some '=') = false := by simpa using heq
    rw [hbare] at h
    split at h <;> cases h
    all_goals
      rename_i hfalse
      cases hfalse <;> exact ⟨_, rfl, rfl⟩

theorem way_of_scanText (hc : c = '"') (h : scanText cs = .ok (s, n)) : Way c cs s n := by
  have hscan := h
  unfold scanText at h
  split at h
  · obtain ⟨rfl, rfl⟩ := Prod.mk.inj (Except.ok.inj h)
    exact .text hc hscan
  · cases h

theorem way_of_scanNumeral
    (hshape : c.isDigit = true →
      fits instantShape (c :: cs) = false ∧ fits spanShape (c :: cs) = false)
    (h : scanNumeral c cs = .ok (s, n)) : Way c cs s n := by
  have hscan := h
  unfold scanNumeral at h
  split at h
  · obtain ⟨rfl, rfl⟩ := Prod.mk.inj (Except.ok.inj h)
    exact .number hshape hscan
  · cases h

theorem way_of_scanDigits (hc : c.isDigit = true) (h : scanDigits c cs = .ok (s, n)) :
    Way c cs s n := by
  simp only [scanDigits] at h
  split at h
  · rename_i hinstant
    split at h
    · rename_i hread
      obtain ⟨rfl, rfl⟩ := Prod.mk.inj (Except.ok.inj h)
      exact .instant hc hinstant hread
    · cases h
  split at h
  · obtain ⟨rfl, rfl⟩ := Prod.mk.inj (Except.ok.inj h)
    exact .span hc ‹_›
  · rename_i hinstant hspan
    exact way_of_scanNumeral
      (fun _ => ⟨Bool.eq_false_iff.mpr hinstant, Bool.eq_false_iff.mpr hspan⟩) h

theorem way_of_scanWord (h : scanWord c cs = .ok (s, n)) : Way c cs s n := by
  have hscan := h
  simp only [scanWord] at h
  split at h
  · rename_i symbol hword
    obtain ⟨rfl, rfl⟩ := Prod.mk.inj (Except.ok.inj h)
    refine .word hscan ?_
    rw [← List.prefix_iff_eq_take.mp (List.takeWhile_prefix _)]
    exact Symbol.means_of_ofWord? hword
  · cases h

/-- **Every symbol is come by in one of these ways.** -/
theorem way_of_scan (h : scan c cs = .ok (s, n)) : Way c cs s n := by
  unfold scan at h
  split at h
  · obtain ⟨rfl, rfl⟩ := Prod.mk.inj (Except.ok.inj h)
    exact .opening ‹_›
  split at h
  · obtain ⟨rfl, rfl⟩ := Prod.mk.inj (Except.ok.inj h)
    exact .closing ‹_›
  split at h
  · obtain ⟨rfl, rfl⟩ := Prod.mk.inj (Except.ok.inj h)
    exact .containment ‹_›
  split at h
  · obtain ⟨op, rfl, htext⟩ := scanOperator_eq_ok h
    exact .operator h htext
  split at h
  · exact way_of_scanText ‹_› h
  split at h
  · exact way_of_scanDigits ‹_› h
  split at h
  · rename_i hdigit _
    exact way_of_scanNumeral (fun hc => absurd hc hdigit) h
  split at h
  · exact way_of_scanWord h
  · cases h

/-! ### Operators -/

/-- An operator has no other characters than its symbol. -/
theorem symbol_of_scan {op : Operator} (h : scan c cs = .ok (.operator op, n)) :
    c :: cs.take n = op.symbol.toList := by
  cases way_of_scan h with
  | containment hc => rw [hc]; rfl
  | operator h htext => exact htext
  | word h hs => cases hs

/-- **A token is the operator that its characters spell.** -/
theorem operator_iff {op : Operator} (h : scan c cs = .ok (s, n)) :
    s = .operator op ↔ Operator.ofSymbol? (String.ofList (c :: cs.take n)) = some op := by
  have hlexeme : Operator.ofSymbol? (String.ofList (c :: cs.take n)) = some op ↔
      c :: cs.take n = op.symbol.toList := by
    rw [Operator.ofSymbol?_eq_some_iff, ← String.toList_inj, String.toList_ofList]
  rw [hlexeme]
  constructor
  · rintro rfl
    exact symbol_of_scan h
  · intro htext
    -- The first character leaves no way but that of the operators.
    have hoperator : ∃ op' : Operator, s = .operator op' := by
      cases op <;> obtain ⟨rfl, -⟩ := List.cons.inj htext
      case contains => exact ⟨_, (Prod.mk.inj (Except.ok.inj h)).1.symm⟩
      all_goals
        obtain ⟨op', hs, -⟩ := scanOperator_eq_ok h
        exact ⟨op', hs⟩
    obtain ⟨op', rfl⟩ := hoperator
    have hsame := String.toList_inj.mp ((symbol_of_scan h).symm.trans htext)
    rw [Operator.symbol_injective hsame]

end Token

end RollCall.Query
