/-
The bytes at which a scan may cut the text.

Places in a text count bytes, while a scan takes characters.  A cursor that runs over the
bytes does not have to look at every character to know how wide it is: it passes over a
sign, a digit or a letter with one byte, over an instant or a span with as many bytes as
their shapes have, and only within a quoted text by the width of what it reads.  `strides`
lists these moves, those too that are made before a fault is found, and those behind a
letter `e` that turns out not to belong to the numeral.

`KeepsPace` says that no stride ends within a character, and that the cursor comes by the
end of what is cut off: the token that is found, or the word or the instant that a fault
quotes.
-/
import RollCall.Proofs.Query.Walk

namespace RollCall

namespace Text

/-! ### Widths -/

theorem utf8Size_of_lt {c : Char} (h : c.toNat < 128) : c.utf8Size = 1 := by
  rw [Char.utf8Size_eq_one_iff, UInt32.le_iff_toNat_le]
  exact Nat.le_of_lt_succ h

theorem utf8Size_of_isDigit {c : Char} (h : c.isDigit = true) : c.utf8Size = 1 :=
  utf8Size_of_lt (Nat.lt_of_le_of_lt (digit_bounds h).2 (by decide))

theorem byteLength_eq_sum (cs : List Char) : byteLength cs = (cs.map Char.utf8Size).sum := by
  induction cs with
  | nil => rfl
  | cons c cs ih => simp [ih]

theorem byteLength_flatten (parts : List (List Char)) :
    byteLength parts.flatten = (parts.map byteLength).sum := by
  induction parts with
  | nil => rfl
  | cons part parts ih => simp [ih]

/-- The strides lead over whole characters of the text, one behind the other. -/
def Paced (strides : List Nat) (cs : List Char) : Prop :=
  ∃ (parts : List (List Char)) (rest : List Char),
    cs = parts.flatten ++ rest ∧ strides = parts.map byteLength

theorem paced_nil (cs : List Char) : Paced [] cs :=
  ⟨[], cs, rfl, rfl⟩

theorem Paced.cons {strides : List Nat} {cs : List Char} (h : Paced strides cs)
    (part : List Char) : Paced (byteLength part :: strides) (part ++ cs) := by
  obtain ⟨parts, rest, rfl, rfl⟩ := h
  exact ⟨part :: parts, rest, by simp, rfl⟩

theorem paced_one (part rest : List Char) : Paced [byteLength part] (part ++ rest) :=
  (paced_nil rest).cons part

theorem Paced.char {strides : List Nat} {cs : List Char} (h : Paced strides cs) (c : Char) :
    Paced (c.utf8Size :: strides) (c :: cs) :=
  h.cons [c]

/-- Characters that are passed one by one. -/
theorem paced_chars (taken rest : List Char) :
    Paced (taken.map Char.utf8Size) (taken ++ rest) := by
  induction taken with
  | nil => exact paced_nil rest
  | cons c taken ih => exact ih.char c

theorem map_utf8Size {taken : List Char} (h : ∀ c ∈ taken, c.utf8Size = 1) :
    taken.map Char.utf8Size = List.replicate taken.length 1 := by
  rw [List.map_congr_left h, List.map_const']

/-- Characters of one byte that are passed one by one. -/
theorem paced_replicate {taken cs : List Char} (hcs : taken <+: cs)
    (h : ∀ c ∈ taken, c.utf8Size = 1) : Paced (List.replicate taken.length 1) cs := by
  obtain ⟨rest, rfl⟩ := hcs
  rw [← map_utf8Size h]
  exact paced_chars taken rest

theorem byteLength_of_one {taken : List Char} (h : ∀ c ∈ taken, c.utf8Size = 1) :
    byteLength taken = taken.length := by
  induction taken with
  | nil => rfl
  | cons c taken ih =>
      rw [byteLength_cons, h c List.mem_cons_self, ih fun d hd => h d (List.mem_cons_of_mem _ hd),
        List.length_cons, Nat.add_comm]

/-- **Strides that lead over whole characters add up to what these take.** -/
theorem Paced.exists_sum {strides : List Nat} {cs : List Char} (h : Paced strides cs) (k : Nat) :
    ∃ before after, cs = before ++ after ∧ (strides.take k).sum = byteLength before := by
  obtain ⟨parts, rest, rfl, rfl⟩ := h
  refine ⟨(parts.take k).flatten, (parts.drop k).flatten ++ rest, ?_, ?_⟩
  · rw [← List.append_assoc, ← List.flatten_append, List.take_append_drop]
  · rw [byteLength_flatten, List.map_take]

end Text

/-! ### Numerals -/

namespace Binary64

open Text (spanDigits)

theorem utf8Size_of_isSign {c : Char} (h : isSign c = true) : c.utf8Size = 1 := by
  simp only [isSign, Bool.or_eq_true, beq_iff_eq] at h
  rcases h with rfl | rfl <;> rfl

/-- The characters that are looked at for an exponent: the letter, a sign and digits, even if there
are none of these. -/
def Exponent.looked : List Char → List Char
  | [] => []
  | c :: cs =>
    if c = 'e' ∨ c = 'E' then
      let (sign, rest) := takeSign cs
      c :: (sign.toList ++ (spanDigits rest).1)
    else []

/-- The characters that are looked at for a numeral. -/
def Numeral.looked (cs : List Char) : List Char :=
  let (sign, afterSign) := takeSign cs
  let (whole, afterWhole) := spanDigits afterSign
  let (fraction, afterFraction) := takeFraction afterWhole
  let exponent :=
    if whole.isEmpty && (fraction.getD []).isEmpty then [] else Exponent.looked afterFraction
  sign.toList ++ whole ++ (fraction.map ('.' :: ·)).getD [] ++ exponent

theorem Exponent.looked_spec (cs : List Char) :
    looked cs <+: cs ∧ ∀ c ∈ looked cs, c.utf8Size = 1 := by
  cases cs with
  | nil => simp [looked]
  | cons c cs =>
      by_cases hletter : c = 'e' ∨ c = 'E'
      · cases hsign : takeSign cs with
        | mk sign rest =>
            obtain ⟨rfl, hs⟩ := eq_of_takeSign hsign
            simp only [looked, if_pos hletter, hsign]
            constructor
            · rw [List.cons_prefix_cons, List.prefix_append_right_inj]
              exact ⟨rfl, List.takeWhile_prefix _⟩
            · intro d hd
              rcases List.mem_cons.mp hd with rfl | hd
              · rcases hletter with rfl | rfl <;> rfl
              rcases List.mem_append.mp hd with hd | hd
              · exact utf8Size_of_isSign (hs d (Option.mem_toList.mp hd))
              · exact Text.utf8Size_of_isDigit (List.mem_takeWhile_imp hd)
      · simp [looked, hletter]

/-- An exponent is all that was looked at for it. -/
theorem Exponent.text_eq_looked {cs : List Char} {e : Exponent} (h : read? cs = some e) :
    e.text = looked cs := by
  cases cs with
  | nil => cases h
  | cons c cs =>
      unfold read? at h
      by_cases hletter : c = 'e' ∨ c = 'E'
      · simp only [if_pos hletter] at h
        split at h
        · cases h
        · obtain rfl := Option.some.inj h
          simp [text, looked, hletter]
      · simp [hletter] at h

theorem Numeral.looked_spec (cs : List Char) :
    looked cs <+: cs ∧ ∀ c ∈ looked cs, c.utf8Size = 1 := by
  obtain ⟨sign, afterSign, whole, afterWhole, fraction, rest, hsign, hwhole, hfraction, hcs, hs, hw,
    hf⟩ := exists_front cs
  simp only [looked, hsign, hwhole, hfraction]
  have hexponent : ∀ none : Bool, (if none then [] else Exponent.looked rest) <+: rest ∧
      ∀ c ∈ (if none then [] else Exponent.looked rest), c.utf8Size = 1
    | true => by simp
    | false => Exponent.looked_spec rest
  obtain ⟨hbegins, hone⟩ := hexponent (whole.isEmpty && (fraction.getD []).isEmpty)
  constructor
  · rw [hcs, List.prefix_append_right_inj]
    exact hbegins
  · refine List.forall_mem_append.mpr ⟨List.forall_mem_append.mpr
      ⟨List.forall_mem_append.mpr ⟨?_, ?_⟩, ?_⟩, hone⟩
    · exact fun c hc => utf8Size_of_isSign (hs c (Option.mem_toList.mp hc))
    · exact fun c hc => Text.utf8Size_of_isDigit (hw c hc)
    · cases fraction with
      | none => simp
      | some ds =>
          intro c hc
          rcases List.mem_cons.mp hc with rfl | hc
          · rfl
          · exact Text.utf8Size_of_isDigit (hf ds rfl c hc)

/-- A numeral is some of what was looked at for it. -/
theorem Numeral.text_prefix_looked {cs : List Char} {n : Numeral} (h : read? cs = some n) :
    n.text <+: looked cs := by
  obtain ⟨sign, afterSign, whole, afterWhole, fraction, rest, hsign, hwhole, hfraction, -⟩ :=
    exists_front cs
  simp only [read?, looked, hsign, hwhole, hfraction] at h ⊢
  by_cases hnone : (whole.isEmpty && (fraction.getD []).isEmpty) = true
  · simp [hnone] at h
  · rw [if_neg hnone] at h
    obtain rfl := Option.some.inj h
    rw [text, if_neg hnone, List.prefix_append_right_inj]
    cases he : Exponent.read? rest with
    | none => exact List.nil_prefix
    | some e => exact Exponent.text_eq_looked he ▸ List.prefix_rfl

end Binary64

namespace Query

/-- What a fault quotes of the text. -/
def Fault.quoted? : Fault → Option String
  | .unknownWord word => some word
  | .noSuchInstant text => some text
  | .unexpected _ | .unterminated => none

namespace Token

open Text (Paced byteLength)

/-! ### The moves of the cursor -/

/-- The moves over a numeral. -/
def numeralStrides (c : Char) (cs : List Char) : List Nat :=
  List.replicate (Binary64.Numeral.looked (c :: cs)).length 1

/-- The moves over what begins with a digit. -/
def digitStrides (c : Char) (cs : List Char) : List Nat :=
  if fits instantShape (c :: cs) then [instantShape.length]
  else if fits spanShape (c :: cs) then [spanShape.length]
  else numeralStrides c cs

/-- The moves over an operator that may have an equals sign behind its first character. -/
def operatorStrides (cs : List Char) : List Nat :=
  if cs.head? = some '=' then [1, 1] else [1]

/-- The moves over a quoted text, or to the end if no mark closes it. -/
def textStrides (cs : List Char) : List Nat :=
  1 :: ((readText cs).elim cs fun r => cs.take r.2).map Char.utf8Size

/-- The moves over a word. -/
def wordStrides (c : Char) (cs : List Char) : List Nat :=
  List.replicate (c :: cs.takeWhile continuesWord).length 1

/-- The moves of a cursor over a token, in bytes. -/
def strides (c : Char) (cs : List Char) : List Nat :=
  if c = '(' then [1]
  else if c = ')' then [1]
  else if c = '%' then [1]
  else if c = '=' ∨ c = '!' ∨ c = '<' ∨ c = '>' then operatorStrides cs
  else if c = '"' then textStrides cs
  else if c.isDigit then digitStrides c cs
  else if c = '+' ∨ c = '-' ∨ c = '.' then numeralStrides c cs
  else if beginsWord c then wordStrides c cs
  else []

/-- What is cut off the front of the text: the token that is found, or what a fault quotes. -/
def sliced? (c : Char) (cs : List Char) : Except Fault (Symbol × Nat) → Option (List Char)
  | .ok (_, n) => some (c :: cs.take n)
  | .error f => f.quoted?.map String.toList

theorem sliced?_eq_some {c : Char} {cs slice : List Char} {r : Except Fault (Symbol × Nat)}
    (h : sliced? c cs r = some slice) :
    (∃ s n, r = .ok (s, n) ∧ slice = c :: cs.take n) ∨
      ∃ f quoted, r = .error f ∧ f.quoted? = some quoted ∧ slice = quoted.toList := by
  cases r with
  | ok found =>
      obtain ⟨s, n⟩ := found
      exact .inl ⟨s, n, rfl, (Option.some.inj h).symm⟩
  | error f =>
      obtain ⟨quoted, hquoted, rfl⟩ := Option.map_eq_some_iff.mp h
      exact .inr ⟨f, quoted, rfl, hquoted, rfl⟩

/-- The moves lead over whole characters, and come by the end of what is cut off. -/
structure KeepsPace (c : Char) (scanRest : List Char → Except Fault (Symbol × Nat))
    (moves : List Char → List Nat) : Prop where
  whole : ∀ cs, Paced (moves cs) (c :: cs)
  reaches : ∀ cs slice, sliced? c cs (scanRest cs) = some slice →
    slice <+: c :: cs ∧ ∃ k, ((moves cs).take k).sum = byteLength slice

theorem KeepsPace.ite {c : Char} {p : Prop} [Decidable p]
    {f g : List Char → Except Fault (Symbol × Nat)} {moves others : List Char → List Nat}
    (hf : p → KeepsPace c f moves) (hg : ¬ p → KeepsPace c g others) :
    KeepsPace c (fun cs => if p then f cs else g cs) fun cs => if p then moves cs else others cs := by
  by_cases h : p
  · simpa only [if_pos h] using hf h
  · simpa only [if_neg h] using hg h

/-- A token of one character. -/
theorem keepsPace_single {c : Char} (hc : c.utf8Size = 1) (s : Symbol) :
    KeepsPace c (fun _ => .ok (s, 0)) fun _ => [1] := by
  constructor
  · intro cs
    rw [← hc]
    exact (Text.paced_nil cs).char c
  · intro cs slice h
    obtain rfl := Option.some.inj h
    exact ⟨⟨cs, rfl⟩, 1, by simp [hc]⟩

/-- A fault that quotes nothing. -/
theorem keepsPace_error (c : Char) {f : Fault} (hf : f.quoted? = none) :
    KeepsPace c (fun _ => .error f) fun _ => [] := by
  refine ⟨fun cs => Text.paced_nil _, fun cs slice h => ?_⟩
  simp [sliced?, hf] at h

theorem prefix_of_take (c : Char) (cs : List Char) (n : Nat) : c :: cs.take n <+: c :: cs :=
  List.cons_prefix_cons.mpr ⟨rfl, List.take_prefix n cs⟩

theorem fault_scanOperator {c : Char} {cs : List Char} {f : Fault}
    (h : scanOperator c cs = .error f) : f = .unexpected c := by
  simp only [scanOperator] at h
  split at h
  all_goals cases h
  rfl

theorem keepsPace_operator {c : Char} (hc : c.utf8Size = 1) :
    KeepsPace c (scanOperator c) operatorStrides := by
  constructor
  · intro cs
    unfold operatorStrides
    split
    · rename_i heq
      obtain ⟨ds, rfl⟩ := List.head?_eq_some_iff.mp heq
      have := ((Text.paced_nil ds).char '=').char c
      rwa [hc] at this
    · have := (Text.paced_nil cs).char c
      rwa [hc] at this
  · intro cs slice h
    rcases sliced?_eq_some h with ⟨s, n, hscan, rfl⟩ | ⟨f, quoted, hscan, hquoted, rfl⟩
    · have hn := length_scanOperator hscan
      refine ⟨prefix_of_take c cs n, ?_⟩
      unfold operatorStrides
      by_cases heq : cs.head? = some '='
      · obtain ⟨ds, rfl⟩ := List.head?_eq_some_iff.mp heq
        rw [if_pos heq] at hn ⊢
        exact ⟨2, by simp [hn, hc]; rfl⟩
      · rw [if_neg heq] at hn ⊢
        exact ⟨1, by simp [hn, hc]⟩
    · obtain rfl := fault_scanOperator hscan
      cases hquoted

theorem keepsPace_text : KeepsPace '"' scanText textStrides := by
  constructor
  · intro cs
    unfold textStrides
    cases hread : readText cs with
    | none =>
        have := (Text.paced_chars cs []).char '"'
        rwa [List.append_nil] at this
    | some r =>
        have := (Text.paced_chars (cs.take r.2) (cs.drop r.2)).char '"'
        rwa [List.take_append_drop] at this
  · intro cs slice h
    unfold scanText at h
    cases hread : readText cs with
    | none =>
        rw [hread] at h
        cases h
    | some r =>
        rw [hread] at h
        obtain rfl := Option.some.inj h
        refine ⟨prefix_of_take _ cs r.2, (textStrides cs).length, ?_⟩
        rw [List.take_length, Text.byteLength_cons, Text.byteLength_eq_sum, textStrides, hread]
        rfl

/-- Characters of one byte are looked at, and what is cut off is some of them. -/
theorem keepsPace_replicate {c : Char} {scanRest : List Char → Except Fault (Symbol × Nat)}
    {looked : List Char → List Char}
    (hlooked : ∀ cs, looked cs <+: c :: cs ∧ ∀ d ∈ looked cs, d.utf8Size = 1)
    (hslice : ∀ cs slice, sliced? c cs (scanRest cs) = some slice → slice <+: looked cs) :
    KeepsPace c scanRest fun cs => List.replicate (looked cs).length 1 := by
  constructor
  · intro cs
    exact Text.paced_replicate (hlooked cs).1 (hlooked cs).2
  · intro cs slice h
    have hbegins := hslice cs slice h
    have hone : ∀ d ∈ slice, d.utf8Size = 1 := fun d hd => (hlooked cs).2 d (hbegins.subset hd)
    refine ⟨hbegins.trans (hlooked cs).1, slice.length, ?_⟩
    rw [Text.byteLength_of_one hone, List.take_replicate, List.sum_replicate,
      min_eq_left hbegins.length_le]
    simp

theorem fault_scanNumeral {c : Char} {cs : List Char} {f : Fault}
    (h : scanNumeral c cs = .error f) : f = .unexpected c := by
  unfold scanNumeral at h
  split at h
  · cases h
  · exact (Except.error.inj h).symm

theorem keepsPace_numeral (c : Char) : KeepsPace c (scanNumeral c) (numeralStrides c) := by
  refine keepsPace_replicate (fun cs => Binary64.Numeral.looked_spec (c :: cs)) ?_
  intro cs slice h
  rcases sliced?_eq_some h with ⟨s, k, hscan, rfl⟩ | ⟨f, quoted, hscan, hquoted, rfl⟩
  · obtain ⟨n, taken, rest, hread, -, htext, rfl, rfl, -⟩ := scanNumeral_eq_ok hscan
    rw [List.take_left, ← htext]
    exact Binary64.Numeral.text_prefix_looked hread
  · obtain rfl := fault_scanNumeral hscan
    cases hquoted

/-- Shapes have no characters of more than one byte. -/
theorem byteLength_of_fits {shape : List Char} (hshape : ∀ c ∈ shape, c.utf8Size = 1) :
    ∀ {cs : List Char}, fits shape cs = true → byteLength (cs.take shape.length) = shape.length := by
  induction shape with
  | nil => intro cs _; rfl
  | cons s shape ih =>
      intro cs h
      cases cs with
      | nil => simp [fits] at h
      | cons c cs =>
          simp only [fits, Bool.and_eq_true] at h
          have hc : c.utf8Size = 1 := by
            by_cases hs : s = '9'
            · rw [if_pos hs] at h
              exact Text.utf8Size_of_isDigit h.1
            · rw [if_neg hs, beq_iff_eq] at h
              exact h.1 ▸ hshape s List.mem_cons_self
          rw [List.length_cons, List.take_succ_cons, Text.byteLength_cons, hc,
            ih (fun d hd => hshape d (List.mem_cons_of_mem _ hd)) h.2, Nat.add_comm]

/-- One move over all that has a shape. -/
theorem paced_of_fits {shape cs : List Char} (hshape : ∀ c ∈ shape, c.utf8Size = 1)
    (h : fits shape cs = true) : Paced [shape.length] cs := by
  have := Text.paced_one (cs.take shape.length) (cs.drop shape.length)
  rwa [byteLength_of_fits hshape h, List.take_append_drop] at this

theorem utf8Size_instantShape : ∀ c ∈ instantShape, c.utf8Size = 1 := by
  have hall : instantShape.all (·.utf8Size == 1) = true := rfl
  simpa using hall

theorem utf8Size_spanShape : ∀ c ∈ spanShape, c.utf8Size = 1 := by
  have hall : spanShape.all (·.utf8Size == 1) = true := rfl
  simpa using hall

theorem keepsPace_digits (c : Char) : KeepsPace c (scanDigits c) (digitStrides c) := by
  constructor
  · intro cs
    unfold digitStrides
    split
    · rename_i hfits
      exact paced_of_fits utf8Size_instantShape hfits
    split
    · rename_i hfits
      exact paced_of_fits utf8Size_spanShape hfits
    · exact (keepsPace_numeral c).whole cs
  · intro cs slice h
    unfold digitStrides
    by_cases hinstant : fits instantShape (c :: cs) = true
    · -- The shape is cut off, whether it is an instant of the calendar or not.
      obtain rfl : slice = (c :: cs).take instantShape.length := by
        simp only [scanDigits, hinstant, if_true] at h
        split at h
        · exact (Option.some.inj h).symm
        · rw [← Option.some.inj h, String.toList_ofList]
      rw [if_pos hinstant]
      exact ⟨List.take_prefix _ _, 1, (byteLength_of_fits utf8Size_instantShape hinstant).symm⟩
    rw [if_neg hinstant]
    by_cases hspan : fits spanShape (c :: cs) = true
    · rw [scanDigits_span hspan] at h
      obtain rfl := Option.some.inj h
      rw [if_pos hspan]
      exact ⟨prefix_of_take c cs 7, 1, (byteLength_of_fits utf8Size_spanShape hspan).symm⟩
    · rw [if_neg hspan]
      rw [scanDigits, if_neg hinstant, if_neg hspan] at h
      exact (keepsPace_numeral c).reaches cs slice h

theorem utf8Size_of_beginsWord {c : Char} (h : beginsWord c = true) : c.utf8Size = 1 := by
  have hbounds := letter_bounds h
  exact Text.utf8Size_of_lt (by omega)

theorem utf8Size_of_continuesWord {c : Char} (h : continuesWord c = true) : c.utf8Size = 1 := by
  rcases isDigit_or_beginsWord h with h | h
  · exact Text.utf8Size_of_isDigit h
  · exact utf8Size_of_beginsWord h

theorem keepsPace_word {c : Char} (hc : beginsWord c = true) :
    KeepsPace c (scanWord c) (wordStrides c) := by
  refine keepsPace_replicate ?_ ?_
  · intro cs
    refine ⟨List.cons_prefix_cons.mpr ⟨rfl, List.takeWhile_prefix _⟩, ?_⟩
    intro d hd
    rcases List.mem_cons.mp hd with rfl | hd
    · exact utf8Size_of_beginsWord hc
    · exact utf8Size_of_continuesWord (List.mem_takeWhile_imp hd)
  · intro cs slice h
    -- The word is cut off, whether it means something or not.
    obtain rfl : slice = c :: cs.takeWhile continuesWord := by
      simp only [scanWord] at h
      split at h
      · have hword := List.prefix_iff_eq_take.mp
          (List.takeWhile_prefix (p := continuesWord) (l := cs))
        rw [← Option.some.inj h, ← hword]
      · rw [← Option.some.inj h, String.toList_ofList]
    exact List.prefix_rfl

/-- **No stride ends within a character, and the cursor comes by the end of what is cut off.** -/
theorem keepsPace_strides (c : Char) : KeepsPace c (scan c) (strides c) := by
  unfold scan strides
  refine .ite (fun h => keepsPace_single (by rw [h]; rfl) _) fun _ => ?_
  refine .ite (fun h => keepsPace_single (by rw [h]; rfl) _) fun _ => ?_
  refine .ite (fun h => keepsPace_single (by rw [h]; rfl) _) fun _ => ?_
  refine .ite (fun h => keepsPace_operator (by rcases h with rfl | rfl | rfl | rfl <;> rfl))
    fun _ => ?_
  refine .ite (fun h => h ▸ keepsPace_text) fun _ => ?_
  refine .ite (fun _ => keepsPace_digits c) fun _ => ?_
  refine .ite (fun _ => keepsPace_numeral c) fun _ => ?_
  exact .ite keepsPace_word fun _ => keepsPace_error c rfl

end Token

end Query

end RollCall
