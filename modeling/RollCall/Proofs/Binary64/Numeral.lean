/-
Numerals and the numbers that are written by them.

`WellFormed` is the form that a numeral has: whatever is read has it, and what has it is
read whole wherever nothing follows that a numeral could go on with.  That holds of each
of its parts, and each of them tells by its first character that the one before is over.

The text of a finite number is such a numeral.  Its three layouts write one decimal:
zeros fill the places up to the point, or between the point and the digits, and
`decimalMagnitude_congr` passes over what they shift.
-/
import Mathlib.Data.List.TakeWhile
import RollCall.Binary64.Numeral
import RollCall.Proofs.Binary64.Shortest

namespace RollCall.Binary64

/-! ### Numerals as they are read -/

/-- A character that may be the next one of a numeral. -/
def goesOn (c : Char) : Bool :=
  c.isDigit || c == '.' || c == 'e' || c == 'E'

/-- A character that may be the sign of a numeral. -/
def isSign (c : Char) : Bool :=
  c == '+' || c == '-'

theorem isDigit_of_goesOn {c : Char} (h : goesOn c = false) : c.isDigit = false := by
  simp only [goesOn, Bool.or_eq_false_iff] at h
  exact h.1.1.1

theorem stops_isDigit {cs : List Char} (h : Text.Stops goesOn cs) :
    Text.Stops Char.isDigit cs :=
  fun c hc => isDigit_of_goesOn (h c hc)

theorem isDigit_of_isSign {c : Char} (h : isSign c = true) : c.isDigit = false := by
  simp only [isSign, Bool.or_eq_true, beq_iff_eq] at h
  rcases h with rfl | rfl <;> rfl

/-- A sign is taken off the front, and only a sign. -/
theorem takeSign_append {s : Option Char} {rest : List Char} (hs : ∀ c ∈ s, isSign c = true)
    (hrest : s = none → Text.Stops isSign rest) : takeSign (s.toList ++ rest) = (s, rest) := by
  cases s with
  | some c =>
      have hc : c = '+' ∨ c = '-' := by simpa [isSign] using hs c rfl
      simp [takeSign, hc]
  | none =>
      cases rest with
      | nil => rfl
      | cons c rest =>
          have hc : ¬ (c = '+' ∨ c = '-') := by
            have := Text.stops_cons.mp (hrest rfl)
            simpa [isSign] using this
          simp [takeSign, hc]

/-- What is no sign is not taken for one behind a text either. -/
theorem takeSign_append_stops (cs : List Char) {rest : List Char}
    (hrest : Text.Stops isSign rest) :
    takeSign (cs ++ rest) = ((takeSign cs).1, (takeSign cs).2 ++ rest) := by
  cases cs with
  | nil => exact takeSign_append (s := none) (by simp) fun _ => hrest
  | cons c cs =>
      simp only [List.cons_append, takeSign]
      split
      · rfl
      · rfl

theorem eq_of_takeSign {cs rest : List Char} {s : Option Char} (h : takeSign cs = (s, rest)) :
    cs = s.toList ++ rest ∧ ∀ c ∈ s, isSign c = true := by
  cases cs with
  | nil =>
      obtain ⟨rfl, rfl⟩ := Prod.mk.inj h
      simp
  | cons c cs =>
      by_cases hc : c = '+' ∨ c = '-'
      · simp only [takeSign, hc, if_true] at h
        obtain ⟨rfl, rfl⟩ := Prod.mk.inj h
        simpa [isSign] using hc
      · simp only [takeSign, hc, if_false] at h
        obtain ⟨rfl, rfl⟩ := Prod.mk.inj h
        simp

namespace Exponent

/-- An exponent as it is read: a letter, a sign or none, and digits. -/
structure WellFormed (e : Exponent) : Prop where
  letter : e.letter = 'e' ∨ e.letter = 'E'
  sign : ∀ c ∈ e.sign, isSign c = true
  digits : ∀ c ∈ e.digits, c.isDigit = true
  digits_ne_nil : e.digits ≠ []

/-- An exponent is read whole, if no digit follows. -/
theorem WellFormed.read?_append {e : Exponent} (he : e.WellFormed) {rest : List Char}
    (hrest : Text.Stops Char.isDigit rest) : read? (e.text ++ rest) = some e := by
  obtain ⟨letter, sign, digits⟩ := e
  obtain ⟨hletter, hsign, hdigits, hne⟩ := he
  have hstops : Text.Stops isSign (digits ++ rest) := by
    cases digits with
    | nil => exact absurd rfl hne
    | cons c ds =>
        rw [List.cons_append, Text.stops_cons]
        have hc := hdigits c List.mem_cons_self
        simp only [isSign, Bool.or_eq_false_iff, beq_eq_false_iff_ne]
        exact ⟨Text.ne_of_class hc rfl, Text.ne_of_class hc rfl⟩
  have htake := takeSign_append hsign fun _ => hstops
  simp only [text, List.cons_append, List.append_assoc, read?, if_pos hletter, htake]
  rw [Text.spanDigits_append hdigits hrest]
  simp [hne]

theorem read?_of_stops {cs : List Char} (h : Text.Stops goesOn cs) : read? cs = none := by
  cases cs with
  | nil => rfl
  | cons c cs =>
      have hletter : ¬ (c = 'e' ∨ c = 'E') := by
        rintro (rfl | rfl) <;> exact absurd (Text.stops_cons.mp h) (by decide)
      simp [read?, hletter]

/-- Whatever exponent is read is well formed and stands in front of the rest. -/
theorem wellFormed_of_read? {cs : List Char} {e : Exponent} (h : read? cs = some e) :
    e.WellFormed ∧ ∃ rest, cs = e.text ++ rest := by
  cases cs with
  | nil => cases h
  | cons c cs =>
      unfold read? at h
      by_cases hletter : c = 'e' ∨ c = 'E'
      · simp only [if_pos hletter] at h
        cases hsign : takeSign cs with
        | mk sign rest =>
            obtain ⟨rfl, hs⟩ := eq_of_takeSign hsign
            simp only [hsign, Text.spanDigits, List.isEmpty_iff] at h
            by_cases hne : rest.takeWhile Char.isDigit = []
            · simp [hne] at h
            · rw [if_neg hne] at h
              obtain rfl := Option.some.inj h
              refine ⟨⟨hletter, hs, ?_, hne⟩, rest.dropWhile Char.isDigit, ?_⟩
              · intro c hc
                exact List.mem_takeWhile_imp hc
              · simp [text, List.takeWhile_append_dropWhile]
      · simp [hletter] at h

/-- An exponent is the same if something follows the text that it could not go on with. -/
theorem read?_append_stops (cs : List Char) {rest : List Char} (hrest : Text.Stops goesOn rest)
    (hsign : Text.Stops isSign rest) : read? (cs ++ rest) = read? cs := by
  cases cs with
  | nil => exact read?_of_stops hrest
  | cons c cs =>
      simp only [List.cons_append, read?, takeSign_append_stops cs hsign,
        Text.spanDigits_append_stops _ (stops_isDigit hrest)]

end Exponent

namespace Numeral

/-- A numeral as it is read: a sign or none, digits in front of the point or behind it, and an
exponent that is well formed or none. -/
structure WellFormed (n : Numeral) : Prop where
  sign : ∀ c ∈ n.sign, isSign c = true
  whole : ∀ c ∈ n.whole, c.isDigit = true
  fraction : ∀ ds ∈ n.fraction, ∀ c ∈ ds, c.isDigit = true
  digit : n.whole ≠ [] ∨ n.fraction.getD [] ≠ []
  exponent : ∀ e ∈ n.exponent, e.WellFormed

/-- The characters from the point on. -/
def behindWhole (n : Numeral) : List Char :=
  (n.fraction.map ('.' :: ·)).getD [] ++ (n.exponent.map Exponent.text).getD []

theorem text_eq (n : Numeral) : n.text = n.sign.toList ++ (n.whole ++ n.behindWhole) := by
  simp [text, behindWhole]

theorem takeFraction_append {f : Option (List Char)} {rest : List Char}
    (hf : ∀ ds ∈ f, ∀ c ∈ ds, c.isDigit = true) (hrest : Text.Stops Char.isDigit rest)
    (hpoint : rest.head? ≠ some '.') :
    takeFraction ((f.map ('.' :: ·)).getD [] ++ rest) = (f, rest) := by
  cases f with
  | none =>
      simp only [Option.map_none, Option.getD_none, List.nil_append]
      unfold takeFraction
      split
      · exact absurd rfl hpoint
      · rfl
  | some ds =>
      simp only [Option.map_some, Option.getD_some, List.cons_append, takeFraction]
      rw [Text.spanDigits_append (hf ds rfl) hrest]

theorem takeFraction_append_stops (cs : List Char) {rest : List Char}
    (hrest : Text.Stops goesOn rest) :
    takeFraction (cs ++ rest) = ((takeFraction cs).1, (takeFraction cs).2 ++ rest) := by
  have hpoint : rest.head? ≠ some '.' := fun h => absurd (hrest '.' h) (by decide)
  cases cs with
  | nil => exact takeFraction_append (f := none) (by simp) (stops_isDigit hrest) hpoint
  | cons c cs =>
      by_cases hc : c = '.'
      · subst hc
        simp only [List.cons_append, takeFraction,
          Text.spanDigits_append_stops cs (stops_isDigit hrest)]
      · have hnone : ∀ ds, takeFraction (c :: ds) = (none, c :: ds) := by
          intro ds
          unfold takeFraction
          split
          · rename_i heq
            exact absurd (List.cons.inj heq).1 hc
          · rfl
        rw [List.cons_append, hnone, hnone]
        rfl

theorem eq_of_takeFraction {cs rest : List Char} {f : Option (List Char)}
    (h : takeFraction cs = (f, rest)) :
    cs = (f.map ('.' :: ·)).getD [] ++ rest ∧ ∀ ds ∈ f, ∀ c ∈ ds, c.isDigit = true := by
  unfold takeFraction at h
  split at h
  · obtain ⟨rfl, rfl⟩ := Prod.mk.inj h
    simp only [Text.spanDigits, Option.map_some, Option.getD_some, List.cons_append,
      List.takeWhile_append_dropWhile, Option.mem_some, true_and]
    rintro _ rfl c hc
    exact List.mem_takeWhile_imp hc
  · obtain ⟨rfl, rfl⟩ := Prod.mk.inj h
    simp

/-- What stands behind the digits of a numeral is no digit and no sign. -/
theorem WellFormed.head_behindWhole {n : Numeral} (hn : n.WellFormed) {c : Char}
    (h : n.behindWhole.head? = some c) : c = '.' ∨ c = 'e' ∨ c = 'E' := by
  obtain ⟨sign, whole, fraction, exponent⟩ := n
  cases fraction with
  | some ds =>
      simp only [behindWhole, Option.map_some, Option.getD_some, List.cons_append, List.head?_cons,
        Option.some.injEq] at h
      exact .inl h.symm
  | none =>
      cases exponent with
      | none => simp [behindWhole] at h
      | some e =>
          simp only [behindWhole, Option.map_none, Option.getD_none, List.nil_append,
            Option.map_some, Option.getD_some, Exponent.text, List.cons_append, List.head?_cons,
            Option.some.injEq] at h
          exact .inr (h ▸ (hn.exponent e rfl).letter)

/-- If something stands behind the digits, they end there. -/
theorem WellFormed.stops_of_behindWhole {n : Numeral} (hn : n.WellFormed)
    (h : n.behindWhole ≠ []) (rest : List Char) :
    Text.Stops Char.isDigit (n.behindWhole ++ rest) := by
  cases hbehind : n.behindWhole with
  | nil => exact absurd hbehind h
  | cons c cs =>
      rw [List.cons_append, Text.stops_cons]
      rcases hn.head_behindWhole (by rw [hbehind]; rfl) with rfl | rfl | rfl <;> rfl

theorem WellFormed.stops_behindWhole {n : Numeral} (hn : n.WellFormed) {rest : List Char}
    (hrest : Text.Stops goesOn rest) : Text.Stops Char.isDigit (n.behindWhole ++ rest) := by
  by_cases h : n.behindWhole = []
  · rw [h, List.nil_append]
    exact stops_isDigit hrest
  · exact hn.stops_of_behindWhole h rest

/-- Without a digit in front of the point there is a point. -/
theorem WellFormed.behindWhole_eq_cons {n : Numeral} (hn : n.WellFormed) (h : n.whole = []) :
    ∃ cs, n.behindWhole = '.' :: cs := by
  rcases hn.digit with hne | hne
  · exact absurd h hne
  · cases hfraction : n.fraction with
    | none => simp [hfraction] at hne
    | some ds => exact ⟨_, by simp [behindWhole, hfraction]; rfl⟩

theorem WellFormed.stops_isSign {n : Numeral} (hn : n.WellFormed) (rest : List Char) :
    Text.Stops isSign (n.whole ++ (n.behindWhole ++ rest)) := by
  cases hwhole : n.whole with
  | cons c ds =>
      have hc := hn.whole c (by simp [hwhole])
      rw [List.cons_append, Text.stops_cons, isSign]
      simp only [Bool.or_eq_false_iff, beq_eq_false_iff_ne]
      exact ⟨Text.ne_of_class hc rfl, Text.ne_of_class hc rfl⟩
  | nil =>
      obtain ⟨cs, hbehind⟩ := hn.behindWhole_eq_cons hwhole
      simp [hbehind, isSign]

/-- How a numeral begins. -/
theorem WellFormed.text_eq_cons {n : Numeral} (hn : n.WellFormed) :
    ∃ c cs, n.text = c :: cs ∧ (c.isDigit = true ∨ isSign c = true ∨ c = '.') := by
  rw [text_eq]
  cases hsign : n.sign with
  | some s => exact ⟨s, _, rfl, .inr (.inl (hn.sign s hsign))⟩
  | none =>
      cases hwhole : n.whole with
      | cons d ds => exact ⟨d, _, rfl, .inl (hn.whole d (by simp [hwhole]))⟩
      | nil =>
          obtain ⟨cs, hbehind⟩ := hn.behindWhole_eq_cons hwhole
          exact ⟨'.', cs, by simp [hbehind], .inr (.inr rfl)⟩

/-- **A numeral is read whole**, if nothing follows that it could go on with. -/
theorem WellFormed.read?_append {n : Numeral} (hn : n.WellFormed) {rest : List Char}
    (hrest : Text.Stops goesOn rest) : read? (n.text ++ rest) = some n := by
  have hsign := takeSign_append hn.sign fun _ => hn.stops_isSign rest
  have hwhole := Text.spanDigits_append hn.whole (hn.stops_behindWhole hrest)
  have hexponent : Exponent.read? ((n.exponent.map Exponent.text).getD [] ++ rest) = n.exponent := by
    cases he : n.exponent with
    | none => exact Exponent.read?_of_stops hrest
    | some e => exact (hn.exponent e he).read?_append (stops_isDigit hrest)
  have hfraction : takeFraction (n.behindWhole ++ rest) =
      (n.fraction, (n.exponent.map Exponent.text).getD [] ++ rest) := by
    rw [behindWhole, List.append_assoc]
    refine takeFraction_append hn.fraction ?_ ?_
    · cases he : n.exponent with
      | none => exact stops_isDigit hrest
      | some e =>
          simp only [Option.map_some, Option.getD_some, Exponent.text, List.cons_append]
          rcases (hn.exponent e he).letter with h | h <;> simp [h]
    · cases he : n.exponent with
      | none =>
          intro hpoint
          exact absurd (hrest '.' hpoint) (by decide)
      | some e =>
          simp only [Option.map_some, Option.getD_some, Exponent.text, List.cons_append]
          rcases (hn.exponent e he).letter with h | h <;> simp [h]
  have hdigit : (n.whole.isEmpty && (n.fraction.getD []).isEmpty) = false := by
    rcases hn.digit with hne | hne <;> simp [hne]
  rw [text_eq, List.append_assoc, List.append_assoc]
  simp only [read?, hsign, hwhole, hfraction, hexponent, hdigit, Bool.false_eq_true, if_false]

/-- **A numeral is the same**, or there is none in both cases, if something follows the text that
it could not go on with. -/
theorem read?_append_stops (cs : List Char) {rest : List Char} (hrest : Text.Stops goesOn rest)
    (hsign : Text.Stops isSign rest) : read? (cs ++ rest) = read? cs := by
  simp only [read?, takeSign_append_stops cs hsign,
    Text.spanDigits_append_stops _ (stops_isDigit hrest), takeFraction_append_stops _ hrest,
    Exponent.read?_append_stops _ hrest hsign]

/-- What stands in front of an exponent, part by part. -/
theorem exists_front (cs : List Char) :
    ∃ sign afterSign whole afterWhole fraction rest,
      takeSign cs = (sign, afterSign) ∧ Text.spanDigits afterSign = (whole, afterWhole) ∧
      takeFraction afterWhole = (fraction, rest) ∧
      cs = sign.toList ++ whole ++ (fraction.map ('.' :: ·)).getD [] ++ rest ∧
      (∀ c ∈ sign, isSign c = true) ∧ (∀ c ∈ whole, c.isDigit = true) ∧
      ∀ ds ∈ fraction, ∀ c ∈ ds, c.isDigit = true := by
  cases hsign : takeSign cs with
  | mk sign afterSign =>
      obtain ⟨rfl, hs⟩ := eq_of_takeSign hsign
      cases hfraction : takeFraction (afterSign.dropWhile Char.isDigit) with
      | mk fraction rest =>
          obtain ⟨hafter, hf⟩ := eq_of_takeFraction hfraction
          refine ⟨sign, afterSign, _, _, fraction, rest, rfl, rfl, hfraction, ?_, hs,
            fun c hc => List.mem_takeWhile_imp hc, hf⟩
          rw [List.append_assoc, List.append_assoc, ← hafter, List.takeWhile_append_dropWhile]

/-- **Whatever numeral is read is well formed and stands in front of the rest.** -/
theorem wellFormed_of_read? {cs : List Char} {n : Numeral} (h : read? cs = some n) :
    n.WellFormed ∧ ∃ rest, cs = n.text ++ rest := by
  obtain ⟨sign, afterSign, whole, afterWhole, fraction, rest, hsign, hwhole, hfraction, hcs, hs, hw,
    hf⟩ := exists_front cs
  simp only [read?, hsign, hwhole, hfraction] at h
  by_cases hnone : (whole.isEmpty && (fraction.getD []).isEmpty) = true
  · simp [hnone] at h
  · rw [if_neg hnone] at h
    obtain rfl := Option.some.inj h
    have hrest : ∃ behind, rest = ((Exponent.read? rest).map Exponent.text).getD [] ++ behind := by
      cases he : Exponent.read? rest with
      | none => exact ⟨rest, rfl⟩
      | some e => exact (Exponent.wellFormed_of_read? he).2
    obtain ⟨behind, hbehind⟩ := hrest
    refine ⟨⟨hs, hw, hf, ?_, fun e he => (Exponent.wellFormed_of_read? he).1⟩, behind, ?_⟩
    · simpa [List.isEmpty_iff, imp_iff_not_or] using hnone
    · rw [text, List.append_assoc, ← hbehind, hcs]

end Numeral

/-! ### The layouts of a decimal -/

/-- The numeral that a decimal is written as. -/
def Decimal.numeral (negative : Bool) (d : Decimal) : Numeral :=
  let digits := Text.digits d.digits
  let behind := (-d.power).toNat
  let sign := if negative then some '-' else none
  if 0 ≤ d.power then ⟨sign, digits ++ List.replicate d.power.toNat '0', none, none⟩
  else if behind < digits.length then
    ⟨sign, digits.take (digits.length - behind), some (digits.drop (digits.length - behind)), none⟩
  else ⟨sign, ['0'], some (List.replicate (behind - digits.length) '0' ++ digits), none⟩

theorem Decimal.text_numeral (negative : Bool) (d : Decimal) :
    (d.numeral negative).text = (if negative then ['-'] else []) ++ d.text := by
  have hsign : (if negative then some '-' else none).toList = if negative then ['-'] else [] := by
    cases negative <;> rfl
  unfold numeral text
  by_cases hpower : 0 ≤ d.power
  · simp [Numeral.text, hpower, hsign]
  · by_cases hbehind : (-d.power).toNat < (Text.digits d.digits).length
    · simp [Numeral.text, hpower, hbehind, hsign]
    · simp [Numeral.text, hpower, hbehind, hsign]

theorem Decimal.wellFormed_numeral (negative : Bool) (d : Decimal) :
    (d.numeral negative).WellFormed := by
  have hsign : ∀ c ∈ (if negative then some '-' else none), isSign c = true := by
    cases negative <;> simp [isSign]
  have hdigits := Text.isDigit_digits d.digits
  unfold numeral
  by_cases hpower : 0 ≤ d.power
  · simp only [if_pos hpower]
    refine ⟨hsign, List.forall_mem_append.mpr ⟨hdigits, Text.isDigit_replicate _⟩, by simp,
      .inl ?_, by simp⟩
    simp [Text.digits_ne_nil]
  · by_cases hbehind : (-d.power).toNat < (Text.digits d.digits).length
    · simp only [if_neg hpower, if_pos hbehind]
      refine ⟨hsign, fun c hc => hdigits c (List.mem_of_mem_take hc), ?_, .inl ?_, by simp⟩
      · simp only [Option.mem_some]
        rintro _ rfl c hc
        exact hdigits c (List.mem_of_mem_drop hc)
      · simp only [ne_eq, List.take_eq_nil_iff, Text.digits_ne_nil, or_false]
        omega
    · simp only [if_neg hpower, if_neg hbehind]
      refine ⟨hsign, by simp, ?_, .inl (by simp), by simp⟩
      simp only [Option.mem_some]
      rintro _ rfl
      exact List.forall_mem_append.mpr ⟨Text.isDigit_replicate _, hdigits⟩

/-- All layouts stand for the decimal. -/
theorem Decimal.value_numeral (negative : Bool) (d : Decimal) :
    (d.numeral negative).value = ofParts negative (decimalMagnitude d.digits d.power) := by
  have hsign : decide ((if negative then some '-' else none) = some '-') = negative := by
    cases negative <;> rfl
  unfold numeral
  by_cases hpower : 0 ≤ d.power
  · have hvalue : decimalValue (d.digits * 10 ^ d.power.toNat) 0 =
        decimalValue d.digits d.power := by
      obtain ⟨k, hk⟩ := Int.eq_ofNat_of_zero_le hpower
      rw [decimalValue, decimalValue, hk]
      simp
    simp only [if_pos hpower, Numeral.value, ofDecimal, hsign]
    congr 1
    simp only [Option.getD_none, List.append_nil, Option.map_none, List.length_nil,
      Text.ofDigits_append_replicate, Text.ofDigits_digits]
    exact decimalMagnitude_congr hvalue
  · by_cases hbehind : (-d.power).toNat < (Text.digits d.digits).length
    · simp only [if_neg hpower, if_pos hbehind, Numeral.value, ofDecimal, hsign]
      congr 2
      · simp
      · simp only [Option.getD_some, Option.map_none, Option.getD_none, List.length_drop]
        omega
    · simp only [if_neg hpower, if_neg hbehind, Numeral.value, ofDecimal, hsign]
      congr 2
      · have hzero := Text.ofDigits_replicate_append 1
          (List.replicate ((-d.power).toNat - (Text.digits d.digits).length) '0' ++
            Text.digits d.digits)
        simpa using hzero
      · simp only [Option.getD_some, Option.map_none, Option.getD_none, List.length_append,
          List.length_replicate]
        omega

/-! ### The text of a number -/

/-- The text of a finite number is that of a decimal which reads back as its magnitude. -/
theorem exists_decimal {x : Binary64} (hfinite : x.isFinite = true) :
    ∃ d : Decimal, x.text = (if x.isNegative then ['-'] else []) ++ d.text ∧
      decimalMagnitude d.digits d.power = x.magnitude := by
  have hlt := x.isFinite_iff.mp hfinite
  have hnan : x.isNaN = false := by simp [isNaN, hlt.le]
  have hinfinite : x.isInfinite = false := by simp [isInfinite, hlt.ne]
  by_cases hzero : x.magnitude = 0
  · refine ⟨⟨0, 0⟩, ?_, by simp [decimalMagnitude, hzero]⟩
    simp only [text, hnan, hinfinite, hzero]
    rfl
  · refine ⟨x.shortest, ?_, decimalMagnitude_shortest hfinite hzero⟩
    simp [text, hnan, hinfinite, hzero]

/-- **The text of a finite number is a numeral that stands for the number.** -/
theorem exists_numeral {x : Binary64} (hfinite : x.isFinite = true) :
    ∃ n : Numeral, n.WellFormed ∧ n.text = x.text ∧ n.value = x := by
  obtain ⟨d, htext, hmagnitude⟩ := exists_decimal hfinite
  refine ⟨d.numeral x.isNegative, d.wellFormed_numeral _, ?_, ?_⟩
  · rw [d.text_numeral, htext]
  · rw [d.value_numeral, hmagnitude, ofParts_isNegative_magnitude]

end RollCall.Binary64
