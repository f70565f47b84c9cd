/-
The longest numeral.

Which texts are numerals is a regular language, `numeralForm`, and is said here without
any reader: the sign, the digits with their point and the exponent are languages of their
own, joined as the form joins them.  The texts of well-formed numerals are those of the
form, each of one numeral only.

The reader goes through its parts in turn and takes as much as it can for each.  That
this gives the longest text of the form is not a matter of course, since to take more for
one part may leave too little for the next.  It holds because a part that is not the last
one is followed by a character that cannot belong to it: so the reader takes what the
numeral has for every part but the last, and for the last no less.
-/
import Mathlib.Computability.Language
import RollCall.Proofs.Binary64.Numeral

namespace RollCall.Binary64

open scoped Computability

/-! ### The form -/

/-- The texts of one character of a class. -/
def oneOf (p : Char → Bool) : Language Char :=
  {cs | ∃ c, p c = true ∧ cs = [c]}

/-- The empty text and those of the language. -/
def perhaps (l : Language Char) : Language Char :=
  1 + l

/-- The sign: `[+-]?`. -/
def signForm : Language Char :=
  perhaps (oneOf isSign)

/-- At least one digit: `d+`. -/
def digitsForm : Language Char :=
  oneOf Char.isDigit * (oneOf Char.isDigit)∗

/-- The digits and the point: `d+(.d*)?|.d+`. -/
def mantissaForm : Language Char :=
  digitsForm * perhaps (oneOf (· == '.') * (oneOf Char.isDigit)∗) + oneOf (· == '.') * digitsForm

/-- The exponent: `[eE][+-]?d+`. -/
def exponentForm : Language Char :=
  oneOf (fun c => c == 'e' || c == 'E') * signForm * digitsForm

/-- The form of a numeral: `[+-]?(d+(.d*)?|.d+)([eE][+-]?d+)?`. -/
def numeralForm : Language Char :=
  signForm * mantissaForm * perhaps exponentForm

variable {p : Char → Bool} {cs : List Char}

theorem mem_perhaps {l : Language Char} : cs ∈ perhaps l ↔ cs = [] ∨ cs ∈ l :=
  Iff.rfl

theorem singleton_mem_oneOf {c : Char} (h : p c = true) : [c] ∈ oneOf p :=
  ⟨c, h, rfl⟩

theorem mem_oneOf_kstar : cs ∈ (oneOf p)∗ ↔ ∀ c ∈ cs, p c = true := by
  rw [Language.mem_kstar]
  constructor
  · rintro ⟨parts, rfl, hparts⟩ c hc
    obtain ⟨part, hpart, hc⟩ := List.mem_flatten.mp hc
    obtain ⟨d, hd, rfl⟩ := hparts part hpart
    rwa [List.mem_singleton.mp hc]
  · intro h
    refine ⟨cs.map fun c => [c], by simp [← List.flatMap_def], ?_⟩
    intro part hpart
    obtain ⟨c, hc, rfl⟩ := List.mem_map.mp hpart
    exact singleton_mem_oneOf (h c hc)

theorem mem_signForm : cs ∈ signForm ↔ ∃ s : Option Char, (∀ c ∈ s, isSign c = true) ∧
    s.toList = cs := by
  rw [signForm, mem_perhaps]
  constructor
  · rintro (rfl | ⟨c, hc, rfl⟩)
    · exact ⟨none, by simp, rfl⟩
    · exact ⟨some c, by simpa using hc, rfl⟩
  · rintro ⟨s, hs, rfl⟩
    cases s with
    | none => exact .inl rfl
    | some c => exact .inr (singleton_mem_oneOf (hs c rfl))

theorem mem_digitsForm : cs ∈ digitsForm ↔ (∀ c ∈ cs, c.isDigit = true) ∧ cs ≠ [] := by
  rw [digitsForm, Language.mem_mul]
  constructor
  · rintro ⟨_, ⟨c, hc, rfl⟩, ds, hds, rfl⟩
    exact ⟨List.forall_mem_cons.mpr ⟨hc, mem_oneOf_kstar.mp hds⟩, List.cons_ne_nil c ds⟩
  · rintro ⟨hcs, hne⟩
    cases cs with
    | nil => exact absurd rfl hne
    | cons c ds =>
        obtain ⟨hc, hds⟩ := List.forall_mem_cons.mp hcs
        exact ⟨[c], singleton_mem_oneOf hc, ds, mem_oneOf_kstar.mpr hds, rfl⟩

theorem mem_mantissaForm : cs ∈ mantissaForm ↔
    ∃ (whole : List Char) (fraction : Option (List Char)), (∀ c ∈ whole, c.isDigit = true) ∧
      (∀ ds ∈ fraction, ∀ c ∈ ds, c.isDigit = true) ∧
      (whole ≠ [] ∨ fraction.getD [] ≠ []) ∧ whole ++ (fraction.map ('.' :: ·)).getD [] = cs := by
  rw [mantissaForm, Language.mem_add, Language.mem_mul, Language.mem_mul]
  constructor
  · rintro (⟨whole, hwhole, behind, hbehind, rfl⟩ | ⟨_, ⟨c, hc, rfl⟩, ds, hds, rfl⟩)
    · obtain ⟨hdigits, hne⟩ := mem_digitsForm.mp hwhole
      rcases hbehind with rfl | ⟨_, ⟨c, hc, rfl⟩, ds, hds, rfl⟩
      · exact ⟨whole, none, hdigits, by simp, .inl hne, rfl⟩
      · obtain rfl : c = '.' := beq_iff_eq.mp hc
        exact ⟨whole, some ds, hdigits, by simpa using mem_oneOf_kstar.mp hds, .inl hne, rfl⟩
    · obtain rfl : c = '.' := beq_iff_eq.mp hc
      obtain ⟨hdigits, hne⟩ := mem_digitsForm.mp hds
      exact ⟨[], some ds, by simp, by simpa using hdigits, .inr hne, rfl⟩
  · rintro ⟨whole, fraction, hwhole, hfraction, hdigit, rfl⟩
    cases fraction with
    | none =>
        have hne : whole ≠ [] := by simpa using hdigit
        exact .inl ⟨whole, mem_digitsForm.mpr ⟨hwhole, hne⟩, [], .inl rfl, rfl⟩
    | some ds =>
        have hds := hfraction ds rfl
        have hpoint : ['.'] ∈ oneOf (· == '.') := singleton_mem_oneOf rfl
        by_cases hne : whole = []
        · subst hne
          have hne : ds ≠ [] := by simpa using hdigit
          exact .inr ⟨['.'], hpoint, ds, mem_digitsForm.mpr ⟨hds, hne⟩, rfl⟩
        · refine .inl ⟨whole, mem_digitsForm.mpr ⟨hwhole, hne⟩, '.' :: ds, .inr ?_, rfl⟩
          exact ⟨['.'], hpoint, ds, mem_oneOf_kstar.mpr hds, rfl⟩

theorem mem_exponentForm : cs ∈ exponentForm ↔ ∃ e : Exponent, e.WellFormed ∧ e.text = cs := by
  simp only [exponentForm, Language.mem_mul]
  constructor
  · rintro ⟨_, ⟨_, ⟨c, hc, rfl⟩, sign, hsign, rfl⟩, ds, hds, rfl⟩
    obtain ⟨s, hs, rfl⟩ := mem_signForm.mp hsign
    obtain ⟨hdigits, hne⟩ := mem_digitsForm.mp hds
    exact ⟨⟨c, s, ds⟩, ⟨by simpa using hc, hs, hdigits, hne⟩, rfl⟩
  · rintro ⟨⟨c, s, ds⟩, ⟨hletter, hs, hdigits, hne⟩, rfl⟩
    refine ⟨c :: s.toList, ⟨[c], singleton_mem_oneOf (by simpa using hletter), s.toList, ?_, rfl⟩,
      ds, mem_digitsForm.mpr ⟨hdigits, hne⟩, rfl⟩
    exact mem_signForm.mpr ⟨s, hs, rfl⟩

namespace Numeral

/-- **The texts of the form are those of the well-formed numerals.** -/
theorem mem_numeralForm : cs ∈ numeralForm ↔ ∃ n : Numeral, n.WellFormed ∧ n.text = cs := by
  simp only [numeralForm, Language.mem_mul]
  constructor
  · rintro ⟨_, ⟨sign, hsign, mantissa, hmantissa, rfl⟩, behind, hbehind, rfl⟩
    obtain ⟨s, hs, rfl⟩ := mem_signForm.mp hsign
    obtain ⟨whole, fraction, hwhole, hfraction, hdigit, rfl⟩ := mem_mantissaForm.mp hmantissa
    rcases hbehind with rfl | hexponent
    · exact ⟨⟨s, whole, fraction, none⟩, ⟨hs, hwhole, hfraction, hdigit, by simp⟩, by simp [text]⟩
    · obtain ⟨e, he, rfl⟩ := mem_exponentForm.mp hexponent
      exact ⟨⟨s, whole, fraction, some e⟩,
        ⟨hs, hwhole, hfraction, hdigit, by simpa using he⟩, by simp [text]⟩
  · rintro ⟨⟨s, whole, fraction, exponent⟩, ⟨hs, hwhole, hfraction, hdigit, hexponent⟩, rfl⟩
    refine ⟨_, ⟨s.toList, mem_signForm.mpr ⟨s, hs, rfl⟩, _,
      mem_mantissaForm.mpr ⟨whole, fraction, hwhole, hfraction, hdigit, rfl⟩, rfl⟩,
      (exponent.map Exponent.text).getD [], ?_, by simp [text]⟩
    cases exponent with
    | none => exact .inl rfl
    | some e => exact .inr (mem_exponentForm.mpr ⟨e, hexponent e rfl, rfl⟩)

/-- The characters of a numeral tell its parts. -/
theorem WellFormed.eq_of_text {m n : Numeral} (hm : m.WellFormed) (hn : n.WellFormed)
    (h : m.text = n.text) : m = n := by
  have hread := hm.read?_append Text.stops_nil
  rw [h, hn.read?_append Text.stops_nil] at hread
  exact (Option.some.inj hread).symm

end Numeral

/-! ### No part is taken too short -/

/-- Digits belong to the run that they begin. -/
theorem prefix_takeWhile {ds : List Char} (hds : ∀ c ∈ ds, p c = true) (rest : List Char) :
    ds <+: (ds ++ rest).takeWhile p := by
  rw [List.takeWhile_append_of_pos hds]
  exact List.prefix_append ds _

/-- In front of an exponent there are none but the digits of the part before. -/
theorem Exponent.WellFormed.stops_isDigit {e : Exponent} (he : e.WellFormed) (rest : List Char) :
    Text.Stops Char.isDigit (e.text ++ rest) := by
  rw [Exponent.text, List.cons_append, List.cons_append, Text.stops_cons]
  rcases he.letter with h | h <;> rw [h] <;> rfl

/-- Where an exponent stands one is read that begins with it. -/
theorem Exponent.WellFormed.exists_read? {e : Exponent} (he : e.WellFormed) (rest : List Char) :
    ∃ e', Exponent.read? (e.text ++ rest) = some e' ∧ e.text <+: e'.text := by
  -- What is read is the exponent with the digits that follow it.
  obtain ⟨run, behind, rfl, hrun, hbehind⟩ := Text.exists_run Char.isDigit rest
  let longer : Exponent := { e with digits := e.digits ++ run }
  have htext : longer.text = e.text ++ run := by
    simp [longer, Exponent.text]
  have hlonger : longer.WellFormed :=
    ⟨he.letter, he.sign, List.forall_mem_append.mpr ⟨he.digits, hrun⟩, by
      simp [longer, he.digits_ne_nil]⟩
  refine ⟨longer, ?_, htext ▸ List.prefix_append _ _⟩
  rw [← List.append_assoc, ← htext]
  exact hlonger.read?_append hbehind

namespace Numeral

/-- What is read where the parts in front of an exponent are these. -/
theorem read?_of_parts {sign : Option Char} {afterSign whole afterWhole rest : List Char}
    {fraction : Option (List Char)} (hsign : takeSign cs = (sign, afterSign))
    (hwhole : Text.spanDigits afterSign = (whole, afterWhole))
    (hfraction : takeFraction afterWhole = (fraction, rest))
    (hdigit : whole ≠ [] ∨ fraction.getD [] ≠ []) :
    read? cs = some ⟨sign, whole, fraction, Exponent.read? rest⟩ := by
  have hsome : (whole.isEmpty && (fraction.getD []).isEmpty) = false := by
    rcases hdigit with h | h <;> simp [h]
  simp only [read?, hsign, hwhole, hfraction, hsome, Bool.false_eq_true, if_false]

/--
**Where a numeral stands one is read that begins with it.**

Every part but the last that the numeral has is read as it is; the last may go on, and more
parts may follow.
-/
theorem WellFormed.exists_read? {m : Numeral} (hm : m.WellFormed) (rest : List Char) :
    ∃ n, read? (m.text ++ rest) = some n ∧ m.text <+: n.text := by
  have htext : m.text ++ rest = m.sign.toList ++ (m.whole ++ (m.behindWhole ++ rest)) := by
    rw [text_eq, List.append_assoc, List.append_assoc]
  have hsign := takeSign_append hm.sign fun _ => hm.stops_isSign rest
  rw [htext]
  obtain ⟨sign, whole, fraction, exponent⟩ := m
  cases exponent with
  | some e =>
      have he := hm.exponent e rfl
      have hwhole := Text.spanDigits_append hm.whole
        (hm.stops_of_behindWhole (by simp [behindWhole, Exponent.text]) rest)
      have hpoint : (e.text ++ rest).head? ≠ some '.' := by
        rcases he.letter with h | h <;> simp [Exponent.text, h]
      have hfraction := takeFraction_append hm.fraction (he.stops_isDigit rest) hpoint
      obtain ⟨e', hread, hbegins⟩ := he.exists_read? rest
      refine ⟨⟨sign, whole, fraction, some e'⟩, ?_, ?_⟩
      · rw [← hread]
        refine read?_of_parts hsign hwhole ?_ hm.digit
        rw [← hfraction, behindWhole, List.append_assoc]
        rfl
      · simpa only [text, Option.map_some, Option.getD_some, List.prefix_append_right_inj]
          using hbegins
  | none =>
      cases fraction with
      | some ds =>
          have hwhole := Text.spanDigits_append hm.whole
            (hm.stops_of_behindWhole (by simp [behindWhole]) rest)
          have hbegins := prefix_takeWhile (hm.fraction ds rfl) rest
          have hbehind : behindWhole ⟨sign, whole, some ds, none⟩ ++ rest = '.' :: (ds ++ rest) := by
            simp [behindWhole]
          rw [hbehind] at hsign hwhole ⊢
          refine ⟨_, read?_of_parts hsign hwhole rfl (hm.digit.imp_right hbegins.ne_nil), ?_⟩
          have hfront : '.' :: ds <+: '.' :: (ds ++ rest).takeWhile Char.isDigit :=
            List.cons_prefix_cons.mpr ⟨rfl, hbegins⟩
          simp only [text, Option.map_some, Option.map_none, Option.getD_some, Option.getD_none,
            List.append_nil, List.append_assoc, List.prefix_append_right_inj]
          exact hfront.trans (List.prefix_append _ _)
      | none =>
          have hbegins := prefix_takeWhile hm.whole rest
          have hne : whole ≠ [] := by simpa using hm.digit
          refine ⟨_, read?_of_parts hsign rfl rfl (.inl (hbegins.ne_nil hne)), ?_⟩
          simp only [text, Option.map_none, Option.getD_none, List.append_nil, List.append_assoc,
            List.prefix_append_right_inj]
          exact hbegins.trans (List.prefix_append _ _)

/-- **What is read is the longest text of the form that a text begins with.** -/
theorem prefix_of_read? {n : Numeral} (h : read? cs = some n) {longer : List Char}
    (hlonger : longer ∈ numeralForm) (hcs : longer <+: cs) : longer <+: n.text := by
  obtain ⟨m, hm, rfl⟩ := mem_numeralForm.mp hlonger
  obtain ⟨rest, rfl⟩ := hcs
  obtain ⟨n', hread, hbegins⟩ := hm.exists_read? rest
  rw [h] at hread
  obtain rfl := Option.some.inj hread
  exact hbegins

/-- A numeral that is read is read again, however much of what follows it is cut off. -/
theorem read?_of_prefix {n : Numeral} {rest front : List Char}
    (h : read? (n.text ++ rest) = some n) (hfront : front <+: rest) :
    read? (n.text ++ front) = some n := by
  have hn := (wellFormed_of_read? h).1
  obtain ⟨n', hread, hbegins⟩ := hn.exists_read? front
  obtain ⟨hn', behind, hbehind⟩ := wellFormed_of_read? hread
  have hprefix : n'.text <+: n.text ++ rest := by
    refine List.IsPrefix.trans ⟨behind, hbehind.symm⟩ ?_
    rwa [List.prefix_append_right_inj]
  have hback := prefix_of_read? h (mem_numeralForm.mpr ⟨n', hn', rfl⟩) hprefix
  have htext : n'.text = n.text := hback.eq_of_length_le hbegins.length_le
  rw [hread, hn'.eq_of_text hn htext]

end Numeral

end RollCall.Binary64
