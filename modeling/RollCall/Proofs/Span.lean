/-
Clocks are read back.

The text of a span is a clock, and a clock is taken apart in one way only: the minus sign is
no digit, the hours end at the first colon, and minutes and seconds have two digits each.  So
the text tells the whole seconds, the sign included, since nothing is never negative.  What it
does not tell is the fraction that was cut off.

No clock has a comma in it, so the texts of a list are told apart by the commas between them,
and the list without any span by having nothing between its brackets.
-/
import Mathlib.Data.List.Forall2
import RollCall.Proofs.Instant.Difference
import RollCall.Proofs.Text.Digits

namespace RollCall

namespace Text

/-- Only the number zero begins with a zero. -/
theorem digits_of_head_zero {n : Nat} (h : (digits n).head? = some '0') : digits n = ['0'] := by
  obtain ⟨rest, hrest⟩ : ∃ rest, digits n = '0' :: rest := by
    cases hdigits : digits n with
    | nil => exact absurd hdigits (digits_ne_nil n)
    | cons c rest =>
        rw [hdigits, List.head?_cons, Option.some.injEq] at h
        exact ⟨rest, by rw [h]⟩
  have hvalue : ofDigits rest = n := by
    have hread := ofDigits_replicate_append 1 rest
    rw [List.replicate_one, List.singleton_append, ← hrest, ofDigits_digits] at hread
    exact hread.symm
  have hdigits : ∀ c ∈ rest, c.isDigit = true := fun c hc =>
    isDigit_digits n c (by rw [hrest]; exact List.mem_cons_of_mem _ hc)
  have hlength : (digits n).length = rest.length + 1 := by rw [hrest, List.length_cons]
  -- The rest alone stands for the number, so were it not empty, it would have digits enough.
  cases hempty : rest with
  | nil => rw [hrest, hempty]
  | cons c cs =>
      have hpos : 0 < rest.length := by rw [hempty]; exact Nat.succ_pos _
      have hlt : n < 10 ^ rest.length := hvalue ▸ ofDigits_lt hdigits
      have hfew : (digits n).length ≤ rest.length := (digitCount_le_iff hpos).mpr hlt
      omega

theorem padded_one (n : Nat) : padded 1 n = digits n := by
  have hpos : 1 ≤ (digits n).length := digitCount_pos n
  rw [padded, List.leftpad, Nat.sub_eq_zero_of_le hpos]
  rfl

end Text

open Text (ofDigits)

/-- What a clock shows: perhaps a minus sign, hours without zeros in front, and two digits each for
minutes and seconds below sixty. -/
structure Clock where
  negative : Bool
  hours : List Char
  minutes : List Char
  seconds : List Char
  hours_digits : ∀ c ∈ hours, c.isDigit = true
  hours_ne_nil : hours ≠ []
  /-- only the hour zero begins with a zero -/
  hours_unpadded : hours.head? = some '0' → hours = ['0']
  minutes_digits : ∀ c ∈ minutes, c.isDigit = true
  minutes_length : minutes.length = 2
  minutes_lt : ofDigits minutes < 60
  seconds_digits : ∀ c ∈ seconds, c.isDigit = true
  seconds_length : seconds.length = 2
  seconds_lt : ofDigits seconds < 60
  /-- there is no minus sign in front of nothing -/
  nonzero : negative = true → 0 < ofDigits hours + ofDigits minutes + ofDigits seconds

namespace Clock

/-- The characters of a clock. -/
def text (k : Clock) : List Char :=
  (if k.negative then ['-'] else []) ++ k.hours ++ ':' :: k.minutes ++ ':' :: k.seconds

/-- The count of seconds that a clock stands for. -/
def count (k : Clock) : Int :=
  (if k.negative then -1 else 1) *
    (3600 * ofDigits k.hours + 60 * ofDigits k.minutes + ofDigits k.seconds)

theorem negative_iff (k : Clock) : k.negative = true ↔ k.text.head? = some '-' := by
  unfold text
  cases k.negative with
  | true => simp
  | false =>
      cases hhours : k.hours with
      | nil => exact absurd hhours k.hours_ne_nil
      | cons c cs =>
          have hc : c.isDigit = true := k.hours_digits c (by rw [hhours]; exact List.mem_cons_self)
          have hne : c ≠ '-' := Text.ne_of_class hc rfl
          simp [hne]

/-- **A clock is taken apart in one way only.** -/
theorem text_injective {k k' : Clock} (h : k.text = k'.text) : k = k' := by
  have hsign : k.negative = k'.negative := by
    rw [Bool.eq_iff_iff, negative_iff, negative_iff, h]
  have hbehind : k.hours ++ ':' :: (k.minutes ++ ':' :: k.seconds) =
      k'.hours ++ ':' :: (k'.minutes ++ ':' :: k'.seconds) := by
    unfold text at h
    rw [hsign] at h
    simpa [List.append_assoc] using h
  have hstops : ∀ cs, Text.Stops Char.isDigit (':' :: cs) := fun cs => Text.stops_cons.mpr rfl
  have hhours : k.hours = k'.hours := by
    have htake := congrArg (List.takeWhile Char.isDigit) hbehind
    rwa [Text.takeWhile_append_of_stops k.hours_digits (hstops _),
      Text.takeWhile_append_of_stops k'.hours_digits (hstops _)] at htake
  rw [hhours, List.append_cancel_left_eq, List.cons_inj_right] at hbehind
  obtain ⟨hminutes, hrest⟩ :=
    List.append_inj hbehind (k.minutes_length.trans k'.minutes_length.symm)
  have hseconds : k.seconds = k'.seconds := List.tail_eq_of_cons_eq hrest
  cases k
  cases k'
  simp_all

/-- The only marks of a clock are the minus sign and the colons. -/
theorem mem_text {k : Clock} {c : Char} (h : c ∈ k.text) :
    c = '-' ∨ c = ':' ∨ c.isDigit = true := by
  have hclass : ∀ cs : List Char, (∀ d ∈ cs, d.isDigit = true) → c ∈ cs →
      c = '-' ∨ c = ':' ∨ c.isDigit = true := fun cs hcs hc => .inr (.inr (hcs c hc))
  unfold text at h
  simp only [List.mem_append, List.mem_cons] at h
  rcases h with ((h | h) | rfl | h) | rfl | h
  · split at h
    · exact .inl (List.mem_singleton.mp h)
    · cases h
  · exact hclass _ k.hours_digits h
  · exact .inr (.inl rfl)
  · exact hclass _ k.minutes_digits h
  · exact .inr (.inl rfl)
  · exact hclass _ k.seconds_digits h

/-- The clock that shows a count of seconds. -/
def ofCount (n : Int) : Clock where
  negative := n < 0
  hours := Text.digits (n.natAbs / 3600)
  minutes := Text.padded 2 (n.natAbs % 3600 / 60)
  seconds := Text.padded 2 (n.natAbs % 60)
  hours_digits := Text.isDigit_digits _
  hours_ne_nil := Text.digits_ne_nil _
  hours_unpadded := Text.digits_of_head_zero
  minutes_digits := Text.isDigit_padded _ _
  minutes_length := Text.length_padded (by omega)
  minutes_lt := by rw [Text.ofDigits_padded]; omega
  seconds_digits := Text.isDigit_padded _ _
  seconds_length := Text.length_padded (by omega)
  seconds_lt := by rw [Text.ofDigits_padded]; omega
  nonzero := by
    rw [Text.ofDigits_digits, Text.ofDigits_padded, Text.ofDigits_padded, decide_eq_true_eq]
    omega

theorem count_ofCount (n : Int) : (ofCount n).count = n := by
  simp only [count, ofCount, Text.ofDigits_digits, Text.ofDigits_padded, decide_eq_true_eq]
  split <;> omega

end Clock

namespace Span

/-- The text of a span is the clock of its whole seconds. -/
theorem text_eq (d : Span) : d.text = (Clock.ofCount d.wholeSeconds).text := by
  simp [text, clockText, Clock.text, Clock.ofCount, Text.padded_one]

/-- **The text of a span is a clock, and tells its whole seconds.** -/
theorem exists_clock (d : Span) :
    ∃ k : Clock, d.text = k.text ∧ k.count = d.wholeSeconds ∧
      ∀ k' : Clock, d.text = k'.text → k' = k := by
  refine ⟨_, d.text_eq, Clock.count_ofCount _, fun k' h => Clock.text_injective ?_⟩
  rw [← h, text_eq]

theorem text_eq_text_iff {d d' : Span} : d.text = d'.text ↔ d.wholeSeconds = d'.wholeSeconds := by
  constructor
  · intro h
    rw [text_eq, text_eq] at h
    rw [← Clock.count_ofCount d.wholeSeconds, Clock.text_injective h, Clock.count_ofCount]
  · intro h
    rw [text_eq, text_eq, h]

theorem text_ne_nil (d : Span) : d.text ≠ [] := by
  rw [text_eq, Clock.text]
  simp

theorem comma_not_mem_text (d : Span) : ',' ∉ d.text := by
  intro h
  rw [text_eq] at h
  rcases Clock.mem_text h with h | h | h <;> cases h

/-! ### Lists -/

/-- A comma and a space between some texts are a comma between them, when all but the first have
the space in front. -/
theorem intercalate_comma (cs : List Char) (css : List (List Char)) :
    List.intercalate [',', ' '] (cs :: css) =
      List.intercalate [','] (cs :: css.map (' ' :: ·)) := by
  induction css generalizing cs with
  | nil => rfl
  | cons ds dss ih =>
      have hspace : List.intercalate [','] ((' ' :: ds) :: dss.map (' ' :: ·)) =
          ' ' :: List.intercalate [','] (ds :: dss.map (' ' :: ·)) := by
        cases dss <;> simp [List.intercalate]
      rw [List.intercalate_cons_cons, ih ds, List.map_cons, List.intercalate_cons_cons, hspace]
      simp

/-- The texts of spans are told apart by the commas between them. -/
theorem splitOn_intercalate (d : Span) (ds : List Span) :
    (List.intercalate [',', ' '] ((d :: ds).map text)).splitOn ',' =
      d.text :: (ds.map text).map (' ' :: ·) := by
  rw [List.map_cons, intercalate_comma]
  refine List.splitOn_intercalate ',' ?_ (List.cons_ne_nil _ _)
  refine List.forall_mem_cons.mpr ⟨d.comma_not_mem_text, ?_⟩
  intro cs hcs
  rw [List.map_map] at hcs
  obtain ⟨e, -, rfl⟩ := List.mem_map.mp hcs
  simpa using e.comma_not_mem_text

theorem intercalate_ne_nil (d : Span) (ds : List Span) :
    List.intercalate [',', ' '] ((d :: ds).map text) ≠ [] := by
  intro h
  have hsplit := splitOn_intercalate d ds
  rw [h, List.splitOn_nil] at hsplit
  exact d.text_ne_nil (List.cons.inj hsplit).1.symm

theorem map_text_of_intercalate_eq {ds ds' : List Span}
    (h : List.intercalate [',', ' '] (ds.map text) = List.intercalate [',', ' '] (ds'.map text)) :
    ds.map text = ds'.map text := by
  cases ds with
  | nil =>
      cases ds' with
      | nil => rfl
      | cons d' ds' => exact absurd h.symm (intercalate_ne_nil d' ds')
  | cons d ds =>
      cases ds' with
      | nil => exact absurd h (intercalate_ne_nil d ds)
      | cons d' ds' =>
          have hsplit := congrArg (List.splitOn ',') h
          rw [splitOn_intercalate, splitOn_intercalate] at hsplit
          obtain ⟨hfirst, hrest⟩ := List.cons.inj hsplit
          have hspace : Function.Injective fun cs : List Char => ' ' :: cs :=
            fun _ _ heq => List.tail_eq_of_cons_eq heq
          rw [List.map_cons, List.map_cons, hfirst, List.map_injective_iff.mpr hspace hrest]

/-- **The text of a list tells how many spans it has, and the whole seconds of each.** -/
theorem listText_eq_iff {ds ds' : List Span} :
    listText ds = listText ds' ↔
      List.Forall₂ (fun d d' => d.wholeSeconds = d'.wholeSeconds) ds ds' := by
  have htexts : listText ds = listText ds' ↔ ds.map text = ds'.map text := by
    constructor
    · intro h
      refine map_text_of_intercalate_eq ?_
      simpa [listText] using h
    · intro h
      rw [listText, listText, h]
  rw [htexts, ← List.forall₂_eq_eq_eq, List.forall₂_map_left_iff, List.forall₂_map_right_iff]
  simp only [text_eq_text_iff]

/-- A list of spans is written as their texts, with commas between them. -/
theorem renderList_eq (ds : List Span) :
    renderList ds = "[" ++ ", ".intercalate (ds.map render) ++ "]" := by
  rw [← String.toList_inj]
  simp [renderList, listText, String.toList_intercalate, Function.comp_def, render]

/-! ### Whole seconds -/

/-- A span of whole seconds is told by them. -/
theorem IsWhole.eq_of_wholeSeconds_eq {d d' : Span} (hd : d.IsWhole) (hd' : d'.IsWhole)
    (h : d.wholeSeconds = d'.wholeSeconds) : d = d' := by
  obtain ⟨m, rfl⟩ := hd
  obtain ⟨n, rfl⟩ := hd'
  rw [wholeSeconds_ofSeconds, wholeSeconds_ofSeconds] at h
  rw [h]

theorem eq_of_forall₂_wholeSeconds {ds ds' : List Span}
    (h : List.Forall₂ (fun d d' => d.wholeSeconds = d'.wholeSeconds) ds ds') :
    (∀ d ∈ ds, d.IsWhole) → (∀ d ∈ ds', d.IsWhole) → ds = ds' := by
  induction h with
  | nil => intro _ _; rfl
  | cons hseconds _ ih =>
      intro hds hds'
      obtain ⟨hd, hds⟩ := List.forall_mem_cons.mp hds
      obtain ⟨hd', hds'⟩ := List.forall_mem_cons.mp hds'
      rw [hd.eq_of_wholeSeconds_eq hd' hseconds, ih hds hds']

end Span

end RollCall
