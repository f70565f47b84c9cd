/-
The usual pieces of a written instant.

The two patterns are meant for `M/D/YYYY, h:mm:ss AM` or `PM` and for `YYYY-MM-DD HH:MM:SS`:
a year of four digits, minutes and seconds of two, one space for a gap and no blank in front
of a number.  A reading takes more than that, and whether a text is one of the usual ones
shows in the pieces that the reading falls into: there is only one way to take the usual
pieces off a text, since each of them ends where the next one cannot go on with it.
-/
import Mathlib.Data.List.Chain
import Mathlib.Data.List.Forall2
import RollCall.Proofs.Instant.Spelling

namespace RollCall.Instant

open Text (Stops)

/-- A run of digits of a length within bounds. -/
def IsDigits (low high : Nat) (ds : List Char) : Prop :=
  (∀ c ∈ ds, c.isDigit = true) ∧ low ≤ ds.length ∧ ds.length ≤ high

namespace Part

/-- The piece that a part has where nothing is left out or put in: month, day and hour have at
least as many digits as `least` says, and the other numbers a fixed count. -/
def Usual (least : Nat) : Part → (piece : List Char) → Prop
  | .mark c, piece => piece = [c]
  | .gap, piece => piece = [' ']
  | .year, piece => IsDigits 4 4 piece
  | .month, piece | .day, piece | .hour, piece | .halfDayHour, piece => IsDigits least 2 piece
  | .minute, piece | .second, piece => IsDigits 2 2 piece
  | .halfDay, piece =>
    ∃ c m : Char, piece = [c, m] ∧ c ∈ ['A', 'a', 'P', 'p'] ∧ m ∈ ['M', 'm']

end Part

/-- The least count of digits of a month, a day and an hour: the clock of half a day may show
one. -/
def leastDigits (pattern : List Part) : Nat :=
  if pattern = halfDayPattern then 1 else 2

/-- Pieces that are the usual ones of a pattern. -/
def UsualPieces (pattern : List Part) (pieces : List (List Char)) : Prop :=
  List.Forall₂ (Part.Usual (leastDigits pattern)) pattern pieces

/-- The text `M/D/YYYY, h:mm:ss AM` or `PM`, or the text `YYYY-MM-DD HH:MM:SS`. -/
def Usual (cs : List Char) : Prop :=
  ∃ pattern ∈ reportPatterns, ∃ pieces, pieces.flatten = cs ∧ UsualPieces pattern pieces

theorem IsDigits.ne_nil {low high : Nat} {ds : List Char} (h : IsDigits low high ds)
    (hlow : 0 < low) : ds ≠ [] :=
  List.ne_nil_of_length_pos (hlow.trans_le h.2.1)

theorem IsDigits.stops_isBlank {low high : Nat} {ds : List Char} (h : IsDigits low high ds)
    (hlow : 0 < low) (rest : List Char) : Stops Text.isBlank (ds ++ rest) := by
  cases ds with
  | nil => exact absurd rfl (h.ne_nil hlow)
  | cons d ds => exact Text.stops_cons.mpr (isBlank_of_isDigit (h.1 d List.mem_cons_self))

/-! ### Where a piece ends -/

/-- A run of a class that something else follows is the only one. -/
theorem eq_of_runs {p : Char → Bool} {run run' rest rest' : List Char}
    (h : run ++ rest = run' ++ rest') (hrun : ∀ c ∈ run, p c = true)
    (hrun' : ∀ c ∈ run', p c = true) (hrest : Stops p rest) (hrest' : Stops p rest') :
    run = run' := by
  rw [← Text.takeWhile_append_of_stops hrun hrest, h, Text.takeWhile_append_of_stops hrun' hrest']

variable {rest rest' piece ds : List Char}

/-- Where digits stand, no blank does. -/
theorem eq_nil_of_digits {blanks : List Char} (h : blanks ++ rest = ds ++ rest')
    (hblanks : ∀ c ∈ blanks, Text.isBlank c = true) (hds : ∀ c ∈ ds, c.isDigit = true)
    (hne : ds ≠ []) : blanks = [] := by
  cases blanks with
  | nil => rfl
  | cons b blanks =>
      cases ds with
      | nil => exact absurd rfl hne
      | cons d ds =>
          obtain rfl : b = d := (List.cons.inj h).1
          have hblank := hblanks b List.mem_cons_self
          rw [isBlank_of_isDigit (hds b List.mem_cons_self)] at hblank
          cases hblank

/-- Digits that no digit follows are the number, if the width has room for them. -/
theorem IsNumber.eq_of_digits {width n : Nat} (h : IsNumber width rest piece n)
    (heq : piece ++ rest = ds ++ rest') (hds : ∀ c ∈ ds, c.isDigit = true) (hne : ds ≠ [])
    (hlength : ds.length ≤ width) (hstop : Stops Char.isDigit rest') : piece = ds := by
  obtain @⟨blanks, ds', hblanks, hds', -, -, hstop'⟩ := h
  rw [List.append_assoc] at heq
  obtain rfl := eq_nil_of_digits heq hblanks hds hne
  rw [List.nil_append] at heq ⊢
  rcases hstop' with hfull | hrest
  · have hrun : ds = ds' ++ rest.takeWhile Char.isDigit := by
      rw [← List.takeWhile_append_of_pos hds', heq, Text.takeWhile_append_of_stops hds hstop]
    have hsame : ds'.length = ds.length := by
      have := congrArg List.length hrun
      rw [List.length_append] at this
      omega
    exact (List.append_inj heq hsame).1
  · exact eq_of_runs heq hds' hds hrest hstop

theorem IsYear.eq_of_digits {year : Int} (h : IsYear rest piece year)
    (heq : piece ++ rest = ds ++ rest') (hds : ∀ c ∈ ds, c.isDigit = true) (hne : ds ≠ [])
    (hlength : ds.length ≤ 4) (hstop : Stops Char.isDigit rest') : piece = ds := by
  cases h with
  | plain h => exact h.eq_of_digits heq hds hne hlength hstop
  | @signed blanks ds' sign hblanks hsign =>
      rw [List.append_assoc] at heq
      obtain rfl := eq_nil_of_digits heq hblanks hds hne
      cases ds with
      | nil => exact absurd rfl hne
      | cons d ds =>
          obtain rfl : sign = d := (List.cons.inj heq).1
          have hdigit := hds sign List.mem_cons_self
          rcases hsign with rfl | rfl
          · cases hdigit
          · cases hdigit

namespace Part

/-- The text cannot be more of a piece of the part. -/
def Ends : Part → (rest : List Char) → Prop
  | .mark _, _ | .halfDay, _ => True
  | .gap, rest => Stops Text.isBlank rest
  | _, rest => Stops Char.isDigit rest

theorem ends_nil (part : Part) : part.Ends [] := by
  cases part with
  | mark | halfDay => trivial
  | gap | year | month | day | hour | halfDayHour | minute | second => exact Text.stops_nil

theorem ends_of_bounds {part : Part} {low high : Nat} (h : part.bounds? = some (low, high)) :
    part.Ends rest = Stops Char.isDigit rest := by
  cases part with
  | mark | gap | year | halfDay => cases h
  | month | day | hour | halfDayHour | minute | second => rfl

theorem Usual.digits_of_bounds {least low high : Nat} (hleast : 0 < least) {part : Part}
    (hbounds : part.bounds? = some (low, high)) (h : part.Usual least ds) :
    (∀ c ∈ ds, c.isDigit = true) ∧ ds ≠ [] ∧ ds.length ≤ 2 := by
  cases part with
  | mark | gap | year | halfDay => cases hbounds
  | month | day | hour | halfDayHour => exact ⟨h.1, IsDigits.ne_nil h hleast, h.2.2⟩
  | minute | second => exact ⟨h.1, IsDigits.ne_nil h (by decide), h.2.2⟩

/-- **A usual piece is the one that is taken**, where it ends. -/
theorem Takes.eq_of_usual {least : Nat} (hleast : 0 < least) {part : Part} {r r' : Reading}
    (h : part.Takes r rest piece r') (hds : part.Usual least ds) (hends : part.Ends rest')
    (heq : piece ++ rest = ds ++ rest') : piece = ds := by
  cases h with
  | mark c => exact hds.symm
  | gap hblanks hstop =>
      obtain rfl := hds
      exact eq_of_runs heq hblanks (List.forall_mem_singleton.mpr rfl) hstop hends
  | year h => exact h.eq_of_digits heq hds.1 (IsDigits.ne_nil hds (by decide)) hds.2.2 hends
  | number hbounds h _ _ =>
      rw [ends_of_bounds hbounds] at hends
      obtain ⟨hdigits, hne, hlength⟩ := hds.digits_of_bounds hleast hbounds
      exact h.eq_of_digits heq hdigits hne hlength hends
  | halfDay =>
      obtain ⟨c, m, rfl, -, -⟩ := hds
      exact (List.append_inj heq rfl).1

/-! ### Patterns whose pieces end -/

/-- A piece of the first part ends where a usual piece of the second begins: behind a number there
is a mark or a gap, and behind a gap no other one. -/
def apart : Part → Part → Bool
  | .mark _, _ | .halfDay, _ => true
  | .gap, next => next.bounds?.isSome || next == .halfDay
  | _, .gap => true
  | _, .mark c => !c.isDigit
  | _, _ => false

theorem Usual.ends_gap {least : Nat} (hleast : 0 < least) {next : Part}
    (hnext : Part.gap.apart next = true) (h : next.Usual least piece) :
    Part.gap.Ends (piece ++ rest) := by
  cases next with
  | mark | gap | year => cases hnext
  | month | day | hour | halfDayHour => exact IsDigits.stops_isBlank h hleast rest
  | minute | second => exact IsDigits.stops_isBlank h (by decide) rest
  | halfDay =>
      obtain ⟨c, m, rfl, hc, -⟩ := h
      refine Text.stops_cons.mpr ?_
      simp only [List.mem_cons, List.not_mem_nil, or_false] at hc
      rcases hc with rfl | rfl | rfl | rfl <;> rfl

theorem Usual.ends {least : Nat} (hleast : 0 < least) {part next : Part}
    (hnext : part.apart next = true) (h : next.Usual least piece) : part.Ends (piece ++ rest) := by
  cases part with
  | mark | halfDay => trivial
  | gap => exact h.ends_gap hleast hnext
  | year | month | day | hour | halfDayHour | minute | second =>
      cases next with
      | mark c =>
          obtain rfl := h
          exact Text.stops_cons.mpr ((Bool.not_eq_true' _).mp hnext)
      | gap =>
          obtain rfl := h
          exact Text.stops_cons.mpr rfl
      | _ => cases hnext

end Part

theorem leastDigits_pos (pattern : List Part) : 0 < leastDigits pattern := by
  unfold leastDigits
  split <;> decide

theorem isChain_apart : ∀ pattern ∈ reportPatterns, pattern.IsChain (·.apart · = true) := by
  decide

/-- **The usual pieces of a text are the ones it falls into.** -/
theorem Follows.eq_of_usual {least : Nat} (hleast : 0 < least) {parts : List Part} {r r' : Reading}
    {pieces : List (List Char)} (h : Follows parts r pieces r') :
    ∀ {usual : List (List Char)}, parts.IsChain (·.apart · = true) →
      List.Forall₂ (Part.Usual least) parts usual → pieces.flatten = usual.flatten →
      pieces = usual := by
  induction h with
  | nil =>
      intro usual _ husual _
      cases husual
      rfl
  | @cons part parts r r' r'' piece rest hpiece hrest ih =>
      intro usual hchain husual heq
      cases husual with
      | @cons _ piece' _ usual hpiece' husual =>
          rw [List.flatten_cons, List.flatten_cons] at heq
          have hends : part.Ends usual.flatten := by
            cases husual with
            | nil => exact part.ends_nil
            | cons hnext _ =>
                exact hnext.ends hleast (List.isChain_cons_cons.mp hchain).1
          obtain rfl := hpiece.eq_of_usual hleast hpiece' hends heq
          rw [ih hchain.tail husual (List.append_cancel_left heq)]

/-! ### One pattern at most -/

theorem exists_digits_of_usual {least : Nat} (hleast : 0 < least) {part : Part} {c : Char}
    {parts : List Part} {pieces : List (List Char)} (hpart : BeginsReport part)
    (h : List.Forall₂ (Part.Usual least) (part :: .mark c :: parts) pieces) :
    ∃ ds rest, pieces.flatten = ds ++ c :: rest ∧ (∀ c ∈ ds, c.isDigit = true) ∧ ds ≠ [] ∧
      ds.length ≤ 4 := by
  cases h with
  | @cons _ ds _ _ hfirst hrest =>
      cases hrest with
      | cons hmark hrest =>
          obtain rfl := hmark
          refine ⟨ds, _, rfl, ?_⟩
          rcases hpart with rfl | rfl
          · exact ⟨hfirst.1, IsDigits.ne_nil hfirst hleast, hfirst.2.2.trans (by decide)⟩
          · exact ⟨hfirst.1, IsDigits.ne_nil hfirst (by decide), hfirst.2.2⟩

/-- The mark behind the first number is the same in what a text follows and in its usual pieces. -/
theorem Follows.mark_eq {least : Nat} (hleast : 0 < least) {part part' : Part} {c d : Char}
    {parts parts' : List Part} {r r' : Reading} {pieces usual : List (List Char)}
    (hpart : BeginsReport part) (hpart' : BeginsReport part') (hc : c.isDigit = false)
    (hd : d.isDigit = false) (h : Follows (part :: .mark c :: parts) r pieces r')
    (husual : List.Forall₂ (Part.Usual least) (part' :: .mark d :: parts') usual)
    (heq : pieces.flatten = usual.flatten) : c = d := by
  obtain ⟨piece, rest, year, hpieces, hyear⟩ := exists_isYear_of_follows hpart hc h
  obtain ⟨ds, rest', husual, hds, hne, hlength⟩ := exists_digits_of_usual hleast hpart' husual
  rw [hpieces, husual] at heq
  obtain rfl := hyear.eq_of_digits heq hds hne hlength (Text.stops_cons.mpr hd)
  exact (List.cons.inj (List.append_cancel_left heq)).1

theorem Follows.pattern_eq {pattern pattern' : List Part} (hpattern : pattern ∈ reportPatterns)
    (hpattern' : pattern' ∈ reportPatterns) {pieces usual : List (List Char)} {r : Reading}
    (h : Follows pattern {} pieces r) (husual : UsualPieces pattern' usual)
    (heq : pieces.flatten = usual.flatten) : pattern = pattern' := by
  have hleast := leastDigits_pos pattern'
  unfold UsualPieces at husual
  generalize leastDigits pattern' = least at hleast husual
  simp only [reportPatterns, List.mem_cons, List.not_mem_nil, or_false] at hpattern hpattern'
  rcases hpattern with rfl | rfl
  · rcases hpattern' with rfl | rfl
    · rfl
    · have hmark : '/' = '-' := h.mark_eq hleast (.inl rfl) (.inr rfl) rfl rfl husual heq
      exact absurd hmark (by decide)
  · rcases hpattern' with rfl | rfl
    · have hmark : '-' = '/' := h.mark_eq hleast (.inr rfl) (.inl rfl) rfl rfl husual heq
      exact absurd hmark (by decide)
    · rfl

/-- **A text that follows a pattern is a usual one exactly if its pieces are the usual ones.** -/
theorem usual_iff {pattern : List Part} (hpattern : pattern ∈ reportPatterns)
    {pieces : List (List Char)} {t : Instant} (h : Names pattern pieces t) :
    Usual pieces.flatten ↔ UsualPieces pattern pieces := by
  obtain ⟨r, hfollows, -⟩ := h
  constructor
  · rintro ⟨pattern', hpattern', usual, heq, husual⟩
    obtain rfl := hfollows.pattern_eq hpattern hpattern' husual heq.symm
    rw [hfollows.eq_of_usual (leastDigits_pos pattern) (isChain_apart pattern hpattern) husual
      heq.symm]
    exact husual
  · intro husual
    exact ⟨pattern, hpattern, pieces, rfl, husual⟩

/-! ### The length of a usual text -/

/-- How long a usual piece is at least. -/
def Part.leastLength (least : Nat) : Part → Nat
  | .mark _ | .gap => 1
  | .year => 4
  | .month | .day | .hour | .halfDayHour => least
  | .minute | .second | .halfDay => 2

theorem Part.Usual.le_length {least : Nat} {part : Part} (h : part.Usual least piece) :
    part.leastLength least ≤ piece.length := by
  cases part with
  | mark | gap =>
      obtain rfl := h
      exact le_rfl
  | year | month | day | hour | halfDayHour | minute | second => exact h.2.1
  | halfDay =>
      obtain ⟨c, m, rfl, -, -⟩ := h
      exact le_rfl

theorem sum_leastLength_le {least : Nat} {parts : List Part} {pieces : List (List Char)}
    (h : List.Forall₂ (Part.Usual least) parts pieces) :
    (parts.map (Part.leastLength least)).sum ≤ pieces.flatten.length := by
  induction h with
  | nil => exact le_rfl
  | cons hpiece _ ih =>
      rw [List.map_cons, List.sum_cons, List.flatten_cons, List.length_append]
      exact Nat.add_le_add hpiece.le_length ih

/-- A usual text has nineteen characters at least. -/
theorem Usual.le_length {cs : List Char} (h : Usual cs) : 19 ≤ cs.length := by
  obtain ⟨pattern, hpattern, pieces, rfl, hpieces⟩ := h
  have hsum : ∀ pattern ∈ reportPatterns,
      19 ≤ (pattern.map (Part.leastLength (leastDigits pattern))).sum := by
    decide
  exact (hsum pattern hpattern).trans (sum_leastLength_le hpieces)

end RollCall.Instant
