/-
How the parts of a written query are scanned.

Words, numerals, quoted texts, spans and instants are taken one after the other.  For
each it is said what is left of a text that begins with it, under a condition on what
follows; `Delimited` implies all of these conditions.

Two kinds of literals may be written in a form that no token has.  What is not a
number, or infinite, is written as a word, and no such word is known; and the hours of
a span may take more than two digits, so that they are scanned as a numeral and leave
a colon.  In both cases the scan fails, wherever the literal stands.
-/
import RollCall.Proofs.Query.Scan
import RollCall.Query.Expr

namespace RollCall.Query

/-- What may follow a part of a written query: a space, a closing bracket or the end. -/
def Delimited (cs : List Char) : Prop :=
  Text.Stops (fun c => c != ' ' && c != ')') cs

theorem Delimited.head {cs : List Char} (h : Delimited cs) {c : Char} (hc : cs.head? = some c) :
    c = ' ' ∨ c = ')' := by
  have hstop := h c hc
  simp only [Bool.and_eq_false_iff, bne_eq_false_iff_eq] at hstop
  exact hstop

theorem Delimited.stops {cs : List Char} {p : Char → Bool} (h : Delimited cs)
    (hspace : p ' ' = false) (hclosing : p ')' = false) : Text.Stops p cs := by
  intro c hc
  rcases h.head hc with rfl | rfl
  · exact hspace
  · exact hclosing

theorem delimited_nil : Delimited [] :=
  Text.stops_nil

theorem delimited_space (cs : List Char) : Delimited (' ' :: cs) :=
  Text.stops_cons.mpr rfl

theorem delimited_closing (cs : List Char) : Delimited (')' :: cs) :=
  Text.stops_cons.mpr rfl

/-- A token that is all of a text but what follows. -/
theorem symbols?_append {c : Char} {cs rest : List Char} {s : Symbol}
    (hblank : Text.isBlank c = false) (h : Token.scan c (cs ++ rest) = .ok (s, cs.length)) :
    symbols? (c :: cs ++ rest) = (symbols? rest).map (s :: ·) := by
  have hscan := symbols?_of_scan hblank h
  rwa [List.drop_left] at hscan

theorem symbols?_opening (cs : List Char) :
    symbols? ('(' :: cs) = (symbols? cs).map (.opening :: ·) := by
  have hscan : Token.scan '(' cs = .ok (.opening, 0) := rfl
  exact symbols?_of_scan rfl hscan

theorem symbols?_closing (cs : List Char) :
    symbols? (')' :: cs) = (symbols? cs).map (.closing :: ·) := by
  have hscan : Token.scan ')' cs = .ok (.closing, 0) := rfl
  exact symbols?_of_scan rfl hscan

theorem symbols?_space (cs : List Char) : symbols? (' ' :: cs) = symbols? cs :=
  symbols?_blank rfl cs

namespace Token

/-! ### Words -/

theorem letter_bounds {c : Char} (h : beginsWord c = true) :
    65 ≤ c.toNat ∧ c.toNat ≤ 90 ∨ 97 ≤ c.toNat ∧ c.toNat ≤ 122 ∨ c.toNat = 95 := by
  have hletter : ((decide (c.val ≥ 65 ∧ c.val ≤ 90) ||
      decide (c.val ≥ 97) && decide (c.val ≤ 122)) || c == '_') = true := h
  simp only [Bool.or_eq_true, Bool.and_eq_true, decide_eq_true_eq, ge_iff_le,
    UInt32.le_iff_toNat_le, beq_iff_eq] at hletter
  rcases hletter with (h | h) | rfl
  · exact .inl h
  · exact .inr (.inl h)
  · exact .inr (.inr rfl)

theorem isBlank_of_beginsWord {c : Char} (h : beginsWord c = true) : Text.isBlank c = false := by
  have hbounds := letter_bounds h
  simp only [Text.isBlank, Bool.or_eq_false_iff, Bool.and_eq_false_iff, decide_eq_false_iff_not,
    beq_eq_false_iff_ne]
  omega

theorem isDigit_of_beginsWord {c : Char} (h : beginsWord c = true) : c.isDigit = false := by
  have hbounds := letter_bounds h
  rw [← Bool.not_eq_true]
  intro hdigit
  have hdigits := Text.digit_bounds hdigit
  omega

theorem scan_of_beginsWord {c : Char} (h : beginsWord c = true) (cs : List Char) :
    scan c cs = scanWord c cs := by
  have hne : ∀ d, beginsWord d = false → c ≠ d := fun d => Text.ne_of_class h
  simp [scan, hne '(' rfl, hne ')' rfl, hne '%' rfl, hne '=' rfl, hne '!' rfl, hne '<' rfl,
    hne '>' rfl, hne '"' rfl, hne '+' rfl, hne '-' rfl, hne '.' rfl, h, isDigit_of_beginsWord h]

/-- The characters of a word. -/
def isWord : List Char → Bool
  | [] => false
  | c :: cs => beginsWord c && cs.all continuesWord

/-- **A word is looked up as a whole.** -/
theorem symbols?_word {word : String} {rest : List Char} (hword : isWord word.toList = true)
    (hrest : Delimited rest) :
    symbols? (word.toList ++ rest) =
      (Symbol.ofWord? word).bind fun s => (symbols? rest).map (s :: ·) := by
  have hspell : String.ofList word.toList = word := String.ofList_toList
  cases hcs : word.toList with
  | nil => simp [hcs, isWord] at hword
  | cons c cs =>
      rw [hcs] at hword hspell
      simp only [isWord, Bool.and_eq_true, List.all_eq_true] at hword
      obtain ⟨hc, hcs⟩ := hword
      have htake : (cs ++ rest).takeWhile continuesWord = cs :=
        Text.takeWhile_append_of_stops hcs (hrest.stops rfl rfl)
      cases hlook : Symbol.ofWord? word with
      | none =>
          have hscan : scan c (cs ++ rest) = .error (.unknownWord word) := by
            rw [scan_of_beginsWord hc]
            simp only [scanWord, htake, hspell, hlook]
          exact symbols?_of_fault (isBlank_of_beginsWord hc) hscan
      | some s =>
          have hscan : scan c (cs ++ rest) = .ok (s, cs.length) := by
            rw [scan_of_beginsWord hc]
            simp only [scanWord, htake, hspell, hlook]
          exact symbols?_append (isBlank_of_beginsWord hc) hscan

/-! ### Shapes -/

/-- Digits fit as many nines. -/
theorem fits_digits {ds : List Char} (hds : ∀ c ∈ ds, c.isDigit = true) (shape rest : List Char) :
    fits (List.replicate ds.length '9' ++ shape) (ds ++ rest) = fits shape rest := by
  induction ds with
  | nil => rfl
  | cons c ds ih =>
      have hc := hds c List.mem_cons_self
      simp [List.replicate_succ, fits, hc, ih fun d hd => hds d (List.mem_cons_of_mem _ hd)]

theorem fits_padded {width n : Nat} [NeZero width] (h : n < 10 ^ width) (shape rest : List Char) :
    fits (List.replicate width '9' ++ shape) (Text.padded width n ++ rest) = fits shape rest := by
  have hfits := fits_digits (Text.isDigit_padded width n) shape rest
  rwa [Text.length_padded h] at hfits

/-- A shape that begins with nines and a mark tells how many digits a text begins with, and what
follows them. -/
theorem run_of_fits {k : Nat} {m : Char} {shape : List Char} (hmark : m.isDigit = false) :
    ∀ {ds rest : List Char}, (∀ c ∈ ds, c.isDigit = true) → Text.Stops Char.isDigit rest →
      fits (List.replicate k '9' ++ m :: shape) (ds ++ rest) = true →
      ds.length = k ∧ rest.head? = some m := by
  have hm : m ≠ '9' := by
    rintro rfl
    cases hmark
  induction k with
  | zero =>
      intro ds rest hds hrest h
      cases ds with
      | nil =>
          cases rest with
          | nil => simp [fits] at h
          | cons c rest =>
              simp only [List.replicate_zero, List.nil_append, fits, hm, if_false, Bool.and_eq_true,
                beq_iff_eq] at h
              exact ⟨rfl, by simp [h.1]⟩
      | cons c ds =>
          simp only [List.replicate_zero, List.nil_append, List.cons_append, fits, hm, if_false,
            Bool.and_eq_true, beq_iff_eq] at h
          have hc := hds c List.mem_cons_self
          rw [h.1, hmark] at hc
          cases hc
  | succ k ih =>
      intro ds rest hds hrest h
      cases ds with
      | nil =>
          cases rest with
          | nil => simp [List.replicate_succ, fits] at h
          | cons c rest =>
              have hc := Text.stops_cons.mp hrest
              simp [List.replicate_succ, fits, hc] at h
      | cons c ds =>
          simp only [List.replicate_succ, List.cons_append, fits, if_true, Bool.and_eq_true] at h
          obtain ⟨hlength, hhead⟩ := ih (fun d hd => hds d (List.mem_cons_of_mem _ hd)) hrest h.2
          exact ⟨by simp [hlength], hhead⟩

/-! ### Numerals -/

theorem scan_of_isDigit {c : Char} (h : c.isDigit = true) (cs : List Char) :
    scan c cs = scanDigits c cs := by
  have hne : ∀ d, d.isDigit = false → c ≠ d := fun d => Text.ne_of_class h
  simp [scan, hne '(' rfl, hne ')' rfl, hne '%' rfl, hne '=' rfl, hne '!' rfl, hne '<' rfl,
    hne '>' rfl, hne '"' rfl, h]

theorem scanNumeral_append {n : Binary64.Numeral} (hn : n.WellFormed) {c : Char}
    {cs rest : List Char} (htext : n.text = c :: cs) (hrest : Text.Stops Binary64.goesOn rest) :
    scanNumeral c (cs ++ rest) = .ok (.literal (.number n.value), cs.length) := by
  have hread := hn.read?_append hrest
  rw [htext, List.cons_append] at hread
  simp [scanNumeral, hread, htext]

/-- A numeral is scanned as one, unless together with what follows it has the shape of an instant
or of a span. -/
theorem symbols?_numeral {n : Binary64.Numeral} (hn : n.WellFormed) {rest : List Char}
    (hrest : Text.Stops Binary64.goesOn rest)
    (hinstant : fits instantShape (n.text ++ rest) = false)
    (hspan : fits spanShape (n.text ++ rest) = false) :
    symbols? (n.text ++ rest) = (symbols? rest).map (.literal (.number n.value) :: ·) := by
  obtain ⟨c, cs, htext, hc⟩ := hn.text_eq_cons
  have hnumeral := scanNumeral_append hn htext hrest
  rw [htext, List.cons_append] at hinstant hspan
  rw [htext]
  simp only [Binary64.isSign, Bool.or_eq_true, beq_iff_eq] at hc
  rcases hc with hc | (rfl | rfl) | rfl
  · refine symbols?_append (Instant.isBlank_of_isDigit hc) ?_
    rw [scan_of_isDigit hc]
    simp only [scanDigits, hinstant, hspan, Bool.false_eq_true, if_false]
    exact hnumeral
  · exact symbols?_append rfl hnumeral
  · exact symbols?_append rfl hnumeral
  · exact symbols?_append rfl hnumeral

/-- A numeral in front of a mark has the shape that begins with digits and this mark only if it is
these digits. -/
theorem fits_numeral_eq_false {n : Binary64.Numeral} (hn : n.WellFormed) {k : Nat} {m : Char}
    {shape rest : List Char} (hmark : Binary64.goesOn m = false)
    (hrest : Text.Stops Binary64.goesOn rest)
    (h : n.text.length = k + 1 → rest.head? ≠ some m) :
    fits (List.replicate (k + 1) '9' ++ m :: shape) (n.text ++ rest) = false := by
  rw [← Bool.not_eq_true]
  intro hfits
  rw [n.text_eq] at h hfits
  cases hsign : n.sign with
  | some c =>
      have hc : c.isDigit = false := Binary64.isDigit_of_isSign (hn.sign c hsign)
      simp [hsign, List.replicate_succ, fits, hc] at hfits
  | none =>
      simp only [hsign, Option.toList_none, List.nil_append, List.append_assoc] at h hfits
      have hdigit : m.isDigit = false := Binary64.isDigit_of_goesOn hmark
      obtain ⟨hlength, hhead⟩ := run_of_fits hdigit hn.whole (hn.stops_behindWhole hrest) hfits
      cases hbehind : n.behindWhole with
      | nil =>
          rw [hbehind] at h hhead
          exact h (by simp [hlength]) hhead
      | cons c cs =>
          rw [hbehind, List.cons_append, List.head?_cons, Option.some.injEq] at hhead
          subst hhead
          rcases hn.head_behindWhole (by rw [hbehind]; rfl) with rfl | rfl | rfl <;> cases hmark

/-- **A finite number is scanned as it was written.** -/
theorem symbols?_number {x : Binary64} (hfinite : x.isFinite = true) {rest : List Char}
    (hrest : Delimited rest) :
    symbols? (x.text ++ rest) = (symbols? rest).map (.literal (.number x) :: ·) := by
  obtain ⟨n, hn, htext, hvalue⟩ := Binary64.exists_numeral hfinite
  have hstops : Text.Stops Binary64.goesOn rest := hrest.stops rfl rfl
  have hhead : ∀ m, m ≠ ' ' → m ≠ ')' → rest.head? ≠ some m := by
    intro m hspace hclosing h
    rcases hrest.head h with hm | hm
    · exact hspace hm
    · exact hclosing hm
  rw [← htext, ← hvalue]
  refine symbols?_numeral hn hstops ?_ ?_
  · exact fits_numeral_eq_false (k := 3) (m := '-') hn rfl hstops
      fun _ => hhead '-' (by decide) (by decide)
  · exact fits_numeral_eq_false (k := 1) (m := ':') hn rfl hstops
      fun _ => hhead ':' (by decide) (by decide)

/-- What is infinite or not a number is written in a form that no token has. -/
theorem symbols?_number_of_not_finite {x : Binary64} (h : x.isFinite = false) {rest : List Char}
    (hrest : Delimited rest) : symbols? (x.text ++ rest) = none := by
  by_cases hnan : x.isNaN = true
  · have htext : x.text = "NaN".toList := by
      rw [Binary64.text, if_pos hnan]
      rfl
    rw [htext, symbols?_word rfl hrest]
    rfl
  · have hinfinite : x.isInfinite = true := by
      simp only [Binary64.isFinite, decide_eq_false_iff_not] at h
      simp only [Binary64.isNaN, decide_eq_true_eq] at hnan
      simp only [Binary64.isInfinite, beq_iff_eq]
      omega
    have htext : x.text = (if x.isNegative then ['-'] else []) ++ "inf".toList := by
      simp only [Binary64.text, hnan, hinfinite, Bool.false_eq_true, if_false, if_true]
      rfl
    cases hsign : x.isNegative with
    | false =>
        simp only [hsign, Bool.false_eq_true, if_false, List.nil_append] at htext
        rw [htext, symbols?_word rfl hrest]
        rfl
    | true =>
        simp only [hsign, if_true] at htext
        rw [htext]
        exact symbols?_of_fault rfl rfl

/-! ### Quoted texts -/

/-- A quoted text is scanned as the text that is read where it was written. -/
theorem symbols?_text (s : String) (rest : List Char) :
    symbols? ((Text.quoted s).toList ++ rest) =
      (symbols? rest).map (.literal (.text (rereadText s)) :: ·) := by
  have htext : (Text.quoted s).toList = '"' :: (s.toList.flatMap (Text.escape '"') ++ ['"']) := by
    simp [Text.quoted]
  rw [htext]
  refine symbols?_append rfl ?_
  have hread := readText_quoted s.toList rest
  simp [scan, scanText, hread, rereadText]

/-! ### Spans -/

/-- A number of two digits. -/
theorem padded_two {n : Nat} (h : n < 100) :
    ∃ a b, Text.padded 2 n = [a, b] ∧ a.isDigit = true ∧ Text.ofDigits [a, b] = n := by
  have hlength : (Text.padded 2 n).length = 2 := Text.length_padded h
  obtain ⟨a, b, hab⟩ := List.length_eq_two.mp hlength
  have hdigits := Text.isDigit_padded 2 n
  rw [hab] at hdigits
  exact ⟨a, b, hab, hdigits a List.mem_cons_self, by rw [← hab, Text.ofDigits_padded]⟩

/-- **A span below a hundred hours is scanned as it was written.** -/
theorem symbols?_clock {seconds : Nat} (h : seconds < 360000) (rest : List Char) :
    symbols? (Span.clockText 2 seconds ++ rest) =
      (symbols? rest).map (.literal (.span (.ofSeconds seconds)) :: ·) := by
  have hhours : seconds / 3600 < 10 ^ 2 := by omega
  have hspan : fits spanShape (Span.clockText 2 seconds ++ rest) = true := by
    simp only [Span.clockText, List.append_assoc, List.cons_append]
    refine (fits_padded hhours (':' :: List.replicate 2 '9' ++ ':' ::
      List.replicate 2 '9' ++ []) _).trans ?_
    refine (fits_padded (by omega : seconds % 3600 / 60 < 10 ^ 2)
      (':' :: List.replicate 2 '9' ++ []) _).trans ?_
    exact fits_padded (by omega : seconds % 60 < 10 ^ 2) [] rest
  have hinstant : fits instantShape (Span.clockText 2 seconds ++ rest) = false := by
    rw [← Bool.not_eq_true]
    intro hfits
    simp only [Span.clockText, List.append_assoc] at hfits
    obtain ⟨hlength, -⟩ := run_of_fits (k := 4) (m := '-') rfl (Text.isDigit_padded 2 _)
      (by simp) hfits
    rw [Text.length_padded hhours] at hlength
    cases hlength
  obtain ⟨a, b, hab, ha, hh⟩ := padded_two hhours
  obtain ⟨c, d, hcd, -, hm⟩ := padded_two (by omega : seconds % 3600 / 60 < 100)
  obtain ⟨e, f, hef, -, hs⟩ := padded_two (by omega : seconds % 60 < 100)
  have htext : Span.clockText 2 seconds = [a, b, ':', c, d, ':', e, f] := by
    rw [Span.clockText, hab, hcd, hef]
    rfl
  have hread : readSpan (Span.clockText 2 seconds ++ rest) = .ofSeconds seconds := by
    rw [readSpan_eq, htext]
    simp only [List.cons_append, List.take_succ_cons, List.take_zero, List.drop_succ_cons,
      List.drop_zero, hh, hm, hs]
    congr 2
    omega
  rw [htext] at hspan hinstant hread ⊢
  refine symbols?_append (Instant.isBlank_of_isDigit ha) ?_
  rw [scan_of_isDigit ha, scanDigits]
  simp only [List.cons_append] at hspan hinstant hread ⊢
  simp only [hspan, hinstant, hread, Bool.false_eq_true, if_false, if_true]
  rfl

/-- **Any longer span is written in a form that no token has**: its hours are taken for a number,
and the colon behind them for nothing. -/
theorem symbols?_clock_of_le {seconds : Nat} (h : 360000 ≤ seconds) (rest : List Char) :
    symbols? (Span.clockText 2 seconds ++ rest) = none := by
  have hhours : 10 ^ 2 ≤ seconds / 3600 := by omega
  obtain ⟨hpadded, hlong⟩ := Text.padded_of_le hhours
  let n : Binary64.Numeral := ⟨none, Text.digits (seconds / 3600), none, none⟩
  have hn : n.WellFormed :=
    ⟨by simp [n], Text.isDigit_digits _, by simp [n], .inl (Text.digits_ne_nil _), by simp [n]⟩
  have htext : n.text = Text.digits (seconds / 3600) := by simp [n, Binary64.Numeral.text]
  have hcolon : ∀ cs : List Char, symbols? (':' :: cs) = none :=
    fun cs => symbols?_of_fault rfl rfl
  rw [Span.clockText, hpadded, ← htext]
  simp only [List.append_assoc, List.cons_append]
  have hstops : ∀ cs : List Char, Text.Stops Binary64.goesOn (':' :: cs) :=
    fun cs => Text.stops_cons.mpr rfl
  rw [symbols?_numeral hn (hstops _) ?_ ?_, hcolon]
  · rfl
  · exact fits_numeral_eq_false (k := 3) (m := '-') hn rfl (hstops _) (by simp)
  · refine fits_numeral_eq_false (k := 1) (m := ':') hn rfl (hstops _) ?_
    intro hlength
    rw [htext] at hlength
    omega

/-! ### Instants -/

theorem fits_clockText {date : Date} {hour minute second : Nat} {t : Instant}
    (h : t.Shows date hour minute second) (rest : List Char) :
    fits instantShape (Instant.clockText date hour minute second ++ rest) = true ∧
      (Instant.clockText date hour minute second).length = instantShape.length := by
  obtain ⟨hclock, hlow, hhigh⟩ := h
  obtain ⟨hvalid, hhour, hminute, hsecond, -⟩ := Instant.ofClock?_eq_some hclock
  obtain ⟨-, hmonth, -, hday⟩ := Instant.valid_bounds hvalid
  have hyear : date.year.natAbs < 10 ^ 4 := by omega
  constructor
  · simp only [Instant.clockText, List.append_assoc, List.cons_append]
    refine (fits_padded hyear ('-' :: List.replicate 2 '9' ++ '-' ::
      List.replicate 2 '9' ++ ' ' :: spanShape) _).trans ?_
    refine (fits_padded (by omega : date.month < 10 ^ 2) ('-' ::
      List.replicate 2 '9' ++ ' ' :: spanShape) _).trans ?_
    refine (fits_padded (by omega : date.day < 10 ^ 2) (' ' :: spanShape) _).trans ?_
    refine (fits_padded (by omega : hour < 10 ^ 2) (':' :: List.replicate 2 '9' ++
      ':' :: List.replicate 2 '9' ++ []) _).trans ?_
    refine (fits_padded (by omega : minute < 10 ^ 2) (':' :: List.replicate 2 '9' ++
      []) _).trans ?_
    exact fits_padded (by omega : second < 10 ^ 2) [] rest
  · simp only [Instant.clockText, List.length_append, List.length_cons,
      Text.length_padded hyear,
      Text.length_padded (by omega : date.month < 10 ^ 2),
      Text.length_padded (by omega : date.day < 10 ^ 2),
      Text.length_padded (by omega : hour < 10 ^ 2),
      Text.length_padded (by omega : minute < 10 ^ 2),
      Text.length_padded (by omega : second < 10 ^ 2)]
    rfl

/-- **An instant that can be said is scanned as it was written.** -/
theorem symbols?_instant {date : Date} {hour minute second : Nat} {t : Instant}
    (h : t.Shows date hour minute second) (rest : List Char) :
    symbols? (t.text ++ rest) = (symbols? rest).map (.literal (.instant t) :: ·) := by
  obtain ⟨hfits, hlength⟩ := fits_clockText h rest
  have htake : (Instant.clockText date hour minute second ++ rest).take instantShape.length =
      Instant.clockText date hour minute second := List.take_left' hlength
  have hread := Instant.read?_clockText h
  rw [Instant.text_of_shows h]
  obtain ⟨c, ds, hyear, hc⟩ := Text.padded_eq_cons 4 date.year.natAbs
  cases hcs : Instant.clockText date hour minute second with
  | nil => simp [Instant.clockText] at hcs
  | cons d cs =>
      have hd : d = c := by
        rw [Instant.clockText, hyear] at hcs
        exact (List.cons.inj hcs).1.symm
      rw [hcs] at hfits htake hread hlength
      rw [List.cons_append] at hfits htake
      rw [hd] at hfits htake hread ⊢
      refine symbols?_append (Instant.isBlank_of_isDigit hc) ?_
      rw [scan_of_isDigit hc]
      simp only [scanDigits, hfits, htake, hread, if_true]
      rw [← hlength]
      rfl

end Token

end RollCall.Query
