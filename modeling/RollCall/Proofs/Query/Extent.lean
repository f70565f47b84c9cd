/-
How far a token reaches.

What is scanned off the front of a text is decided by the characters that are taken and
by at most one behind them: whether an equals sign makes one operator of two characters,
whether a word or a numeral goes on, whether a numeral has the shape of a span after all.
No blank is any of these.  So a token that has been found is found again wherever its
characters stand in front of a blank or at the end, and `Local` says this of each of the
ways to scan.

An instant and a text may have blanks within them.  These are characters of the token, and
stay as they are.
-/
import RollCall.Proofs.Query.Written

namespace RollCall.Query

/-- The end, or a blank and anything behind it. -/
def Separated (cs : List Char) : Prop :=
  Text.Stops (fun c => !Text.isBlank c) cs

theorem separated_nil : Separated [] :=
  Text.stops_nil

theorem separated_of_blank {c : Char} (h : Text.isBlank c = true) (cs : List Char) :
    Separated (c :: cs) :=
  Text.stops_cons.mpr (by simp [h])

/-- Behind a blank nothing goes on that no blank belongs to. -/
theorem Separated.stops {p : Char → Bool} {cs : List Char} (h : Separated cs)
    (hp : ∀ c, p c = true → Text.isBlank c = false) : Text.Stops p cs := by
  intro c hc
  have hblank : Text.isBlank c = true := by simpa using h c hc
  rw [← Bool.not_eq_true]
  intro hpc
  rw [hp c hpc] at hblank
  cases hblank

theorem Separated.head?_ne {m : Char} {cs : List Char} (h : Separated cs)
    (hm : Text.isBlank m = false) : cs.head? ≠ some m := by
  intro hc
  have hblank : Text.isBlank m = true := by simpa using h m hc
  rw [hm] at hblank
  cases hblank

namespace Token

theorem isDigit_or_beginsWord {c : Char} (h : continuesWord c = true) :
    c.isDigit = true ∨ beginsWord c = true := by
  simp only [continuesWord, Char.isAlphanum, Bool.or_eq_true] at h
  rcases h with (h | h) | h
  · exact .inr (by simp [beginsWord, h])
  · exact .inl h
  · exact .inr (by simp [beginsWord, h])

theorem isBlank_of_continuesWord {c : Char} (h : continuesWord c = true) :
    Text.isBlank c = false :=
  (isDigit_or_beginsWord h).elim Instant.isBlank_of_isDigit isBlank_of_beginsWord

theorem isBlank_of_goesOn {c : Char} (h : Binary64.goesOn c = true) : Text.isBlank c = false := by
  simp only [Binary64.goesOn, Bool.or_eq_true, beq_iff_eq] at h
  rcases h with ((h | rfl) | rfl) | rfl
  · exact Instant.isBlank_of_isDigit h
  · rfl
  · rfl
  · rfl

/-! ### Ways to scan -/

theorem of_ite {P : (List Char → Except Fault (Symbol × Nat)) → Prop} {p : Prop} [Decidable p]
    {f g : List Char → Except Fault (Symbol × Nat)} (hf : P f) (hg : P g) :
    P fun cs => if p then f cs else g cs := by
  by_cases h : p
  · simpa only [if_pos h] using hf
  · simpa only [if_neg h] using hg

/-- The first character decides for one of the ways to scan, so what holds of each of them holds of
the scan. -/
theorem scan_of_ways {P : (List Char → Except Fault (Symbol × Nat)) → Prop} (c : Char)
    (hsingle : ∀ s, P fun _ => .ok (s, 0)) (herror : ∀ f, P fun _ => .error f)
    (hoperator : P (scanOperator c)) (htext : P scanText) (hdigits : P (scanDigits c))
    (hnumeral : P (scanNumeral c)) (hword : P (scanWord c)) : P (scan c) := by
  unfold scan
  refine of_ite (hsingle _) (of_ite (hsingle _) (of_ite (hsingle _) ?_))
  refine of_ite hoperator (of_ite htext ?_)
  exact of_ite hdigits (of_ite hnumeral (of_ite hword (herror _)))

/-- A way to scan what follows the first character of a token: what it takes stands in front of
the rest, and is taken again in front of a blank or the end. -/
def Local (scanRest : List Char → Except Fault (Symbol × Nat)) : Prop :=
  ∀ cs s n, scanRest cs = .ok (s, n) →
    ∃ taken rest, cs = taken ++ rest ∧ n = taken.length ∧
      ∀ rest, Separated rest → scanRest (taken ++ rest) = .ok (s, n)

theorem local_error (f : Fault) : Local fun _ => .error f := by
  intro cs s n h
  cases h

/-- A symbol of one character. -/
theorem local_single (s : Symbol) : Local fun _ => .ok (s, 0) := by
  intro cs t n h
  obtain ⟨-, rfl⟩ := Prod.mk.inj (Except.ok.inj h)
  exact ⟨[], cs, rfl, rfl, fun _ _ => h⟩

/-- The equals sign behind its first character is all that an operator has. -/
theorem length_scanOperator {c : Char} {cs : List Char} {s : Symbol} {n : Nat}
    (h : scanOperator c cs = .ok (s, n)) : n = if cs.head? = some '=' then 1 else 0 := by
  simp only [scanOperator] at h
  split at h
  all_goals cases h
  all_goals rename_i heq; simp only [beq_iff_eq, beq_eq_false_iff_ne] at heq; simp [heq]

theorem scanOperator_congr {c : Char} {cs ds : List Char}
    (h : cs.head? = some '=' ↔ ds.head? = some '=') : scanOperator c cs = scanOperator c ds := by
  have hhead : (cs.head? == some '=') = (ds.head? == some '=') := by
    rw [Bool.eq_iff_iff, beq_iff_eq, beq_iff_eq]
    exact h
  simp only [scanOperator, hhead]

theorem local_scanOperator (c : Char) : Local (scanOperator c) := by
  intro cs s n h
  have hn := length_scanOperator h
  by_cases heq : cs.head? = some '='
  · obtain ⟨ds, rfl⟩ := List.head?_eq_some_iff.mp heq
    rw [if_pos heq] at hn
    exact ⟨['='], ds, rfl, hn, fun _ _ => h⟩
  · rw [if_neg heq] at hn
    refine ⟨[], cs, rfl, hn, fun rest hrest => ?_⟩
    rw [← h]
    exact scanOperator_congr ⟨fun hc => absurd hc (hrest.head?_ne rfl), fun hc => absurd hc heq⟩

/-- A text between quotation marks ends with the mark that closes it, whatever follows. -/
theorem readText_eq_some {cs text : List Char} {n : Nat} (h : readText cs = some (text, n)) :
    ∃ taken rest, cs = taken ++ rest ∧ n = taken.length ∧
      ∀ rest, readText (taken ++ rest) = some (text, n) := by
  fun_induction readText cs generalizing text n with
  | case1 => cases h
  | case2 =>
      obtain ⟨rfl, rfl⟩ := Prod.mk.inj (Option.some.inj h)
      exact ⟨['"'], [], rfl, rfl, readText_mark⟩
  | case3 c hc => cases h
  | case4 d cs =>
      obtain ⟨rfl, rfl⟩ := Prod.mk.inj (Option.some.inj h)
      exact ⟨['"'], d :: cs, rfl, rfl, readText_mark⟩
  | case5 d cs hmark ih =>
      obtain ⟨⟨text', m⟩, hread, h⟩ := Option.map_eq_some_iff.mp h
      obtain ⟨rfl, rfl⟩ := Prod.mk.inj h
      obtain ⟨taken, rest, rfl, rfl, hagain⟩ := ih hread
      refine ⟨'\\' :: d :: taken, rest, rfl, rfl, fun rest => ?_⟩
      rw [List.cons_append, List.cons_append, readText_backslash, hagain]
      rfl
  | case6 c d cs hmark hback ih =>
      obtain ⟨⟨text', m⟩, hread, h⟩ := Option.map_eq_some_iff.mp h
      obtain ⟨rfl, rfl⟩ := Prod.mk.inj h
      obtain ⟨taken, rest, hcs, rfl, hagain⟩ := ih hread
      refine ⟨c :: taken, rest, by rw [hcs, List.cons_append], rfl, fun rest => ?_⟩
      rw [List.cons_append, readText_cons hmark hback, hagain]
      rfl

/-- The text that has been scanned, and is scanned whatever follows it. -/
theorem scanText_eq_ok {cs : List Char} {s : Symbol} {n : Nat} (h : scanText cs = .ok (s, n)) :
    ∃ taken rest, cs = taken ++ rest ∧ n = taken.length ∧
      ∀ rest, scanText (taken ++ rest) = .ok (s, n) := by
  unfold scanText at h
  cases hread : readText cs with
  | none => simp [hread] at h
  | some r =>
      obtain ⟨text, m⟩ := r
      obtain ⟨taken, rest, rfl, rfl, hagain⟩ := readText_eq_some hread
      simp only [hread] at h
      obtain ⟨rfl, rfl⟩ := Prod.mk.inj (Except.ok.inj h)
      exact ⟨taken, rest, rfl, rfl, fun rest => by simp [scanText, hagain rest]⟩

theorem local_scanText : Local scanText := by
  intro cs s n h
  obtain ⟨taken, rest, rfl, hn, hagain⟩ := scanText_eq_ok h
  exact ⟨taken, rest, rfl, hn, fun rest _ => hagain rest⟩

/-- The numeral that has been scanned. -/
theorem scanNumeral_eq_ok {c : Char} {cs : List Char} {s : Symbol} {k : Nat}
    (h : scanNumeral c cs = .ok (s, k)) :
    ∃ (n : Binary64.Numeral) (taken rest : List Char),
      Binary64.Numeral.read? (c :: cs) = some n ∧ n.WellFormed ∧ n.text = c :: taken ∧
      cs = taken ++ rest ∧ k = taken.length ∧ s = .literal (.number n.value) := by
  unfold scanNumeral at h
  cases hread : Binary64.Numeral.read? (c :: cs) with
  | none => simp [hread] at h
  | some n =>
      simp only [hread] at h
      obtain ⟨rfl, rfl⟩ := Prod.mk.inj (Except.ok.inj h)
      obtain ⟨hn, rest, hcs⟩ := Binary64.Numeral.wellFormed_of_read? hread
      obtain ⟨d, taken, htext, -⟩ := hn.text_eq_cons
      rw [htext, List.cons_append] at hcs
      obtain ⟨rfl, rfl⟩ := List.cons.inj hcs
      exact ⟨n, taken, rest, rfl, hn, htext, rfl, by simp [htext], rfl⟩

theorem local_scanNumeral (c : Char) : Local (scanNumeral c) := by
  intro cs s k h
  obtain ⟨n, taken, rest, -, hn, htext, rfl, rfl, rfl⟩ := scanNumeral_eq_ok h
  refine ⟨taken, rest, rfl, rfl, fun rest hrest => ?_⟩
  exact scanNumeral_append hn htext (hrest.stops fun c => isBlank_of_goesOn)

/-! ### Shapes -/

theorem length_le_of_fits {shape cs : List Char} (h : fits shape cs = true) :
    shape.length ≤ cs.length := by
  induction shape generalizing cs with
  | nil => exact Nat.zero_le _
  | cons s shape ih =>
      cases cs with
      | nil => simp [fits] at h
      | cons c cs =>
          simp only [fits, Bool.and_eq_true] at h
          exact Nat.succ_le_succ (ih h.2)

/-- A shape is looked for in as many characters as it has. -/
theorem fits_take {shape : List Char} (cs : List Char) :
    fits shape (cs.take shape.length) = fits shape cs := by
  induction shape generalizing cs with
  | nil => rfl
  | cons s shape ih =>
      cases cs with
      | nil => rfl
      | cons c cs => simp [fits, ih]

/-- A text begins with a shape: with a digit for each nine of it, and else with its characters. -/
def Shaped (shape cs : List Char) : Prop :=
  ∃ front rest, cs = front ++ rest ∧
    List.Forall₂ (fun s c => if s = '9' then c.isDigit = true else c = s) shape front

theorem fits_iff {shape : List Char} : ∀ {cs : List Char}, fits shape cs = true ↔ Shaped shape cs := by
  induction shape with
  | nil =>
      intro cs
      exact ⟨fun _ => ⟨[], cs, rfl, .nil⟩, fun _ => rfl⟩
  | cons s shape ih =>
      intro cs
      constructor
      · intro h
        cases cs with
        | nil => simp [fits] at h
        | cons c cs =>
            rw [fits, Bool.and_eq_true] at h
            obtain ⟨front, rest, rfl, hshape⟩ := ih.mp h.2
            refine ⟨c :: front, rest, rfl, .cons ?_ hshape⟩
            simpa [apply_ite (· = true)] using h.1
      · rintro ⟨_, rest, rfl, hshape⟩
        obtain ⟨c, front, hc, htail, rfl⟩ := List.forall₂_cons_left_iff.mp hshape
        rw [List.cons_append, fits, Bool.and_eq_true]
        refine ⟨?_, ih.mpr ⟨front, rest, rfl, htail⟩⟩
        simpa [apply_ite (· = true)] using hc

/-- What has the shape of a span has a colon where an instant has a digit. -/
theorem fits_instantShape_eq_false {cs : List Char} (h : fits spanShape cs = true) :
    fits instantShape cs = false := by
  match cs with
  | [] => rfl
  | [_] => simp [spanShape, fits] at h
  | [_, _] => simp [spanShape, fits] at h
  | _ :: _ :: c :: _ =>
      have hc : c = ':' := by
        simp only [spanShape, fits, Bool.and_eq_true, Char.reduceEq, if_false, beq_iff_eq] at h
        exact h.2.2.1
      simp [instantShape, fits, hc]

/-- What has a shape keeps it in front of anything. -/
theorem fits_append {shape cs : List Char} (h : fits shape cs = true) (rest : List Char) :
    fits shape (cs ++ rest) = true := by
  rw [← fits_take, List.take_append_of_le_length (length_le_of_fits h), fits_take]
  exact h

/-- The characters that a shape has, and those behind them. -/
theorem exists_taken_of_fits {shape : List Char} {k : Nat} (hshape : shape.length = k + 1)
    {c : Char} {cs : List Char} (h : fits shape (c :: cs) = true) :
    ∃ taken rest, cs = taken ++ rest ∧ k = taken.length ∧ fits shape (c :: taken) = true := by
  have hlength := length_le_of_fits h
  rw [hshape, List.length_cons] at hlength
  have htaken : (cs.take k).length = k := List.length_take_of_le (Nat.le_of_succ_le_succ hlength)
  refine ⟨cs.take k, cs.drop k, (List.take_append_drop k cs).symm, htaken.symm, ?_⟩
  rw [← h, ← fits_take (c :: cs), hshape, List.take_succ_cons]

theorem readSpan_append {cs : List Char} (h : 8 ≤ cs.length) (rest : List Char) :
    readSpan (cs ++ rest) = readSpan cs := by
  have hpart : ∀ k ≤ 6, ((cs ++ rest).drop k).take 2 = (cs.drop k).take 2 := by
    intro k hk
    rw [List.drop_append_of_le_length (by omega),
      List.take_append_of_le_length (by rw [List.length_drop]; omega)]
  have hhours := hpart 0 (by decide)
  rw [List.drop_zero, List.drop_zero] at hhours
  rw [readSpan_eq, readSpan_eq, hhours, hpart 3 (by decide), hpart 6 (by decide)]

theorem length_scanDigits_instant {c : Char} {cs : List Char} {s : Symbol} {n : Nat}
    (hfits : fits instantShape (c :: cs) = true) (h : scanDigits c cs = .ok (s, n)) : n = 18 := by
  simp only [scanDigits, hfits, if_true] at h
  split at h
  · exact (Prod.mk.inj (Except.ok.inj h)).2.symm
  · cases h

theorem scanDigits_span {c : Char} {cs : List Char} (hfits : fits spanShape (c :: cs) = true) :
    scanDigits c cs = .ok (.literal (.span (readSpan (c :: cs))), 7) := by
  simp only [scanDigits, fits_instantShape_eq_false hfits, hfits, if_true, Bool.false_eq_true,
    if_false]
  rfl

/-- **What has a shape is scanned as that alone**, whatever stands behind it. -/
theorem scanDigits_append_of_fits {c : Char} {cs : List Char}
    (h : fits instantShape (c :: cs) = true ∨ fits spanShape (c :: cs) = true) (rest : List Char) :
    scanDigits c (cs ++ rest) = scanDigits c cs := by
  rcases h with h | h
  · have htake : (c :: (cs ++ rest)).take instantShape.length =
        (c :: cs).take instantShape.length := by
      rw [← List.cons_append, List.take_append_of_le_length (length_le_of_fits h)]
    have hmore := fits_append h rest
    rw [List.cons_append] at hmore
    simp only [scanDigits, h, hmore, htake, if_true]
  · have hmore := fits_append h rest
    rw [List.cons_append] at hmore
    rw [scanDigits_span h, scanDigits_span hmore, ← List.cons_append,
      readSpan_append (length_le_of_fits h)]

/-- What is scanned where a shape is has the shape itself. -/
theorem exists_shape_of_scanDigits {c : Char} {cs : List Char} {s : Symbol} {n : Nat}
    (hshape : fits instantShape (c :: cs) = true ∨ fits spanShape (c :: cs) = true)
    (h : scanDigits c cs = .ok (s, n)) :
    ∃ taken rest, cs = taken ++ rest ∧ n = taken.length ∧
      (fits instantShape (c :: taken) = true ∨ fits spanShape (c :: taken) = true) := by
  rcases hshape with hinstant | hspan
  · have hn := length_scanDigits_instant hinstant h
    obtain ⟨taken, rest, hcs, hk, htaken⟩ := exists_taken_of_fits (k := 18) rfl hinstant
    exact ⟨taken, rest, hcs, hn.trans hk, .inl htaken⟩
  · rw [scanDigits_span hspan] at h
    have hn := (Prod.mk.inj (Except.ok.inj h)).2
    obtain ⟨taken, rest, hcs, hk, htaken⟩ := exists_taken_of_fits (k := 7) rfl hspan
    exact ⟨taken, rest, hcs, hn.symm.trans hk, .inr htaken⟩

/-- A numeral has neither shape, if no mark of one follows. -/
theorem scanDigits_numeral {n : Binary64.Numeral} (hn : n.WellFormed) {c : Char}
    {cs rest : List Char} (htext : n.text = c :: cs) (hrest : Separated rest) :
    scanDigits c (cs ++ rest) = scanNumeral c (cs ++ rest) := by
  have hstops : Text.Stops Binary64.goesOn rest := hrest.stops fun c => isBlank_of_goesOn
  have hinstant : fits instantShape (n.text ++ rest) = false :=
    fits_numeral_eq_false (k := 3) (m := '-') hn rfl hstops fun _ => hrest.head?_ne rfl
  have hspan : fits spanShape (n.text ++ rest) = false :=
    fits_numeral_eq_false (k := 1) (m := ':') hn rfl hstops fun _ => hrest.head?_ne rfl
  rw [htext, List.cons_append] at hinstant hspan
  simp only [scanDigits, hinstant, hspan, Bool.false_eq_true, if_false]

theorem local_scanDigits (c : Char) : Local (scanDigits c) := by
  intro cs s n h
  by_cases hshape : fits instantShape (c :: cs) = true ∨ fits spanShape (c :: cs) = true
  · obtain ⟨taken, rest, rfl, hn, htaken⟩ := exists_shape_of_scanDigits hshape h
    rw [scanDigits_append_of_fits htaken] at h
    refine ⟨taken, rest, rfl, hn, fun rest' _ => ?_⟩
    rw [scanDigits_append_of_fits htaken, h]
  · obtain ⟨hinstant, hspan⟩ := not_or.mp hshape
    simp only [scanDigits, hinstant, hspan, Bool.false_eq_true, if_false] at h
    obtain ⟨m, taken, rest, -, hm, htext, rfl, rfl, rfl⟩ := scanNumeral_eq_ok h
    refine ⟨taken, rest, rfl, rfl, fun rest' hrest => ?_⟩
    rw [scanDigits_numeral hm htext hrest]
    exact scanNumeral_append hm htext (hrest.stops fun c => isBlank_of_goesOn)

/-! ### Words -/

/-- The word that has been scanned, and what stops it. -/
theorem scanWord_eq_ok {c : Char} {cs : List Char} {s : Symbol} {n : Nat}
    (h : scanWord c cs = .ok (s, n)) :
    ∃ run rest, cs = run ++ rest ∧ n = run.length ∧ (∀ d ∈ run, continuesWord d = true) ∧
      Text.Stops continuesWord rest ∧ Symbol.ofWord? (String.ofList (c :: run)) = some s := by
  obtain ⟨run, rest, rfl, hrun, hrest⟩ := Text.exists_run continuesWord cs
  simp only [scanWord, Text.takeWhile_append_of_stops hrun hrest] at h
  cases hlook : Symbol.ofWord? (String.ofList (c :: run)) with
  | none => rw [hlook] at h; cases h
  | some t =>
      simp only [hlook] at h
      obtain ⟨rfl, rfl⟩ := Prod.mk.inj (Except.ok.inj h)
      exact ⟨run, rest, rfl, rfl, hrun, hrest, hlook⟩

/-- A word that means something is scanned, if no character follows that it could go on with. -/
theorem scanWord_append {c : Char} {run rest : List Char} {s : Symbol}
    (hrun : ∀ d ∈ run, continuesWord d = true) (hrest : Text.Stops continuesWord rest)
    (hlook : Symbol.ofWord? (String.ofList (c :: run)) = some s) :
    scanWord c (run ++ rest) = .ok (s, run.length) := by
  simp only [scanWord, Text.takeWhile_append_of_stops hrun hrest, hlook]

theorem local_scanWord (c : Char) : Local (scanWord c) := by
  intro cs s n h
  obtain ⟨run, rest, rfl, rfl, hrun, -, hlook⟩ := scanWord_eq_ok h
  refine ⟨run, rest, rfl, rfl, fun rest' hrest => ?_⟩
  exact scanWord_append hrun (hrest.stops fun d => isBlank_of_continuesWord) hlook

/-- **A token is found again in front of a blank or the end.** -/
theorem local_scan (c : Char) : Local (scan c) :=
  scan_of_ways c local_single local_error (local_scanOperator c) local_scanText
    (local_scanDigits c) (local_scanNumeral c) (local_scanWord c)

end Token

end RollCall.Query
