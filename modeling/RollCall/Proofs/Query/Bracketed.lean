/-
Queries made of queries.

A text keeps its tokens when a closing bracket is put behind it: no token goes on with a
bracket, and none that is found at the end of a text was waiting for more.  `Closable` says
this of each of the ways to scan, and a walk to the end of the text then becomes a walk to the
bracket.  The bracket in front is a token by itself.

What a text derives is a group of the larger text, which takes one more level.  That the text
may begin with a span or an instant in brackets of its own does no harm, since what the outer
bracket has behind it then is another bracket.
-/
import RollCall.Proofs.Query.RoundTrip
import RollCall.Proofs.Query.Walk

namespace RollCall.Query

namespace Token

/-! ### A closing bracket behind a token -/

/-- A way to scan that finds the same when a closing bracket and anything else follow the text. -/
def Closable (scanRest : List Char → Except Fault (Symbol × Nat)) : Prop :=
  ∀ cs found, scanRest cs = .ok found → ∀ rest, scanRest (cs ++ ')' :: rest) = .ok found

theorem closable_error (f : Fault) : Closable fun _ => .error f := by
  intro cs found h
  cases h

theorem closable_single (s : Symbol) : Closable fun _ => .ok (s, 0) := by
  intro cs found h _
  exact h

theorem closable_scanOperator (c : Char) : Closable (scanOperator c) := by
  intro cs found h rest
  rw [← h]
  apply scanOperator_congr
  cases cs with
  | nil => simp
  | cons d cs => rfl

theorem closable_scanText : Closable scanText := by
  rintro cs ⟨s, n⟩ h rest
  obtain ⟨taken, behind, rfl, -, hagain⟩ := scanText_eq_ok h
  rw [List.append_assoc, hagain]

theorem closable_scanNumeral (c : Char) : Closable (scanNumeral c) := by
  intro cs found h rest
  have hread : Binary64.Numeral.read? (c :: cs ++ ')' :: rest) =
      Binary64.Numeral.read? (c :: cs) :=
    Binary64.Numeral.read?_append_stops _ (Text.stops_cons.mpr rfl) (Text.stops_cons.mpr rfl)
  rw [List.cons_append] at hread
  simpa only [scanNumeral, hread] using h

/-- A bracket belongs to no shape. -/
theorem fits_append_closing {shape : List Char} (hshape : ')' ∉ shape) (cs rest : List Char) :
    fits shape (cs ++ ')' :: rest) = fits shape cs := by
  induction shape generalizing cs with
  | nil => rfl
  | cons s shape ih =>
      have hne : ')' ≠ s := fun h => hshape (h ▸ List.mem_cons_self)
      cases cs with
      | nil =>
          by_cases hs : s = '9'
          · simp [fits, hs]
          · simp [fits, hs, hne]
      | cons c cs =>
          simp only [List.cons_append, fits]
          rw [ih fun h => hshape (List.mem_cons_of_mem _ h)]

theorem closable_scanDigits (c : Char) : Closable (scanDigits c) := by
  intro cs found h rest
  by_cases hfits : fits instantShape (c :: cs) = true ∨ fits spanShape (c :: cs) = true
  · rw [scanDigits_append_of_fits hfits, h]
  · obtain ⟨hinstant, hspan⟩ := not_or.mp hfits
    have hinstant' : fits instantShape (c :: (cs ++ ')' :: rest)) = fits instantShape (c :: cs) :=
      fits_append_closing (by decide) (c :: cs) rest
    have hspan' : fits spanShape (c :: (cs ++ ')' :: rest)) = fits spanShape (c :: cs) :=
      fits_append_closing (by decide) (c :: cs) rest
    simp only [scanDigits, hinstant, hspan, Bool.false_eq_true, if_false] at h
    simp only [scanDigits, hinstant', hspan', hinstant, hspan, Bool.false_eq_true, if_false]
    exact closable_scanNumeral c cs found h rest

theorem closable_scanWord (c : Char) : Closable (scanWord c) := by
  intro cs found h rest
  have hword : (cs ++ ')' :: rest).takeWhile continuesWord = cs.takeWhile continuesWord :=
    Text.takeWhile_append_stops cs (Text.stops_cons.mpr rfl)
  simpa only [scanWord, hword] using h

/-- **A token at the front of a text is found again when the text is closed.** -/
theorem closable_scan (c : Char) : Closable (scan c) :=
  scan_of_ways c closable_single closable_error (closable_scanOperator c) closable_scanText
    (closable_scanDigits c) (closable_scanNumeral c) (closable_scanWord c)

end Token

/-! ### A closing bracket behind a text -/

/-- A walk stays one when the text is closed. -/
theorem Walk.append_closing {p q : Nat} {cs behind : List Char} {ts : List Token}
    (h : Walk p cs ts q behind) (rest : List Char) :
    Walk p (cs ++ ')' :: rest) ts q (behind ++ ')' :: rest) := by
  induction h with
  | here p cs => exact .here p _
  | blank hblank _ ih => exact .blank hblank ih
  | @token _ _ c tail cs _ s _ hblank hscan _ ih =>
      have hagain := Token.closable_scan c _ _ hscan rest
      rw [List.append_assoc] at hagain
      rw [List.append_assoc]
      exact .token hblank hagain ih

/-- **A text that is closed has its symbols first.** -/
theorem symbols?_append_closing {cs : List Char} {ss : List Symbol} (h : symbols? cs = some ss)
    (rest : List Char) :
    symbols? (cs ++ ')' :: rest) = (symbols? rest).map fun us => ss ++ .closing :: us := by
  obtain ⟨ts, hscan, rfl⟩ := symbols?_eq_some_iff.mp h
  have hwalk := (walk_of_scanFrom_eq_ok hscan).append_closing rest
  rw [hwalk.symbols?_eq, List.nil_append, symbols?_closing, Option.map_map]
  rfl

/-! ### Queries between brackets -/

/-- The tokens of the text derive a query whose groups stand at most so deep inside each other. -/
def NestsWithin (n : Nat) (q : String) : Prop :=
  ∃ ts e, Tokens.ofText q = .ok ts ∧ Derives .expr n ts.symbols e

/-- No text nests its groups deeper than it has brackets that open them. -/
theorem nestsWithin_of_count {n : Nat} {q : String} {e : Expr} (h : Expr.ofText q = .ok e)
    (hcount : ((symbols? q.toList).getD []).count .opening ≤ n) : NestsWithin n q := by
  obtain ⟨-, ss, hss, hd⟩ := ofText_eq_ok_iff.mp h
  rw [hss, Option.getD_some] at hcount
  obtain ⟨ts, hscan, rfl⟩ := symbols?_eq_some_iff.mp hss
  exact ⟨ts, e, hscan, hd.of_count_opening n hcount⟩

/-- The query that a text derives is the one that is read, however deep its groups may nest. -/
theorem NestsWithin.derives {n : Nat} {q : String} {e : Expr} (hn : NestsWithin n q)
    (hroom : n ≤ deepestNesting) (h : Expr.ofText q = .ok e) :
    ∃ ss, symbols? q.toList = some ss ∧ Derives .expr n ss e := by
  obtain ⟨ts, e', hscan, hd⟩ := hn
  have hss : symbols? q.toList = some ts.symbols := symbols?_eq_some_iff.mpr ⟨ts, hscan, rfl⟩
  have he := ofText_eq_ok_iff.mpr ⟨(ofText_eq_ok_iff.mp h).1, _, hss, hd.mono _ hroom⟩
  rw [h] at he
  obtain rfl := Except.ok.inj he
  exact ⟨_, hss, hd⟩

/-- A text between brackets. -/
def bracketed (q : String) : String :=
  "(" ++ q ++ ")"

/-- Two texts between brackets, and the word for a connective between them. -/
def connected (c : Connective) (q₁ q₂ : String) : String :=
  bracketed q₁ ++ " " ++ c.word ++ " " ++ bracketed q₂

theorem symbols?_bracketed {q : String} {ss : List Symbol} (h : symbols? q.toList = some ss)
    (rest : List Char) :
    symbols? ((bracketed q).toList ++ rest) =
      (symbols? rest).map (.opening :: ss ++ [.closing] ++ ·) := by
  have htext : (bracketed q).toList ++ rest = '(' :: (q.toList ++ ')' :: rest) := by
    simp [bracketed]
  rw [htext, symbols?_opening, symbols?_append_closing h, Option.map_map]
  simp only [List.append_assoc, List.cons_append, List.nil_append]
  rfl

theorem symbols?_connected {q₁ q₂ : String} {ss₁ ss₂ : List Symbol}
    (h₁ : symbols? q₁.toList = some ss₁) (h₂ : symbols? q₂.toList = some ss₂) (c : Connective) :
    symbols? (connected c q₁ q₂).toList =
      some (.opening :: ss₁ ++ [.closing] ++ .connective c :: (.opening :: ss₂ ++ [.closing])) := by
  have htext : (connected c q₁ q₂).toList = (bracketed q₁).toList ++
      ' ' :: (c.word.toList ++ ' ' :: ((bracketed q₂).toList ++ [])) := by
    simp [connected]
  rw [htext, symbols?_bracketed h₁, symbols?_space, symbols?_connective c (delimited_space _),
    symbols?_space, symbols?_bracketed h₂]
  simp

/-- **A query between brackets is the same query**, if there is room for one more group. -/
theorem ofText_bracketed {q : String} {e : Expr} (h : Expr.ofText q = .ok e)
    (hn : NestsWithin 63 q) (hshort : Text.byteLength (bracketed q).toList ≤ 4096) :
    Expr.ofText (bracketed q) = .ok e := by
  obtain ⟨ss, hss, hd⟩ := hn.derives (by decide) h
  have hsymbols := symbols?_bracketed hss []
  rw [List.append_nil, symbols?_nil, Option.map_some, List.append_nil] at hsymbols
  exact ofText_eq_ok_iff.mpr ⟨hshort, _, hsymbols, .single (.group hd)⟩

/-- **Two queries between brackets and a connective are the queries joined.** -/
theorem ofText_connected {q₁ q₂ : String} {e₁ e₂ : Expr} (h₁ : Expr.ofText q₁ = .ok e₁)
    (h₂ : Expr.ofText q₂ = .ok e₂) (hn₁ : NestsWithin 63 q₁) (hn₂ : NestsWithin 63 q₂)
    (c : Connective) (hshort : Text.byteLength (connected c q₁ q₂).toList ≤ 4096) :
    Expr.ofText (connected c q₁ q₂) = .ok (.join c e₁ e₂) := by
  obtain ⟨ss₁, hss₁, hd₁⟩ := hn₁.derives (by decide) h₁
  obtain ⟨ss₂, hss₂, hd₂⟩ := hn₂.derives (by decide) h₂
  exact ofText_eq_ok_iff.mpr ⟨hshort, _, symbols?_connected hss₁ hss₂ c,
    .joined (.single (.group hd₁)) (.group hd₂)⟩

/-- The right side is asked exactly if the left one neither fails nor settles the matter. -/
theorem join_spec (c : Connective) (p₁ p₂ : Predicate) (a : Attendee) :
    (p₁ a ≠ .ok (!Predicate.settles c) → Predicate.join c p₁ p₂ a = p₁ a) ∧
      (p₁ a = .ok (!Predicate.settles c) → Predicate.join c p₁ p₂ a = p₂ a) := by
  unfold Predicate.join
  cases p₁ a with
  | error err => simp
  | ok b => cases b <;> cases c <;> simp [Predicate.settles]

/--
**Queries are made of queries.**

Two texts that are queries, in which groups stand at most sixty-three deep inside each other,
are the same queries between brackets, and with a connective between them the queries joined,
if what is written takes at most 4096 bytes.  Of the predicates, that of the left text is the
answer if it is an error, or if it is false for `and` or true for `or`, and otherwise that of
the right text.
-/
theorem ofText_compose {q₁ q₂ : String} {e₁ e₂ : Expr} (h₁ : Expr.ofText q₁ = .ok e₁)
    (h₂ : Expr.ofText q₂ = .ok e₂) (hn₁ : NestsWithin 63 q₁) (hn₂ : NestsWithin 63 q₂) :
    (Text.byteLength (bracketed q₁).toList ≤ 4096 → Expr.ofText (bracketed q₁) = .ok e₁) ∧
      ∀ c, Text.byteLength (connected c q₁ q₂).toList ≤ 4096 →
        Expr.ofText (connected c q₁ q₂) = .ok (.join c e₁ e₂) ∧
        ∃ p₁ p₂ p, Predicate.ofText q₁ = .ok p₁ ∧ Predicate.ofText q₂ = .ok p₂ ∧
          Predicate.ofText (connected c q₁ q₂) = .ok p ∧
          (c = .and → ∀ a, (p₁ a ≠ .ok true → p a = p₁ a) ∧ (p₁ a = .ok true → p a = p₂ a)) ∧
          (c = .or → ∀ a, (p₁ a ≠ .ok false → p a = p₁ a) ∧ (p₁ a = .ok false → p a = p₂ a)) := by
  refine ⟨ofText_bracketed h₁ hn₁, fun c hshort => ?_⟩
  have hjoined := ofText_connected h₁ h₂ hn₁ hn₂ c hshort
  refine ⟨hjoined, _, _, _, predicate_ofText h₁, predicate_ofText h₂, predicate_ofText hjoined,
    ?_, ?_⟩
  · rintro rfl a
    exact join_spec .and _ _ a
  · rintro rfl a
    exact join_spec .or _ _ a

/-- A query that begins with a span between brackets, and has a bracket in a text. -/
theorem ofText_compose_span :
    Expr.ofText (bracketed "(00:05:00) < total or (name % \")\")") =
        .ok (.join .or (.compare .lt (.literal (.span (.ofSeconds 300))) (.field .total))
          (.compare .contains (.field .name) (.literal (.text ")")))) ∧
      Expr.ofText (connected .and "(00:05:00) < total or (name % \")\")" "final_status == left") =
        .ok (.join .and
          (.join .or (.compare .lt (.literal (.span (.ofSeconds 300))) (.field .total))
            (.compare .contains (.field .name) (.literal (.text ")"))))
          (.compare .eq (.field .finalStatus) (.literal (.status .left)))) := by
  have h₁ : Expr.ofText "(00:05:00) < total or (name % \")\")" =
      .ok (.join .or (.compare .lt (.literal (.span (.ofSeconds 300))) (.field .total))
        (.compare .contains (.field .name) (.literal (.text ")")))) := by
    decide +kernel
  have h₂ : Expr.ofText "final_status == left" =
      .ok (.compare .eq (.field .finalStatus) (.literal (.status .left))) := by
    decide +kernel
  have hn₁ := nestsWithin_of_count (n := 63) h₁ (by decide +kernel)
  have hn₂ := nestsWithin_of_count (n := 63) h₂ (by decide +kernel)
  obtain ⟨hbrackets, hconnected⟩ := ofText_compose h₁ h₂ hn₁ hn₂
  exact ⟨hbrackets (by decide +kernel), (hconnected .and (by decide +kernel)).1⟩

end RollCall.Query
