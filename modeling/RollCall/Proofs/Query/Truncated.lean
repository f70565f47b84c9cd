/-
Texts that are cut off.

A token is found with the characters behind it in view, but it may not depend on them: if
they are cut off anywhere behind the token, it is found as before.  `Truncatable` says so of
each way to scan.  Cutting can only take away what would have made a token longer, an equals
sign, a digit or a letter of a word; what it leaves was there before, and did not.  For
numerals this is the longest match: a shorter text has no numeral that the longer one has
not.  And what had no shape of an instant or a span has none with less behind it.

So a walk over a text is one over every beginning of it that the walk has passed.
-/
import RollCall.Proofs.Binary64.Longest
import RollCall.Proofs.Query.Walk

namespace RollCall.Query

namespace Token

/-- A way to scan what follows the first character of a token: what it takes is taken again if the
text is cut off anywhere behind. -/
def Truncatable (scanRest : List Char → Except Fault (Symbol × Nat)) : Prop :=
  ∀ taken rest s, scanRest (taken ++ rest) = .ok (s, taken.length) →
    ∀ front, front <+: rest → scanRest (taken ++ front) = .ok (s, taken.length)

theorem truncatable_error (f : Fault) : Truncatable fun _ => .error f := by
  intro taken rest s h
  cases h

theorem truncatable_single (s : Symbol) : Truncatable fun _ => .ok (s, 0) := by
  intro taken rest t h front _
  exact h

theorem truncatable_scanOperator (c : Char) : Truncatable (scanOperator c) := by
  intro taken rest s h front hfront
  have hn := length_scanOperator h
  rw [← h]
  refine scanOperator_congr ?_
  cases taken with
  | cons d taken => exact Iff.rfl
  | nil =>
      -- Nothing was taken, so no equals sign follows, and none is left.
      have hrest : rest.head? ≠ some '=' := by
        intro heq
        simp [heq] at hn
      obtain ⟨behind, rfl⟩ := hfront
      cases front with
      | nil => exact ⟨(fun heq => nomatch heq), fun heq => absurd heq hrest⟩
      | cons d front => exact Iff.rfl

theorem truncatable_scanText : Truncatable scanText := by
  intro taken rest s h front _
  obtain ⟨taken', rest', hcs, hlength, hagain⟩ := scanText_eq_ok h
  obtain rfl : taken = taken' := List.append_inj_left hcs hlength
  exact hagain front

theorem truncatable_scanNumeral (c : Char) : Truncatable (scanNumeral c) := by
  intro taken rest s h front hfront
  obtain ⟨n, taken', rest', hread, -, htext, hcs, hlength, rfl⟩ := scanNumeral_eq_ok h
  obtain ⟨rfl, rfl⟩ := List.append_inj hcs hlength
  rw [← List.cons_append, ← htext] at hread
  have hagain := Binary64.Numeral.read?_of_prefix hread hfront
  rw [htext, List.cons_append] at hagain
  simp [scanNumeral, hagain, htext]

theorem truncatable_scanDigits (c : Char) : Truncatable (scanDigits c) := by
  intro taken rest s h front hfront
  by_cases hshape : fits instantShape (c :: (taken ++ rest)) = true ∨
      fits spanShape (c :: (taken ++ rest)) = true
  · obtain ⟨taken', rest', hcs, hlength, htaken⟩ := exists_shape_of_scanDigits hshape h
    obtain rfl : taken = taken' := List.append_inj_left hcs hlength
    rw [scanDigits_append_of_fits htaken] at h ⊢
    exact h
  · obtain ⟨hinstant, hspan⟩ := not_or.mp hshape
    have hless : ∀ shape, fits shape (c :: (taken ++ rest)) ≠ true →
        fits shape (c :: (taken ++ front)) = false := by
      intro shape hmore
      obtain ⟨behind, rfl⟩ := hfront
      rw [← Bool.not_eq_true]
      intro hfits
      have hlonger := fits_append hfits behind
      rw [List.cons_append, List.append_assoc] at hlonger
      exact hmore hlonger
    simp only [scanDigits, hinstant, hspan, Bool.false_eq_true, if_false] at h
    simp only [scanDigits, hless _ hinstant, hless _ hspan, Bool.false_eq_true, if_false]
    exact truncatable_scanNumeral c taken rest s h front hfront

theorem truncatable_scanWord (c : Char) : Truncatable (scanWord c) := by
  intro taken rest s h front hfront
  obtain ⟨run, behind, hcs, hlength, hrun, hstops, hlook⟩ := scanWord_eq_ok h
  obtain ⟨rfl, rfl⟩ := List.append_inj hcs hlength
  exact scanWord_append hrun (hstops.of_prefix hfront) hlook

/-- **A token is found again if the text is cut off anywhere behind it.** -/
theorem truncatable_scan (c : Char) : Truncatable (scan c) :=
  scan_of_ways c truncatable_single truncatable_error (truncatable_scanOperator c)
    truncatable_scanText (truncatable_scanDigits c) (truncatable_scanNumeral c)
    (truncatable_scanWord c)

end Token

/-- **A walk over the front of a text is one over the text cut off anywhere behind.** -/
theorem Walk.truncate {p q : Nat} {cs rest : List Char} {ts : List Token}
    (h : Walk p cs ts q rest) : ∃ passed, cs = passed ++ rest ∧
      ∀ front, front <+: rest → Walk p (passed ++ front) ts q front := by
  induction h with
  | here p => exact ⟨[], rfl, fun front _ => .here p front⟩
  | @blank _ _ c _ _ _ hblank _ ih =>
      obtain ⟨passed, rfl, hagain⟩ := ih
      exact ⟨c :: passed, rfl, fun front hfront => .blank hblank (hagain front hfront)⟩
  | @token _ _ c tail _ _ s _ hblank hscan _ ih =>
      obtain ⟨passed, rfl, hagain⟩ := ih
      refine ⟨c :: tail ++ passed, by simp, fun front hfront => ?_⟩
      rw [List.append_assoc]
      refine .token hblank (Token.truncatable_scan c _ _ _ hscan _ ?_) (hagain front hfront)
      rwa [List.prefix_append_right_inj]

end RollCall.Query
