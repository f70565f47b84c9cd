/-
How far the cursor comes before a fault.

A fault that quotes a word or an instant shows how far the scan has looked.  The other two
quote nothing and stand where the token would begin, although the scan may have come further:
to the end of a text that no mark closes, or past an operator's first character, or past the
sign and the point of a numeral without digits.  `Misses` says what is not there behind the
characters that were passed, and `SeesFaults` that the moves of the cursor add up to these.
-/
import RollCall.Proofs.Query.Tiling

namespace RollCall

namespace Binary64

open Text (spanDigits)

/-- No digit stands where a numeral has its first: behind the sign, if there is one, nor behind a
point. -/
inductive LacksDigit : (before after : List Char) → Prop
  | behindSign {sign : Option Char} {after : List Char} (hsign : ∀ c ∈ sign, isSign c = true)
      (h : Text.Stops (fun c => c.isDigit || c == '.') after) : LacksDigit sign.toList after
  | behindPoint {sign : Option Char} {after : List Char} (hsign : ∀ c ∈ sign, isSign c = true)
      (h : Text.Stops Char.isDigit after) : LacksDigit (sign.toList ++ ['.']) after

/-- Where no numeral is read, all has been looked at up to the digit that is lacking. -/
theorem Numeral.lacksDigit_of_read? {cs : List Char} (h : read? cs = none) :
    ∃ after, cs = looked cs ++ after ∧ LacksDigit (looked cs) after := by
  cases hsign : takeSign cs with
  | mk sign afterSign =>
      obtain ⟨rfl, hs⟩ := eq_of_takeSign hsign
      simp only [read?, looked, hsign, spanDigits] at h ⊢
      cases afterSign with
      | nil =>
          have hlacks : LacksDigit sign.toList [] := .behindSign hs Text.stops_nil
          exact ⟨[], by simp [takeFraction], by simpa [takeFraction] using hlacks⟩
      | cons c rest =>
          by_cases hdigit : c.isDigit = true
          · simp [hdigit] at h
          by_cases hpoint : c = '.'
          · subst hpoint
            have hrest : rest.takeWhile Char.isDigit = [] := by
              simpa [takeFraction, spanDigits] using h
            have hlacks := LacksDigit.behindPoint hs (Text.stops_of_takeWhile hrest)
            exact ⟨rest, by simp [takeFraction, spanDigits, hrest],
              by simpa [takeFraction, spanDigits, hrest] using hlacks⟩
          · have hlacks : LacksDigit sign.toList (c :: rest) :=
              .behindSign hs (by simp [hdigit, hpoint])
            exact ⟨c :: rest, by simp [takeFraction, hdigit, hpoint],
              by simpa [takeFraction, hdigit, hpoint] using hlacks⟩

end Binary64

namespace Query

namespace Token

open Text (byteLength)

/-! ### Moves up to a fault -/

/-- What is missed behind the characters that were passed. -/
inductive Misses : (before after : List Char) → Prop
  /-- no token begins with the character, whatever follows it -/
  | token {c : Char} {cs : List Char} (h : ∀ ds, scan c ds = .error (.unexpected c)) :
      Misses [] (c :: cs)
  | equals {c : Char} {cs : List Char} (hc : c = '=' ∨ c = '!') (h : cs.head? ≠ some '=') :
      Misses [c] cs
  | digit {before after : List Char} (h : Binary64.LacksDigit before after) : Misses before after

/-- The moves come up to what is missed. -/
structure SeesFaults (c : Char) (scanRest : List Char → Except Fault (Symbol × Nat))
    (moves : List Char → List Nat) : Prop where
  unexpected : ∀ cs d, scanRest cs = .error (.unexpected d) → d = c ∧
    ∃ before after, c :: cs = before ++ after ∧ Misses before after ∧
      (moves cs).sum = byteLength before
  unterminated : ∀ cs, scanRest cs = .error .unterminated → (moves cs).sum = byteLength (c :: cs)

theorem SeesFaults.ite {c : Char} {p : Prop} [Decidable p]
    {f g : List Char → Except Fault (Symbol × Nat)} {moves others : List Char → List Nat}
    (hf : p → SeesFaults c f moves) (hg : ¬ p → SeesFaults c g others) :
    SeesFaults c (fun cs => if p then f cs else g cs)
      fun cs => if p then moves cs else others cs := by
  by_cases h : p
  · simpa only [if_pos h] using hf h
  · simpa only [if_neg h] using hg h

/-- There is nothing to see for a way to scan whose faults all quote something. -/
theorem SeesFaults.of_quoted {c : Char} {scanRest : List Char → Except Fault (Symbol × Nat)}
    {moves : List Char → List Nat}
    (h : ∀ cs f, scanRest cs = .error f → ∃ quoted, f.quoted? = some quoted) :
    SeesFaults c scanRest moves := by
  constructor
  · intro cs d hscan
    obtain ⟨quoted, hquoted⟩ := h cs _ hscan
    cases hquoted
  · intro cs hscan
    obtain ⟨quoted, hquoted⟩ := h cs _ hscan
    cases hquoted

theorem seesFaults_single (c : Char) (s : Symbol) (moves : List Char → List Nat) :
    SeesFaults c (fun _ => .ok (s, 0)) moves :=
  .of_quoted fun _ _ h => nomatch h

theorem seesFaults_operator {c : Char} (hc : c = '=' ∨ c = '!' ∨ c = '<' ∨ c = '>') :
    SeesFaults c (scanOperator c) operatorStrides := by
  constructor
  · intro cs d h
    obtain rfl := Fault.unexpected.inj (fault_scanOperator h)
    have heq : cs.head? ≠ some '=' := by
      intro heq
      rcases hc with rfl | rfl | rfl | rfl <;> simp [scanOperator, heq] at h
    have hbare : (cs.head? == some '=') = false := by simpa using heq
    have hmark : d = '=' ∨ d = '!' := by
      rcases hc with rfl | rfl | rfl | rfl <;> simp [scanOperator, hbare] at h ⊢
    refine ⟨rfl, [d], cs, rfl, .equals hmark heq, ?_⟩
    rw [operatorStrides, if_neg heq]
    rcases hmark with rfl | rfl <;> rfl
  · intro cs h
    cases fault_scanOperator h

/-- A text that no mark closes is passed to its end. -/
theorem seesFaults_text : SeesFaults '"' scanText textStrides := by
  constructor
  · intro cs d h
    unfold scanText at h
    split at h <;> cases h
  · intro cs h
    unfold scanText at h
    cases hread : readText cs with
    | some r =>
        rw [hread] at h
        cases h
    | none =>
        rw [textStrides, hread, Text.byteLength_cons, Text.byteLength_eq_sum]
        rfl

theorem seesFaults_numeral (c : Char) : SeesFaults c (scanNumeral c) (numeralStrides c) := by
  constructor
  · intro cs d h
    obtain rfl := Fault.unexpected.inj (fault_scanNumeral h)
    have hread : Binary64.Numeral.read? (d :: cs) = none := by
      unfold scanNumeral at h
      split at h
      · cases h
      · assumption
    obtain ⟨after, hcs, hlacks⟩ := Binary64.Numeral.lacksDigit_of_read? hread
    refine ⟨rfl, _, after, hcs, .digit hlacks, ?_⟩
    rw [numeralStrides, Text.byteLength_of_one (Binary64.Numeral.looked_spec (d :: cs)).2,
      List.sum_replicate]
    simp
  · intro cs h
    cases fault_scanNumeral h

theorem scanDigits_eq_error {c : Char} {cs : List Char} {f : Fault}
    (h : scanDigits c cs = .error f) : (∃ text, f = .noSuchInstant text) ∨
      scanNumeral c cs = .error f ∧ digitStrides c cs = numeralStrides c cs := by
  simp only [scanDigits] at h
  split at h
  · split at h
    · cases h
    · exact .inl ⟨_, (Except.error.inj h).symm⟩
  split at h
  · cases h
  · rename_i hinstant hspan
    exact .inr ⟨h, by rw [digitStrides, if_neg hinstant, if_neg hspan]⟩

theorem seesFaults_digits (c : Char) : SeesFaults c (scanDigits c) (digitStrides c) := by
  constructor
  · intro cs d h
    rcases scanDigits_eq_error h with ⟨text, htext⟩ | ⟨hscan, hmoves⟩
    · cases htext
    · rw [hmoves]
      exact (seesFaults_numeral c).unexpected cs d hscan
  · intro cs h
    rcases scanDigits_eq_error h with ⟨text, htext⟩ | ⟨hscan, hmoves⟩
    · cases htext
    · rw [hmoves]
      exact (seesFaults_numeral c).unterminated cs hscan

theorem seesFaults_word (c : Char) : SeesFaults c (scanWord c) (wordStrides c) := by
  refine .of_quoted fun cs f h => ?_
  simp only [scanWord] at h
  split at h
  · cases h
  · obtain rfl := Except.error.inj h
    exact ⟨_, rfl⟩

/-- **Whatever the first character is, the moves come up to what is missed.** -/
theorem seesFaults_strides (c : Char) : SeesFaults c (scan c) (strides c) := by
  unfold scan strides
  refine .ite (fun _ => seesFaults_single c _ _) fun hopening => ?_
  refine .ite (fun _ => seesFaults_single c _ _) fun hclosing => ?_
  refine .ite (fun _ => seesFaults_single c _ _) fun hcontains => ?_
  refine .ite seesFaults_operator fun hoperator => ?_
  refine .ite (fun h => h ▸ seesFaults_text) fun htext => ?_
  refine .ite (fun _ => seesFaults_digits c) fun hdigit => ?_
  refine .ite (fun _ => seesFaults_numeral c) fun hnumeral => ?_
  refine .ite (fun _ => seesFaults_word c) fun hword => ?_
  have hscan : ∀ ds, scan c ds = .error (.unexpected c) := by
    intro ds
    simp only [scan, if_neg hopening, if_neg hclosing, if_neg hcontains, if_neg hoperator,
      if_neg htext, if_neg hdigit, if_neg hnumeral, if_neg hword]
  constructor
  · intro cs d h
    obtain rfl := Fault.unexpected.inj (Except.error.inj h)
    exact ⟨rfl, [], c :: cs, rfl, .token hscan, rfl⟩
  · intro cs h
    cases h

end Token

/--
**The cursor stands at what is missed when a fault is found that quotes nothing.**

It has come to the end of the text if no mark closes a quotation, and otherwise to the end or
to a character where a token, an equals sign or a digit is missed.
-/
theorem ofText_missed {text : String} {e : ScanError} (h : Tokens.ofText text = .error e) :
    ∃ before c cs, text.toList = before ++ c :: cs ∧ e.position = Text.byteLength before ∧
      (e.fault = .unterminated → e.position + (Token.strides c cs).sum = text.utf8ByteSize) ∧
      ∀ d, e.fault = .unexpected d → d = c ∧
        ∃ passed after, c :: cs = passed ++ after ∧ Token.Misses passed after ∧
          e.position + (Token.strides c cs).sum = Text.byteLength (before ++ passed) := by
  obtain ⟨ts, c, cs, hwalk, -, hscan⟩ := walk_of_scanFrom_eq_error h
  obtain ⟨before, htext, hposition, -⟩ := hwalk.tiles
  rw [Nat.zero_add] at hposition
  have hsees := Token.seesFaults_strides c
  refine ⟨before, c, cs, htext, hposition, ?_, ?_⟩
  · intro hfault
    rw [hsees.unterminated cs (hfault ▸ hscan), hposition, ← Text.byteLength_append, ← htext,
      ← Text.utf8ByteSize_ofList, String.ofList_toList]
  · intro d hfault
    obtain ⟨hd, passed, after, hcs, hmisses, hsum⟩ := hsees.unexpected cs d (hfault ▸ hscan)
    exact ⟨hd, passed, after, hcs, hmisses, by rw [hsum, hposition, Text.byteLength_append]⟩

/-- The sign and the point are passed, and the letter is no digit. -/
example : (Token.strides '-' ['.', 'e', '5']).sum = 2 := by decide

end Query

end RollCall
