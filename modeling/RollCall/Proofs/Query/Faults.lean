/-
Where a scan fails.

A fault stands at the first characters that no token begins with.  The text in front of it
is scanned without one, because cutting a text off behind a token does not change the token;
and what the fault says is what the text has there.  `Fault.Tells` spells that out for each
fault without the scan: which character it is, how far the word reaches and that it means
nothing, that no date and no time of day is written so, that no mark closes the quotation.
-/
import RollCall.Proofs.Query.Tiling
import RollCall.Proofs.Query.Truncated

namespace RollCall.Query

open Text (byteLength)

/-! ### What faults say -/

/-- The word has a meaning: it joins comparisons, is a truth value or a status, or names a field. -/
def IsReserved (word : String) : Prop :=
  (∃ c : Connective, word = c.word) ∨ (∃ b, word = Value.truthWord b) ∨
    (∃ s : Status, word = s.word) ∨ ∃ f : Field, word = f.keyword

/-- The text `YYYY-MM-DD HH:MM:SS` of a date of the calendar and a time of day; second 60 is a leap
second. -/
def IsClockText (cs : List Char) : Prop :=
  ∃ (date : Date) (hour minute second : Nat), date.Valid ∧ 0 ≤ date.year ∧ date.year ≤ 9999 ∧
    hour ≤ 23 ∧ minute ≤ 59 ∧ second ≤ 60 ∧ Instant.clockText date hour minute second = cs

/-- What may stand in front of the mark that closes a text: each backslash belongs together with
the character behind it, and no other character is a mark. -/
inductive QuotedBody : List Char → Prop
  | nil : QuotedBody []
  | plain {c : Char} {cs : List Char} (hmark : c ≠ '"') (hback : c ≠ '\\') (h : QuotedBody cs) :
      QuotedBody (c :: cs)
  | escaped {cs : List Char} (d : Char) (h : QuotedBody cs) : QuotedBody ('\\' :: d :: cs)

/-- What a fault says of the text that begins where it stands. -/
def Fault.Tells (cs : List Char) : Fault → Prop
  | .unexpected c => cs.head? = some c
  -- The word is not empty and goes on as far as it can.
  | .unknownWord word => word ≠ "" ∧ (∀ c ∈ word.toList, Token.continuesWord c = true) ∧
      (∃ after, cs = word.toList ++ after ∧ Text.Stops Token.continuesWord after) ∧
      ¬ IsReserved word
  | .unterminated => ∃ rest, cs = '"' :: rest ∧
      ¬ ∃ body after, QuotedBody body ∧ rest = body ++ '"' :: after
  | .noSuchInstant text => (∃ after, cs = text.toList ++ after) ∧ byteLength text.toList = 19 ∧
      Token.Shaped Token.instantShape text.toList ∧ ¬ IsClockText text.toList

/-! ### What is known where a scan fails -/

/-- A body with a mark behind it is read. -/
theorem QuotedBody.exists_readText {body : List Char} (h : QuotedBody body) (after : List Char) :
    ∃ r, Token.readText (body ++ '"' :: after) = some r := by
  induction h with
  | nil => exact ⟨_, Token.readText_mark after⟩
  | plain hmark hback _ ih =>
      obtain ⟨r, hr⟩ := ih
      exact ⟨_, by rw [List.cons_append, Token.readText_cons hmark hback, hr]; rfl⟩
  | escaped d _ ih =>
      obtain ⟨r, hr⟩ := ih
      exact ⟨_, by rw [List.cons_append, List.cons_append, Token.readText_backslash, hr]; rfl⟩

namespace Token

theorem not_isReserved {word : String} (h : Symbol.ofWord? word = none) : ¬ IsReserved word := by
  rintro (⟨c, rfl⟩ | ⟨b, rfl⟩ | ⟨s, rfl⟩ | ⟨f, rfl⟩)
  · cases c <;> exact absurd h (by decide)
  · cases b <;> exact absurd h (by decide)
  · cases s <;> exact absurd h (by decide)
  · cases f <;> exact absurd h (by decide)

theorem tells_of_scanText {rest : List Char} {f : Fault} (h : scanText rest = .error f) :
    f.Tells ('"' :: rest) := by
  unfold scanText at h
  cases hread : readText rest with
  | some r =>
      rw [hread] at h
      cases h
  | none =>
      rw [hread] at h
      obtain rfl := Except.error.inj h
      refine ⟨rest, rfl, ?_⟩
      rintro ⟨body, after, hbody, rfl⟩
      obtain ⟨r, hr⟩ := hbody.exists_readText after
      rw [hr] at hread
      cases hread

/-- What is written of a date and a time of day is read. -/
theorem exists_read?_of_isClockText {cs : List Char} (h : IsClockText cs) :
    ∃ t, Instant.read? Instant.wholeDayPattern cs = some t := by
  obtain ⟨date, hour, minute, second, hvalid, hlow, hhigh, hhour, hminute, hsecond, rfl⟩ := h
  obtain ⟨t, ht⟩ := Instant.exists_shows hvalid hlow hhigh hhour hminute hsecond
  exact ⟨t, Instant.read?_clockText ht⟩

theorem tells_of_scanDigits {c : Char} {rest : List Char} {f : Fault}
    (h : scanDigits c rest = .error f) : f.Tells (c :: rest) := by
  simp only [scanDigits] at h
  split at h
  · rename_i hshape
    cases hread : Instant.read? Instant.wholeDayPattern ((c :: rest).take instantShape.length) with
    | some t =>
        rw [hread] at h
        cases h
    | none =>
        rw [hread] at h
        obtain rfl := Except.error.inj h
        have hspell := String.toList_ofList (l := (c :: rest).take instantShape.length)
        refine ⟨⟨(c :: rest).drop instantShape.length, ?_⟩, ?_, ?_, ?_⟩
        · rw [hspell, List.take_append_drop]
        · rw [hspell]
          exact byteLength_of_fits utf8Size_instantShape hshape
        · rw [hspell, ← fits_iff, fits_take]
          exact hshape
        · rw [hspell]
          intro hclock
          obtain ⟨t, ht⟩ := exists_read?_of_isClockText hclock
          rw [hread] at ht
          cases ht
  split at h
  · cases h
  · obtain rfl := fault_scanNumeral h
    rfl

theorem tells_of_scanWord {c : Char} {rest : List Char} {f : Fault} (hc : beginsWord c = true)
    (h : scanWord c rest = .error f) : f.Tells (c :: rest) := by
  obtain ⟨run, behind, rfl, hrun, hstops⟩ := Text.exists_run continuesWord rest
  simp only [scanWord, Text.takeWhile_append_of_stops hrun hstops] at h
  cases hlook : Symbol.ofWord? (String.ofList (c :: run)) with
  | some s =>
      rw [hlook] at h
      cases h
  | none =>
      rw [hlook] at h
      obtain rfl := Except.error.inj h
      have hspell := String.toList_ofList (l := c :: run)
      have hfirst : continuesWord c = true := by
        rw [beginsWord, Bool.or_eq_true] at hc
        rcases hc with hc | hc <;> simp [continuesWord, Char.isAlphanum, hc]
      refine ⟨?_, ?_, ⟨behind, ?_, hstops⟩, not_isReserved hlook⟩
      · intro hempty
        rw [hempty] at hspell
        cases hspell
      · rw [hspell]
        exact List.forall_mem_cons.mpr ⟨hfirst, hrun⟩
      · rw [hspell]
        rfl

/-- **A fault says what the text has where no token begins.** -/
theorem tells_of_scan {c : Char} {rest : List Char} {f : Fault} (h : scan c rest = .error f) :
    f.Tells (c :: rest) := by
  unfold scan at h
  split at h
  · cases h
  split at h
  · cases h
  split at h
  · cases h
  split at h
  · obtain rfl := fault_scanOperator h
    rfl
  split at h
  · rename_i hmark
    rw [hmark]
    exact tells_of_scanText h
  split at h
  · exact tells_of_scanDigits h
  split at h
  · obtain rfl := fault_scanNumeral h
    rfl
  split at h
  · rename_i hword
    exact tells_of_scanWord hword h
  · obtain rfl := Except.error.inj h
    rfl

end Token

/--
**A fault stands where the first token should begin that is none.**

If the scan of a text fails, the fault stands between two characters within the text, what
is in front of it is scanned without a fault, and what it says is what the text has from
there on.
-/
theorem ofText_fault {text : String} {e : ScanError} (h : Tokens.ofText text = .error e) :
    ∃ before cs, text.toList = before ++ cs ∧ e.position = byteLength before ∧
      String.Pos.Raw.IsValid text ⟨e.position⟩ ∧ e.position < text.utf8ByteSize ∧
      (∃ ts, Tokens.ofText (String.ofList before) = .ok ts) ∧ e.fault.Tells cs := by
  obtain ⟨ts, c, rest, hwalk, -, hscan⟩ := walk_of_scanFrom_eq_error h
  obtain ⟨before, htext, hposition, -⟩ := hwalk.tiles
  rw [Nat.zero_add] at hposition
  refine ⟨before, c :: rest, htext, hposition, ?_, ?_, ?_, Token.tells_of_scan hscan⟩
  · rw [hposition]
    exact Text.isValid_of_append htext
  · rw [hposition, ← String.ofList_toList (s := text), Text.utf8ByteSize_ofList, htext,
      Text.byteLength_append, Text.byteLength_cons]
    have := c.utf8Size_pos
    omega
  · obtain ⟨passed, hpassed, hagain⟩ := hwalk.truncate
    obtain rfl : passed = before := List.append_cancel_right (hpassed.symm.trans htext)
    have hfront := hagain [] List.nil_prefix
    rw [List.append_nil] at hfront
    refine ⟨⟨ts, e.position⟩, ?_⟩
    rw [Tokens.ofText, String.toList_ofList, hfront.scanFrom_eq]
    simp [Tokens.scanFrom, Except.map, Tokens.pushAll]

/-- February has no thirtieth day. -/
theorem ofText_fault_no_such_day :
    Tokens.ofText "total > 2021-02-30 00:00:00" =
        .error ⟨8, .noSuchInstant "2021-02-30 00:00:00"⟩ ∧
      ∃ before cs, "total > 2021-02-30 00:00:00".toList = before ++ cs ∧ 8 = byteLength before ∧
        (∃ ts, Tokens.ofText (String.ofList before) = .ok ts) ∧
        ¬ IsClockText "2021-02-30 00:00:00".toList := by
  have hscan : Tokens.ofText "total > 2021-02-30 00:00:00" =
      .error ⟨8, .noSuchInstant "2021-02-30 00:00:00"⟩ := by decide +kernel
  obtain ⟨before, cs, htext, hposition, -, -, hfront, -, -, -, hclock⟩ := ofText_fault hscan
  exact ⟨hscan, before, cs, htext, hposition, hfront, hclock⟩

end RollCall.Query
