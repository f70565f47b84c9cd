/-
What becomes of a text between quotation marks.

A text is written with more escapes than a query understands.  Of each character it
is said what is read off the way it is written: the character, if it stands for itself
or has one of the five escapes that are understood, and else the escape, backslash and
all.  So a text is read back if and only if all of its characters are of the first
sort; any other makes it longer.
-/
import RollCall.Query.Token.Scan

namespace RollCall.Query.Token

open Text (escape)

/-- The character is written as itself or by an escape that a query understands. -/
def Readable (c : Char) : Prop :=
  escape '"' c ∈ [[c], ['\\', 'n'], ['\\', 't'], ['\\', 'r'], ['\\', '\\'], ['\\', '"']]

instance (c : Char) : Decidable (Readable c) :=
  inferInstanceAs (Decidable (_ ∈ _))

/-- What is read where a character has been written. -/
def reread (c : Char) : List Char :=
  if Readable c then [c] else escape '"' c

/-- A text as it is read where it has been written. -/
def rereadText (s : String) : String :=
  String.ofList (s.toList.flatMap reread)

/-! ### One step of the reading -/

theorem readText_mark (cs : List Char) : readText ('"' :: cs) = some ([], 1) := by
  cases cs <;> simp [readText]

theorem readText_cons {c : Char} (hmark : c ≠ '"') (hback : c ≠ '\\') (cs : List Char) :
    readText (c :: cs) = (readText cs).map fun (text, n) => (c :: text, n + 1) := by
  cases cs with
  | nil => simp [readText, hmark]
  | cons d cs => simp [readText, hmark, hback]

theorem readText_backslash (d : Char) (cs : List Char) :
    readText ('\\' :: d :: cs) =
      (readText cs).map fun (text, n) => (unescape d ++ text, n + 2) := by
  simp [readText]

theorem readText_append {ds : List Char} (hds : ∀ c ∈ ds, c ≠ '"' ∧ c ≠ '\\') (cs : List Char) :
    readText (ds ++ cs) =
      (readText cs).map fun (text, n) => (ds ++ text, n + ds.length) := by
  induction ds with
  | nil => simp
  | cons c ds ih =>
      obtain ⟨hmark, hback⟩ := hds c List.mem_cons_self
      have hrest : ∀ d ∈ ds, d ≠ '"' ∧ d ≠ '\\' := fun d hd => hds d (List.mem_cons_of_mem _ hd)
      rw [List.cons_append, readText_cons hmark hback, ih hrest]
      cases readText cs with
      | none => rfl
      | some r => simp [Nat.add_assoc]

/-- If every character is read off what is written for it, a text is read off what is written for
its characters, up to the mark that closes it. -/
theorem readText_flatMap {f g : Char → List Char}
    (h : ∀ c cs, readText (f c ++ cs) =
      (readText cs).map fun (text, n) => (g c ++ text, n + (f c).length)) (s rest : List Char) :
    readText (s.flatMap f ++ '"' :: rest) = some (s.flatMap g, (s.flatMap f).length + 1) := by
  induction s with
  | nil => exact readText_mark rest
  | cons c s ih =>
      rw [List.flatMap_cons, List.append_assoc, h, ih]
      simp [Nat.add_comm, Nat.add_left_comm]

/-! ### Escapes -/

theorem mem_toDigits_sixteen {c : Char} {n : Nat} (h : c ∈ Nat.toDigits 16 n) :
    c ≠ '"' ∧ c ≠ '\\' := by
  induction n using Nat.strongRecOn with
  | _ n ih =>
      have hdigit : ∀ d < 16, Nat.digitChar d ≠ '"' ∧ Nat.digitChar d ≠ '\\' := by decide
      by_cases hn : n < 16
      · rw [Nat.toDigits_of_lt_base hn, List.mem_singleton] at h
        rw [h]
        exact hdigit n hn
      · rw [Nat.toDigits_of_base_le (by decide) (by omega), List.mem_append,
          List.mem_singleton] at h
        rcases h with h | h
        · exact ih (n / 16) (by omega) h
        · rw [h]
          exact hdigit _ (Nat.mod_lt _ (by decide))

/-- The three ways to write a character: by itself, by an escape that is understood, and by one
that is not. -/
theorem escape_cases (c : Char) :
    (escape '"' c = [c] ∧ c ≠ '"' ∧ c ≠ '\\') ∨
      (Readable c ∧ ∃ d, escape '"' c = ['\\', d] ∧ unescape d = [c]) ∨
      (¬ Readable c ∧ ∃ d ds, escape '"' c = '\\' :: d :: ds ∧ unescape d = ['\\', d] ∧
        ∀ x ∈ ds, x ≠ '"' ∧ x ≠ '\\') := by
  by_cases hletter : c = '\t' ∨ c = '\r' ∨ c = '\n' ∨ c = '\\' ∨ c = '"'
  · right
    left
    rcases hletter with rfl | rfl | rfl | rfl | rfl
    · exact ⟨by decide, 't', by decide, by decide⟩
    · exact ⟨by decide, 'r', by decide, by decide⟩
    · exact ⟨by decide, 'n', by decide, by decide⟩
    · exact ⟨by decide, '\\', by decide, by decide⟩
    · exact ⟨by decide, '"', by decide, by decide⟩
  · simp only [not_or] at hletter
    obtain ⟨htab, hreturn, hnewline, hback, hmark⟩ := hletter
    by_cases hnull : c = '\x00'
    · right
      right
      subst hnull
      exact ⟨by decide, '0', [], by decide, by decide, by simp⟩
    · by_cases hshows : Text.showsAlone c = true
      · left
        exact ⟨by simp [escape, *], hmark, hback⟩
      · right
        right
        have hescape : escape '"' c =
            '\\' :: 'u' :: '\x7b' :: (Nat.toDigits 16 c.toNat ++ ['\x7d']) := by
          simp [escape, Text.codePointEscape, *]
        refine ⟨?_, 'u', _, hescape, by decide, ?_⟩
        · rw [Readable, hescape]
          simp
        · intro x hx
          rcases List.mem_cons.mp hx with rfl | hx
          · decide
          · rcases List.mem_append.mp hx with hx | hx
            · exact mem_toDigits_sixteen hx
            · rw [List.mem_singleton.mp hx]
              decide

/-- What is read where one character has been written. -/
theorem readText_escape (c : Char) (cs : List Char) :
    readText (escape '"' c ++ cs) =
      (readText cs).map fun (text, n) => (reread c ++ text, n + (escape '"' c).length) := by
  rcases escape_cases c with ⟨h, hmark, hback⟩ | ⟨hread, d, h, hd⟩ | ⟨hread, d, ds, h, hd, hds⟩
  · have hread : Readable c := by simp [Readable, h]
    rw [h, reread, if_pos hread]
    exact readText_cons hmark hback cs
  · rw [h, reread, if_pos hread, List.cons_append, List.singleton_append, readText_backslash, hd]
    rfl
  · rw [reread, if_neg hread, h, List.cons_append, List.cons_append, readText_backslash, hd,
      readText_append hds]
    cases readText cs with
    | none => rfl
    | some r => simp [Nat.add_assoc]

/-- **A quoted text is read as its characters are, one by one.** -/
theorem readText_quoted (s rest : List Char) :
    readText (s.flatMap (escape '"') ++ '"' :: rest) =
      some (s.flatMap reread, (s.flatMap (escape '"')).length + 1) :=
  readText_flatMap readText_escape s rest

/-! ### Texts that are read back -/

theorem two_le_length_reread {c : Char} (h : ¬ Readable c) : 2 ≤ (reread c).length := by
  rcases escape_cases c with ⟨hc, -⟩ | ⟨hc, -⟩ | ⟨-, d, ds, hc, -⟩
  · exact absurd (by simp [Readable, hc]) h
  · exact absurd hc h
  · simp [reread, h, hc]

theorem length_le_flatMap_reread (s : List Char) : s.length ≤ (s.flatMap reread).length := by
  induction s with
  | nil => simp
  | cons c s ih =>
      have hc : 1 ≤ (reread c).length := by
        by_cases h : Readable c
        · simp [reread, h]
        · exact Nat.le_trans (by decide) (two_le_length_reread h)
      rw [List.flatMap_cons, List.length_append, List.length_cons]
      omega

theorem flatMap_reread_eq_iff {s : List Char} : s.flatMap reread = s ↔ ∀ c ∈ s, Readable c := by
  induction s with
  | nil => simp
  | cons c s ih =>
      rw [List.flatMap_cons, List.forall_mem_cons, ← ih]
      by_cases hc : Readable c
      · simp [reread, hc]
      · refine ⟨fun h => ?_, fun h => absurd h.1 hc⟩
        have hlength := congrArg List.length h
        have htwo := two_le_length_reread hc
        have hrest := length_le_flatMap_reread s
        rw [List.length_append, List.length_cons] at hlength
        omega

/-- **A text is read back exactly if all of its characters are.** -/
theorem rereadText_eq_iff {s : String} : rereadText s = s ↔ ∀ c ∈ s.toList, Readable c := by
  rw [← flatMap_reread_eq_iff, rereadText, ← String.toList_inj, String.toList_ofList]

end RollCall.Query.Token
