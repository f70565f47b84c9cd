/-
Digits are read back.

What is written of a number is digits only, as many as its logarithm says, and zeros
around them do to the number what they should: in front they change nothing, behind
they multiply by ten.  A run of digits is read as far as it goes, so what is written
behind it has to begin with something else; `Stops` says so for any class of
characters.
-/
import Mathlib.Algebra.Ring.Nat
import Mathlib.Data.List.TakeWhile
import Mathlib.Data.Nat.Log
import RollCall.Text.Digits

namespace RollCall.Text

/-! ### Runs of characters of a class -/

/-- The text does not begin with a character of the class. -/
def Stops (p : Char → Bool) (cs : List Char) : Prop :=
  ∀ c ∈ cs.head?, p c = false

variable {p : Char → Bool} {cs rest : List Char}

@[simp] theorem stops_nil : Stops p [] := by
  simp [Stops]

@[simp] theorem stops_cons {c : Char} : Stops p (c :: cs) ↔ p c = false := by
  simp [Stops]

/-- Less of a text begins as the text does. -/
theorem Stops.of_prefix {front : List Char} (hrest : Stops p rest) (hfront : front <+: rest) :
    Stops p front := by
  obtain ⟨behind, rfl⟩ := hfront
  cases front with
  | nil => exact stops_nil
  | cons c front => exact stops_cons.mpr (stops_cons.mp hrest)

theorem Stops.take (hrest : Stops p rest) (k : Nat) : Stops p (rest.take k) :=
  hrest.of_prefix (List.take_prefix k rest)

theorem takeWhile_of_stops (hrest : Stops p rest) : rest.takeWhile p = [] := by
  cases rest with
  | nil => rfl
  | cons c rest => simp [stops_cons.mp hrest]

theorem stops_of_takeWhile (h : cs.takeWhile p = []) : Stops p cs := by
  cases cs with
  | nil => exact stops_nil
  | cons c cs => simpa [List.takeWhile_cons] using h

theorem dropWhile_of_stops (hrest : Stops p rest) : rest.dropWhile p = rest := by
  cases rest with
  | nil => rfl
  | cons c rest => simp [stops_cons.mp hrest]

/-- A text begins with a run of the class, perhaps an empty one, and goes on with what stops it. -/
theorem exists_run (p : Char → Bool) (cs : List Char) :
    ∃ run rest, cs = run ++ rest ∧ (∀ c ∈ run, p c = true) ∧ Stops p rest := by
  refine ⟨cs.takeWhile p, cs.dropWhile p, List.takeWhile_append_dropWhile.symm,
    fun _ => List.mem_takeWhile_imp, ?_⟩
  intro c hc
  have hstop := List.head?_dropWhile_not p cs
  rw [Option.mem_def.mp hc] at hstop
  exact hstop

/-- A run at the front of a text goes no further when the text is followed by what stops it. -/
theorem takeWhile_append_stops (cs : List Char) (hrest : Stops p rest) :
    (cs ++ rest).takeWhile p = cs.takeWhile p := by
  rw [List.takeWhile_append, takeWhile_of_stops hrest, List.append_nil]
  split
  · rename_i hall
    exact ((List.takeWhile_prefix p).eq_of_length hall).symm
  · rfl

theorem dropWhile_append_stops (cs : List Char) (hrest : Stops p rest) :
    (cs ++ rest).dropWhile p = cs.dropWhile p ++ rest := by
  refine (List.append_right_inj (cs.takeWhile p)).mp ?_
  rw [← List.append_assoc, List.takeWhile_append_dropWhile, ← takeWhile_append_stops cs hrest,
    List.takeWhile_append_dropWhile]

theorem takeWhile_append_of_stops (hcs : ∀ c ∈ cs, p c = true) (hrest : Stops p rest) :
    (cs ++ rest).takeWhile p = cs := by
  rw [List.takeWhile_append_of_pos hcs, takeWhile_of_stops hrest, List.append_nil]

theorem dropWhile_append_of_stops (hcs : ∀ c ∈ cs, p c = true) (hrest : Stops p rest) :
    (cs ++ rest).dropWhile p = rest := by
  refine (List.append_right_inj cs).mp ?_
  calc cs ++ (cs ++ rest).dropWhile p
      = (cs ++ rest).takeWhile p ++ (cs ++ rest).dropWhile p := by
        rw [takeWhile_append_of_stops hcs hrest]
    _ = cs ++ rest := List.takeWhile_append_dropWhile

theorem spanDigits_append_stops (cs : List Char) (hrest : Stops Char.isDigit rest) :
    spanDigits (cs ++ rest) = ((spanDigits cs).1, (spanDigits cs).2 ++ rest) := by
  rw [spanDigits, takeWhile_append_stops cs hrest, dropWhile_append_stops cs hrest]
  rfl

theorem spanDigits_append (hcs : ∀ c ∈ cs, c.isDigit = true) (hrest : Stops Char.isDigit rest) :
    spanDigits (cs ++ rest) = (cs, rest) := by
  rw [spanDigits, takeWhile_append_of_stops hcs hrest, dropWhile_append_of_stops hcs hrest]

/-- A character of the class is none that is not. -/
theorem ne_of_class {c d : Char} (hc : p c = true) (hd : p d = false) : c ≠ d := by
  rintro rfl
  rw [hc] at hd
  cases hd

theorem digit_bounds {c : Char} (h : c.isDigit = true) : 48 ≤ c.toNat ∧ c.toNat ≤ 57 := by
  simp only [Char.isDigit, Bool.and_eq_true, decide_eq_true_eq, ge_iff_le,
    UInt32.le_iff_toNat_le] at h
  exact h

/-! ### The digits of a number -/

theorem isDigit_digits (n : Nat) : ∀ c ∈ digits n, c.isDigit = true :=
  fun _ h => Nat.isDigit_of_mem_toDigits (by decide) (by decide) h

theorem digits_ne_nil (n : Nat) : digits n ≠ [] :=
  Nat.toDigits_ne_nil

theorem digitCount_le_iff {n k : Nat} (hk : 0 < k) : digitCount n ≤ k ↔ n < 10 ^ k :=
  Nat.length_toDigits_le_iff (by decide) hk

theorem digitCount_pos (n : Nat) : 0 < digitCount n :=
  Nat.length_toDigits_pos

/-- The count of digits is the logarithm and one. -/
theorem digitCount_eq {n : Nat} (hn : n ≠ 0) : digitCount n = Nat.log 10 n + 1 := by
  have hup : digitCount n ≤ Nat.log 10 n + 1 :=
    (digitCount_le_iff (by omega)).mpr (Nat.lt_pow_succ_log_self (by decide) n)
  have hdown : Nat.log 10 n < digitCount n :=
    Nat.log_lt_of_lt_pow hn ((digitCount_le_iff (digitCount_pos n)).mp le_rfl)
  omega

/-! ### Zeros around the digits -/

@[simp] theorem ofDigits_replicate_append (k : Nat) (cs : List Char) :
    ofDigits (List.replicate k '0' ++ cs) = ofDigits cs := by
  rw [ofDigits, Nat.ofDigitChars_append, Nat.ofDigitChars_replicate_zero, Nat.mul_zero]
  rfl

theorem ofDigits_append_replicate (cs : List Char) (k : Nat) :
    ofDigits (cs ++ List.replicate k '0') = ofDigits cs * 10 ^ k := by
  rw [ofDigits, Nat.ofDigitChars_append, Nat.ofDigitChars_replicate_zero, Nat.mul_comm]
  rfl

/-- A run of digits stands for less than the power of ten with that many zeros. -/
theorem ofDigits_lt (hcs : ∀ c ∈ cs, c.isDigit = true) : ofDigits cs < 10 ^ cs.length := by
  induction cs with
  | nil => simp [ofDigits]
  | cons c cs ih =>
      have hc : c.toNat - '0'.toNat ≤ 9 :=
        Nat.sub_le_of_le_add (digit_bounds (hcs c List.mem_cons_self)).2
      have hrest := ih fun d hd => hcs d (by simp [hd])
      rw [ofDigits, Nat.ofDigitChars_cons, Nat.ofDigitChars_eq_ofDigitChars_zero]
      rw [ofDigits] at hrest
      rw [List.length_cons, Nat.pow_succ]
      have := Nat.mul_le_mul_left (10 ^ cs.length) hc
      simp only [Nat.mul_zero, Nat.zero_add]
      omega

/-! ### Padding -/

@[simp] theorem ofDigits_padded (width n : Nat) : ofDigits (padded width n) = n := by
  rw [padded, List.leftpad, ofDigits_replicate_append, ofDigits_digits]

theorem length_padded {width n : Nat} [NeZero width] (h : n < 10 ^ width) :
    (padded width n).length = width := by
  rw [padded, List.length_leftpad]
  exact max_eq_left ((digitCount_le_iff (Nat.pos_of_neZero width)).mpr h)

/-- Padding to less than the width keeps a number within it. -/
theorem length_padded_le {least width n : Nat} [NeZero width] (hleast : least ≤ width)
    (h : n < 10 ^ width) : (padded least n).length ≤ width := by
  rw [padded, List.length_leftpad]
  exact max_le hleast ((digitCount_le_iff (Nat.pos_of_neZero width)).mpr h)

/-- A number that is too great for the width is written in full. -/
theorem padded_of_le {width n : Nat} [NeZero width] (h : 10 ^ width ≤ n) :
    padded width n = digits n ∧ width < (digits n).length := by
  have hlong : width < (digits n).length := by
    rw [← not_le]
    intro hshort
    exact absurd ((digitCount_le_iff (Nat.pos_of_neZero width)).mp hshort) (not_lt.mpr h)
  refine ⟨?_, hlong⟩
  rw [padded, List.leftpad, Nat.sub_eq_zero_of_le hlong.le]
  rfl

theorem isDigit_replicate (k : Nat) : ∀ c ∈ List.replicate k '0', c.isDigit = true := by
  intro c hc
  rw [(List.mem_replicate.mp hc).2]
  rfl

theorem isDigit_padded (width n : Nat) : ∀ c ∈ padded width n, c.isDigit = true :=
  List.forall_mem_append.mpr ⟨isDigit_replicate _, isDigit_digits n⟩

theorem padded_ne_nil (width n : Nat) : padded width n ≠ [] := by
  simp [padded, List.leftpad, digits_ne_nil]

/-- What is padded begins with a digit, even if it is padded to no width. -/
theorem padded_eq_cons (width n : Nat) :
    ∃ c cs, padded width n = c :: cs ∧ c.isDigit = true := by
  have hdigits := isDigit_padded width n
  cases h : padded width n with
  | nil => exact absurd h (padded_ne_nil width n)
  | cons c cs =>
      rw [h] at hdigits
      exact ⟨c, cs, rfl, hdigits c List.mem_cons_self⟩

end RollCall.Text
