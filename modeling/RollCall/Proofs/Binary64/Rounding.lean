/-
Rounding a decimal to binary64.

A decimal is rounded as the rational that it stands for: one more zero in its digits
and one less in its power change nothing.  The value of a finite number is a whole
number of its last places, at the very scale where a quotient of that value is
rounded, so rounding it gives the number back.
-/
import RollCall.Binary64.Rounding
import RollCall.Proofs.Ratio
import RollCall.Proofs.Text.Digits

namespace RollCall.Binary64

/-! ### Logarithms -/

theorem log_mul_zpow {base : Nat} (hbase : 1 < base) {q : ℚ} (hq : 0 < q) (z : Int) :
    Int.log base (q * (base : ℚ) ^ z) = Int.log base q + z := by
  have hb : (0 : ℚ) < base := by exact_mod_cast (by omega : 0 < base)
  have hq' : 0 < q * (base : ℚ) ^ z := mul_pos hq (zpow_pos hb _)
  refine le_antisymm ?_ ?_
  · rw [← Int.lt_add_one_iff, ← Int.lt_zpow_iff_log_lt hbase hq', add_right_comm, zpow_add₀ hb.ne']
    exact mul_lt_mul_of_pos_right (Int.lt_zpow_succ_log_self hbase q) (zpow_pos hb _)
  · rw [← Int.zpow_le_iff_le_log hbase hq', zpow_add₀ hb.ne']
    exact mul_le_mul_of_nonneg_right (Int.zpow_log_le_self hbase hq) (zpow_pos hb _).le

/-- The binary order is the logarithm to the base two. -/
theorem order_two {r : Ratio} (hnum : r.num ≠ 0) (hden : r.den ≠ 0) :
    r.order 2 Nat.log2 = Int.log 2 r.value := by
  have hplaces : ∀ n, n ≠ 0 → Nat.log2 n = Nat.log 2 n + 0 := fun _ _ => Nat.log2_eq_log_two
  exact Ratio.order_eq_log Nat.one_lt_ofNat hplaces hnum hden

/-- The decimal order is the logarithm to the base ten. -/
theorem order_ten {r : Ratio} (hnum : r.num ≠ 0) (hden : r.den ≠ 0) :
    r.order 10 Text.digitCount = Int.log 10 r.value :=
  Ratio.order_eq_log Nat.one_lt_ofNat (fun _ hn => Text.digitCount_eq hn) hnum hden

/-! ### Rounding sees the rational only -/

theorem nearestMagnitude_congr {r s : Ratio} (hrn : r.num ≠ 0) (hrd : r.den ≠ 0)
    (hsn : s.num ≠ 0) (hsd : s.den ≠ 0) (h : r.value = s.value) :
    nearestMagnitude r = nearestMagnitude s := by
  have hscale : scaleOf r = scaleOf s := by
    rw [scaleOf, scaleOf, order_two hrn hrd, order_two hsn hsd, h]
  have hvalue : (r.shift 2 (-scaleOf s)).value = (s.shift 2 (-scaleOf s)).value := by
    rw [Ratio.value_shift, Ratio.value_shift, h]
  have hround := Ratio.roundHalfEven_congr (Ratio.den_shift_ne_zero hrd 2 _)
    (Ratio.den_shift_ne_zero hsd 2 _) hvalue
  simp only [nearestMagnitude, hscale, hround]

/-- The rational that a natural times a power of ten is. -/
def decimalValue (digits : Nat) (power : Int) : ℚ :=
  digits * 10 ^ power

theorem decimalValue_eq_zero_iff (digits : Nat) (power : Int) :
    decimalValue digits power = 0 ↔ digits = 0 := by
  have : (10 : ℚ) ^ power ≠ 0 := zpow_ne_zero _ (by norm_num)
  simp [decimalValue, this]

theorem value_shift_ten (digits : Nat) (power : Int) :
    ((Ratio.ofNat digits).shift 10 power).value = decimalValue digits power := by
  rw [Ratio.value_shift, Ratio.value_ofNat]
  rfl

/-- How many places a decimal has before the point, as its size tells. -/
theorem places_eq {digits : Nat} (hdigits : digits ≠ 0) (power : Int) :
    Text.digitCount digits + power = Int.log 10 (decimalValue digits power) + 1 := by
  have hpos : (0 : ℚ) < digits := by exact_mod_cast Nat.pos_of_ne_zero hdigits
  have hlog := log_mul_zpow (Nat.one_lt_ofNat : 1 < 10) hpos power
  rw [Int.log_natCast] at hlog
  rw [Text.digitCount_eq hdigits, decimalValue]
  push_cast at hlog ⊢
  rw [hlog]
  ring

/-- **Equal decimals are rounded alike.** -/
theorem decimalMagnitude_congr {digits digits' : Nat} {power power' : Int}
    (h : decimalValue digits power = decimalValue digits' power') :
    decimalMagnitude digits power = decimalMagnitude digits' power' := by
  by_cases hzero : digits = 0
  · have hzero' : digits' = 0 := by
      rw [← decimalValue_eq_zero_iff digits' power', ← h, decimalValue_eq_zero_iff]
      exact hzero
    simp [decimalMagnitude, hzero, hzero']
  · have hzero' : digits' ≠ 0 := by
      rw [ne_eq, ← decimalValue_eq_zero_iff digits' power', ← h, decimalValue_eq_zero_iff]
      exact hzero
    have hplaces : (Text.digitCount digits : Int) + power = Text.digitCount digits' + power' := by
      rw [places_eq hzero, places_eq hzero', h]
    have hnear : nearestMagnitude ((Ratio.ofNat digits).shift 10 power) =
        nearestMagnitude ((Ratio.ofNat digits').shift 10 power') := by
      refine nearestMagnitude_congr (Ratio.num_shift_ne_zero hzero 10 _)
        (Ratio.den_shift_ne_zero (Ratio.den_ofNat_ne_zero _) 10 _)
        (Ratio.num_shift_ne_zero hzero' 10 _)
        (Ratio.den_shift_ne_zero (Ratio.den_ofNat_ne_zero _) 10 _) ?_
      rw [value_shift_ten, value_shift_ten, h]
    simp only [decimalMagnitude, if_neg hzero, if_neg hzero', hplaces, hnear]

/-! ### The parts of a number -/

variable (x : Binary64)

theorem exponent_ge : -1074 ≤ x.exponent := by
  unfold exponent
  split <;> omega

theorem isFinite_iff : x.isFinite = true ↔ x.magnitude < infiniteMagnitude := by
  simp [isFinite]

theorem exponent_le (hfinite : x.isFinite = true) : x.exponent ≤ 971 := by
  have hmagnitude := x.isFinite_iff.mp hfinite
  unfold infiniteMagnitude at hmagnitude
  unfold exponent exponentField exponentBit
  split <;> omega

theorem significand_lt : x.significand < 2 ^ 53 := by
  unfold significand exponentField exponentBit
  split <;> omega

/-- Above the lowest exponent a significand has its leading one. -/
theorem exponent_eq_or_le_significand : x.exponent = -1074 ∨ 2 ^ 52 ≤ x.significand := by
  unfold exponent significand exponentBit
  split
  · exact .inl rfl
  · exact .inr (by omega)

/-- The magnitude counts on from the exponent by the significand. -/
theorem magnitude_eq : x.magnitude = (x.exponent + 1074).toNat * exponentBit + x.significand := by
  unfold exponent significand exponentField exponentBit
  split <;> omega

theorem significand_ne_zero (hzero : x.magnitude ≠ 0) : x.significand ≠ 0 := by
  rcases x.exponent_eq_or_le_significand with h | h
  · rw [magnitude_eq, h] at hzero
    simpa using hzero
  · intro hs
    rw [hs] at h
    norm_num at h

theorem value_ratio : x.ratio.value = x.significand * 2 ^ x.exponent := by
  rw [ratio, Ratio.value_shift, Ratio.value_ofNat]
  rfl

theorem ratio_num_ne_zero (hzero : x.magnitude ≠ 0) : x.ratio.num ≠ 0 :=
  Ratio.num_shift_ne_zero (x.significand_ne_zero hzero) 2 _

theorem ratio_den_ne_zero : x.ratio.den ≠ 0 :=
  Ratio.den_shift_ne_zero (Ratio.den_ofNat_ne_zero _) 2 _

theorem ofParts_isNegative_magnitude : ofParts x.isNegative x.magnitude = x := by
  obtain ⟨bits⟩ := x
  have hbits : bits.toNat < 2 ^ 64 := bits.toNat_lt
  have hsum : (if isNegative ⟨bits⟩ then signBit else 0) + magnitude ⟨bits⟩ = bits.toNat := by
    simp only [isNegative, magnitude, decide_eq_true_eq]
    unfold signBit
    split <;> omega
  rw [ofParts, hsum, UInt64.ofNat_toNat]

/-! ### Rounding the value of a number -/

/-- A quotient is rounded at the last place of the number whose value it has. -/
theorem scaleOf_eq {r : Ratio} (hnum : r.num ≠ 0) (hden : r.den ≠ 0)
    (h : r.value = x.ratio.value) : scaleOf r = x.exponent := by
  have hzero : x.significand ≠ 0 := by
    intro hs
    have := Ratio.value_pos hnum hden
    rw [h, value_ratio, hs] at this
    norm_num at this
  have hlog : Int.log 2 r.value = Nat.log 2 x.significand + x.exponent := by
    have hpos : (0 : ℚ) < x.significand := by exact_mod_cast Nat.pos_of_ne_zero hzero
    have hmul := log_mul_zpow Nat.one_lt_two hpos x.exponent
    rw [Int.log_natCast] at hmul
    rw [h, value_ratio]
    exact_mod_cast hmul
  have hhigh : Nat.log 2 x.significand < 53 := Nat.log_lt_of_lt_pow hzero x.significand_lt
  have hlow : x.exponent = -1074 ∨ 52 ≤ Nat.log 2 x.significand := by
    rcases x.exponent_eq_or_le_significand with he | he
    · exact .inl he
    · exact .inr (Nat.le_log_of_pow_le Nat.one_lt_two he)
  have hmin := x.exponent_ge
  rw [scaleOf, order_two hnum hden, hlog]
  omega

/-- **The value of a finite number is rounded to that number.** -/
theorem nearestMagnitude_of_value_eq {r : Ratio} (hfinite : x.isFinite = true) (hnum : r.num ≠ 0)
    (hden : r.den ≠ 0) (h : r.value = x.ratio.value) : nearestMagnitude r = x.magnitude := by
  have hvalue : (r.shift 2 (-x.exponent)).value = x.significand := by
    rw [Ratio.value_shift, h, value_ratio, mul_assoc]
    push_cast
    rw [← zpow_add₀ (by norm_num), add_neg_cancel, zpow_zero, mul_one]
  have hround := Ratio.roundHalfEven_of_value_eq
    (Ratio.den_shift_ne_zero hden 2 (-x.exponent)) hvalue
  simp only [nearestMagnitude, x.scaleOf_eq hnum hden h, hround, ← magnitude_eq]
  exact min_eq_left (x.isFinite_iff.mp hfinite).le

end RollCall.Binary64
