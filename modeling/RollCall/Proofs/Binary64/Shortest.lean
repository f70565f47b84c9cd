/-
The decimal that a number is written as is rounded to that number.

The search for it keeps only decimals that read back, so what it finds reads back; the
one decimal that is changed afterwards, when the point above the number is the next
power of ten, is changed to an equal one.  If nothing were found, the exact value
would be taken, and that reads back whatever the number is.
-/
import RollCall.Binary64.Shortest
import RollCall.Proofs.Binary64.Rounding

namespace RollCall.Binary64

variable {x : Binary64}

/-! ### The exact value -/

theorem value_exactDecimal :
    decimalValue x.exactDecimal.digits x.exactDecimal.power = x.ratio.value := by
  unfold exactDecimal
  split
  · rename_i h
    have hden : x.ratio.den = 1 := by
      have hneg : (-x.exponent).toNat = 0 := by omega
      simp [ratio, Ratio.shift_eq, Ratio.ofNat, hneg]
    simp [decimalValue, Ratio.value, hden]
  · rename_i h
    have hexponent : x.exponent = -((-x.exponent).toNat : Int) := by omega
    rw [value_ratio, decimalValue]
    generalize (-x.exponent).toNat = k at hexponent
    rw [hexponent, zpow_neg, zpow_neg, zpow_natCast, zpow_natCast, Nat.pow_eq]
    have hten : (10 : ℚ) ^ k = 5 ^ k * 2 ^ k := by
      rw [← mul_pow]
      norm_num
    push_cast
    rw [hten, mul_inv, mul_assoc, ← mul_assoc (5 ^ k), mul_inv_cancel₀ (by positivity), one_mul]

theorem zpow_le_zpow_of_pow_le {a b m n : Nat} (h : a ^ m ≤ b ^ n) :
    (a : ℚ) ^ (m : Int) ≤ (b : ℚ) ^ (n : Int) := by
  rw [zpow_natCast, zpow_natCast]
  exact_mod_cast h

theorem zpow_cast_pos (a : Nat) [NeZero a] (z : Int) : (0 : ℚ) < (a : ℚ) ^ z :=
  zpow_pos (Nat.cast_pos.mpr (Nat.pos_of_neZero a)) z

/-- The greatest finite number has at most 310 places before the point. -/
theorem two_zpow_le : (2 : ℚ) ^ (1024 : Int) ≤ 10 ^ (310 : Int) := by
  have h := zpow_le_zpow_of_pow_le (by decide +kernel : 2 ^ 1024 ≤ 10 ^ 310)
  exact h

/-- The least number but zero begins within 330 places behind the point. -/
theorem le_two_zpow : (10 : ℚ) ^ (-330 : Int) ≤ 2 ^ (-1074 : Int) := by
  have h := zpow_le_zpow_of_pow_le (by decide +kernel : 2 ^ 1074 ≤ 10 ^ 330)
  rw [zpow_neg, zpow_neg]
  exact inv_anti₀ (zpow_cast_pos 2 1074) h

/-- No finite number is so great, or so small, that its decimal would be taken for infinity or
for zero. -/
theorem places_range (hfinite : x.isFinite = true) (hzero : x.magnitude ≠ 0) :
    -330 ≤ Int.log 10 x.ratio.value ∧ Int.log 10 x.ratio.value < 310 := by
  have hpos := Ratio.value_pos (x.ratio_num_ne_zero hzero) x.ratio_den_ne_zero
  have hpower : (0 : ℚ) < 2 ^ x.exponent := zpow_cast_pos 2 x.exponent
  have hone : (1 : ℚ) ≤ x.significand := by
    exact_mod_cast Nat.one_le_iff_ne_zero.mpr (x.significand_ne_zero hzero)
  have hlt : (x.significand : ℚ) < 2 ^ (53 : Int) := by exact_mod_cast x.significand_lt
  rw [← Int.zpow_le_iff_le_log Nat.one_lt_ofNat hpos,
    ← Int.lt_zpow_iff_log_lt Nat.one_lt_ofNat hpos, value_ratio]
  constructor
  · have hlow : (2 : ℚ) ^ (-1074 : Int) ≤ 2 ^ x.exponent :=
      zpow_le_zpow_right₀ (by norm_num) x.exponent_ge
    calc (10 : ℚ) ^ (-330 : Int) ≤ 2 ^ (-1074 : Int) := le_two_zpow
      _ ≤ 2 ^ x.exponent := hlow
      _ ≤ x.significand * 2 ^ x.exponent := le_mul_of_one_le_left hpower.le hone
  · have hhigh : (2 : ℚ) ^ x.exponent ≤ 2 ^ (971 : Int) :=
      zpow_le_zpow_right₀ (by norm_num) (x.exponent_le hfinite)
    have hsplit : (2 : ℚ) ^ (1024 : Int) = 2 ^ (53 : Int) * 2 ^ (971 : Int) := by
      rw [← zpow_add₀ (by norm_num)]
      rfl
    calc (x.significand : ℚ) * 2 ^ x.exponent < 2 ^ (53 : Int) * 2 ^ x.exponent :=
          mul_lt_mul_of_pos_right hlt hpower
      _ ≤ 2 ^ (53 : Int) * 2 ^ (971 : Int) :=
          mul_le_mul_of_nonneg_left hhigh (zpow_cast_pos 2 53).le
      _ ≤ (10 : ℚ) ^ (310 : Int) := hsplit ▸ two_zpow_le

/-- A decimal that is exactly the value of a number reads back as its magnitude. -/
theorem decimalMagnitude_of_value_eq {digits : Nat} {power : Int} (hfinite : x.isFinite = true)
    (hzero : x.magnitude ≠ 0) (h : decimalValue digits power = x.ratio.value) :
    decimalMagnitude digits power = x.magnitude := by
  have hpos := Ratio.value_pos (x.ratio_num_ne_zero hzero) x.ratio_den_ne_zero
  have hdigits : digits ≠ 0 := by
    rw [ne_eq, ← decimalValue_eq_zero_iff digits power, h]
    exact hpos.ne'
  obtain ⟨hlow, hhigh⟩ := places_range hfinite hzero
  have hplaces := places_eq hdigits power
  rw [h] at hplaces
  simp only [decimalMagnitude, if_neg hdigits, hplaces]
  rw [if_neg (by omega), if_neg (by omega)]
  refine x.nearestMagnitude_of_value_eq hfinite (Ratio.num_shift_ne_zero hdigits 10 _)
    (Ratio.den_shift_ne_zero (Ratio.den_ofNat_ne_zero _) 10 _) ?_
  rw [value_shift_ten, h]

/-! ### What the search finds -/

/-- A point of the grid beside the number is at most the next power of ten. -/
theorem floor_lt_pow (hzero : x.magnitude ≠ 0) (count : Nat) :
    (x.ratio.shift 10 (-(x.ratio.order 10 Text.digitCount + 1 - count))).floor < 10 ^ count := by
  have hpos := Ratio.value_pos (x.ratio_num_ne_zero hzero) x.ratio_den_ne_zero
  rw [Ratio.floor_eq, Ratio.value_shift,
    order_ten (x.ratio_num_ne_zero hzero) x.ratio_den_ne_zero]
  refine (Nat.floor_lt (mul_pos hpos (zpow_cast_pos 10 _)).le).mpr ?_
  have hlt := Int.lt_zpow_succ_log_self (Nat.one_lt_ofNat : 1 < 10) x.ratio.value
  calc x.ratio.value * ((10 : Nat) : ℚ) ^ (-(Int.log 10 x.ratio.value + 1 - count))
      < ((10 : Nat) : ℚ) ^ (Int.log 10 x.ratio.value + 1) *
          ((10 : Nat) : ℚ) ^ (-(Int.log 10 x.ratio.value + 1 - count)) :=
        mul_lt_mul_of_pos_right hlt (zpow_cast_pos 10 _)
    _ = ((10 ^ count : Nat) : ℚ) := by
        rw [← zpow_add₀ (by norm_num), ← sub_eq_add_neg, sub_sub_cancel, zpow_natCast]
        push_cast
        rfl

theorem decimalMagnitude_of_decimalOf? {count : Nat} {d : Decimal} (hzero : x.magnitude ≠ 0)
    (h : x.decimalOf? count = some d) : decimalMagnitude d.digits d.power = x.magnitude := by
  unfold decimalOf? at h
  simp only [Option.map_eq_some_iff] at h
  obtain ⟨digits, hfind, rfl⟩ := h
  have hmagnitude := List.find?_some hfind
  rw [decide_eq_true_eq] at hmagnitude
  split
  · exact hmagnitude
  · rename_i hlong
    -- Too many digits for the grid: this is the power of ten itself.
    have hle : digits ≤ 10 ^ count := by
      have hfloor := floor_lt_pow hzero count
      have hmem := List.mem_of_find?_eq_some hfind
      split at hmem
      all_goals
        simp only [List.mem_cons, List.not_mem_nil, or_false] at hmem
        omega
    have hge : 10 ^ count ≤ digits := by
      rcases Nat.eq_zero_or_pos count with rfl | hcount
      · refine Nat.one_le_iff_ne_zero.mpr ?_
        rintro rfl
        exact hzero (by simpa [decimalMagnitude] using hmagnitude.symm)
      · exact not_lt.mp (mt (Text.digitCount_le_iff hcount).mpr hlong)
    obtain rfl : digits = 10 ^ count := le_antisymm hle hge
    rw [← hmagnitude]
    refine decimalMagnitude_congr ?_
    rw [decimalValue, decimalValue, zpow_add₀ (by norm_num), zpow_natCast]
    push_cast
    ring

/-- **The shortest decimal reads back.** -/
theorem decimalMagnitude_shortest (hfinite : x.isFinite = true) (hzero : x.magnitude ≠ 0) :
    decimalMagnitude x.shortest.digits x.shortest.power = x.magnitude := by
  unfold shortest
  cases hfound : ((List.range 17).map (· + 1)).findSome? x.decimalOf? with
  | none => exact decimalMagnitude_of_value_eq hfinite hzero value_exactDecimal
  | some d =>
      obtain ⟨count, -, hcount⟩ := List.exists_of_findSome?_eq_some hfound
      exact decimalMagnitude_of_decimalOf? hzero hcount

end RollCall.Binary64
