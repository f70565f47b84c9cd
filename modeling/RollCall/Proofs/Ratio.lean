/-
A quotient stands for a rational number.

The functions on quotients work on a numerator and a denominator, which are not the
least ones.  Each of them is shown to depend on the rational only: moving multiplies
it by a power of the base, the whole part is its floor, the order is its logarithm,
and rounding looks at no more than the whole part and what is left behind it.  So two
decimals that are equal as numbers are rounded alike, however they were written.
-/
import Mathlib.Algebra.Order.Floor.Semifield
import Mathlib.Data.Int.Log
import Mathlib.Data.Rat.Floor
import Mathlib.Tactic.Ring
import RollCall.Ratio

namespace RollCall.Ratio

/-- The rational that a quotient stands for. -/
def value (r : Ratio) : ℚ :=
  (r.num : ℚ) / r.den

@[simp] theorem value_ofNat (n : Nat) : (ofNat n).value = n := by
  simp [value, ofNat]

theorem den_ofNat_ne_zero (n : Nat) : (ofNat n).den ≠ 0 :=
  Nat.one_ne_zero

theorem value_pos {r : Ratio} (hnum : r.num ≠ 0) (hden : r.den ≠ 0) : 0 < r.value := by
  have hn : (0 : ℚ) < r.num := by exact_mod_cast Nat.pos_of_ne_zero hnum
  have hd : (0 : ℚ) < r.den := by exact_mod_cast Nat.pos_of_ne_zero hden
  exact div_pos hn hd

/-! ### Moving -/

/-- The power of the base that a quotient is moved by is split between its two parts. -/
theorem shift_eq (r : Ratio) (base : Nat) (power : Int) :
    r.shift base power = ⟨r.num * base ^ power.toNat, r.den * base ^ (-power).toNat⟩ := by
  unfold shift
  split
  · rename_i h
    have : (-power).toNat = 0 := by omega
    simp [this]
  · rename_i h
    have : power.toNat = 0 := by omega
    simp [this]

theorem den_shift_ne_zero {r : Ratio} (hden : r.den ≠ 0) (base : Nat) [NeZero base]
    (power : Int) : (r.shift base power).den ≠ 0 := by
  rw [shift_eq]
  exact Nat.mul_ne_zero hden (pow_ne_zero _ (NeZero.ne base))

theorem num_shift_ne_zero {r : Ratio} (hnum : r.num ≠ 0) (base : Nat) [NeZero base]
    (power : Int) : (r.shift base power).num ≠ 0 := by
  rw [shift_eq]
  exact Nat.mul_ne_zero hnum (pow_ne_zero _ (NeZero.ne base))

/-- **Moving multiplies by a power of the base.** -/
theorem value_shift (r : Ratio) (base : Nat) [NeZero base] (power : Int) :
    (r.shift base power).value = r.value * (base : ℚ) ^ power := by
  have hb : (base : ℚ) ≠ 0 := NeZero.ne _
  have hpower : (base : ℚ) ^ power = (base : ℚ) ^ power.toNat / (base : ℚ) ^ (-power).toNat := by
    rw [← zpow_natCast, ← zpow_natCast, ← zpow_sub₀ hb]
    congr 1
    omega
  rw [shift_eq, hpower, value, value]
  push_cast
  rw [div_mul_div_comm]

/-! ### Whole part and rounding -/

theorem floor_eq (r : Ratio) : r.floor = ⌊r.value⌋₊ := by
  rw [value, Nat.floor_div_eq_div]
  rfl

theorem compare_congr {a b c d : Nat} (hb : 0 < b) (hd : 0 < d) (h : a * d = c * b) :
    compare (2 * a) b = compare (2 * c) d := by
  have h2 : 2 * a * d = 2 * c * b := by rw [Nat.mul_assoc, h, Nat.mul_assoc]
  rcases Nat.lt_trichotomy (2 * a) b with hc | hc | hc
  · have hc' : 2 * c < d := by
      rw [← Nat.mul_lt_mul_right hb, ← h2, Nat.mul_comm d b, Nat.mul_lt_mul_right hd]
      exact hc
    rw [Nat.compare_eq_lt.mpr hc, Nat.compare_eq_lt.mpr hc']
  · have hc' : 2 * c = d := by
      rw [hc, Nat.mul_comm] at h2
      exact (Nat.eq_of_mul_eq_mul_right hb h2).symm
    rw [Nat.compare_eq_eq.mpr hc, Nat.compare_eq_eq.mpr hc']
  · have hc' : d < 2 * c := by
      rw [← Nat.mul_lt_mul_right hb, ← h2, Nat.mul_comm d b, Nat.mul_lt_mul_right hd]
      exact hc
    rw [Nat.compare_eq_gt.mpr hc, Nat.compare_eq_gt.mpr hc']

/-- Equal quotients compare alike to a half: what is left behind the whole parts is in the same
proportion to the denominators. -/
theorem compareHalf_congr {r s : Ratio} (hr : r.den ≠ 0) (hs : s.den ≠ 0)
    (h : r.value = s.value) : r.compareHalf = s.compareHalf := by
  have hcross : r.num * s.den = s.num * r.den := by
    have hr' : (r.den : ℚ) ≠ 0 := by exact_mod_cast hr
    have hs' : (s.den : ℚ) ≠ 0 := by exact_mod_cast hs
    rw [value, value, div_eq_div_iff hr' hs'] at h
    exact_mod_cast h
  have hfloor : r.num / r.den = s.num / s.den := by
    have hr' := floor_eq r
    rw [h, ← floor_eq s] at hr'
    exact hr'
  have hleft : r.num % r.den * s.den = s.num % s.den * r.den := by
    have hwhole : r.den * (s.num / s.den) * s.den = s.den * (s.num / s.den) * r.den := by
      ac_rfl
    rw [← Nat.div_add_mod r.num r.den, ← Nat.div_add_mod s.num s.den, hfloor, Nat.add_mul,
      Nat.add_mul, hwhole] at hcross
    simpa using Nat.add_left_cancel hcross
  exact compare_congr (Nat.pos_of_ne_zero hr) (Nat.pos_of_ne_zero hs) hleft

/-- **Rounding depends on the rational only.** -/
theorem roundHalfEven_congr {r s : Ratio} (hr : r.den ≠ 0) (hs : s.den ≠ 0)
    (h : r.value = s.value) : r.roundHalfEven = s.roundHalfEven := by
  have hfloor : r.floor = s.floor := by rw [floor_eq, floor_eq, h]
  unfold roundHalfEven
  rw [compareHalf_congr hr hs h, hfloor]

/-- A whole number is not changed by rounding. -/
theorem roundHalfEven_of_value_eq {r : Ratio} {n : Nat} (hr : r.den ≠ 0) (h : r.value = n) :
    r.roundHalfEven = n := by
  have hn : (ofNat n).roundHalfEven = n := by
    simp [roundHalfEven, compareHalf, floor, ofNat, Nat.mod_one, Nat.compare_eq_lt.mpr]
  rw [← hn]
  exact roundHalfEven_congr hr (den_ofNat_ne_zero n) (by rw [h, value_ofNat])

/-! ### Order

The numerator and the denominator lie between two powers of the base each, which leaves
two values for the order.  One comparison decides between them.
-/

theorem value_bounds {base : Nat} (hbase : 1 < base) {r : Ratio} (hnum : r.num ≠ 0)
    (hden : r.den ≠ 0) :
    (base : ℚ) ^ ((Nat.log base r.num - Nat.log base r.den : Int) - 1) ≤ r.value ∧
      r.value < (base : ℚ) ^ ((Nat.log base r.num - Nat.log base r.den : Int) + 1) := by
  have hb : (0 : ℚ) < base := by exact_mod_cast (by omega : 0 < base)
  have hd : (0 : ℚ) < r.den := by exact_mod_cast Nat.pos_of_ne_zero hden
  constructor
  · have h1 : (base : ℚ) ^ (Nat.log base r.num : Int) ≤ r.num := by
      exact_mod_cast Nat.pow_log_le_self base hnum
    have h2 : (r.den : ℚ) ≤ (base : ℚ) ^ ((Nat.log base r.den : Int) + 1) := by
      exact_mod_cast (Nat.lt_pow_succ_log_self hbase r.den).le
    rw [value, le_div_iff₀ hd]
    calc (base : ℚ) ^ ((Nat.log base r.num - Nat.log base r.den : Int) - 1) * r.den
        ≤ (base : ℚ) ^ ((Nat.log base r.num - Nat.log base r.den : Int) - 1) *
            (base : ℚ) ^ ((Nat.log base r.den : Int) + 1) :=
          mul_le_mul_of_nonneg_left h2 (zpow_pos hb _).le
      _ = (base : ℚ) ^ (Nat.log base r.num : Int) := by
          rw [← zpow_add₀ hb.ne']
          congr 1
          ring
      _ ≤ r.num := h1
  · have h1 : (r.num : ℚ) < (base : ℚ) ^ ((Nat.log base r.num : Int) + 1) := by
      exact_mod_cast Nat.lt_pow_succ_log_self hbase r.num
    have h2 : (base : ℚ) ^ (Nat.log base r.den : Int) ≤ r.den := by
      exact_mod_cast Nat.pow_log_le_self base hden
    rw [value, div_lt_iff₀ hd]
    calc (r.num : ℚ) < (base : ℚ) ^ ((Nat.log base r.num : Int) + 1) := h1
      _ = (base : ℚ) ^ ((Nat.log base r.num - Nat.log base r.den : Int) + 1) *
            (base : ℚ) ^ (Nat.log base r.den : Int) := by
          rw [← zpow_add₀ hb.ne']
          congr 1
          ring
      _ ≤ (base : ℚ) ^ ((Nat.log base r.num - Nat.log base r.den : Int) + 1) * r.den :=
          mul_le_mul_of_nonneg_left h2 (zpow_pos hb _).le

/-- Moved down by a power of the base, a quotient is still one or more exactly if it is no less
than that power. -/
theorem den_le_num_shift_iff {r : Ratio} (hden : r.den ≠ 0) (base : Nat) [NeZero base]
    (power : Int) :
    (r.shift base (-power)).den ≤ (r.shift base (-power)).num ↔ (base : ℚ) ^ power ≤ r.value := by
  have hb : (0 : ℚ) < base := by exact_mod_cast Nat.pos_of_neZero base
  have hm : (0 : ℚ) < (r.shift base (-power)).den := by
    exact_mod_cast Nat.pos_of_ne_zero (den_shift_ne_zero hden base (-power))
  rw [← Nat.cast_le (α := ℚ), ← one_le_div hm, ← value, value_shift, zpow_neg,
    ← div_eq_mul_inv, one_le_div (zpow_pos hb _)]

/--
**The order is the logarithm.**  The measure may be the logarithm of a natural but for a
constant, which falls out of the difference.
-/
theorem order_eq_log {base : Nat} (hbase : 1 < base) {places : Nat → Nat} {offset : Nat}
    (hplaces : ∀ n, n ≠ 0 → places n = Nat.log base n + offset) {r : Ratio} (hnum : r.num ≠ 0)
    (hden : r.den ≠ 0) : r.order base places = Int.log base r.value := by
  have : NeZero base := ⟨by omega⟩
  have hpos := value_pos hnum hden
  obtain ⟨hlow, hhigh⟩ := value_bounds hbase hnum hden
  rw [Int.zpow_le_iff_le_log hbase hpos] at hlow
  rw [Int.lt_zpow_iff_log_lt hbase hpos] at hhigh
  have hlead : (places r.num - places r.den : Int) = Nat.log base r.num - Nat.log base r.den := by
    rw [hplaces _ hnum, hplaces _ hden]
    push_cast
    ring
  have hmoved := den_le_num_shift_iff hden base (places r.num - places r.den)
  rw [Int.zpow_le_iff_le_log hbase hpos] at hmoved
  unfold order
  by_cases h : (r.shift base (-(places r.num - places r.den : Int))).den ≤
      (r.shift base (-(places r.num - places r.den : Int))).num
  · rw [if_pos h]
    have := hmoved.mp h
    omega
  · rw [if_neg h]
    have := mt hmoved.mpr h
    omega

end RollCall.Ratio
