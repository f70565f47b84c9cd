/-
UTF-16, read and written.

A unit is written as two bytes and a character as one unit or as two surrogates.  Both
steps of reading undo the same step of writing, and each of them fails for one reason
only: the bytes are no units if one of them is left over, and the units are no text if a
surrogate among them stands without its partner.  So what is read is what is written, and
nothing else is.
-/
import Mathlib.Data.List.Chain
import RollCall.Text.Utf16

namespace RollCall.Text.Utf16

/-! ### Bytes and units -/

/-- The two bytes of a unit. -/
def ByteOrder.bytes (order : ByteOrder) (unit : Nat) : List UInt8 :=
  match order with
  | .lowFirst => [UInt8.ofNat unit, UInt8.ofNat (unit / 256)]
  | .highFirst => [UInt8.ofNat (unit / 256), UInt8.ofNat unit]

theorem unit_lt (order : ByteOrder) (first second : UInt8) :
    order.unit first second < 0x10000 := by
  have := first.toNat_lt
  have := second.toNat_lt
  cases order <;> simp only [ByteOrder.unit] <;> omega

theorem bytes_unit (order : ByteOrder) (first second : UInt8) :
    order.bytes (order.unit first second) = [first, second] := by
  have hbyte : ∀ high low : UInt8, UInt8.ofNat (high.toNat * 256 + low.toNat) = low ∧
      UInt8.ofNat ((high.toNat * 256 + low.toNat) / 256) = high := by
    intro high low
    have := high.toNat_lt
    have := low.toNat_lt
    constructor
    · rw [← UInt8.toNat_inj, UInt8.toNat_ofNat']
      omega
    · rw [← UInt8.toNat_inj, UInt8.toNat_ofNat']
      omega
  cases order with
  | lowFirst => simp only [ByteOrder.bytes, ByteOrder.unit, hbyte]
  | highFirst => simp only [ByteOrder.bytes, ByteOrder.unit, hbyte]

/-- The bytes of a unit are read as this unit, whatever follows. -/
theorem units?_bytes_append (order : ByteOrder) {unit : Nat} (h : unit < 0x10000)
    (rest : List UInt8) :
    units? order (order.bytes unit ++ rest) = (units? order rest).map (unit :: ·) := by
  have hhigh : unit / 256 < 256 := by omega
  have hunit : unit / 256 * 256 + unit % 256 = unit := by omega
  cases order with
  | lowFirst =>
      simp only [ByteOrder.bytes, List.cons_append, List.nil_append, units?, ByteOrder.unit,
        UInt8.toNat_ofNat', Nat.reducePow, Nat.mod_eq_of_lt hhigh, hunit]
  | highFirst =>
      simp only [ByteOrder.bytes, List.cons_append, List.nil_append, units?, ByteOrder.unit,
        UInt8.toNat_ofNat', Nat.reducePow, Nat.mod_eq_of_lt hhigh, hunit]

/-- **Bytes are read as the units that are written as these bytes.** -/
theorem units?_eq_some {order : ByteOrder} {bytes : List UInt8} {us : List Nat} :
    units? order bytes = some us ↔ (∀ u ∈ us, u < 0x10000) ∧ bytes = us.flatMap order.bytes := by
  constructor
  · intro h
    fun_induction units? order bytes generalizing us with
    | case1 =>
        obtain rfl := Option.some.inj h
        simp
    | case2 => cases h
    | case3 first second rest ih =>
        obtain ⟨vs, hvs, rfl⟩ := Option.map_eq_some_iff.mp h
        obtain ⟨hbound, rfl⟩ := ih hvs
        refine ⟨List.forall_mem_cons.mpr ⟨unit_lt order first second, hbound⟩, ?_⟩
        rw [List.flatMap_cons, bytes_unit]
        rfl
  · rintro ⟨hbound, rfl⟩
    induction us with
    | nil => rfl
    | cons u us ih =>
        obtain ⟨hu, hus⟩ := List.forall_mem_cons.mp hbound
        rw [List.flatMap_cons, units?_bytes_append order hu, ih hus]
        rfl

/-- Bytes are no units if one is left over. -/
theorem units?_eq_none {order : ByteOrder} {bytes : List UInt8} :
    units? order bytes = none ↔ bytes.length % 2 = 1 := by
  fun_induction units? order bytes with
  | case1 => simp
  | case2 => simp
  | case3 first second rest ih =>
      rw [Option.map_eq_none_iff, ih, List.length_cons, List.length_cons]
      omega

/-! ### Units and characters -/

/-- The units of a character. -/
def unitsOf (c : Char) : List Nat :=
  if c.toNat < 0x10000 then [c.toNat]
  else [0xD800 + (c.toNat - 0x10000) / 0x400, 0xDC00 + (c.toNat - 0x10000) % 0x400]

theorem isHigh_iff {unit : Nat} : isHigh unit = true ↔ 0xD800 ≤ unit ∧ unit < 0xDC00 := by
  simp [isHigh]

theorem isLow_iff {unit : Nat} : isLow unit = true ↔ 0xDC00 ≤ unit ∧ unit < 0xE000 := by
  simp [isLow]

/-- A character is no surrogate. -/
theorem toNat_bounds (c : Char) :
    (c.toNat < 0xD800 ∨ 0xDFFF < c.toNat) ∧ c.toNat < 0x110000 := by
  have hvalid : c.toNat < 55296 ∨ 57343 < c.toNat ∧ c.toNat < 1114112 := c.valid
  omega

/-- A number that is no surrogate is that of a character. -/
theorem toNat_ofNat {n : Nat} (h : n < 0xD800 ∨ 0xDFFF < n) (hn : n < 0x110000) :
    (Char.ofNat n).toNat = n := by
  have hvalid : n.isValidChar := by
    show n < 55296 ∨ 57343 < n ∧ n < 1114112
    omega
  rw [Char.ofNat, dif_pos hvalid]
  rfl

theorem unitsOf_eq_single {c : Char} {unit : Nat} :
    unitsOf c = [unit] ↔ c.toNat < 0x10000 ∧ c.toNat = unit := by
  unfold unitsOf
  by_cases h : c.toNat < 0x10000
  · simp [h]
  · simp [h]

theorem unitsOf_eq_pair {c : Char} {high low : Nat} :
    unitsOf c = [high, low] ↔ 0x10000 ≤ c.toNat ∧ 0xD800 + (c.toNat - 0x10000) / 0x400 = high ∧
      0xDC00 + (c.toNat - 0x10000) % 0x400 = low := by
  unfold unitsOf
  by_cases h : c.toNat < 0x10000
  · simp [h, Nat.not_le_of_lt h]
  · simp [h, Nat.le_of_not_lt h]

theorem single?_eq_some {unit : Nat} (hunit : unit < 0x10000) {c : Char} :
    single? unit = some c ↔ unitsOf c = [unit] := by
  rw [unitsOf_eq_single]
  unfold single?
  constructor
  · intro h
    split at h
    · cases h
    · rename_i hnone
      obtain rfl := Option.some.inj h
      simp only [Bool.or_eq_true, isHigh_iff, isLow_iff] at hnone
      rw [toNat_ofNat (by omega) (by omega)]
      exact ⟨hunit, rfl⟩
  · rintro ⟨-, rfl⟩
    have hbounds := toNat_bounds c
    rw [if_neg, Char.ofNat_toNat]
    simp only [Bool.or_eq_true, isHigh_iff, isLow_iff]
    omega

theorem pair?_eq_some {high low : Nat} {c : Char} :
    pair? high low = some c ↔ unitsOf c = [high, low] := by
  rw [unitsOf_eq_pair]
  unfold pair?
  constructor
  · intro h
    split at h
    · rename_i hboth
      obtain rfl := Option.some.inj h
      simp only [Bool.and_eq_true, isHigh_iff, isLow_iff] at hboth
      rw [toNat_ofNat (by omega) (by omega)]
      omega
    · cases h
  · rintro ⟨hlarge, rfl, rfl⟩
    have hbounds := toNat_bounds c
    have hwhole : 0x10000 + (0xD800 + (c.toNat - 0x10000) / 0x400 - 0xD800) * 0x400 +
        (0xDC00 + (c.toNat - 0x10000) % 0x400 - 0xDC00) = c.toNat := by
      omega
    rw [hwhole, Char.ofNat_toNat, if_pos]
    simp only [Bool.and_eq_true, isHigh_iff, isLow_iff]
    omega

theorem unitsOf_lt (c : Char) : ∀ u ∈ unitsOf c, u < 0x10000 := by
  have hbounds := toNat_bounds c
  unfold unitsOf
  split
  · simpa
  · simp only [List.mem_cons, List.not_mem_nil, or_false, forall_eq_or_imp, forall_eq]
    omega

/-- A character that takes one unit is read from it, whatever follows. -/
theorem chars?_cons {unit : Nat} {c : Char} (h : single? unit = some c) (rest : List Nat) :
    chars? (unit :: rest) = (chars? rest).map (c :: ·) := by
  cases rest with
  | nil => simp [chars?, h]
  | cons second rest => simp [chars?, h]

/-- The units that a character is written with are read as this character, whatever follows. -/
theorem chars?_unitsOf_append (c : Char) (rest : List Nat) :
    chars? (unitsOf c ++ rest) = (chars? rest).map (c :: ·) := by
  by_cases h : c.toNat < 0x10000
  · have hunits : unitsOf c = [c.toNat] := if_pos h
    rw [hunits]
    exact chars?_cons ((single?_eq_some h).mpr hunits) rest
  · have hunits : unitsOf c = [0xD800 + (c.toNat - 0x10000) / 0x400,
        0xDC00 + (c.toNat - 0x10000) % 0x400] := if_neg h
    have hsingle : single? (0xD800 + (c.toNat - 0x10000) / 0x400) = none := by
      have := toNat_bounds c
      rw [single?, if_pos]
      rw [Bool.or_eq_true, isHigh_iff]
      omega
    rw [hunits]
    simp [chars?, hsingle, pair?_eq_some.mpr hunits]

theorem chars?_flatMap_unitsOf (cs : List Char) : chars? (cs.flatMap unitsOf) = some cs := by
  induction cs with
  | nil => rfl
  | cons c cs ih =>
      rw [List.flatMap_cons, chars?_unitsOf_append, ih]
      rfl

/-- Units of two bytes that are read were written for what is read. -/
theorem eq_of_chars?_eq_some {us : List Nat} {cs : List Char} (hbound : ∀ u ∈ us, u < 0x10000)
    (h : chars? us = some cs) : us = cs.flatMap unitsOf := by
  fun_induction chars? us generalizing cs with
  | case1 =>
      obtain rfl := Option.some.inj h
      rfl
  | case2 unit =>
      obtain ⟨c, hc, rfl⟩ := Option.map_eq_some_iff.mp h
      have hunits := (single?_eq_some (hbound unit List.mem_cons_self)).mp hc
      simp [hunits]
  | case3 first second rest c hc ih =>
      obtain ⟨ds, hds, rfl⟩ := Option.map_eq_some_iff.mp h
      obtain ⟨hfirst, hrest⟩ := List.forall_mem_cons.mp hbound
      rw [List.flatMap_cons, (single?_eq_some hfirst).mp hc, ← ih hrest hds]
      rfl
  | case4 first second rest c hc _ ih =>
      obtain ⟨ds, hds, rfl⟩ := Option.map_eq_some_iff.mp h
      obtain ⟨-, hrest⟩ := List.forall_mem_cons.mp hbound
      rw [List.flatMap_cons, pair?_eq_some.mp hc, ← ih (List.forall_mem_cons.mp hrest).2 hds]
      rfl
  | case5 => cases h

/-! ### Surrogates and their partners -/

/-- Right behind each surrogate that comes first stands one that comes second, and right in front
of each that comes second one that comes first.  What stands at either end is no surrogate. -/
def Paired (us : List Nat) : Prop :=
  (0 :: us ++ [0]).IsChain fun a b => isHigh a = isLow b

theorem single?_eq_none {unit : Nat} :
    single? unit = none ↔ isHigh unit = true ∨ isLow unit = true := by
  cases hhigh : isHigh unit <;> cases hlow : isLow unit <;> simp [single?, hhigh, hlow]

theorem pair?_eq_none {high low : Nat} :
    pair? high low = none ↔ ¬ (isHigh high = true ∧ isLow low = true) := by
  simp [pair?]

/-- No unit is a surrogate of both kinds. -/
theorem isLow_eq_false {unit : Nat} (h : isHigh unit = true) : isLow unit = false := by
  rw [isHigh_iff] at h
  rw [← Bool.not_eq_true, isLow_iff]
  omega

/-- **Units are read as long as no surrogate among them stands without its partner.** -/
theorem chars?_ne_none {us : List Nat} : chars? us ≠ none ↔ Paired us := by
  have hfront : ∀ (a b : Nat) (l : List Nat), isHigh a = isHigh b →
      ((a :: l).IsChain (fun a b => isHigh a = isLow b) ↔
        (b :: l).IsChain fun a b => isHigh a = isLow b) := by
    intro a b l hab
    rw [List.isChain_cons, List.isChain_cons, hab]
  have hzero : isHigh 0 = false ∧ isLow 0 = false := ⟨rfl, rfl⟩
  unfold Paired
  fun_induction chars? us with
  | case1 => simp [hzero]
  | case2 unit =>
      cases hhigh : isHigh unit <;> cases hlow : isLow unit <;>
        simp [hzero, single?_eq_none, hhigh, hlow]
  | case3 first second rest c hc ih =>
      have hplain : ¬ (isHigh first = true ∨ isLow first = true) := by
        rw [← single?_eq_none, hc]
        exact Option.some_ne_none c
      simp only [not_or, Bool.not_eq_true] at hplain
      simp only [ne_eq, Option.map_eq_none_iff, List.cons_append, List.isChain_cons_cons,
        hzero, hplain, true_and] at ih ⊢
      exact ih
  | case4 first second rest c hc _ ih =>
      have hboth : isHigh first = true ∧ isLow second = true := by
        by_contra hnot
        rw [pair?_eq_none.mpr hnot] at hc
        cases hc
      have hsecond : isHigh second = isHigh 0 := by
        rw [hzero.1, ← Bool.not_eq_true]
        intro hhigh
        rw [isLow_eq_false hhigh] at hboth
        cases hboth.2
      simp only [ne_eq, Option.map_eq_none_iff, List.cons_append, List.isChain_cons_cons,
        hzero, hboth, isLow_eq_false hboth.1, true_and] at ih ⊢
      rw [hfront second 0 _ hsecond]
      exact ih
  | case5 first second rest hpair hsingle =>
      rw [pair?_eq_none] at hpair
      simp only [ne_eq, not_true_eq_false, false_iff, List.cons_append, List.isChain_cons_cons,
        hzero]
      rintro ⟨hlow, hnext, -⟩
      rcases single?_eq_none.mp hsingle with hhigh | hlow'
      · exact hpair ⟨hhigh, hnext ▸ hhigh⟩
      · rw [hlow'] at hlow
        cases hlow

/-! ### Texts -/

/-- The bytes of a text. -/
def encode (order : ByteOrder) (cs : List Char) : List UInt8 :=
  (cs.flatMap unitsOf).flatMap order.bytes

theorem encode_append (order : ByteOrder) (cs ds : List Char) :
    encode order (cs ++ ds) = encode order cs ++ encode order ds := by
  simp [encode]

/-- **Bytes are read as the text that is written as these bytes.** -/
theorem decode?_eq_some {order : ByteOrder} {bytes : List UInt8} {cs : List Char} :
    decode? order bytes = some cs ↔ bytes = encode order cs := by
  rw [decode?, Option.bind_eq_some_iff]
  constructor
  · rintro ⟨us, hus, hcs⟩
    obtain ⟨hbound, rfl⟩ := units?_eq_some.mp hus
    rw [encode, ← eq_of_chars?_eq_some hbound hcs]
  · rintro rfl
    refine ⟨_, units?_eq_some.mpr ⟨?_, rfl⟩, chars?_flatMap_unitsOf cs⟩
    intro u hu
    obtain ⟨c, -, hc⟩ := List.mem_flatMap.mp hu
    exact unitsOf_lt c u hc

/-- Bytes that a character is written with are read as this character, whatever follows. -/
theorem decode?_encode_append (order : ByteOrder) (c : Char) (rest : List UInt8) :
    decode? order (encode order [c] ++ rest) = (decode? order rest).map (c :: ·) := by
  have hunits : ∀ us : List Nat, (∀ u ∈ us, u < 0x10000) →
      units? order (us.flatMap order.bytes ++ rest) = (units? order rest).map (us ++ ·) := by
    intro us
    induction us with
    | nil => intro _; simp
    | cons u us ih =>
        intro hbound
        obtain ⟨hu, hus⟩ := List.forall_mem_cons.mp hbound
        rw [List.flatMap_cons, List.append_assoc, units?_bytes_append order hu, ih hus,
          Option.map_map]
        rfl
  rw [decode?, decode?, encode, List.flatMap_singleton, hunits _ (unitsOf_lt c)]
  cases units? order rest with
  | none => rfl
  | some us => exact chars?_unitsOf_append c us

/-- A byte is left over, or a surrogate among the units stands without its partner. -/
def Malformed (order : ByteOrder) (bytes : List UInt8) : Prop :=
  bytes.length % 2 = 1 ∨
    ∃ us, (∀ u ∈ us, u < 0x10000) ∧ bytes = us.flatMap order.bytes ∧ ¬ Paired us

/-- **Bytes that are no text are malformed.** -/
theorem decode?_eq_none {order : ByteOrder} {bytes : List UInt8} :
    decode? order bytes = none ↔ Malformed order bytes := by
  rw [Malformed, decode?, Option.bind_eq_none_iff, ← @units?_eq_none order bytes]
  constructor
  · intro h
    cases hus : units? order bytes with
    | none => exact .inl rfl
    | some us =>
        obtain ⟨hbound, hbytes⟩ := units?_eq_some.mp hus
        refine .inr ⟨us, hbound, hbytes, fun hpaired => ?_⟩
        exact chars?_ne_none.mpr hpaired (h us hus)
  · intro h us hus
    rcases h with hnone | ⟨vs, hbound, hbytes, hpaired⟩
    · rw [hnone] at hus
      cases hus
    · rw [units?_eq_some.mpr ⟨hbound, hbytes⟩] at hus
      obtain rfl := Option.some.inj hus
      exact not_not.mp fun hne => hpaired (chars?_ne_none.mp hne)

end RollCall.Text.Utf16
