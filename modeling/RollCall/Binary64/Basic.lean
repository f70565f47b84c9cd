/-
Binary64 numbers.

A number is its sixty-four bits: one for the sign, eleven for the exponent, fifty-two
for the fraction.  The magnitude, which is everything but the sign, orders the numbers
of one sign as it orders the naturals, so comparing two numbers is comparing two
integers.  The two zeros fall on the same integer; what lies above infinity is not a
number and is comparable to nothing.
-/
import RollCall.Ratio

namespace RollCall

/-- A number in the interchange format binary64. -/
structure Binary64 where
  bits : UInt64
deriving DecidableEq, Repr, Inhabited

namespace Binary64

/-- The sign bit, two to the sixty-third power. -/
def signBit : Nat := 0x8000000000000000

/-- The lowest bit of the exponent, two to the fifty-second power. -/
def exponentBit : Nat := 0x10000000000000

/-- The magnitude of infinity. -/
def infiniteMagnitude : Nat := 0x7FF0000000000000

/-- The sign bit is set. -/
def isNegative (x : Binary64) : Bool :=
  signBit ≤ x.bits.toNat

/-- Everything but the sign. -/
def magnitude (x : Binary64) : Nat :=
  x.bits.toNat % signBit

/-- The number with the given sign and magnitude. -/
def ofParts (negative : Bool) (magnitude : Nat) : Binary64 :=
  ⟨UInt64.ofNat ((if negative then signBit else 0) + magnitude)⟩

/-- Not a number. -/
def isNaN (x : Binary64) : Bool :=
  infiniteMagnitude < x.magnitude

/-- One of the two infinities. -/
def isInfinite (x : Binary64) : Bool :=
  x.magnitude == infiniteMagnitude

/-- Neither infinite nor NaN. -/
def isFinite (x : Binary64) : Bool :=
  x.magnitude < infiniteMagnitude

/-- The exponent bits of the magnitude. -/
def exponentField (x : Binary64) : Nat :=
  x.magnitude / exponentBit

/-- The digits of a finite number: its fraction, with a one in front of it unless the exponent
field is zero. -/
def significand (x : Binary64) : Nat :=
  if x.exponentField = 0 then x.magnitude else exponentBit + x.magnitude % exponentBit

/-- The power of two that the significand is multiplied by. -/
def exponent (x : Binary64) : Int :=
  if x.exponentField = 0 then -1074 else x.exponentField - 1075

/-- The exact value of a finite number without its sign. -/
def ratio (x : Binary64) : Ratio :=
  (Ratio.ofNat x.significand).shift 2 x.exponent

/-- An integer that orders the numbers as their values do; both zeros have rank zero. -/
def rank (x : Binary64) : Int :=
  if x.isNegative then -(x.magnitude : Int) else x.magnitude

/-- How two numbers compare; nothing compares to what is not a number. -/
def compare? (x y : Binary64) : Option Ordering :=
  if x.isNaN || y.isNaN then none else some (compare x.rank y.rank)

/-- Equal in value: both zeros are equal, and what is not a number equals nothing. -/
def equal (x y : Binary64) : Bool :=
  x.compare? y == some .eq

/-- What is not a number compares to nothing, itself included. -/
theorem compare?_eq_none_iff {x y : Binary64} :
    x.compare? y = none ↔ x.isNaN = true ∨ y.isNaN = true := by
  cases hx : x.isNaN <;> cases hy : y.isNaN <;> simp [compare?, hx, hy]

end Binary64

end RollCall
