/-
Exact quotients.

A positive quotient of naturals, moved by whole powers of a base.  Moving changes the
numerator or the denominator and never divides, so nothing is lost until a quotient is
rounded.
-/
namespace RollCall

/-- A quotient of two naturals, the second of which is meant to be positive. -/
structure Ratio where
  num : Nat
  den : Nat
deriving DecidableEq, Repr, Inhabited

namespace Ratio

/-- A whole number. -/
def ofNat (n : Nat) : Ratio := ⟨n, 1⟩

/-- The quotient times a power of a base. -/
def shift (r : Ratio) (base : Nat) (power : Int) : Ratio :=
  if 0 ≤ power then ⟨r.num * base.pow power.toNat, r.den⟩
  else ⟨r.num, r.den * base.pow (-power).toNat⟩

/-- The whole part. -/
def floor (r : Ratio) : Nat :=
  r.num / r.den

/-- How twice the part behind the whole one compares to one. -/
def compareHalf (r : Ratio) : Ordering :=
  compare (2 * (r.num % r.den)) r.den

/-- The nearest whole number; a half goes to the even neighbour. -/
def roundHalfEven (r : Ratio) : Nat :=
  match r.compareHalf with
  | .lt => r.floor
  | .gt => r.floor + 1
  | .eq => r.floor + r.floor % 2

/-- The greatest power of a base that does not exceed a quotient, given a measure of naturals that
counts their places in that base: the counts tell it but for one. -/
def order (r : Ratio) (base : Nat) (places : Nat → Nat) : Int :=
  let lead : Int := places r.num - places r.den
  let moved := r.shift base (-lead)
  if moved.den ≤ moved.num then lead else lead - 1

end Ratio

end RollCall
