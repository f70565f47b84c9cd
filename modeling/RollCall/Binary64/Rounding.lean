/-
The binary64 number nearest to a decimal.

A decimal is a natural times a power of ten.  It is brought to an exact quotient, the
power of two is found that leaves fifty-three binary digits before the point (or
fewer, at the bottom of the range), and the quotient is rounded there, a half going to
the even neighbour.  Counting the magnitude from that power then gives the bits: a
significand that rounds up to the next power of two carries into the exponent by
itself, and a magnitude at or past infinity is infinity.
-/
import RollCall.Binary64.Basic
import RollCall.Text.Digits

namespace RollCall.Binary64

/-- The power of two at which a quotient has fifty-three binary digits before the point, and never
one below the lowest exponent. -/
def scaleOf (r : Ratio) : Int :=
  max (r.order 2 Nat.log2 - 52) (-1074)

/-- The magnitude nearest to a positive quotient. -/
def nearestMagnitude (r : Ratio) : Nat :=
  let scale := scaleOf r
  min ((scale + 1074).toNat * exponentBit + (r.shift 2 (-scale)).roundHalfEven) infiniteMagnitude

/-- The magnitude nearest to a natural times a power of ten.  Decimals of more than 310 places
before the point are infinite and those that begin more than 330 places behind it are zero,
whatever their digits. -/
def decimalMagnitude (digits : Nat) (power : Int) : Nat :=
  let places := Text.digitCount digits + power
  if digits = 0 then 0
  else if 310 < places then infiniteMagnitude
  else if places < -330 then 0
  else nearestMagnitude ((Ratio.ofNat digits).shift 10 power)

/-- The number nearest to a decimal; a zero keeps its sign. -/
def ofDecimal (negative : Bool) (digits : Nat) (power : Int) : Binary64 :=
  ofParts negative (decimalMagnitude digits power)

end RollCall.Binary64
