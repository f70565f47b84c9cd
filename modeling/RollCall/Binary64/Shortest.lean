/-
The shortest decimal of a binary64 number.

Of all decimals that read back as the number those with the fewest digits are taken,
and of these the nearest one; between two equally near the one further from zero.  A
grid of decimals with a given count of digits need only be tried at the two points
beside the number, for if any point of the grid reads back, so does one of those two.
Seventeen digits always suffice.

The text never has an exponent: as many zeros are written as the decimal needs.
-/
import RollCall.Binary64.Rounding

namespace RollCall.Binary64

/-- A decimal: a natural times a power of ten. -/
structure Decimal where
  digits : Nat
  power : Int
deriving DecidableEq, Repr, Inhabited

/-- The decimal of at most the given count of digits that is nearest to the number among those that
read back as its magnitude, if there is one.  The point above the number may be the next power of
ten, which needs one digit only. -/
def decimalOf? (x : Binary64) (count : Nat) : Option Decimal :=
  let power := x.ratio.order 10 Text.digitCount + 1 - count
  let moved := x.ratio.shift 10 (-power)
  let near :=
    if moved.compareHalf = .lt then [moved.floor, moved.floor + 1]
    else [moved.floor + 1, moved.floor]
  (near.find? fun digits => decimalMagnitude digits power = x.magnitude).map fun digits =>
    if Text.digitCount digits ≤ count then ⟨digits, power⟩ else ⟨1, power + count⟩

/-- The exact value of a finite number as a decimal. -/
def exactDecimal (x : Binary64) : Decimal :=
  if 0 ≤ x.exponent then ⟨x.ratio.num, 0⟩
  else ⟨x.significand * Nat.pow 5 (-x.exponent).toNat, x.exponent⟩

/-- The shortest decimal that reads back as the magnitude of a finite number other than zero. -/
def shortest (x : Binary64) : Decimal :=
  (((List.range 17).map (· + 1)).findSome? x.decimalOf?).getD x.exactDecimal

/-- A decimal written out in full, with a point only where digits follow it. -/
def Decimal.text (d : Decimal) : List Char :=
  let digits := Text.digits d.digits
  let behind := (-d.power).toNat
  if 0 ≤ d.power then digits ++ List.replicate d.power.toNat '0'
  else if behind < digits.length then
    digits.take (digits.length - behind) ++ '.' :: digits.drop (digits.length - behind)
  else ['0', '.'] ++ List.replicate (behind - digits.length) '0' ++ digits

/-- The text of a number. -/
def text (x : Binary64) : List Char :=
  if x.isNaN then ['N', 'a', 'N']
  else
    let sign := if x.isNegative then ['-'] else []
    if x.isInfinite then sign ++ ['i', 'n', 'f']
    else if x.magnitude = 0 then sign ++ ['0']
    else sign ++ x.shortest.text

/-- The text of a number as a string. -/
def render (x : Binary64) : String :=
  String.ofList x.text

/-! ### The format at its corners -/

example : (ofDecimal false 1 (-1)).render = "0.1" := by decide +kernel

example : (ofDecimal false 1 21).render = "1000000000000000000000" := by decide +kernel

/-- The next power of ten is written with one digit although the number lies below it. -/
example : (ofDecimal false 1 (-7)).render = "0.0000001" := by decide +kernel

example : (ofDecimal true 0 0).render = "-0" := by decide +kernel

/-- Two decimals of seventeen digits are equally near. -/
example : (⟨0x3E60000000000000⟩ : Binary64).render = "0.000000029802322387695313" := by
  decide +kernel

end RollCall.Binary64
