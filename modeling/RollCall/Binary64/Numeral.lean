/-
Written numerals.

A numeral is an optional sign, digits with at most one point among them or at either
end, and an optional exponent.  The reader takes the longest numeral that a text begins
with: a letter `e` belongs to it only if digits follow.
-/
import RollCall.Binary64.Rounding

namespace RollCall.Binary64

/-- An exponent as written: the letter, an optional sign and digits. -/
structure Exponent where
  letter : Char
  sign : Option Char
  digits : List Char
deriving DecidableEq, Repr

/-- A numeral as written: an optional sign, the digits before the point, the digits behind it if
there is a point, and an optional exponent. -/
structure Numeral where
  sign : Option Char
  whole : List Char
  fraction : Option (List Char)
  exponent : Option Exponent
deriving DecidableEq, Repr

/-- A sign at the front of a text, and what follows it. -/
def takeSign : List Char → Option Char × List Char
  | [] => (none, [])
  | c :: cs => if c = '+' ∨ c = '-' then (some c, cs) else (none, c :: cs)

namespace Exponent

/-- The exponent that a text begins with. -/
def read? : List Char → Option Exponent
  | [] => none
  | c :: cs =>
    if c = 'e' ∨ c = 'E' then
      let (sign, rest) := takeSign cs
      let digits := (Text.spanDigits rest).1
      if digits.isEmpty then none else some ⟨c, sign, digits⟩
    else none

/-- The characters of an exponent. -/
def text (e : Exponent) : List Char :=
  e.letter :: e.sign.toList ++ e.digits

/-- The power of ten that an exponent stands for. -/
def value (e : Exponent) : Int :=
  if e.sign = some '-' then -(Text.ofDigits e.digits : Int) else Text.ofDigits e.digits

end Exponent

namespace Numeral

/-- The digits behind a point at the front of a text, and what follows them. -/
def takeFraction : List Char → Option (List Char) × List Char
  | '.' :: cs => ((Text.spanDigits cs).1, (Text.spanDigits cs).2)
  | cs => (none, cs)

/-- The longest numeral that a text begins with. -/
def read? (cs : List Char) : Option Numeral :=
  let (sign, afterSign) := takeSign cs
  let (whole, afterWhole) := Text.spanDigits afterSign
  let (fraction, afterFraction) := takeFraction afterWhole
  if whole.isEmpty && (fraction.getD []).isEmpty then none
  else some ⟨sign, whole, fraction, Exponent.read? afterFraction⟩

/-- The characters of a numeral. -/
def text (n : Numeral) : List Char :=
  n.sign.toList ++ n.whole ++ (n.fraction.map ('.' :: ·)).getD [] ++
    (n.exponent.map Exponent.text).getD []

/-- The number nearest to what a numeral stands for. -/
def value (n : Numeral) : Binary64 :=
  let fraction := n.fraction.getD []
  ofDecimal (n.sign = some '-') (Text.ofDigits (n.whole ++ fraction))
    ((n.exponent.map Exponent.value).getD 0 - fraction.length)

end Numeral

end RollCall.Binary64
