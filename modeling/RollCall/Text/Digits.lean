/-
Decimal digits.

Reading takes a run of ASCII digits as a number; writing pads a number on the left
with zeros to the width that a clock or a calendar wants.
-/
namespace RollCall.Text

/-- The number that a run of decimal digits stands for; no digits stand for zero. -/
def ofDigits (cs : List Char) : Nat :=
  Nat.ofDigitChars 10 cs 0

/-- The decimal digits of a number, without leading zeros. -/
def digits (n : Nat) : List Char :=
  Nat.toDigits 10 n

/-- How many decimal digits a number has. -/
def digitCount (n : Nat) : Nat :=
  (digits n).length

/-- The decimal digits of a number, with zeros in front up to the given width. -/
def padded (width n : Nat) : List Char :=
  (digits n).leftpad width '0'

/-- The decimal digits of a whole number, with a minus sign if there is to be one and zeros behind
it up to the given width, in which the sign counts. -/
def paddedInt (width : Nat) : Int → List Char
  | .ofNat n => padded width n
  | .negSucc n => '-' :: padded (width - 1) (n + 1)

/-- Reading the digits of a number gives the number back. -/
@[simp] theorem ofDigits_digits (n : Nat) : ofDigits (digits n) = n :=
  Nat.ofDigitChars_toDigits (by decide) (by decide)

/-- The digits at the front of a text and what follows them. -/
def spanDigits (cs : List Char) : List Char × List Char :=
  (cs.takeWhile Char.isDigit, cs.dropWhile Char.isDigit)

end RollCall.Text
