/-
UTF-16.

A text in UTF-16 is a row of units of two bytes in one of two orders.  A unit outside
the surrogates is a character; a high surrogate makes one together with the low
surrogate behind it, and no surrogate stands alone.
-/
namespace RollCall.Text.Utf16

/-- Which byte of a unit comes first. -/
inductive ByteOrder where
  | lowFirst
  | highFirst
deriving DecidableEq, Repr

/-- The unit of two bytes. -/
def ByteOrder.unit (order : ByteOrder) (first second : UInt8) : Nat :=
  match order with
  | .lowFirst => second.toNat * 256 + first.toNat
  | .highFirst => first.toNat * 256 + second.toNat

/-- The units of some bytes; a byte left over makes none. -/
def units? (order : ByteOrder) : List UInt8 → Option (List Nat)
  | [] => some []
  | [_] => none
  | first :: second :: rest => (units? order rest).map (order.unit first second :: ·)

/-- A surrogate that comes first. -/
def isHigh (unit : Nat) : Bool :=
  0xD800 ≤ unit && unit < 0xDC00

/-- A surrogate that comes second. -/
def isLow (unit : Nat) : Bool :=
  0xDC00 ≤ unit && unit < 0xE000

/-- The character of a unit that is no surrogate. -/
def single? (unit : Nat) : Option Char :=
  if isHigh unit || isLow unit then none else some (Char.ofNat unit)

/-- The character of two surrogates. -/
def pair? (high low : Nat) : Option Char :=
  if isHigh high && isLow low then
    some (Char.ofNat (0x10000 + (high - 0xD800) * 0x400 + (low - 0xDC00)))
  else none

/-- The characters of some units. -/
def chars? : List Nat → Option (List Char)
  | [] => some []
  | [unit] => (single? unit).map ([·])
  | first :: second :: rest =>
    match single? first, pair? first second with
    | some c, _ => (chars? (second :: rest)).map (c :: ·)
    | none, some c => (chars? rest).map (c :: ·)
    | none, none => none

/-- The text of some bytes. -/
def decode? (order : ByteOrder) (bytes : List UInt8) : Option (List Char) :=
  (units? order bytes).bind chars?

end RollCall.Text.Utf16
