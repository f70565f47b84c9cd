/-
Encodings of reports.

A report is read in UTF-8 or UTF-16.  A byte order mark in front is no part of the
text.  Where the encoding leaves the byte order open, the mark decides it, and without
a mark the low byte comes first.  Whichever encoding it is, one mark that is still in
front of the decoded text is dropped as well.
-/
import RollCall.Text.Quoted
import RollCall.Text.Utf16

namespace RollCall

/-- The encodings that a report may have. -/
inductive Encoding where
  | utf8
  /-- UTF-16 in the order that the mark says -/
  | utf16
  | utf16LowFirst
  | utf16HighFirst
deriving DecidableEq, Repr, Inhabited

namespace Encoding

/-- The name that messages use. -/
def name : Encoding → String
  | .utf8 => "utf-8"
  | .utf16 => "utf-16"
  | .utf16LowFirst => "utf-16le"
  | .utf16HighFirst => "utf-16be"

/-- A name in small letters and with hyphens for underscores. -/
def foldName (s : String) : String :=
  String.ofList (s.toList.map fun c => if c = '_' then '-' else c.toLower)

/-- The encoding of a name; the first hyphen may be left out, and case does not count. -/
def ofName? (s : String) : Option Encoding :=
  let folded := foldName s
  if folded = "utf-8" ∨ folded = "utf8" then some .utf8
  else if folded = "utf-16" ∨ folded = "utf16" then some .utf16
  else if folded = "utf-16le" ∨ folded = "utf16le" then some .utf16LowFirst
  else if folded = "utf-16be" ∨ folded = "utf16be" then some .utf16HighFirst
  else none

/-- What is said about a name that no encoding has. -/
def unknownMessage (s : String) : String :=
  "unsupported encoding " ++ Text.quoted s ++ " (expected utf-8, utf-16, utf-16le or utf-16be)"

/-- What is said about bytes that are no text in an encoding. -/
def invalidMessage (e : Encoding) : String :=
  "input is not valid " ++ e.name

/-- The byte order mark as a character. -/
def mark : Char := '\uFEFF'

/-- A text without the mark it begins with. -/
def dropMark : List Char → List Char
  | c :: cs => if c = mark then cs else c :: cs
  | [] => []

/-- The text of some bytes in UTF-8. -/
def decodeUtf8? (bytes : List UInt8) : Option (List Char) :=
  (String.fromUTF8? bytes.toByteArray).map String.toList

/-- The text of some bytes before a mark in front of it is dropped.  In UTF-8 the three bytes of a
mark are dropped at once, and in UTF-16 of open order the two bytes that decide the order. -/
def decodeMarked? (e : Encoding) (bytes : List UInt8) : Option (List Char) :=
  match e, bytes with
  | .utf8, 0xEF :: 0xBB :: 0xBF :: rest => decodeUtf8? rest
  | .utf8, bytes => decodeUtf8? bytes
  | .utf16, 0xFE :: 0xFF :: rest => Text.Utf16.decode? .highFirst rest
  | .utf16, 0xFF :: 0xFE :: rest => Text.Utf16.decode? .lowFirst rest
  | .utf16, bytes => Text.Utf16.decode? .lowFirst bytes
  | .utf16LowFirst, bytes => Text.Utf16.decode? .lowFirst bytes
  | .utf16HighFirst, bytes => Text.Utf16.decode? .highFirst bytes

/-- The text of some bytes. -/
def decode? (e : Encoding) (bytes : List UInt8) : Option String :=
  (e.decodeMarked? bytes).map fun cs => String.ofList (dropMark cs)

/-- The mark decides the order of the bytes. -/
example : utf16.decode? [0xFE, 0xFF, 0x00, 0x41] = some "A" := by decide +kernel

/-- A text may lose two marks, and a third one stays. -/
example : utf8.decode? [0xEF, 0xBB, 0xBF, 0xEF, 0xBB, 0xBF, 0xEF, 0xBB, 0xBF] =
    some "\uFEFF" := by decide +kernel

end Encoding

end RollCall
