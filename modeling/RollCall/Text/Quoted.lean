/-
Quoted text.

Messages and the written form of a query show a text between quotation marks.  What
would not be seen, or would end the quotation, is escaped: five characters have a
letter of their own, the quotation mark and the backslash stand behind a backslash,
and every other character that does not show on its own is given by its code point.
-/
import RollCall.Text.Printable

namespace RollCall.Text

/-- A code point in lower-case hexadecimal between braces, behind `\u`. -/
def codePointEscape (c : Char) : List Char :=
  ['\\', 'u', '\x7b'] ++ Nat.toDigits 16 c.toNat ++ ['\x7d']

/-- How one character is written between two marks of the given kind. -/
def escape (mark c : Char) : List Char :=
  if c = '\x00' then ['\\', '0']
  else if c = '\t' then ['\\', 't']
  else if c = '\r' then ['\\', 'r']
  else if c = '\n' then ['\\', 'n']
  else if c = '\\' ∨ c = mark then ['\\', c]
  else if showsAlone c then [c]
  else codePointEscape c

/-- A text between double quotation marks. -/
def quoted (s : String) : String :=
  String.ofList ('"' :: s.toList.flatMap (escape '"') ++ ['"'])

/-- A character between single quotation marks. -/
def quotedChar (c : Char) : String :=
  String.ofList ('\x27' :: escape '\x27' c ++ ['\x27'])

example : quoted "a\"\n\x00" = "\"a\\\"\\n\\0\"" := by decide +kernel

/-- What joins the character in front of it is given by its code point, and so is what is not
seen. -/
example : quoted "e\u0301\u200b" = "\"e\\u\x7b301\x7d\\u\x7b200b\x7d\"" := by decide +kernel

example : quotedChar '\x27' = "'\\''" := by decide +kernel

end RollCall.Text
