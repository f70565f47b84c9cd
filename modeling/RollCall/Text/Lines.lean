/-
The lines of a text.

A line feed ends a line, and a carriage return in front of it belongs to the ending.
Any other carriage return is a character like the others.  What follows the last line
feed is a line only if it is not empty.
-/
namespace RollCall.Text

/-- Puts a character in front of the first line. -/
def pushFirst (c : Char) : List (List Char) → List (List Char)
  | [] => [[c]]
  | line :: lines => (c :: line) :: lines

/-- The lines of a text, without their endings. -/
def lines : List Char → List (List Char)
  | [] => []
  | c :: cs =>
    if c = '\n' then [] :: lines cs
    else if c = '\r' ∧ cs.head? = some '\n' then lines cs
    else pushFirst c (lines cs)

theorem lines_lineFeed_ne_nil (cs : List Char) : lines (cs ++ ['\n']) ≠ [] := by
  induction cs with
  | nil => simp [lines]
  | cons c cs ih =>
    cases hrest : lines (cs ++ ['\n']) with
    | nil => exact absurd hrest ih
    | cons line rest =>
      rw [List.cons_append, lines, hrest]
      split
      · simp
      split <;> simp [pushFirst]

/-- A line feed ends what stands in front of it, whatever follows. -/
theorem lines_append_lineFeed (cs rest : List Char) :
    lines (cs ++ '\n' :: rest) = lines (cs ++ ['\n']) ++ lines rest := by
  induction cs with
  | nil => simp [lines]
  | cons c cs ih =>
    have next : (cs ++ '\n' :: rest).head? = (cs ++ ['\n']).head? := by cases cs <;> rfl
    rw [List.cons_append, List.cons_append, lines, lines, next, ih]
    split
    · rfl
    split
    · rfl
    · cases first : lines (cs ++ ['\n']) with
      | nil => exact absurd first (lines_lineFeed_ne_nil cs)
      | cons line lines => rfl

/-- What holds no end of a line is one line. -/
theorem lines_lineFeed {line : List Char} (feed : '\n' ∉ line) (carriage : '\r' ∉ line) :
    lines (line ++ ['\n']) = [line] := by
  induction line with
  | nil => simp [lines]
  | cons c cs ih =>
    simp only [List.mem_cons, not_or] at feed carriage
    simp [lines, ih feed.2 carriage.2, Ne.symm feed.1, Ne.symm carriage.1, pushFirst]

example : lines "a\r\n\nb\r".toList = [['a'], [], ['b', '\r']] := by decide +kernel

end RollCall.Text
