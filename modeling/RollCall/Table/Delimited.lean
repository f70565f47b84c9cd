/-
Tables of cells.

A table is a text whose rows end with a line feed or a carriage return and whose cells
are divided by tabs.  A cell that begins with a quotation mark runs to the next one
and may hold tabs and line ends; a mark inside it is written twice.  What follows the
closing mark still belongs to the cell.  Empty lines are no rows, and a byte order
mark in front is skipped.

The reader goes through the text once, a character at a time.  A row is placed where
the reader stood when it had finished the row before: its line is one more than the
line feeds passed by then, and its byte is the count of bytes passed.  So the line
feed of a carriage return and line feed, and empty lines, come after that place.
-/
import RollCall.Text.Measure

namespace RollCall.Table

/-- The lines and bytes of a text: a line counted from one, a byte from zero. -/
structure Place where
  line : Nat
  byte : Nat
deriving DecidableEq, Repr, Inhabited

/-- The place behind a character. -/
def Place.after (p : Place) (c : Char) : Place :=
  ⟨if c = '\n' then p.line + 1 else p.line, p.byte + c.utf8Size⟩

/-- A row: its place and its cells. -/
structure Row where
  place : Place
  cells : List String
deriving DecidableEq, Repr, Inhabited

/-- Where in a row the reader is. -/
inductive Within where
  /-- between two rows -/
  | gap
  /-- at the start of a cell -/
  | cellStart
  /-- in a cell without quotation marks, or behind the closing mark of a cell -/
  | plain
  /-- between quotation marks -/
  | quotes
  /-- behind a quotation mark that closes the cell unless another follows -/
  | closingMark
deriving DecidableEq, Repr

/-- What the reader keeps: where it is, the place of the row it is in or that comes next, and, last
first, the characters of the cell, the cells of the row and the rows. -/
structure Reader where
  within : Within
  here : Place
  began : Place
  cell : List Char
  cells : List String
  rows : List Row
deriving DecidableEq, Repr

/-- A character that ends a row. -/
def endsRow (c : Char) : Bool :=
  c == '\n' || c == '\r'

namespace Reader

/-- The reader at a place before any row. -/
def start (place : Place) : Reader :=
  ⟨.gap, place, place, [], [], []⟩

/-- Takes a character into the cell. -/
def push (r : Reader) (within : Within) (c : Char) : Reader :=
  { r with within := within, cell := c :: r.cell }

/-- Ends the cell. -/
def endCell (r : Reader) : Reader :=
  { r with within := .cellStart, cell := [], cells := String.ofList r.cell.reverse :: r.cells }

/-- Ends the row; the next one begins at the given place. -/
def endRow (r : Reader) (next : Place) : Reader :=
  let r := r.endCell
  let row := ⟨r.began, r.cells.reverse⟩
  { r with within := .gap, began := next, cells := [], rows := row :: r.rows }

/-- Takes a character that is no quotation mark with a meaning of its own. -/
def takePlain (r : Reader) (c : Char) : Reader :=
  if endsRow c then r.endRow (r.here.after c)
  else if c = '\t' then r.endCell
  else r.push .plain c

/-- Takes a character at the start of a cell. -/
def takeFirst (r : Reader) (c : Char) : Reader :=
  if c = '"' then { r with within := .quotes } else r.takePlain c

/-- Takes a character, without moving the place. -/
def takeChar (r : Reader) (c : Char) : Reader :=
  match r.within with
  | .gap => if endsRow c then r else r.takeFirst c
  | .cellStart => r.takeFirst c
  | .plain => r.takePlain c
  | .quotes => if c = '"' then { r with within := .closingMark } else r.push .quotes c
  | .closingMark => if c = '"' then r.push .quotes c else r.takePlain c

/-- Takes a character. -/
def take (r : Reader) (c : Char) : Reader :=
  { r.takeChar c with here := r.here.after c }

/-- The rows at the end of the text; it ends the row that the reader is in. -/
def finish (r : Reader) : List Row :=
  match r.within with
  | .gap => r.rows.reverse
  | _ => (r.endRow r.here).rows.reverse

end Reader

/-- The rows of a text that begins at the given place. -/
def rowsFrom (place : Place) (cs : List Char) : List Row :=
  (cs.foldl Reader.take (Reader.start place)).finish

/-- The rows of a text. -/
def rows (text : String) : List Row :=
  match text.toList with
  | '\uFEFF' :: cs => rowsFrom ⟨1, 3⟩ cs
  | cs => rowsFrom ⟨1, 0⟩ cs

/-- The line feed behind a carriage return comes after the place of the next row. -/
example : rows "a\tb\r\n\"c\n\"\"d\"\te" =
    [⟨⟨1, 0⟩, ["a", "b"]⟩, ⟨⟨1, 4⟩, ["c\n\"d", "e"]⟩] := by decide +kernel

end RollCall.Table
