/-
Line templates.

A template is plain text with fields between braces.  A brace that is to be shown is
written twice.  Reading goes from left to right: a doubled brace is taken as one
before a single one is looked at, an opening brace has to be followed by the keyword
of a field and a closing brace, and a closing brace never stands alone.  Runs of plain
text come out as one piece, so no piece of text is empty and none follows another.
-/
import RollCall.Field
import RollCall.Text.Measure

namespace RollCall

/-- Why a text is no template; each fault stands at a brace. -/
inductive TemplateFault where
  /-- what stands between the braces is no keyword -/
  | unknownField (name : String)
  /-- an opening brace that no closing brace follows -/
  | unclosed
  /-- a closing brace that nothing has opened -/
  | unmatched
deriving DecidableEq, Repr

/-- A fault and the place of its brace. -/
structure TemplateError where
  position : Nat
  fault : TemplateFault
deriving DecidableEq, Repr

/-- What is said about a text that is no template. -/
def TemplateError.message (e : TemplateError) : String :=
  let place := " at position " ++ toString e.position
  match e.fault with
  | .unknownField name => "unknown placeholder \x7b" ++ name ++ "\x7d" ++ place
  | .unclosed => "unclosed `\x7b`" ++ place
  | .unmatched => "unmatched `\x7d`" ++ place ++ "; write `\x7d\x7d` for a literal brace"

/-- A run of plain text or a field. -/
inductive Piece where
  | text (cs : List Char)
  | field (f : Field)
deriving DecidableEq, Repr

namespace Piece

/-- What a piece shows for an attendee. -/
def shown (a : Attendee) : Piece → List Char
  | .text cs => cs
  | .field f => (f.read a).render.toList

/-- Puts a character of plain text in front of some pieces. -/
def pushChar (c : Char) : List Piece → List Piece
  | .text cs :: pieces => .text (c :: cs) :: pieces
  | pieces => .text [c] :: pieces

end Piece

/-- The pieces of a line. -/
structure Template where
  pieces : List Piece
deriving DecidableEq, Repr

namespace Template

/-- The name that follows an opening brace, if a closing brace follows the name. -/
def nameOf? (cs : List Char) : Option (List Char) :=
  if cs.contains '\x7d' then some (cs.takeWhile (· ≠ '\x7d')) else none

/-- The pieces of a text that begins at the given place, when its first characters, as many as
`skip` says, belong to a brace already taken. -/
def piecesFrom : (skip : Nat) → (position : Nat) → List Char → Except TemplateError (List Piece)
  | _, _, [] => .ok []
  | skip + 1, position, c :: cs => piecesFrom skip (position + c.utf8Size) cs
  | 0, position, c :: cs =>
    if c = '\x7b' then
      if cs.head? = some '\x7b' then
        (piecesFrom 1 (position + c.utf8Size) cs).map (Piece.pushChar c)
      else
        match nameOf? cs with
        | none => .error ⟨position, .unclosed⟩
        | some name =>
          match Field.ofKeyword? (String.ofList name) with
          | none => .error ⟨position, .unknownField (String.ofList name)⟩
          | some f =>
            (piecesFrom (name.length + 1) (position + c.utf8Size) cs).map (.field f :: ·)
    else if c = '\x7d' then
      if cs.head? = some '\x7d' then
        (piecesFrom 1 (position + c.utf8Size) cs).map (Piece.pushChar c)
      else .error ⟨position, .unmatched⟩
    else (piecesFrom 0 (position + c.utf8Size) cs).map (Piece.pushChar c)

/-- Characters that belong to a brace already taken are passed over. -/
theorem piecesFrom_skip (skip position : Nat) (cs : List Char) :
    piecesFrom skip position cs =
      piecesFrom 0 (position + Text.byteLength (cs.take skip)) (cs.drop skip) := by
  induction skip generalizing position cs with
  | zero => simp
  | succ skip ih =>
    cases cs with
    | nil => simp [piecesFrom]
    | cons c cs => simp [piecesFrom, ih, Nat.add_assoc]

/-- The template that a text writes. -/
def ofText (text : String) : Except TemplateError Template :=
  (piecesFrom 0 0 text.toList).map Template.mk

/-- The line that a template makes of an attendee. -/
def render (t : Template) (a : Attendee) : String :=
  String.ofList (t.pieces.flatMap (Piece.shown a))

/-- The template of one field. -/
theorem ofText_field (f : Field) : ofText ("\x7b" ++ f.keyword ++ "\x7d") = .ok ⟨[.field f]⟩ := by
  cases f <;> rfl

theorem render_field (f : Field) (a : Attendee) :
    render ⟨[.field f]⟩ a = (f.read a).render := by
  simp [render, Piece.shown]

example : ofText "a\x7b\x7b\x7bname\x7d\x7d\x7d" =
    .ok ⟨[.text ['a', '\x7b'], .field .name, .text ['\x7d']]⟩ := by rfl

end Template

end RollCall
