/-
Templates as they are written.

To write the pieces of a template down, its braces are doubled in plain text and every
field stands between single ones.  Reading takes back exactly that.  What is written for a
character of text is read as this character put in front of the pieces that follow, and
what is written for a field as this field, whatever follows; so there is no need to look at
runs of braces as a whole.

Not every list of pieces can come out: characters of text that stand side by side end up in
one piece.  `Parted` says which lists can, and for these reading and writing are inverse to
each other.
-/
import Mathlib.Data.List.Chain
import RollCall.Proofs.Result
import RollCall.Proofs.Text.Digits
import RollCall.Template

namespace RollCall

open Text (byteLength)

namespace Piece

/-- A character of plain text as a template writes it. -/
def escaped (c : Char) : List Char :=
  if c = '\x7b' ∨ c = '\x7d' then [c, c] else [c]

/-- A piece as a template writes it. -/
def written : Piece → List Char
  | .text cs => cs.flatMap escaped
  | .field f => '\x7b' :: f.keyword.toList ++ ['\x7d']

/-- The piece is plain text. -/
def IsText : Piece → Prop
  | .text _ => True
  | .field _ => False

end Piece

namespace Template

/-- The pieces of a template as it writes them. -/
def written (ps : List Piece) : List Char :=
  ps.flatMap Piece.written

/-- No text is empty, and none stands beside another. -/
structure Parted (ps : List Piece) : Prop where
  filled : Piece.text [] ∉ ps
  apart : ps.IsChain fun p q => ¬ (p.IsText ∧ q.IsText)

@[simp] theorem written_nil : written [] = [] := rfl

@[simp] theorem written_field (f : Field) (ps : List Piece) :
    written (.field f :: ps) = '\x7b' :: f.keyword.toList ++ '\x7d' :: written ps := by
  simp [written, Piece.written]

@[simp] theorem written_text (cs : List Char) (ps : List Piece) :
    written (.text cs :: ps) = cs.flatMap Piece.escaped ++ written ps := by
  simp [written, Piece.written]

/-! ### Which pieces can come out -/

theorem parted_nil : Parted [] := ⟨by simp, .nil⟩

theorem parted_field {f : Field} {ps : List Piece} : Parted (.field f :: ps) ↔ Parted ps := by
  constructor
  · rintro ⟨hfilled, hapart⟩
    exact ⟨fun h => hfilled (List.mem_cons_of_mem _ h), hapart.tail⟩
  · rintro ⟨hfilled, hapart⟩
    refine ⟨by simpa using hfilled, List.isChain_cons.mpr ⟨?_, hapart⟩⟩
    intro q _ h
    exact h.1

/-- Text may stand in front of the end and of a field. -/
theorem parted_text {cs : List Char} {ps : List Piece} :
    Parted (.text cs :: ps) ↔ cs ≠ [] ∧ (∀ p ∈ ps.head?, ¬ p.IsText) ∧ Parted ps := by
  constructor
  · rintro ⟨hfilled, hapart⟩
    obtain ⟨hhead, htail⟩ := List.isChain_cons.mp hapart
    refine ⟨?_, fun p hp h => hhead p hp ⟨trivial, h⟩,
      fun h => hfilled (List.mem_cons_of_mem _ h), htail⟩
    rintro rfl
    exact hfilled List.mem_cons_self
  · rintro ⟨hne, hhead, hfilled, hapart⟩
    refine ⟨?_, List.isChain_cons.mpr ⟨fun p hp h => hhead p hp h.2, hapart⟩⟩
    simpa [Ne.symm hne] using hfilled

/-- A character goes in front of the text that comes first, or makes one of its own. -/
theorem written_pushChar (c : Char) (ps : List Piece) :
    written (Piece.pushChar c ps) = Piece.escaped c ++ written ps := by
  unfold Piece.pushChar
  split <;> simp

theorem parted_pushChar {ps : List Piece} (h : Parted ps) (c : Char) :
    Parted (Piece.pushChar c ps) := by
  unfold Piece.pushChar
  split
  · obtain ⟨-, hhead, hrest⟩ := parted_text.mp h
    exact parted_text.mpr ⟨List.cons_ne_nil _ _, hhead, hrest⟩
  · rename_i hnone
    refine parted_text.mpr ⟨List.cons_ne_nil _ _, ?_, h⟩
    intro p hp htext
    cases p with
    | text cs =>
        obtain ⟨rest, rfl⟩ := List.head?_eq_some_iff.mp hp
        exact hnone cs rest rfl
    | field f => exact htext

/-- Characters put one by one in front of what begins with no text make one piece. -/
theorem foldr_pushChar {ps : List Piece} (hhead : ∀ p ∈ ps.head?, ¬ p.IsText) :
    ∀ cs : List Char, cs ≠ [] → cs.foldr Piece.pushChar ps = .text cs :: ps := by
  intro cs
  induction cs with
  | nil => intro h; exact absurd rfl h
  | cons c cs ih =>
      intro _
      cases cs with
      | nil =>
          cases ps with
          | nil => rfl
          | cons p ps =>
              cases p with
              | text ds => exact absurd trivial (hhead _ rfl)
              | field f => rfl
      | cons d cs => rw [List.foldr_cons, ih (List.cons_ne_nil _ _), Piece.pushChar]

/-! ### Reading what is written -/

/-- What is written for a character is read as this character, whatever follows. -/
theorem piecesFrom_escaped (c : Char) (position : Nat) (cs : List Char) :
    piecesFrom 0 position (Piece.escaped c ++ cs) =
      (piecesFrom 0 (position + byteLength (Piece.escaped c)) cs).map (Piece.pushChar c) := by
  by_cases hopen : c = '\x7b'
  · subst hopen
    simp [Piece.escaped, piecesFrom, Nat.add_assoc]
  · by_cases hclose : c = '\x7d'
    · subst hclose
      simp [Piece.escaped, piecesFrom, Nat.add_assoc]
    · simp [Piece.escaped, piecesFrom, hopen, hclose]

/-- A text in front of what is read is read as this text. -/
theorem piecesFrom_text {rest : List Char} {ps : List Piece}
    (h : ∀ position, piecesFrom 0 position rest = .ok ps) (cs : List Char) :
    ∀ position, piecesFrom 0 position (cs.flatMap Piece.escaped ++ rest) =
      .ok (cs.foldr Piece.pushChar ps) := by
  induction cs with
  | nil => exact h
  | cons c cs ih =>
      intro position
      rw [List.flatMap_cons, List.append_assoc, piecesFrom_escaped, ih]
      rfl

/-- No keyword holds a brace. -/
theorem keyword_braces (f : Field) : '\x7b' ∉ f.keyword.toList ∧ '\x7d' ∉ f.keyword.toList := by
  cases f <;> decide

/-- A name ends at the first closing brace. -/
theorem nameOf?_eq_some {cs name : List Char} :
    nameOf? cs = some name ↔ '\x7d' ∉ name ∧ ∃ rest, cs = name ++ '\x7d' :: rest := by
  have htake : ∀ {name rest : List Char}, '\x7d' ∉ name →
      (name ++ '\x7d' :: rest).takeWhile (· ≠ '\x7d') = name := by
    intro name rest hname
    refine Text.takeWhile_append_of_stops (fun c hc => ?_) (Text.stops_cons.mpr (by decide))
    exact decide_eq_true fun heq => hname (heq ▸ hc)
  unfold nameOf?
  constructor
  · intro h
    by_cases hmem : '\x7d' ∈ cs
    · rw [if_pos (List.contains_iff_mem.mpr hmem)] at h
      obtain ⟨before, rest, rfl, hbefore⟩ := List.eq_append_cons_of_mem hmem
      rw [htake hbefore] at h
      obtain rfl := Option.some.inj h
      exact ⟨hbefore, rest, rfl⟩
    · rw [if_neg (mt List.contains_iff_mem.mp hmem)] at h
      cases h
  · rintro ⟨hname, rest, rfl⟩
    rw [if_pos (List.contains_iff_mem.mpr (by simp)), htake hname]

/-- What is written for a field is read as this field, whatever follows. -/
theorem piecesFrom_field (f : Field) (position : Nat) (cs : List Char) :
    piecesFrom 0 position (Piece.written (.field f) ++ cs) =
      (piecesFrom 0 (position + byteLength (Piece.written (.field f))) cs).map (.field f :: ·) := by
  obtain ⟨hopen, hclose⟩ := keyword_braces f
  have hname : nameOf? (f.keyword.toList ++ '\x7d' :: cs) = some f.keyword.toList :=
    nameOf?_eq_some.mpr ⟨hclose, cs, rfl⟩
  have hhead : (f.keyword.toList ++ '\x7d' :: cs).head? ≠ some '\x7b' := by
    cases hk : f.keyword.toList with
    | nil => simp
    | cons c rest =>
        rw [hk] at hopen
        simpa [eq_comm] using List.ne_of_not_mem_cons hopen
  have hwritten : Piece.written (.field f) ++ cs =
      '\x7b' :: (f.keyword.toList ++ '\x7d' :: cs) := by
    simp [Piece.written]
  rw [hwritten, piecesFrom, if_pos rfl, if_neg hhead, hname]
  simp only [String.ofList_toList, Field.ofKeyword?_keyword]
  rw [piecesFrom_skip, List.take_length_add_append, List.drop_length_add_append]
  simp [Piece.written, Nat.add_assoc]

/-- **Pieces that can come out are read back.** -/
theorem piecesFrom_written :
    ∀ (ps : List Piece), Parted ps → ∀ position, piecesFrom 0 position (written ps) = .ok ps := by
  intro ps
  induction ps with
  | nil => intro _ position; rfl
  | cons p ps ih =>
      intro hparted position
      cases p with
      | text cs =>
          obtain ⟨hne, hhead, hrest⟩ := parted_text.mp hparted
          rw [written_text, piecesFrom_text (ih hrest), foldr_pushChar hhead cs hne]
      | field f =>
          have hrest := ih (parted_field.mp hparted)
          show piecesFrom 0 position (Piece.written (.field f) ++ written ps) = _
          rw [piecesFrom_field, hrest]
          rfl

/-! ### Writing what is read -/

/-- A brace that is written twice is read as one character of text. -/
theorem written_pushChar_doubled {c : Char} {cs : List Char} {ps : List Piece}
    (hc : c = '\x7b' ∨ c = '\x7d') (hhead : cs.head? = some c)
    (h : Parted ps ∧ written ps = cs.drop 1) :
    Parted (Piece.pushChar c ps) ∧ written (Piece.pushChar c ps) = c :: cs := by
  obtain ⟨hparted, hwritten⟩ := h
  obtain ⟨rest, rfl⟩ := List.head?_eq_some_iff.mp hhead
  refine ⟨parted_pushChar hparted c, ?_⟩
  rw [written_pushChar, hwritten, Piece.escaped, if_pos hc]
  rfl

/-- **What is read can come out, and is written as it was read.**  The characters that belong to a
brace already taken are left out. -/
theorem written_of_piecesFrom (skip position : Nat) (cs : List Char) :
    ∀ ps, piecesFrom skip position cs = .ok ps → Parted ps ∧ written ps = cs.drop skip := by
  fun_induction piecesFrom skip position cs with
  | case1 skip position =>
      intro ps h
      obtain rfl := Except.ok.inj h
      exact ⟨parted_nil, by simp⟩
  | case2 skip position c cs ih => exact ih
  | case3 position cs hhead ih =>
      intro ps h
      obtain ⟨qs, hqs, rfl⟩ := Result.map_eq_ok.mp h
      exact written_pushChar_doubled (.inl rfl) hhead (ih qs hqs)
  | case4 | case5 | case8 => intro ps h; cases h
  | case6 position cs hhead name hname f hf ih =>
      intro ps h
      obtain ⟨qs, hqs, rfl⟩ := Result.map_eq_ok.mp h
      obtain ⟨hparted, hwritten⟩ := ih qs hqs
      obtain ⟨-, rest, rfl⟩ := nameOf?_eq_some.mp hname
      refine ⟨parted_field.mpr hparted, ?_⟩
      have hkeyword : f.keyword.toList = name := by
        rw [Field.keyword_of_ofKeyword? hf, String.toList_ofList]
      rw [written_field, hwritten, hkeyword, List.drop_length_add_append]
      rfl
  | case7 position cs hhead _ ih =>
      intro ps h
      obtain ⟨qs, hqs, rfl⟩ := Result.map_eq_ok.mp h
      exact written_pushChar_doubled (.inr rfl) hhead (ih qs hqs)
  | case9 position c cs hopen hclose ih =>
      intro ps h
      obtain ⟨qs, hqs, rfl⟩ := Result.map_eq_ok.mp h
      obtain ⟨hparted, hwritten⟩ := ih qs hqs
      refine ⟨parted_pushChar hparted c, ?_⟩
      rw [written_pushChar, hwritten, Piece.escaped, if_neg (not_or.mpr ⟨hopen, hclose⟩)]
      rfl

/-! ### Templates -/

theorem ofText_eq_ok_iff {text : String} {t : Template} :
    ofText text = .ok t ↔ Parted t.pieces ∧ text = String.ofList (written t.pieces) := by
  constructor
  · intro h
    obtain ⟨ps, hps, rfl⟩ := Result.map_eq_ok.mp h
    obtain ⟨hparted, hwritten⟩ := written_of_piecesFrom 0 0 text.toList ps hps
    exact ⟨hparted, by rw [hwritten, List.drop_zero, String.ofList_toList]⟩
  · rintro ⟨hparted, rfl⟩
    rw [ofText, String.toList_ofList, piecesFrom_written _ hparted]
    rfl

/-- A line is made of what its pieces show, one behind the other. -/
theorem render_eq_join (t : Template) (a : Attendee) :
    t.render a = String.join (t.pieces.map fun
      | .text cs => String.ofList cs
      | .field f => (f.read a).render) := by
  rw [← String.toList_inj, render, String.toList_ofList, String.toList_join, List.flatMap_map]
  refine List.flatMap_congr fun p _ => ?_
  cases p with
  | text cs => exact String.toList_ofList.symm
  | field f => rfl

/--
**Reading a template and writing one are inverse to each other.**

Pieces none of which is an empty text, and no two of which are texts side by side, are read
back from what is written for them.  A text that is read as a template gives such pieces, and
they are written as that text.  The line that such a template makes is that of its pieces one
behind the other, each text as it stands and each field as what it holds is shown, whatever
braces are in it.
-/
theorem ofText_inverse_written :
    (∀ ps, Parted ps → ofText (String.ofList (written ps)) = .ok ⟨ps⟩) ∧
      (∀ text t, ofText text = .ok t →
        Parted t.pieces ∧ String.ofList (written t.pieces) = text) ∧
      ∀ ps, Parted ps → ∀ a : Attendee,
        (ofText (String.ofList (written ps))).map (fun t => t.render a) =
          .ok (String.join (ps.map fun
            | .text cs => String.ofList cs
            | .field f => (f.read a).render)) := by
  have hread : ∀ ps, Parted ps → ofText (String.ofList (written ps)) = .ok ⟨ps⟩ :=
    fun ps hps => ofText_eq_ok_iff.mpr ⟨hps, rfl⟩
  refine ⟨hread, ?_, ?_⟩
  · intro text t h
    obtain ⟨hparted, htext⟩ := ofText_eq_ok_iff.mp h
    exact ⟨hparted, htext.symm⟩
  · intro ps hps a
    rw [hread ps hps]
    exact congrArg Except.ok (render_eq_join ⟨ps⟩ a)

/-- Braces in a name are shown as they are, between braces that the template shows. -/
example : (ofText "\x7b\x7b\x7bname\x7d\x7d\x7d").map
      (fun t => t.render (.ofEvents "\x7btotal\x7d" [] default)) =
    .ok "\x7b\x7btotal\x7d\x7d" := by
  decide +kernel

end Template

end RollCall
