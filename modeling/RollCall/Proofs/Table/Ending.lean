/-
Rows without line feeds in their cells.

Where no cell of a row holds a line feed, none stands among its characters but the one that
may end the row, for a tab is none and quotation marks are none.  So how many lines a row
takes is decided by what ends it and by what is left over in front of it.  Tables whose rows
are ended alike have their rows on the same lines, whatever is in the cells.

Every table can be written so that no cell is in doubt: `marked` puts quotation marks around
all of them.
-/
import Mathlib.Data.List.Forall2
import RollCall.Proofs.Table.Layout

namespace RollCall.Table

/-- The text holds no line feed. -/
def Unbroken (cs : List Char) : Prop :=
  '\n' ∉ cs

instance : DecidablePred Unbroken :=
  fun cs => inferInstanceAs (Decidable ('\n' ∉ cs))

/-- The character that ends a row, if it is ended. -/
def Standing.ending (s : Standing) : Option Char :=
  s.chars.getLast?.filter endsRow

/-- Two rows have the same line ends around them. -/
structure EndsAlike (s s' : Standing) : Prop where
  gap : s.gap = s'.gap
  ending : s.ending = s'.ending

/-! ### Characters of a row -/

theorem unbroken_append {cs ds : List Char} : Unbroken (cs ++ ds) ↔ Unbroken cs ∧ Unbroken ds := by
  simp [Unbroken]

theorem unbroken_cons {c : Char} {cs : List Char} :
    Unbroken (c :: cs) ↔ '\n' ≠ c ∧ Unbroken cs := by
  simp [Unbroken]

theorem unbroken_doubled {cs : List Char} (h : Unbroken cs) : Unbroken (doubled cs) := by
  intro hmem
  obtain ⟨c, hc, hfeed⟩ := List.mem_flatMap.mp hmem
  have hsame : c = '\n' := by
    by_cases hmark : c = '"'
    · simp [hmark] at hfeed
    · simpa [hmark, eq_comm] using hfeed
  exact h (hsame ▸ hc)

theorem IsCell.unbroken {closed : Bool} {cs value : List Char} (h : IsCell closed cs value)
    (hvalue : Unbroken value) : Unbroken cs := by
  have hmark : '\n' ≠ '"' := by decide
  cases h with
  | bare => exact hvalue
  | quoted inside =>
      obtain ⟨hinside, htail⟩ := unbroken_append.mp hvalue
      exact unbroken_append.mpr ⟨unbroken_cons.mpr ⟨hmark, unbroken_doubled hinside⟩,
        unbroken_cons.mpr ⟨hmark, htail⟩⟩
  | unclosed => exact unbroken_cons.mpr ⟨hmark, unbroken_doubled hvalue⟩

/-- **A row of cells without line feeds has none.** -/
theorem IsRow.unbroken {closed : Bool} {cs : List Char} {cells : List String}
    (h : IsRow closed cs cells) :
    (∀ cell ∈ cells, Unbroken cell.toList) → Unbroken cs := by
  induction h with
  | last hcell =>
      intro hcells
      exact hcell.unbroken (by simpa using hcells)
  | cons hcell _ ih =>
      intro hcells
      obtain ⟨hfirst, hrest⟩ := List.forall_mem_cons.mp hcells
      rw [String.toList_ofList] at hfirst
      exact unbroken_append.mpr ⟨hcell.unbroken hfirst, unbroken_cons.mpr ⟨by decide, ih hrest⟩⟩

/-! ### Lines -/

/-- The line feeds of a row are those of what ends it. -/
def Standing.LinesAtEnd (s : Standing) : Prop :=
  s.chars.count '\n' = s.ending.toList.count '\n'

/-- **Where cells hold no line feeds, rows take the lines of their ends.** -/
theorem Layout.linesAtEnd {cs : List Char} {ss : List Standing} (h : Layout cs ss) :
    (∀ s ∈ ss, ∀ cell ∈ s.cells, Unbroken cell.toList) → ∀ s ∈ ss, s.LinesAtEnd := by
  induction h with
  | gap => simp
  | @last closed gap own cells _ hown _ =>
      intro hcells
      have hunbroken : Unbroken own := hown.unbroken (by simpa using hcells)
      -- a row that is cut off may stop within a cell, and so at a carriage return
      have hending : Unbroken (Standing.ending ⟨gap, own, cells⟩).toList := by
        intro hmem
        obtain ⟨hlast, -⟩ := Option.mem_filter_iff.mp (Option.mem_toList.mp hmem)
        exact hunbroken (List.mem_of_getLast? hlast)
      rw [List.forall_mem_singleton, Standing.LinesAtEnd, List.count_eq_zero.mpr hending]
      exact List.count_eq_zero.mpr hunbroken
  | @cons gap own rest cells c ss _ hown _ hc _ ih =>
      intro hcells
      obtain ⟨hfirst, hrest⟩ := List.forall_mem_cons.mp hcells
      refine List.forall_mem_cons.mpr ⟨?_, ih hrest⟩
      have hending : Standing.ending ⟨gap, own ++ [c], cells⟩ = some c := by
        simp [Standing.ending, hc]
      show (own ++ [c]).count '\n' = _
      rw [hending, List.count_append, List.count_eq_zero.mpr (hown.unbroken hfirst), Nat.zero_add]
      rfl

theorem EndsAlike.count_eq {s s' : Standing} (h : EndsAlike s s') (hs : s.LinesAtEnd)
    (hs' : s'.LinesAtEnd) : s.text.count '\n' = s'.text.count '\n' := by
  rw [Standing.text, Standing.text, List.count_append, List.count_append, hs, hs', h.gap,
    h.ending]

/-- **Rows that are ended alike stand on the same lines.** -/
theorem line_placed {ss ss' : List Standing} (h : List.Forall₂ EndsAlike ss ss') :
    (∀ s ∈ ss, s.LinesAtEnd) → (∀ s ∈ ss', s.LinesAtEnd) → ∀ p p' : Place, p.line = p'.line →
      List.Forall₂ (fun row row' => row.place.line = row'.place.line) (placed p ss)
        (placed p' ss') := by
  induction h with
  | nil => intro _ _ p p' _; exact .nil
  | @cons s s' ss ss' hends _ ih =>
      intro hlines hlines' p p' hplace
      obtain ⟨hs, hss⟩ := List.forall_mem_cons.mp hlines
      obtain ⟨hs', hss'⟩ := List.forall_mem_cons.mp hlines'
      refine .cons hplace (ih hss hss' _ _ ?_)
      rw [Place.afterAll_line, Place.afterAll_line, hplace, hends.count_eq hs hs']

/-! ### Writing a table -/

/-- A cell between quotation marks. -/
def markedCell (cell : String) : List Char :=
  '"' :: doubled cell.toList ++ ['"']

/-- The cells of a row between quotation marks, with tabs between them. -/
def markedRow : List String → List Char
  | [] => []
  | [cell] => markedCell cell
  | cell :: cells => markedCell cell ++ '\t' :: markedRow cells

/-- Rows of cells between quotation marks, each ended by a line feed. -/
def marked (rows : List (List String)) : List Standing :=
  rows.map fun cells => ⟨[], markedRow cells ++ ['\n'], cells⟩

/-- The text of a table whose cells all stand between quotation marks. -/
def written (rows : List (List String)) : String :=
  String.ofList (Standing.texts (marked rows))

theorem isCell_marked (cell : String) : IsCell true (markedCell cell) cell.toList := by
  have h := @IsCell.quoted cell.toList [] (List.forall_mem_nil _) (by simp)
  rwa [List.append_nil] at h

theorem isRow_marked : ∀ cells : List String, cells ≠ [] → IsRow true (markedRow cells) cells
  | [], h => absurd rfl h
  | [cell], _ => by
      have hlast := IsRow.last (isCell_marked cell)
      rwa [String.ofList_toList] at hlast
  | cell :: next :: cells, _ => by
      have hcons := IsRow.cons (isCell_marked cell) (isRow_marked (next :: cells) (by simp))
      rwa [String.ofList_toList] at hcons

theorem texts_marked_cons (cells : List String) (rows : List (List String)) :
    Standing.texts (marked (cells :: rows)) =
      markedRow cells ++ '\n' :: Standing.texts (marked rows) := by
  simp [Standing.texts, Standing.text, marked]

/-- A row with a cell begins with a quotation mark. -/
theorem exists_markedRow_eq : ∀ cells : List String, cells ≠ [] →
    ∃ cs, markedRow cells = '"' :: cs
  | [], h => absurd rfl h
  | [_], _ => ⟨_, rfl⟩
  | _ :: _ :: _, _ => ⟨_, rfl⟩

theorem layout_marked : ∀ rows : List (List String), (∀ cells ∈ rows, cells ≠ []) →
    Layout (Standing.texts (marked rows)) (marked rows) := by
  intro rows
  induction rows with
  | nil => intro _; exact .gap (List.forall_mem_nil _)
  | cons cells rows ih =>
      intro h
      obtain ⟨hfirst, hrest⟩ := List.forall_mem_cons.mp h
      obtain ⟨cs, hcs⟩ := exists_markedRow_eq cells hfirst
      have hne : markedRow cells ≠ [] := by simp [hcs]
      rw [texts_marked_cons]
      exact .cons (List.forall_mem_nil _) (isRow_marked cells hfirst) hne rfl (ih hrest)

/-- **A table of cells between quotation marks is laid out as it is written.** -/
theorem layout_written {rows : List (List String)} (h : ∀ cells ∈ rows, cells ≠ []) :
    Layout (unmarked (written rows)) (marked rows) := by
  have hunmarked : unmarked (written rows) = Standing.texts (marked rows) := by
    unfold unmarked written
    rw [String.toList_ofList]
    cases rows with
    | nil => rfl
    | cons cells rows =>
        obtain ⟨cs, hcs⟩ := exists_markedRow_eq cells (h cells List.mem_cons_self)
        rw [texts_marked_cons, hcs]
        rfl
  rw [hunmarked]
  exact layout_marked rows h

/-- Tables of equally many rows that are so written have their rows ended alike. -/
theorem endsAlike_marked {rows rows' : List (List String)} (h : rows.length = rows'.length) :
    List.Forall₂ EndsAlike (marked rows) (marked rows') := by
  rw [marked, marked, List.forall₂_map_left_iff, List.forall₂_map_right_iff,
    List.forall₂_iff_get]
  refine ⟨h, fun _ _ _ => ⟨rfl, ?_⟩⟩
  simp [Standing.ending]

end RollCall.Table
