/-
The lines that are named when a row cannot be read.

A row is placed where the row before it ended, and its line counts the line feeds up to
there.  The line ends that are left over in front of it come after that place: the line
feed of a carriage return and line feed, and empty lines.  So the line that is named is
the one on which the row begins exactly if no line feed is among them; otherwise it is
too small by as many as there are.

The row at fault is found in the layout of the text, as the first behind the titles that
cannot be read, and neither the reader nor its places are needed to say which it is.
-/
import RollCall.Proofs.Report.Rows
import RollCall.Proofs.Table.Layout

namespace RollCall

namespace Report

open Table

/-- The cells of a row in a layout, without the blanks around them. -/
def trimmedStanding (s : Standing) : List String :=
  s.cells.map Text.trimmed

/-- The first row behind the titles that cannot be read, in the layout of a text. -/
structure FirstFault (ss : List Standing) (fault : RowFault) where
  titles : Standing
  good : List Standing
  bad : Standing
  after : List Standing
  /-- the rows in their order -/
  split : ss = (titles :: good) ++ bad :: after
  readable : ∀ s ∈ good, Readable (trimmedStanding titles) (trimmedStanding s)
  faulty : Faulty (trimmedStanding titles) (trimmedStanding bad) fault

namespace FirstFault

variable {ss : List Standing} {fault : RowFault}

/-- What stands in front of the row up to where the row before it ended. -/
def before (f : FirstFault ss fault) : List Char :=
  Standing.texts (f.titles :: f.good)

end FirstFault

/-- The rows of a layout can be read if the reader's rows can. -/
theorem readable_of_placed {titles : List String} {ss : List Standing} {p : Place}
    (h : ∀ row ∈ placed p ss, Readable titles (trimmedCells row)) :
    ∀ s ∈ ss, Readable titles (trimmedStanding s) := by
  intro s hs
  have hmem : s.cells ∈ (placed p ss).map Row.cells := by
    rw [map_cells_placed]
    exact List.mem_map_of_mem hs
  obtain ⟨row, hrow, hcells⟩ := List.mem_map.mp hmem
  have hread := h row hrow
  rwa [trimmedCells, hcells] at hread

/-- The error of a report is the first fault in its layout. -/
theorem exists_firstFault {text : String} {e : ReportError} (h : attendees text = .error e)
    {ss : List Standing} (hss : Layout (unmarked text) ss) :
    ∃ f : FirstFault ss e.fault, e.number = f.good.length + 1 ∧
      e.place.line = 1 + f.before.count '\n' := by
  obtain ⟨byte, hrows⟩ := exists_rows_of_layout hss
  have hentries := Result.map_eq_error.mp h
  rw [hrows] at hentries
  cases ss with
  | nil => cases hentries
  | cons titles ss =>
      obtain ⟨good, bad, rest, hsplit, hgood, hbad, hnumber, hplace⟩ :=
        exists_first_fault _ _ hentries
      obtain ⟨front, s, back, rfl, rfl, rfl⟩ := placed_eq_append ss _ good hsplit
      refine ⟨⟨titles, front, s, back, rfl, readable_of_placed hgood,
        faulty_of_entryOf_eq_error hbad⟩, ?_, ?_⟩
      · rw [hnumber, Nat.add_comm, length_placed]
      · rw [hplace, Place.afterAll_line, Place.afterAll_line, Nat.add_assoc, ← List.count_append]
        rfl

/--
**Which line is named for a row that cannot be read.**

The text has a layout, and in every layout of it the row is the first behind the titles that
cannot be read, with what is wrong with it.  Its line is one more than the line feeds up to
the end of the row before it.  That is the line on which the row begins exactly if no line
feed is left over in front of it, and otherwise it is less by the count of those.
-/
theorem line_of_error {text : String} {e : ReportError} (h : attendees text = .error e) :
    (∃ ss, Layout (unmarked text) ss) ∧
      ∀ ss, Layout (unmarked text) ss → ∃ f : FirstFault ss e.fault,
        e.number = f.good.length + 1 ∧
          f.before ++ f.bad.gap ++ f.bad.chars <+: unmarked text ∧
          e.place.line = 1 + f.before.count '\n' ∧
          (e.place.line = 1 + (f.before ++ f.bad.gap).count '\n' ↔ '\n' ∉ f.bad.gap) := by
  refine ⟨exists_layout _, fun ss hss => ?_⟩
  obtain ⟨f, hnumber, hline⟩ := exists_firstFault h hss
  refine ⟨f, hnumber, ?_, hline, ?_⟩
  · have hsplit : Standing.texts ss =
        (f.before ++ f.bad.gap ++ f.bad.chars) ++ Standing.texts f.after := by
      simp [f.split, FirstFault.before, Standing.texts, Standing.text]
    exact (hsplit ▸ List.prefix_append _ _ : _ <+: Standing.texts ss).trans hss.texts_prefix
  · rw [hline, List.count_append, ← List.count_eq_zero]
    omega

/-- Where every line ends with one line feed, the line is right, also behind a name that takes two
lines. -/
theorem line_of_error_line_feeds :
    let text := "Full Name\tUser Action\tTimestamp\n" ++
      "\"Ann\nLee\"\tJoined\t2021-03-15 14:00:00\n" ++ "Bob\tWaved\t2021-03-15 14:00:00\n"
    ∃ e, attendees text = .error e ∧ e.fault = .unknownAction "Waved" ∧ e.place.line = 4 ∧
      ∀ ss, Layout (unmarked text) ss → ∃ f : FirstFault ss e.fault,
        f.good.length = 1 ∧ f.before.count '\n' = 3 := by
  intro text
  have hentries : entriesOfRows (rows text) = .error ⟨2, ⟨4, 69⟩, .unknownAction "Waved"⟩ := by
    decide +kernel
  have h : attendees text = .error ⟨2, ⟨4, 69⟩, .unknownAction "Waved"⟩ :=
    Result.map_eq_error.mpr hentries
  refine ⟨_, h, rfl, rfl, fun ss hss => ?_⟩
  obtain ⟨f, hnumber, -, hline, -⟩ := (line_of_error h).2 ss hss
  refine ⟨f, by simpa using hnumber.symm, ?_⟩
  have hfour : 4 = 1 + f.before.count '\n' := hline
  omega

/-- Where lines end with a carriage return and a line feed, the line that is named is the one
before: the row stands behind one line feed, on line 2. -/
theorem line_of_error_carriage_return :
    let before := "Full Name\tUser Action\tTimestamp\r\n"
    let row := "Bob\tWaved\t2021-03-15 14:00:00\r\n"
    ∃ e, attendees (before ++ row) = .error e ∧ e.fault = .unknownAction "Waved" ∧
      e.place.line = 1 ∧ 1 + before.toList.count '\n' = 2 := by
  intro before row
  have hentries : entriesOfRows (rows (before ++ row)) =
      .error ⟨1, ⟨1, 32⟩, .unknownAction "Waved"⟩ := by
    decide +kernel
  exact ⟨_, Result.map_eq_error.mpr hentries, rfl, rfl, by decide⟩

end Report

end RollCall
