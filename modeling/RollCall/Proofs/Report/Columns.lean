/-
Columns are found by their titles, wherever they stand.

A table can be taken column by column: each has what stands on top of it and its cells from
the top down.  Columns may be moved about, and columns that are of no account may be put in or
taken out, which is `Rearranged`.  None of this touches the columns under one of the three
titles, except for their order; where each title stands once, that leaves the cell of every
row under it as it was, and nothing else of a row is read.

So two such tables are read row by row in the same way, up to the first row that cannot be
read.  What is told about that row are its cell and its line.  The line is the same as well,
provided that no cell holds a line feed and the rows are ended alike, for the lines that cells
take up would go wherever the cells go.
-/
import Mathlib.Data.List.Perm.Basic
import RollCall.Proofs.Report.Grouping
import RollCall.Proofs.Report.Lines
import RollCall.Proofs.Table.Ending

namespace RollCall

namespace Report

open Table

/-- A column of a table: what stands on top of it, and its cells from the top down. -/
structure Upright where
  head : String
  cells : List String
deriving DecidableEq, Repr

namespace Upright

/-- What stands on top of a column, without the blanks around it. -/
def caption (k : Upright) : String :=
  Text.trimmed k.head

/-- The cell that a column has in a row, without the blanks around it. -/
def cell (k : Upright) (row : Nat) : String :=
  Text.trimmed (k.cells.getD row "")

/-- The column is none of the three. -/
def Foreign (k : Upright) : Prop :=
  ∀ c : Column, k.caption ≠ c.title

end Upright

/-- The columns of a table. -/
def columns (titles : List String) (rows : List (List String)) : List Upright :=
  titles.mapIdx fun j head => ⟨head, rows.map (·.getD j "")⟩

/-- The columns under a title. -/
def columnsOf (c : Column) (ks : List Upright) : List Upright :=
  ks.filter (·.caption = c.title)

/-- Columns are moved about, and foreign ones put in and taken out. -/
inductive Rearranged : List Upright → List Upright → Prop
  | permuted {ks ks' : List Upright} (h : ks.Perm ks') : Rearranged ks ks'
  | added {front back : List Upright} {k : Upright} (h : k.Foreign) :
      Rearranged (front ++ back) (front ++ k :: back)
  | removed {front back : List Upright} {k : Upright} (h : k.Foreign) :
      Rearranged (front ++ k :: back) (front ++ back)
  | trans {ks ks' ks'' : List Upright} (h : Rearranged ks ks') (h' : Rearranged ks' ks'') :
      Rearranged ks ks''

/-- The text has the rows, with a cell in each for every title and no line feed in any cell. -/
structure Tabular (text : String) (titles : Standing) (ss : List Standing) : Prop where
  layout : Layout (unmarked text) (titles :: ss)
  length : ∀ s ∈ ss, s.cells.length = titles.cells.length
  unbroken : ∀ s ∈ titles :: ss, ∀ cell ∈ s.cells, Unbroken cell.toList

/-- The columns of a table in its layout. -/
def columnsAt (titles : Standing) (ss : List Standing) : List Upright :=
  columns titles.cells (ss.map Standing.cells)

/-- Two errors tell the same: the row, its line and its fault, which is that of a cell. -/
structure ToldAlike (e e' : ReportError) : Prop where
  number : e.number = e'.number
  line : e.place.line = e'.place.line
  fault : e.fault = e'.fault
  cell : ∃ cell, e.fault = .unknownAction cell ∨ e.fault = .unknownTime cell

/-- Two readings are alike: the same is read, or errors that tell the same. -/
inductive ReadAlike {α : Type} : Except ReportError α → Except ReportError α → Prop
  | ok (a : α) : ReadAlike (.ok a) (.ok a)
  | error {e e' : ReportError} (h : ToldAlike e e') : ReadAlike (.error e) (.error e')

/-! ### What rearranging keeps -/

theorem columnsOf_foreign {k : Upright} (h : k.Foreign) (c : Column) (front back : List Upright) :
    columnsOf c (front ++ k :: back) = columnsOf c (front ++ back) := by
  simp [columnsOf, List.filter_append, h c]

/-- **The columns under a title stay, up to their order.** -/
theorem Rearranged.columnsOf_perm {ks ks' : List Upright} (h : Rearranged ks ks') (c : Column) :
    (columnsOf c ks).Perm (columnsOf c ks') := by
  induction h with
  | permuted h => exact h.filter _
  | added h => rw [columnsOf_foreign h]
  | removed h => rw [columnsOf_foreign h]
  | trans _ _ ih ih' => exact ih.trans ih'

theorem map_caption_columns (titles : List String) (rows : List (List String)) :
    (columns titles rows).map Upright.caption = titles.map Text.trimmed := by
  refine List.ext_getElem (by simp [columns]) ?_
  intro j hj hj'
  simp [columns, Upright.caption]

/-- As many columns are under a title as the title stands in the first row. -/
theorem length_columnsOf (c : Column) (titles : List String) (rows : List (List String)) :
    (columnsOf c (columns titles rows)).length = (titles.map Text.trimmed).count c.title := by
  rw [← map_caption_columns titles rows, List.count, List.countP_map, columnsOf,
    ← List.countP_eq_length_filter]
  exact List.countP_congr fun k _ => by simp

/-- A row has its cell in a column from the first column under the title. -/
theorem cellOf_eq_head? {titles cells : List String} {rows : List (List String)} {i : Nat}
    (hrow : rows[i]? = some cells) (hlen : cells.length = titles.length) (c : Column) :
    cellOf (titles.map Text.trimmed) (cells.map Text.trimmed) c =
      (columnsOf c (columns titles rows)).head?.elim "" (·.cell i) := by
  have hpairs : (titles.map Text.trimmed).zip (cells.map Text.trimmed) =
      (columns titles rows).map fun k => (k.caption, k.cell i) := by
    refine List.ext_getElem (by simp [columns, hlen]) ?_
    intro j hj hj'
    have hcell : j < cells.length := by simpa [hlen] using hj
    simp [columns, Upright.caption, Upright.cell, hrow, hcell]
  rw [cellOf, hpairs, List.find?_map, columnsOf, List.head?_filter, Option.elim_map]
  simp only [Function.comp_def]

/-- A title that stands once stands once wherever the columns are moved. -/
theorem Rearranged.count_title {titles titles' : List String} {rows rows' : List (List String)}
    (h : Rearranged (columns titles rows) (columns titles' rows')) (c : Column) :
    (titles.map Text.trimmed).count c.title = (titles'.map Text.trimmed).count c.title := by
  rw [← length_columnsOf c titles rows, ← length_columnsOf c titles' rows']
  exact (h.columnsOf_perm c).length_eq

/-- **Rearranging keeps the cell of a row under a title that stands once.** -/
theorem Rearranged.cellOf_eq {titles titles' cells cells' : List String}
    {rows rows' : List (List String)} {i : Nat} {c : Column}
    (h : Rearranged (columns titles rows) (columns titles' rows'))
    (honce : (titles.map Text.trimmed).count c.title = 1)
    (hrow : rows[i]? = some cells) (hrow' : rows'[i]? = some cells')
    (hlen : cells.length = titles.length) (hlen' : cells'.length = titles'.length) :
    cellOf (titles.map Text.trimmed) (cells.map Text.trimmed) c =
      cellOf (titles'.map Text.trimmed) (cells'.map Text.trimmed) c := by
  rw [← length_columnsOf c titles rows] at honce
  obtain ⟨k, hk⟩ := List.length_eq_one_iff.mp honce
  have hperm := h.columnsOf_perm c
  rw [hk] at hperm
  rw [cellOf_eq_head? hrow hlen, cellOf_eq_head? hrow' hlen', hk,
    List.perm_singleton.mp hperm.symm]

/-! ### Rows that say the same -/

/-- Two rows stand on one line, and each column has the same cell in both. -/
structure RowAlike (titles titles' : List String) (row row' : Row) : Prop where
  line : row.place.line = row'.place.line
  fields : HasFields titles (trimmedCells row)
  fields' : HasFields titles' (trimmedCells row')
  cells : ∀ c, cellOf titles (trimmedCells row) c = cellOf titles' (trimmedCells row') c

/-- Nothing of a row that has the three fields is read but its three cells. -/
theorem RowAlike.entryOf_eq {titles titles' : List String} {row row' : Row}
    (h : RowAlike titles titles' row row') :
    entryOf titles (trimmedCells row) = entryOf titles' (trimmedCells row') := by
  have htitles : titlesFault? titles = none := titlesFault?_eq_none_iff.mpr h.fields.once
  have htitles' : titlesFault? titles' = none := titlesFault?_eq_none_iff.mpr h.fields'.once
  unfold entryOf
  rw [if_neg (not_not.mpr h.fields.length), if_neg (not_not.mpr h.fields'.length), htitles,
    htitles']
  simp only [h.cells]

/-- What is wrong with a row that has the three fields is its action or its time. -/
theorem HasFields.fault_of_cell {titles cells : List String} {fault : RowFault}
    (h : HasFields titles cells) (hfault : Faulty titles cells fault) :
    ∃ cell, fault = .unknownAction cell ∨ fault = .unknownTime cell := by
  cases hfault with
  | length hlen => exact absurd h.length hlen
  | @duplicate c before after _ ht hc _ =>
      have honce := h.once c
      have hbefore : 0 < before.count c.title := List.count_pos_iff.mpr hc
      rw [ht, List.count_append, List.count_cons_self] at honce
      omega
  | @missing c _ _ _ _ _ hc _ =>
      have honce := h.once c
      rw [List.count_eq_zero_of_not_mem hc] at honce
      cases honce
  | action => exact ⟨_, .inl rfl⟩
  | time => exact ⟨_, .inr rfl⟩

/-! ### Readings -/

theorem ReadAlike.map {α β : Type} {r r' : Except ReportError α} (h : ReadAlike r r')
    (f : α → β) : ReadAlike (r.map f) (r'.map f) := by
  cases h with
  | ok a => exact .ok (f a)
  | error h => exact .error h

/-- Errors that tell the same have the same message. -/
theorem ToldAlike.message_eq {e e' : ReportError} (h : ToldAlike e e') :
    e.message = e'.message := by
  obtain ⟨cell, hcell⟩ := h.cell
  unfold ReportError.message
  rw [← h.fault, h.line]
  rcases hcell with hcell | hcell
  · rw [hcell]
  · rw [hcell]

/-- **Rows that say the same are read alike.** -/
theorem entriesFrom_alike {titles titles' : List String} {rows rows' : List Row}
    (h : List.Forall₂ (RowAlike titles titles') rows rows') :
    ∀ number, ReadAlike (entriesFrom titles number rows) (entriesFrom titles' number rows') := by
  induction h with
  | nil => intro number; exact .ok []
  | @cons row row' rows rows' hrow _ ih =>
      intro number
      cases hentry : entryOf titles (trimmedCells row) with
      | ok e =>
          rw [entriesFrom_cons_of_ok hentry,
            entriesFrom_cons_of_ok (hrow.entryOf_eq ▸ hentry)]
          exact (ih (number + 1)).map _
      | error fault =>
          rw [entriesFrom_cons_of_error hentry,
            entriesFrom_cons_of_error (hrow.entryOf_eq ▸ hentry)]
          have hcell := hrow.fields.fault_of_cell (faulty_of_entryOf_eq_error hentry)
          exact .error ⟨rfl, hrow.line, rfl, hcell⟩

/-! ### Tables -/

theorem Tabular.linesAtEnd {text : String} {titles : Standing} {ss : List Standing}
    (h : Tabular text titles ss) : ∀ s ∈ titles :: ss, s.LinesAtEnd :=
  h.layout.linesAtEnd h.unbroken

/-- A row of a table is where it stands in its columns, and has a cell for each title. -/
theorem Tabular.exists_cells {text : String} {titles : Standing} {ss : List Standing}
    (h : Tabular text titles ss) {p : Place} {i : Nat} (hi : i < (placed p ss).length) :
    ∃ cells, (ss.map Standing.cells)[i]? = some cells ∧
      cells.length = titles.cells.length ∧
      trimmedCells ((placed p ss).get ⟨i, hi⟩) = cells.map Text.trimmed := by
  have hat : (ss.map Standing.cells)[i]? = some ((placed p ss).get ⟨i, hi⟩).cells := by
    rw [← map_cells_placed ss p, List.getElem?_map, List.getElem?_eq_getElem hi]
    rfl
  obtain ⟨s, hs, hcells⟩ := List.mem_map.mp (List.mem_of_getElem? hat)
  exact ⟨_, hat, hcells ▸ h.length s hs, rfl⟩

theorem hasFields_of_trimmed {titles : Standing} {row : Row} {cells : List String}
    (hcells : trimmedCells row = cells.map Text.trimmed)
    (hlen : cells.length = titles.cells.length)
    (honce : ∀ c : Column, (trimmedStanding titles).count c.title = 1) :
    HasFields (trimmedStanding titles) (trimmedCells row) where
  length := by
    rw [hcells, trimmedStanding, List.length_map, List.length_map, hlen]
  once := honce

/-- **Rows of rearranged tables say the same.** -/
theorem rowAlike_placed {text text' : String} {titles titles' : Standing}
    {ss ss' : List Standing} (htable : Tabular text titles ss)
    (htable' : Tabular text' titles' ss')
    (honce : ∀ c : Column, (trimmedStanding titles).count c.title = 1)
    (hcolumns : Rearranged (columnsAt titles ss) (columnsAt titles' ss')) {p p' : Place}
    (hlines : List.Forall₂ (fun row row' => row.place.line = row'.place.line) (placed p ss)
      (placed p' ss')) :
    List.Forall₂ (RowAlike (trimmedStanding titles) (trimmedStanding titles')) (placed p ss)
      (placed p' ss') := by
  have honce' : ∀ c : Column, (trimmedStanding titles').count c.title = 1 := by
    intro c
    exact (hcolumns.count_title c).symm.trans (honce c)
  obtain ⟨hsize, hline⟩ := List.forall₂_iff_get.mp hlines
  refine List.forall₂_iff_get.mpr ⟨hsize, ?_⟩
  intro i hi hi'
  obtain ⟨cells, hrow, hlen, hcells⟩ := htable.exists_cells hi
  obtain ⟨cells', hrow', hlen', hcells'⟩ := htable'.exists_cells hi'
  refine ⟨hline i hi hi', hasFields_of_trimmed hcells hlen honce,
    hasFields_of_trimmed hcells' hlen' honce', ?_⟩
  intro c
  rw [hcells, hcells']
  exact hcolumns.cellOf_eq (honce c) hrow hrow' hlen hlen'

/-- The rows behind the titles are read under the titles. -/
theorem attendees_of_layout {text : String} {titles : Standing} {ss : List Standing}
    (h : Layout (unmarked text) (titles :: ss)) :
    ∃ p : Place, p.line = 1 ∧ attendees text =
      (entriesFrom (trimmedStanding titles) 1 (placed (p.afterAll titles.text) ss)).map
        attendeesOf := by
  obtain ⟨byte, hrows⟩ := exists_rows_of_layout h
  refine ⟨⟨1, byte⟩, rfl, ?_⟩
  rw [attendees, attendeesOfRows, hrows]
  rfl

/-- Every table of cells without line feeds can be written. -/
theorem tabular_written {titles : List String} {rows : List (List String)} (hne : titles ≠ [])
    (hlen : ∀ cells ∈ rows, cells.length = titles.length)
    (hunbroken : ∀ cells ∈ titles :: rows, ∀ cell ∈ cells, Unbroken cell.toList) :
    Tabular (written (titles :: rows)) ⟨[], markedRow titles ++ ['\n'], titles⟩ (marked rows) where
  layout := by
    refine layout_written (List.forall_mem_cons.mpr ⟨hne, ?_⟩)
    intro cells hcells hnil
    have hempty := hlen cells hcells
    rw [hnil] at hempty
    exact hne (List.length_eq_zero_iff.mp hempty.symm)
  length := by
    intro s hs
    obtain ⟨cells, hcells, rfl⟩ := List.mem_map.mp hs
    exact hlen cells hcells
  unbroken := by
    intro s hs
    have hmarked : s ∈ marked (titles :: rows) := hs
    obtain ⟨cells, hcells, rfl⟩ := List.mem_map.mp hmarked
    exact hunbroken cells hcells

/--
**Columns are found by their titles.**

Each of the three titles stands once, every row has a cell for each title, and no cell holds a
line feed.  Then the columns may stand in any order, and foreign ones may be put in or left
out: as long as the rows are ended alike, the same attendees are read, in the same order, or the
same row has the same unknown action or unknown time and is said to be on the same line.
-/
theorem attendees_of_columns {text text' : String} {titles titles' : Standing}
    {ss ss' : List Standing} (htable : Tabular text titles ss)
    (htable' : Tabular text' titles' ss')
    (honce : ∀ c : Column, (trimmedStanding titles).count c.title = 1)
    (hcolumns : Rearranged (columnsAt titles ss) (columnsAt titles' ss'))
    (hends : List.Forall₂ EndsAlike (titles :: ss) (titles' :: ss')) :
    ReadAlike (attendees text) (attendees text') := by
  obtain ⟨p, hp, hread⟩ := attendees_of_layout htable.layout
  obtain ⟨p', hp', hread'⟩ := attendees_of_layout htable'.layout
  have hlines := line_placed hends htable.linesAtEnd htable'.linesAtEnd p p' (hp.trans hp'.symm)
  have hbehind := (List.forall₂_cons.mp hlines).2
  rw [hread, hread']
  exact (entriesFrom_alike (rowAlike_placed htable htable' honce hcolumns hbehind) 1).map _

/-- The times come first and a group is put in: Bob's action is as unknown as before, and on the
same line, though at another byte. -/
theorem attendees_of_columns_moved :
    let titles := ["Full Name", "User Action ", "Timestamp"]
    let rows := [["Ann", "Left", "2021-03-15 14:00:00"], ["Bob", "Waved", ""]]
    let titles' := ["Timestamp", "Group", "Full Name", "User Action "]
    let rows' := [["2021-03-15 14:00:00", "1", "Ann", "Left"], ["", "2", "Bob", "Waved"]]
    ReadAlike (attendees (written (titles :: rows))) (attendees (written (titles' :: rows'))) ∧
      attendees (written (titles :: rows)) = .error ⟨2, ⟨3, 74⟩, .unknownAction "Waved"⟩ ∧
      attendees (written (titles' :: rows')) = .error ⟨2, ⟨3, 86⟩, .unknownAction "Waved"⟩ := by
  intro titles rows titles' rows'
  have htable := @tabular_written titles rows (by decide) (by decide) (by decide)
  have htable' := @tabular_written titles' rows' (by decide) (by decide) (by decide)
  have hcolumns : Rearranged (columns titles rows) (columns titles' rows') := by
    have hgroup : Upright.Foreign ⟨"Group", ["1", "2"]⟩ := by
      intro c
      cases c <;> decide
    exact .trans (@Rearranged.added [] (columns titles rows) _ hgroup) (.permuted (by decide))
  have hends := @endsAlike_marked (titles :: rows) (titles' :: rows') rfl
  refine ⟨attendees_of_columns htable htable' ?_ hcolumns hends, ?_, ?_⟩
  · intro c
    cases c <;> decide
  · exact Result.map_eq_error.mpr (by decide +kernel)
  · exact Result.map_eq_error.mpr (by decide +kernel)

end Report

end RollCall
