/-
How the rows of a table lie in its text.

A text is laid out as rows, each with the line ends that are left over in front of it and
the one character that ends it, which only the last row may lack.  A row is a run of
cells with a tab between any two of them.  A cell is bare, or it stands between
quotation marks with the marks in it doubled and goes on bare behind the closing one, or,
at the very end of the text, it is never closed.  All of this is said of characters and
not of a reader.

Every text has such a layout, and the reader follows whichever layout is given: a cell
takes it from the start of a cell to where that cell may end, and so a row from one gap to
the next.  A row is placed where the row before it ended, in front of its own gap.
-/
import RollCall.Proofs.Text.Digits
import RollCall.Table.Delimited

namespace RollCall.Table

/-- A character that may stand in a cell without quotation marks around it, except that a mark
may not come first. -/
def isBare (c : Char) : Bool :=
  !endsRow c && c != '\t'

/-- A text with its quotation marks written twice. -/
def doubled (cs : List Char) : List Char :=
  cs.flatMap fun c => if c = '"' then ['"', '"'] else [c]

/-- The characters of a cell and what the cell says; it may be left open or not. -/
inductive IsCell : (closed : Bool) → (chars value : List Char) → Prop
  | bare {cs : List Char} (hcs : ∀ c ∈ cs, isBare c = true) (hfirst : cs.head? ≠ some '"') :
      IsCell true cs cs
  | quoted (inside : List Char) {tail : List Char} (htail : ∀ c ∈ tail, isBare c = true)
      (hfirst : tail.head? ≠ some '"') :
      IsCell true ('"' :: doubled inside ++ '"' :: tail) (inside ++ tail)
  | unclosed (inside : List Char) : IsCell false ('"' :: doubled inside) inside

/-- The characters of a row and what its cells say; the last cell may be left open. -/
inductive IsRow (closed : Bool) : (chars : List Char) → (cells : List String) → Prop
  | last {cs value : List Char} (h : IsCell closed cs value) :
      IsRow closed cs [String.ofList value]
  | cons {cs value rest : List Char} {cells : List String} (h : IsCell true cs value)
      (hrest : IsRow closed rest cells) :
      IsRow closed (cs ++ '\t' :: rest) (String.ofList value :: cells)

/-- A row as it stands in a text: the line ends left over in front of it, its characters up to the
one that ends it, and what its cells say. -/
structure Standing where
  gap : List Char
  chars : List Char
  cells : List String
deriving DecidableEq, Repr

namespace Standing

/-- All that a row takes up. -/
def text (s : Standing) : List Char :=
  s.gap ++ s.chars

/-- All that some rows take up. -/
def texts (rows : List Standing) : List Char :=
  rows.flatMap text

end Standing

/-- The text consists of the rows, and no row is empty. -/
inductive Layout : (chars : List Char) → (rows : List Standing) → Prop
  | gap {gap : List Char} (hgap : ∀ c ∈ gap, endsRow c = true) : Layout gap []
  | last {closed : Bool} {gap own : List Char} {cells : List String}
      (hgap : ∀ c ∈ gap, endsRow c = true) (hown : IsRow closed own cells) (hne : own ≠ []) :
      Layout (gap ++ own) [⟨gap, own, cells⟩]
  | cons {gap own rest : List Char} {cells : List String} {c : Char} {rows : List Standing}
      (hgap : ∀ c ∈ gap, endsRow c = true) (hown : IsRow true own cells) (hne : own ≠ [])
      (hend : endsRow c = true) (hrest : Layout rest rows) :
      Layout (gap ++ own ++ c :: rest) (⟨gap, own ++ [c], cells⟩ :: rows)

/-- The place behind some characters. -/
def Place.afterAll (p : Place) (cs : List Char) : Place :=
  cs.foldl Place.after p

/-- The rows that a reader is to find, if the first one begins at the given place. -/
def placed : Place → List Standing → List Row
  | _, [] => []
  | p, s :: rows => ⟨p, s.cells⟩ :: placed (p.afterAll s.text) rows

/-! ### Places -/

@[simp] theorem Place.afterAll_nil (p : Place) : p.afterAll [] = p :=
  rfl

@[simp] theorem Place.afterAll_cons (p : Place) (c : Char) (cs : List Char) :
    p.afterAll (c :: cs) = (p.after c).afterAll cs :=
  rfl

@[simp] theorem Place.afterAll_append (p : Place) (cs ds : List Char) :
    p.afterAll (cs ++ ds) = (p.afterAll cs).afterAll ds :=
  List.foldl_append

/-- A place is behind as many line feeds as its line says. -/
theorem Place.afterAll_line (cs : List Char) :
    ∀ p : Place, (p.afterAll cs).line = p.line + cs.count '\n' := by
  induction cs with
  | nil => intro p; rfl
  | cons c cs ih =>
      intro p
      rw [Place.afterAll_cons, ih]
      by_cases h : c = '\n'
      · simp [Place.after, h, Nat.add_assoc, Nat.add_comm 1]
      · simp [Place.after, h]

/-! ### The reader in a cell -/

namespace Reader

/-- The reader has finished a cell, or has not begun with one. -/
def AtCell (r : Reader) : Prop :=
  (r.within = .gap ∨ r.within = .cellStart) ∧ r.cell = []

theorem takeChar_of_bare {r : Reader} {c : Char} (hr : r.within ≠ .quotes) (hc : isBare c = true)
    (hmark : c = '"' → r.within = .plain) : r.takeChar c = r.push .plain c := by
  obtain ⟨hend, htab⟩ : endsRow c = false ∧ c ≠ '\t' := by simpa [isBare] using hc
  have hplain : r.takePlain c = r.push .plain c := by
    rw [takePlain, if_neg (by simp [hend]), if_neg htab]
  unfold takeChar
  cases hw : r.within with
  | quotes => exact absurd hw hr
  | plain => exact hplain
  | gap | cellStart | closingMark =>
      have hc : c ≠ '"' := fun h => by simpa [hw] using hmark h
      simp [takeFirst, hend, hc, hplain]

/-- Bare characters are taken into the cell, unless they begin with a mark where it means
something. -/
theorem foldl_take_bare (cs : List Char) :
    ∀ r : Reader, (∀ c ∈ cs, isBare c = true) → r.within ≠ .quotes →
      (cs.head? = some '"' → r.within = .plain) →
      cs.foldl take r =
        { r with
          within := if cs = [] then r.within else .plain
          here := r.here.afterAll cs
          cell := cs.reverse ++ r.cell } := by
  induction cs with
  | nil => intro r _ _ _; rfl
  | cons c cs ih =>
      intro r hcs hr hmark
      have htake : r.take c = { r.push .plain c with here := r.here.after c } := by
        rw [take, takeChar_of_bare hr (hcs c List.mem_cons_self) (by simpa using hmark)]
      rw [List.foldl_cons, htake, ih _ (fun d hd => hcs d (by simp [hd])) (by simp [push])
        (fun _ => rfl)]
      simp [push]

/-- Doubled marks are taken once, between quotation marks. -/
theorem foldl_take_doubled (cs : List Char) :
    ∀ r : Reader, r.within = .quotes →
      (doubled cs).foldl take r =
        { r with here := r.here.afterAll (doubled cs), cell := cs.reverse ++ r.cell } := by
  induction cs with
  | nil => intro r _; rfl
  | cons c cs ih =>
      intro r hr
      have hsplit : doubled (c :: cs) = (if c = '"' then ['"', '"'] else [c]) ++ doubled cs := rfl
      have hone : (if c = '"' then ['"', '"'] else [c]).foldl take r =
          { r with
            here := r.here.afterAll (if c = '"' then ['"', '"'] else [c])
            cell := c :: r.cell } := by
        by_cases h : c = '"'
        · simp [h, take, takeChar, hr, push]
        · simp [h, take, takeChar, hr, push]
      rw [hsplit, List.foldl_append, hone, ih _ (by exact hr)]
      simp

/-- **A cell takes the reader to where the cell may end.** -/
theorem foldl_take_cell {closed : Bool} {cs value : List Char} (h : IsCell closed cs value)
    {r : Reader} (hr : r.AtCell) :
    ∃ w : Within, (closed = true → w ≠ .quotes) ∧ (cs ≠ [] ∨ r.within ≠ .gap → w ≠ .gap) ∧
      cs.foldl take r =
        { r with within := w, here := r.here.afterAll cs, cell := value.reverse } := by
  obtain ⟨hwithin, hcell⟩ := hr
  have hopen : r.take '"' = { r with within := .quotes, here := r.here.after '"' } := by
    rcases hwithin with hw | hw
    · simp [take, takeChar, takeFirst, hw, endsRow]
    · simp [take, takeChar, takeFirst, hw]
  cases h with
  | bare hcs hfirst =>
      have hquotes : r.within ≠ .quotes := by
        rcases hwithin with hw | hw
        · simp [hw]
        · simp [hw]
      refine ⟨if cs = [] then r.within else .plain, ?_, ?_, ?_⟩
      · intro _
        by_cases hnil : cs = []
        · rwa [if_pos hnil]
        · simp [hnil]
      · intro hgap
        by_cases hnil : cs = []
        · rw [if_pos hnil]
          exact hgap.resolve_left (not_not.mpr hnil)
        · simp [hnil]
      · rw [foldl_take_bare cs r hcs hquotes (fun h => absurd h hfirst), hcell, List.append_nil]
  | quoted inside htail hfirst =>
      rename_i tail
      refine ⟨if tail = [] then .closingMark else .plain, ?_, ?_, ?_⟩
      · intro _
        split <;> simp
      · intro _
        split <;> simp
      · rw [List.cons_append, List.foldl_cons, hopen, List.foldl_append,
          foldl_take_doubled inside _ rfl, List.foldl_cons]
        simp only [take, takeChar, if_true]
        rw [foldl_take_bare tail _ htail (by simp) (fun h => absurd h hfirst)]
        simp [hcell]
  | unclosed =>
      refine ⟨.quotes, by simp, by simp, ?_⟩
      rw [List.foldl_cons, hopen, foldl_take_doubled value _ rfl]
      simp [hcell]

/-! ### The reader in a row -/

theorem takeChar_tab {r : Reader} (hr : r.within ≠ .quotes) : r.takeChar '\t' = r.endCell := by
  unfold takeChar
  cases hw : r.within with
  | quotes => exact absurd hw hr
  | gap | cellStart | plain | closingMark => simp [takeFirst, takePlain, endsRow]

theorem takeChar_end {r : Reader} {c : Char} (hquotes : r.within ≠ .quotes)
    (hgap : r.within ≠ .gap) (hc : endsRow c = true) :
    r.takeChar c = r.endRow (r.here.after c) := by
  have hmark : c ≠ '"' := by
    rintro rfl
    cases hc
  unfold takeChar
  cases hw : r.within with
  | quotes => exact absurd hw hquotes
  | gap => exact absurd hw hgap
  | cellStart | plain | closingMark => simp [takeFirst, takePlain, hc, hmark]

/-- **A row takes the reader to where it has all cells but for the end of the last.** -/
theorem foldl_take_row {closed : Bool} {cs : List Char} {cells : List String}
    (h : IsRow closed cs cells) :
    ∀ r : Reader, r.AtCell →
      (closed = true → (cs.foldl take r).within ≠ .quotes) ∧
        (cs ≠ [] ∨ r.within ≠ .gap → (cs.foldl take r).within ≠ .gap) ∧
        (cs.foldl take r).endCell =
          { r with
            within := .cellStart
            here := r.here.afterAll cs
            cells := cells.reverse ++ r.cells } := by
  induction h with
  | last hcell =>
      intro r hr
      obtain ⟨w, hquotes, hgap, hfold⟩ := foldl_take_cell hcell hr
      rw [hfold]
      exact ⟨hquotes, hgap, by simp [endCell, hr.2]⟩
  | @cons own value rest cells hcell _ ih =>
      intro r hr
      obtain ⟨w, hquotes, -, hfold⟩ := foldl_take_cell hcell hr
      have htab : (own ++ '\t' :: rest).foldl take r = rest.foldl take
          { r with
            within := .cellStart
            here := (r.here.afterAll own).after '\t'
            cells := String.ofList value :: r.cells } := by
        rw [List.foldl_append, hfold, List.foldl_cons, take, takeChar_tab (hquotes rfl)]
        simp [endCell, hr.2]
      obtain ⟨hclosed, hbehind, hend⟩ := ih
        { r with
          within := .cellStart
          here := (r.here.afterAll own).after '\t'
          cells := String.ofList value :: r.cells } ⟨.inr rfl, hr.2⟩
      rw [htab]
      refine ⟨hclosed, fun _ => hbehind (.inr (by simp)), ?_⟩
      rw [hend]
      simp

/-! ### The reader from row to row -/

/-- The reader behind some rows, last first, where the next one is placed. -/
def between (p : Place) (rows : List Row) : Reader :=
  ⟨.gap, p, p, [], [], rows⟩

theorem foldl_take_gap (gap : List Char) :
    ∀ r : Reader, r.within = .gap → (∀ c ∈ gap, endsRow c = true) →
      gap.foldl take r = { r with here := r.here.afterAll gap } := by
  induction gap with
  | nil => intro r _ _; rfl
  | cons c gap ih =>
      intro r hr hgap
      have htake : r.take c = { r with here := r.here.after c } := by
        simp [take, takeChar, hr, hgap c List.mem_cons_self]
      rw [List.foldl_cons, htake, ih { r with here := r.here.after c } hr
        fun d hd => hgap d (by simp [hd])]
      rfl

/-- From one gap into the next row. -/
theorem foldl_take_between {closed : Bool} {gap own : List Char} {cells : List String}
    (hgap : ∀ c ∈ gap, endsRow c = true) (hown : IsRow closed own cells) (hne : own ≠ [])
    (p : Place) (rows : List Row) :
    (closed = true → ((gap ++ own).foldl take (between p rows)).within ≠ .quotes) ∧
      ((gap ++ own).foldl take (between p rows)).within ≠ .gap ∧
      ((gap ++ own).foldl take (between p rows)).endCell =
        ⟨.cellStart, p.afterAll (gap ++ own), p, [], cells.reverse, rows⟩ := by
  have hfold : gap.foldl take (between p rows) = ⟨.gap, p.afterAll gap, p, [], [], rows⟩ :=
    foldl_take_gap gap (between p rows) rfl hgap
  rw [List.foldl_append, hfold]
  obtain ⟨hquotes, hbehind, hend⟩ :=
    foldl_take_row hown ⟨.gap, p.afterAll gap, p, [], [], rows⟩ ⟨.inl rfl, rfl⟩
  refine ⟨hquotes, hbehind (.inl hne), ?_⟩
  rw [hend]
  simp

theorem endRow_of_endCell {r : Reader} {w : Within} {here began : Place} {cells : List String}
    {rows : List Row} (h : r.endCell = ⟨w, here, began, [], cells.reverse, rows⟩) (next : Place) :
    r.endRow next = ⟨.gap, here, next, [], [], ⟨began, cells⟩ :: rows⟩ := by
  simp [endRow, h]

/-- **The reader finds the rows of a layout.** -/
theorem finish_foldl_take {cs : List Char} {ss : List Standing} (h : Layout cs ss) :
    ∀ (p : Place) (rows : List Row),
      (cs.foldl take (between p rows)).finish = rows.reverse ++ placed p ss := by
  induction h with
  | gap hgap =>
      intro p rows
      rw [foldl_take_gap _ (between p rows) rfl hgap]
      simp [finish, between, placed]
  | last hgap hown hne =>
      intro p rows
      obtain ⟨-, hbehind, hend⟩ := foldl_take_between hgap hown hne p rows
      rw [finish]
      split
      · rename_i hw
        exact absurd hw hbehind
      · rw [endRow_of_endCell hend]
        simp [placed]
  | @cons gap own rest cells c ss hgap hown hne hc _ ih =>
      intro p rows
      obtain ⟨hquotes, hbehind, hend⟩ := foldl_take_between hgap hown hne p rows
      have hhere : ((gap ++ own).foldl take (between p rows)).here = p.afterAll (gap ++ own) :=
        congrArg Reader.here hend
      have hnext : ((gap ++ own).foldl take (between p rows)).take c =
          between (p.afterAll (gap ++ own ++ [c])) (⟨p, cells⟩ :: rows) := by
        rw [take, takeChar_end (hquotes rfl) hbehind hc, endRow_of_endCell hend, hhere]
        simp [between]
      rw [List.foldl_append, List.foldl_cons, hnext, ih]
      simp [placed, Standing.text]

end Reader

/-- **The rows of a text are those of its layout.** -/
theorem rowsFrom_of_layout {cs : List Char} {ss : List Standing} (h : Layout cs ss) (p : Place) :
    rowsFrom p cs = placed p ss :=
  Reader.finish_foldl_take h p []

/-! ### Every text has a layout -/

/-- A mark that is not written twice closes a quotation; otherwise it is not closed at all. -/
theorem exists_doubled : ∀ cs : List Char,
    (∃ inside rest, cs = doubled inside ++ '"' :: rest ∧ rest.head? ≠ some '"') ∨
      ∃ inside, cs = doubled inside
  | [] => .inr ⟨[], rfl⟩
  | [c] => by
      by_cases hc : c = '"'
      · exact .inl ⟨[], [], by rw [hc]; rfl, by simp⟩
      · exact .inr ⟨[c], by simp [doubled, hc]⟩
  | c :: d :: cs => by
      by_cases hc : c = '"'
      · by_cases hd : d = '"'
        · subst hc hd
          rcases exists_doubled cs with ⟨inside, rest, rfl, hrest⟩ | ⟨inside, rfl⟩
          · exact .inl ⟨'"' :: inside, rest, rfl, hrest⟩
          · exact .inr ⟨'"' :: inside, rfl⟩
        · exact .inl ⟨[], d :: cs, by rw [hc]; rfl, by simpa using hd⟩
      · rcases exists_doubled (d :: cs) with ⟨inside, rest, hrest, hfirst⟩ | ⟨inside, hinside⟩
        · exact .inl ⟨c :: inside, rest, by simp [doubled, hc, hrest], hfirst⟩
        · exact .inr ⟨c :: inside, by simp [doubled, hc, hinside]⟩

/-- A text begins with a cell that is closed where a tab or a line end stands, or it is one that is
not closed. -/
theorem exists_cell (cs : List Char) :
    (∃ own value rest, cs = own ++ rest ∧ IsCell true own value ∧ Text.Stops isBare rest) ∨
      ∃ value, IsCell false cs value := by
  by_cases hmark : cs.head? = some '"'
  · obtain ⟨cs, rfl⟩ := List.head?_eq_some_iff.mp hmark
    rcases exists_doubled cs with ⟨inside, behind, rfl, hfirst⟩ | ⟨inside, rfl⟩
    · obtain ⟨tail, rest, rfl, htail, hrest⟩ := Text.exists_run isBare behind
      refine .inl ⟨_, _, rest, ?_, .quoted inside htail ?_, hrest⟩
      · simp
      · intro h
        exact hfirst (by simp [List.head?_append, h])
    · exact .inr ⟨inside, .unclosed inside⟩
  · obtain ⟨own, rest, rfl, hown, hrest⟩ := Text.exists_run isBare cs
    refine .inl ⟨own, own, rest, rfl, .bare hown ?_, hrest⟩
    intro h
    exact hmark (by simp [List.head?_append, h])

/-- A text begins with a row that is closed where a line end stands, or it is one that is not
closed. -/
theorem exists_row : ∀ cs : List Char,
    (∃ own cells rest, cs = own ++ rest ∧ IsRow true own cells ∧
        ∀ c ∈ rest.head?, endsRow c = true) ∨
      ∃ cells, IsRow false cs cells := by
  intro cs
  induction hn : cs.length using Nat.strong_induction_on generalizing cs with
  | _ n ih =>
      rcases exists_cell cs with ⟨own, value, rest, rfl, hcell, hrest⟩ | ⟨value, hcell⟩
      · cases rest with
        | nil => exact .inl ⟨own, _, [], rfl, .last hcell, by simp⟩
        | cons c rest =>
            by_cases hend : endsRow c = true
            · exact .inl ⟨own, _, c :: rest, rfl, .last hcell, by simpa using hend⟩
            · obtain rfl : c = '\t' := by
                simpa [isBare, hend] using hrest
              rcases ih rest.length (by simp at hn; omega) rest rfl with
                ⟨own', cells, rest, rfl, hrow, hstop⟩ | ⟨cells, hrow⟩
              · exact .inl ⟨_, _, rest, by simp, .cons hcell hrow, hstop⟩
              · exact .inr ⟨_, .cons hcell hrow⟩
      · exact .inr ⟨_, .last hcell⟩

/-- **Every text has a layout.** -/
theorem exists_layout : ∀ cs : List Char, ∃ ss, Layout cs ss := by
  intro cs
  induction hn : cs.length using Nat.strong_induction_on generalizing cs with
  | _ n ih =>
      obtain ⟨gap, behind, rfl, hgap, hbehind⟩ := Text.exists_run endsRow cs
      by_cases hne : behind = []
      · exact ⟨[], by simpa [hne] using Layout.gap hgap⟩
      rcases exists_row behind with ⟨own, cells, rest, rfl, hrow, hstop⟩ | ⟨cells, hrow⟩
      · cases rest with
        | nil =>
            rw [List.append_nil] at hne ⊢
            exact ⟨_, .last hgap hrow hne⟩
        | cons c rest =>
            have hc : endsRow c = true := by simpa using hstop
            have hown : own ≠ [] := by
              rintro rfl
              rw [List.nil_append, Text.stops_cons, hc] at hbehind
              cases hbehind
            obtain ⟨ss, hss⟩ := ih rest.length (by simp at hn; omega) rest rfl
            exact ⟨_, by simpa using Layout.cons hgap hrow hown hc hss⟩
      · exact ⟨_, .last hgap hrow hne⟩

/-! ### Rows behind others -/

/-- A row is placed behind all rows in front of it. -/
theorem placed_eq_append {row : Row} {after : List Row} (ss : List Standing) :
    ∀ (p : Place) (before : List Row), placed p ss = before ++ row :: after →
      ∃ front s back, ss = front ++ s :: back ∧ placed p front = before ∧
        row = ⟨p.afterAll (Standing.texts front), s.cells⟩ := by
  induction ss with
  | nil =>
      intro p before h
      rw [placed] at h
      exact absurd h.symm (by simp)
  | cons s ss ih =>
      intro p before h
      rw [placed] at h
      cases before with
      | nil => exact ⟨[], s, ss, rfl, rfl, (List.cons.inj h).1.symm⟩
      | cons first before =>
          obtain ⟨rfl, hrest⟩ := List.cons.inj h
          obtain ⟨front, s', back, rfl, rfl, rfl⟩ := ih _ before hrest
          exact ⟨s :: front, s', back, rfl, rfl, by simp [Standing.texts]⟩

/-- What the rows tell is the same wherever they are placed. -/
theorem map_cells_placed (ss : List Standing) :
    ∀ p : Place, (placed p ss).map Row.cells = ss.map Standing.cells := by
  induction ss with
  | nil => intro p; rfl
  | cons s ss ih =>
      intro p
      simp [placed, ih]

theorem length_placed (ss : List Standing) (p : Place) : (placed p ss).length = ss.length := by
  simpa using congrArg List.length (map_cells_placed ss p)

/-- The rows are what the text begins with; only line ends can follow. -/
theorem Layout.texts_prefix {cs : List Char} {ss : List Standing} (h : Layout cs ss) :
    Standing.texts ss <+: cs := by
  induction h with
  | gap => exact List.nil_prefix
  | last => simp [Standing.texts, Standing.text]
  | @cons gap own rest cells c ss _ _ _ _ _ ih =>
      have htexts : Standing.texts (⟨gap, own ++ [c], cells⟩ :: ss) =
          (gap ++ own ++ [c]) ++ Standing.texts ss := by
        simp [Standing.texts, Standing.text]
      have hchars : gap ++ own ++ c :: rest = (gap ++ own ++ [c]) ++ rest := by simp
      rw [htexts, hchars]
      exact (List.prefix_append_right_inj _).mpr ih

/-! ### A byte order mark in front -/

/-- The characters of a text without a byte order mark in front. -/
def unmarked (text : String) : List Char :=
  match text.toList with
  | '\uFEFF' :: cs => cs
  | cs => cs

theorem exists_rows_eq (text : String) :
    ∃ byte, rows text = rowsFrom ⟨1, byte⟩ (unmarked text) := by
  unfold rows unmarked
  cases text.toList with
  | nil => exact ⟨0, rfl⟩
  | cons c cs =>
      by_cases hc : c = '\uFEFF'
      · subst hc
        exact ⟨3, rfl⟩
      · exact ⟨0, by simp [hc]⟩

/-- The rows of a text, placed as its layout says, begin on the first line. -/
theorem exists_rows_of_layout {text : String} {ss : List Standing}
    (h : Layout (unmarked text) ss) : ∃ byte, rows text = placed ⟨1, byte⟩ ss := by
  obtain ⟨byte, hrows⟩ := exists_rows_eq text
  exact ⟨byte, hrows.trans (rowsFrom_of_layout h _)⟩

end RollCall.Table
