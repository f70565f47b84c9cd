/-
Which rows of a report can be read, and what is wrong with the others.

A row has the three fields if it has as many cells as there are titles and each of the
three columns stands among the titles once.  It can be read if moreover its action is a
known one and its time names an instant; `Faulty` says what is wrong otherwise, and the
order of its rules is that in which the faults of one row are looked at.  Both are said
without running anything, and `entryOf` follows them.

The rows are read one by one, so the first that cannot be read decides, and nothing
behind it is looked at.
-/
import Mathlib.Data.List.Forall2
import RollCall.Proofs.Result
import RollCall.Table.Report

namespace RollCall

namespace Report

open Table

/-- A row has a cell for each title, and each of the three columns has one title. -/
structure HasFields (titles cells : List String) : Prop where
  length : cells.length = titles.length
  once : ∀ c : Column, titles.count c.title = 1

/-- The entry is what the row says. -/
structure Says (titles cells : List String) (e : Entry) : Prop where
  fields : HasFields titles cells
  name : e.name = cellOf titles cells .name
  action : actionOf? (cellOf titles cells .action) = some e.action
  time : Instant.ofReport? (cellOf titles cells .time) = some e.time

/-- The row has the three fields, a known action and a recognised time. -/
def Readable (titles cells : List String) : Prop :=
  HasFields titles cells ∧ (∃ s, actionOf? (cellOf titles cells .action) = some s) ∧
    ∃ t, Instant.ofReport? (cellOf titles cells .time) = some t

/--
What is wrong with a row.

The first two titles of one column are reported rather than any later ones, and of the
columns that are missing the one listed first.
-/
inductive Faulty (titles cells : List String) : RowFault → Prop
  | length (h : cells.length ≠ titles.length) :
      Faulty titles cells (.length cells.length titles.length)
  | duplicate {c : Column} {before after : List String}
      (hlen : cells.length = titles.length) (ht : titles = before ++ c.title :: after)
      (hc : c.title ∈ before) (hfirst : ∀ c' : Column, before.count c'.title ≤ 1) :
      Faulty titles cells (.duplicate c)
  | missing {c : Column} {before after : List Column}
      (hlen : cells.length = titles.length) (hcount : ∀ c' : Column, titles.count c'.title ≤ 1)
      (hall : Column.all = before ++ c :: after) (hc : c.title ∉ titles)
      (hfirst : ∀ c' ∈ before, c'.title ∈ titles) : Faulty titles cells (.missing c)
  | action (hf : HasFields titles cells) (h : actionOf? (cellOf titles cells .action) = none) :
      Faulty titles cells (.unknownAction (cellOf titles cells .action))
  | time {s : Status} (hf : HasFields titles cells)
      (ha : actionOf? (cellOf titles cells .action) = some s)
      (h : Instant.ofReport? (cellOf titles cells .time) = none) :
      Faulty titles cells (.unknownTime (cellOf titles cells .time))

/-! ### Titles -/

theorem ofTitle?_title (c : Column) : Column.ofTitle? c.title = some c := by
  cases c <;> decide

theorem title_of_ofTitle? {s : String} {c : Column} (h : Column.ofTitle? s = some c) :
    c.title = s := by
  simpa using List.find?_some h

theorem title_injective {c c' : Column} (h : c.title = c'.title) : c = c' := by
  have hc := ofTitle?_title c
  rw [h, ofTitle?_title c'] at hc
  exact (Option.some.inj hc).symm

theorem ofTitle?_eq_none {s : String} (h : Column.ofTitle? s = none) (c : Column) :
    c.title ≠ s := by
  rintro rfl
  rw [ofTitle?_title] at h
  cases h

/-- What `repeated?` finds, when the titles `before` have been seen and none of them twice. -/
theorem repeated?_eq_some {c : Column} :
    ∀ (titles before : List String) (seen : List Column),
      (∀ c', c' ∈ seen ↔ c'.title ∈ before) → (∀ c' : Column, before.count c'.title ≤ 1) →
      repeated? seen titles = some c →
      ∃ us after, titles = us ++ c.title :: after ∧ c.title ∈ before ++ us ∧
        ∀ c' : Column, (before ++ us).count c'.title ≤ 1 := by
  intro titles
  induction titles with
  | nil => intro before seen _ _ h; simp [repeated?] at h
  | cons s titles ih =>
      intro before seen hseen hcount h
      unfold repeated? at h
      cases hs : Column.ofTitle? s with
      | none =>
          simp only [hs] at h
          have hne := ofTitle?_eq_none hs
          obtain ⟨us, after, rfl, hmem, hus⟩ := ih (before ++ [s]) seen
            (fun c' => by simp [hseen, hne c'])
            (fun c' => by
              have hs : [s].count c'.title = 0 := List.count_eq_zero_of_not_mem (by simp [hne c'])
              rw [List.count_append, hs]
              exact hcount c') h
          exact ⟨s :: us, after, rfl, by simpa using hmem, by simpa using hus⟩
      | some d =>
          simp only [hs] at h
          obtain rfl := title_of_ofTitle? hs
          by_cases hd : d ∈ seen
          · rw [if_pos hd] at h
            obtain rfl := Option.some.inj h
            exact ⟨[], titles, rfl, by simpa using (hseen d).mp hd, by simpa using hcount⟩
          · rw [if_neg hd] at h
            have hnew : d.title ∉ before := fun hc => hd ((hseen d).mpr hc)
            obtain ⟨us, after, rfl, hmem, hus⟩ := ih (before ++ [d.title]) (d :: seen)
              (fun c' => by
                have hinj : c' = d ↔ c'.title = d.title := ⟨fun h => h ▸ rfl, title_injective⟩
                simp [hseen, hinj, or_comm])
              (fun c' => by
                by_cases hc : d.title = c'.title
                · rw [← hc, List.count_append, List.count_eq_zero_of_not_mem hnew]
                  simp
                · have hs : [d.title].count c'.title = 0 :=
                    List.count_eq_zero_of_not_mem (by simp [Ne.symm hc])
                  rw [List.count_append, hs]
                  exact hcount c') h
            exact ⟨d.title :: us, after, rfl, by simpa using hmem, by simpa using hus⟩

/-- Where `repeated?` finds nothing, no column has two titles. -/
theorem count_le_one_of_repeated? :
    ∀ (titles : List String) (seen : List Column), repeated? seen titles = none →
      ∀ c : Column, titles.count c.title ≤ if c ∈ seen then 0 else 1 := by
  intro titles
  induction titles with
  | nil => intro seen _ c; simp
  | cons s titles ih =>
      intro seen h c
      unfold repeated? at h
      cases hs : Column.ofTitle? s with
      | none =>
          simp only [hs] at h
          have hne : s ≠ c.title := (ofTitle?_eq_none hs c).symm
          simpa [List.count_cons, hne] using ih seen h c
      | some d =>
          simp only [hs] at h
          obtain rfl := title_of_ofTitle? hs
          by_cases hd : d ∈ seen
          · rw [if_pos hd] at h
            cases h
          · rw [if_neg hd] at h
            have hrest := ih (d :: seen) h c
            by_cases hc : c = d
            · subst hc
              simp only [List.mem_cons, true_or, if_true] at hrest
              simp [hd, Nat.le_zero.mp hrest]
            · have hne : ¬ d.title = c.title := fun he => hc (title_injective he).symm
              simpa [List.count_cons, hne, hc] using hrest

theorem titlesFault?_eq_none_iff {titles : List String} :
    titlesFault? titles = none ↔ ∀ c : Column, titles.count c.title = 1 := by
  unfold titlesFault?
  cases hrep : repeated? [] titles with
  | some c =>
      simp only [reduceCtorEq, false_iff, not_forall]
      obtain ⟨us, after, rfl, hmem, -⟩ := repeated?_eq_some titles [] [] (by simp) (by simp) hrep
      refine ⟨c, ?_⟩
      have : 0 < us.count c.title := List.count_pos_iff.mpr hmem
      rw [List.count_append, List.count_cons_self]
      omega
  | none =>
      have hle := count_le_one_of_repeated? titles [] hrep
      simp only [List.not_mem_nil, if_false] at hle
      simp only [Option.map_eq_none_iff, List.find?_eq_none, Bool.not_eq_true', Bool.not_eq_false,
        List.contains_iff_mem]
      constructor
      · intro h c
        have hpos : 0 < titles.count c.title :=
          List.count_pos_iff.mpr (h c (by cases c <;> simp [Column.all]))
        exact Nat.le_antisymm (hle c) hpos
      · intro h c _
        exact List.count_pos_iff.mp (by rw [h c]; exact Nat.one_pos)

theorem faulty_of_titlesFault? {titles cells : List String} {fault : RowFault}
    (hlen : cells.length = titles.length) (h : titlesFault? titles = some fault) :
    Faulty titles cells fault := by
  unfold titlesFault? at h
  cases hrep : repeated? [] titles with
  | some c =>
      rw [hrep] at h
      obtain rfl := Option.some.inj h
      obtain ⟨us, after, ht, hmem, hus⟩ := repeated?_eq_some titles [] [] (by simp) (by simp) hrep
      exact .duplicate hlen ht hmem hus
  | none =>
      rw [hrep] at h
      have hle := count_le_one_of_repeated? titles [] hrep
      simp only [List.not_mem_nil, if_false] at hle
      obtain ⟨c, hc, rfl⟩ := Option.map_eq_some_iff.mp h
      obtain ⟨hmiss, before, after, hall, hfirst⟩ := List.find?_eq_some_iff_append.mp hc
      exact .missing hlen hle hall (by simpa using hmiss) fun c' hc' => by simpa using hfirst c' hc'

/-! ### One row -/

/-- **A row is read exactly as it says.** -/
theorem entryOf_eq_ok_iff {titles cells : List String} {e : Entry} :
    entryOf titles cells = .ok e ↔ Says titles cells e := by
  unfold entryOf
  constructor
  · intro h
    by_cases hlen : cells.length = titles.length
    · rw [if_neg (not_not.mpr hlen)] at h
      cases htitles : titlesFault? titles with
      | some fault => rw [htitles] at h; cases h
      | none =>
          rw [htitles] at h
          dsimp only at h
          split at h
          · cases h
          · cases h
          · rename_i action time ha ht
            obtain rfl := Except.ok.inj h
            exact ⟨⟨hlen, titlesFault?_eq_none_iff.mp htitles⟩, rfl, ha, ht⟩
    · rw [if_pos hlen] at h
      cases h
  · rintro ⟨⟨hlen, honce⟩, hname, haction, htime⟩
    rw [if_neg (not_not.mpr hlen), titlesFault?_eq_none_iff.mpr honce]
    simp only [haction, htime, ← hname]

/-- A row that is not read has a fault. -/
theorem faulty_of_entryOf_eq_error {titles cells : List String} {fault : RowFault}
    (h : entryOf titles cells = .error fault) : Faulty titles cells fault := by
  unfold entryOf at h
  by_cases hlen : cells.length = titles.length
  · rw [if_neg (not_not.mpr hlen)] at h
    cases htitles : titlesFault? titles with
    | some fault' =>
        rw [htitles] at h
        obtain rfl := Except.error.inj h
        exact faulty_of_titlesFault? hlen htitles
    | none =>
        have hf : HasFields titles cells := ⟨hlen, titlesFault?_eq_none_iff.mp htitles⟩
        rw [htitles] at h
        dsimp only at h
        split at h
        · rename_i ha
          obtain rfl := Except.error.inj h
          exact .action hf ha
        · rename_i s ha ht
          obtain rfl := Except.error.inj h
          exact .time hf ha ht
        · cases h
  · rw [if_pos hlen] at h
    obtain rfl := Except.error.inj h
    exact .length hlen

theorem readable_iff {titles cells : List String} :
    Readable titles cells ↔ ∃ e, entryOf titles cells = .ok e := by
  constructor
  · rintro ⟨hf, ⟨s, hs⟩, t, ht⟩
    exact ⟨⟨_, s, t⟩, entryOf_eq_ok_iff.mpr ⟨hf, rfl, hs, ht⟩⟩
  · rintro ⟨e, he⟩
    obtain ⟨hf, -, hs, ht⟩ := entryOf_eq_ok_iff.mp he
    exact ⟨hf, ⟨_, hs⟩, _, ht⟩

/-! ### All rows -/

/-- The cells of a row without the blanks around them. -/
def trimmedCells (row : Row) : List String :=
  row.cells.map Text.trimmed

theorem entriesFrom_cons_of_error {titles : List String} {row : Row} {fault : RowFault}
    (h : entryOf titles (trimmedCells row) = .error fault) (number : Nat) (rows : List Row) :
    entriesFrom titles number (row :: rows) = .error ⟨number, row.place, fault⟩ := by
  rw [trimmedCells] at h
  rw [entriesFrom, h]

theorem entriesFrom_cons_of_ok {titles : List String} {row : Row} {e : Entry}
    (h : entryOf titles (trimmedCells row) = .ok e) (number : Nat) (rows : List Row) :
    entriesFrom titles number (row :: rows) =
      (entriesFrom titles (number + 1) rows).map (e :: ·) := by
  rw [trimmedCells] at h
  rw [entriesFrom, h]

/-- Rows that are all read are read one by one, in their order. -/
theorem entriesFrom_eq_ok_iff {titles : List String} :
    ∀ (rows : List Row) (number : Nat) (es : List Entry),
      entriesFrom titles number rows = .ok es ↔
        List.Forall₂ (fun row e => Says titles (trimmedCells row) e) rows es := by
  intro rows
  induction rows with
  | nil =>
      intro number es
      simp [entriesFrom, eq_comm]
  | cons row rows ih =>
      intro number es
      rw [List.forall₂_cons_left_iff]
      cases he : entryOf titles (trimmedCells row) with
      | error fault =>
          rw [entriesFrom_cons_of_error he]
          constructor
          · intro h; cases h
          · rintro ⟨e, rest, hsays, -, -⟩
            rw [entryOf_eq_ok_iff.mpr hsays] at he
            cases he
      | ok e =>
          rw [entriesFrom_cons_of_ok he, Result.map_eq_ok]
          constructor
          · rintro ⟨rest, hrest, rfl⟩
            exact ⟨e, rest, entryOf_eq_ok_iff.mp he, (ih _ _).mp hrest, rfl⟩
          · rintro ⟨e', rest, hsays, hrest, rfl⟩
            obtain rfl : e = e' := Except.ok.inj (he.symm.trans (entryOf_eq_ok_iff.mpr hsays))
            exact ⟨rest, (ih _ _).mpr hrest, rfl⟩

/-- The first row that cannot be read is the error, whatever follows it. -/
theorem entriesFrom_first_fault {titles : List String} {bad : Row} {fault : RowFault}
    (hbad : entryOf titles (trimmedCells bad) = .error fault) (rest : List Row) :
    ∀ (good : List Row) (number : Nat),
      (∀ row ∈ good, Readable titles (trimmedCells row)) →
      entriesFrom titles number (good ++ bad :: rest) =
        .error ⟨number + good.length, bad.place, fault⟩ := by
  intro good
  induction good with
  | nil =>
      intro number _
      exact entriesFrom_cons_of_error hbad number rest
  | cons row good ih =>
      intro number hgood
      obtain ⟨e, he⟩ := readable_iff.mp (hgood row (by simp))
      rw [List.cons_append, entriesFrom_cons_of_ok he,
        ih (number + 1) fun r hr => hgood r (by simp [hr])]
      simp [Except.map, Nat.add_assoc, Nat.add_comm 1]

/-- An error is that of a first row that cannot be read. -/
theorem exists_first_fault {titles : List String} {e : ReportError} :
    ∀ (rows : List Row) (number : Nat), entriesFrom titles number rows = .error e →
      ∃ good bad rest, rows = good ++ bad :: rest ∧
        (∀ row ∈ good, Readable titles (trimmedCells row)) ∧
        entryOf titles (trimmedCells bad) = .error e.fault ∧
        e.number = number + good.length ∧ e.place = bad.place := by
  intro rows
  induction rows with
  | nil => intro number h; cases h
  | cons row rows ih =>
      intro number h
      cases hrow : entryOf titles (trimmedCells row) with
      | error fault =>
          rw [entriesFrom_cons_of_error hrow] at h
          obtain rfl := Except.error.inj h
          exact ⟨[], row, rows, rfl, List.forall_mem_nil _, hrow, rfl, rfl⟩
      | ok entry =>
          rw [entriesFrom_cons_of_ok hrow] at h
          obtain ⟨good, bad, rest, rfl, hgood, hbad, hnumber, hplace⟩ :=
            ih _ (Result.map_eq_error.mp h)
          refine ⟨row :: good, bad, rest, rfl, ?_, hbad, ?_, hplace⟩
          · exact List.forall_mem_cons.mpr ⟨readable_iff.mpr ⟨entry, hrow⟩, hgood⟩
          · rw [hnumber, List.length_cons]
            omega

/-- Rows are all read exactly if each of them can be read. -/
theorem exists_entriesFrom_eq_ok_iff {titles : List String} :
    ∀ (rows : List Row) (number : Nat),
      (∃ es, entriesFrom titles number rows = .ok es) ↔
        ∀ row ∈ rows, Readable titles (trimmedCells row) := by
  intro rows
  induction rows with
  | nil => intro number; simp [entriesFrom]
  | cons row rows ih =>
      intro number
      rw [List.forall_mem_cons, ← ih (number + 1), readable_iff]
      cases he : entryOf titles (trimmedCells row) with
      | error fault => simp [entriesFrom_cons_of_error he]
      | ok e =>
          rw [entriesFrom_cons_of_ok he]
          cases entriesFrom titles (number + 1) rows <;> simp [Except.map]

end Report

end RollCall
