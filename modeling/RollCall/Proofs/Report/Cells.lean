/-
The times that the rows of a report may give.

A time is taken if its cell falls into the pieces of one of the two patterns, with the
blanks, the short numbers and the signs that these allow, and if the calendar has what they
name.  Of a row that has the three fields and a known action nothing else is asked, so such a
row is read or refused for its time, and the text of the cell alone decides.

The pieces are not only the usual ones: a year of two digits is a year of the first century.
-/
import RollCall.Attendance.Session
import RollCall.Proofs.Instant.Usual
import RollCall.Proofs.Report.Grouping

namespace RollCall

namespace Report

open Table
open Instant (Names Spelled Usual UsualPieces)

/-- A row with the three fields and a known action. -/
structure Acts (titles cells : List String) (action : Status) : Prop where
  fields : HasFields titles cells
  action : actionOf? (cellOf titles cells .action) = some action

variable {titles cells : List String} {action : Status}

/-- The row is read with the instant that its cell names. -/
theorem entryOf_of_spelled (h : Acts titles cells action) {t : Instant}
    (ht : Spelled (cellOf titles cells .time) t) :
    entryOf titles cells = .ok ⟨cellOf titles cells .name, action, t⟩ :=
  entryOf_eq_ok_iff.mpr ⟨h.fields, rfl, h.action, Instant.ofReport?_eq_some_iff.mpr ht⟩

/-- The row is refused for its time if its cell names none. -/
theorem entryOf_of_not_spelled (h : Acts titles cells action)
    (hnone : ∀ t, ¬ Spelled (cellOf titles cells .time) t) :
    entryOf titles cells = .error (.unknownTime (cellOf titles cells .time)) := by
  have htitles : titlesFault? titles = none := titlesFault?_eq_none_iff.mpr h.fields.once
  rw [entryOf, if_neg (not_not.mpr h.fields.length), htitles]
  simp only [h.action, Instant.ofReport?_eq_none_iff.mpr hnone]

theorem Readable.exists_spelled (h : Readable titles cells) :
    ∃ t, Spelled (cellOf titles cells .time) t := by
  obtain ⟨-, -, t, ht⟩ := h
  exact ⟨t, Instant.ofReport?_eq_some_iff.mp ht⟩

/-- Behind rows that can be read, a row with a known action is the error exactly if its cell names
no instant. -/
theorem entriesFrom_eq_error_iff {good rest : List Row} {bad : Row}
    (hgood : ∀ row ∈ good, Readable titles (trimmedCells row))
    (hbad : Acts titles (trimmedCells bad) action) (number : Nat) :
    entriesFrom titles number (good ++ bad :: rest) = .error ⟨good.length + number, bad.place,
        .unknownTime (cellOf titles (trimmedCells bad) .time)⟩ ↔
      ∀ t, ¬ Spelled (cellOf titles (trimmedCells bad) .time) t := by
  constructor
  · intro h t ht
    obtain ⟨good', bad', rest', hsplit, -, hfault, hnumber, -⟩ := exists_first_fault _ _ h
    have hlength : good.length = good'.length := by
      dsimp only at hnumber
      omega
    obtain ⟨-, hcons⟩ := List.append_inj hsplit hlength
    obtain ⟨rfl, -⟩ := List.cons.inj hcons
    rw [entryOf_of_spelled hbad ht] at hfault
    cases hfault
  · intro hnone
    rw [entriesFrom_first_fault (entryOf_of_not_spelled hbad hnone) rest good number hgood,
      Nat.add_comm]

/-- If a report is read, the times of all its rows are spelled as the patterns allow. -/
theorem spelled_of_attendees {text : String} {as : List Attendee} (h : attendees text = .ok as) :
    ∀ row ∈ (rows text).tail,
      ∃ t, Spelled (cellOf (titlesOf (rows text)) (trimmedCells row) .time) t := by
  intro row hrow
  obtain ⟨es, hes, -⟩ := Result.map_eq_ok.mp h
  rw [entriesOfRows_eq] at hes
  have hread := (exists_entriesFrom_eq_ok_iff _ _).mp ⟨es, hes⟩
  exact (hread row hrow).exists_spelled

/--
**Which times a report may give.**

Take a row with the three fields and a known action, behind rows that can be read.  It is
read with the instant that its cell names, and it is the error, with the cell, exactly if the
cell names none.  So every cell that is no usual text is refused, as it should be, exactly if
the pieces into which a cell falls that names an instant are the usual ones.
-/
theorem times_spelled {text : String} {good rest : List Row} {bad : Row} {action : Status}
    (htail : (rows text).tail = good ++ bad :: rest)
    (hgood : ∀ row ∈ good, Readable (titlesOf (rows text)) (trimmedCells row))
    (hbad : Acts (titlesOf (rows text)) (trimmedCells bad) action) :
    let cell := cellOf (titlesOf (rows text)) (trimmedCells bad) .time
    let refusal : ReportError := ⟨good.length + 1, bad.place, .unknownTime cell⟩
    (∀ t, Spelled cell t →
        ∃ e, entryOf (titlesOf (rows text)) (trimmedCells bad) = .ok e ∧ e.time = t) ∧
      (attendees text = .error refusal ↔ ∀ t, ¬ Spelled cell t) ∧
      ((¬ Usual (Text.trim cell.toList) → attendees text = .error refusal) ↔
        ∀ pattern ∈ Instant.reportPatterns, ∀ pieces t,
          pieces.flatten = Text.trim cell.toList → Names pattern pieces t →
          UsualPieces pattern pieces) := by
  intro cell refusal
  have hrefused : attendees text = .error refusal ↔ ∀ t, ¬ Spelled cell t := by
    rw [attendees, attendeesOfRows, Result.map_eq_error, entriesOfRows_eq, htail]
    exact entriesFrom_eq_error_iff hgood hbad 1
  refine ⟨fun t ht => ⟨_, entryOf_of_spelled hbad ht, rfl⟩, hrefused, ?_⟩
  rw [hrefused]
  constructor
  · intro h pattern hpattern pieces t hpieces hnames
    rw [← Instant.usual_iff hpattern hnames, hpieces]
    by_contra hunusual
    exact h hunusual t ⟨pattern, hpattern, pieces, hpieces, hnames⟩
  · rintro h hunusual t ⟨pattern, hpattern, pieces, hpieces, hnames⟩
    have husual := h pattern hpattern pieces t hpieces hnames
    rw [← Instant.usual_iff hpattern hnames, hpieces] at husual
    exact hunusual husual

/-- A word names no instant, and the row that has it is the error. -/
theorem times_spelled_word :
    let text := "Full Name\tUser Action\tTimestamp\nCarol\tJoined\tyesterday\n"
    attendees text = .error ⟨1, ⟨2, 32⟩, .unknownTime "yesterday"⟩ ∧
      ∀ t, ¬ Spelled "yesterday" t := by
  intro text
  have hentries : entriesOfRows (rows text) = .error ⟨1, ⟨2, 32⟩, .unknownTime "yesterday"⟩ := by
    decide +kernel
  have h : attendees text = .error ⟨1, ⟨2, 32⟩, .unknownTime "yesterday"⟩ :=
    Result.map_eq_error.mpr hentries
  let bad : Row := ⟨⟨2, 32⟩, ["Carol", "Joined", "yesterday"]⟩
  have htail : (rows text).tail = [] ++ bad :: [] := by decide +kernel
  have hcell : cellOf (titlesOf (rows text)) (trimmedCells bad) .time = "yesterday" := by
    decide +kernel
  have hacts : Acts (titlesOf (rows text)) (trimmedCells bad) .joined := by
    refine ⟨⟨by decide +kernel, ?_⟩, by decide +kernel⟩
    intro c
    cases c <;> decide +kernel
  obtain ⟨-, hrefused, -⟩ := times_spelled htail (List.forall_mem_nil _) hacts
  rw [hcell] at hrefused
  exact ⟨h, hrefused.mp h⟩

/-- **A year of two digits is taken**, and the attendee joins in the first century, though the
cell is no usual text. -/
theorem times_spelled_two_digit_year :
    let cell := "3/5/21, 9:58:31 AM"
    let text := "Full Name\tUser Action\tTimestamp\nAnn\tJoined\t" ++ cell ++ "\n"
    (∃ as, attendees text = .ok as ∧
        as.map (·.firstJoin.render) = ["0021-03-05 09:58:31"]) ∧
      ¬ Usual (Text.trim cell.toList) := by
  intro cell text
  constructor
  · let es : List Entry := [⟨"Ann", .joined, ⟨-61498965689, 0, by decide⟩⟩]
    have hes : entriesOfRows (rows text) = .ok es := by decide +kernel
    exact ⟨attendeesOf es, Result.map_eq_ok.mpr ⟨es, hes, rfl⟩, by decide +kernel⟩
  · intro h
    exact absurd h.le_length (by decide +kernel)

end Report

end RollCall
