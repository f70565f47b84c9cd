/-
Times that are told, shown and asked for.

An instant comes into a report through a cell, which is written by the clock of half a day or of
the whole day, and it leaves through a line, which shows the clock of the whole day.  What a
line shows is what a query takes for an instant between brackets.  So who shares a time with an
attendee can be asked for with the words of the report itself.

All four ways go through `Instant.Shows`: an instant that shows a date and a time of day in a
year of four digits is read off either of the texts, and writes the second of them.
-/
import RollCall.Proofs.Instant.HalfDay
import RollCall.Proofs.Operator
import RollCall.Proofs.Query.Cursor
import RollCall.Proofs.Query.RoundTrip
import RollCall.Proofs.Report.Stays
import RollCall.Template

namespace RollCall

namespace Query

/-! ### Asking for an instant -/

theorem byteLength_clockText {t : Instant} {date : Date} {hour minute second : Nat}
    (h : t.Shows date hour minute second) :
    Text.byteLength (Instant.clockText date hour minute second) = 19 := by
  obtain ⟨hfits, hlength⟩ := Token.fits_clockText h []
  rw [List.append_nil] at hfits
  have hbytes := Token.byteLength_of_fits Token.utf8Size_instantShape hfits
  rwa [List.take_of_length_le hlength.le] at hbytes

/-- An instant between brackets, and what is found there. -/
theorem symbols?_instant_bracketed {t : Instant} {date : Date} {hour minute second : Nat}
    (h : t.Shows date hour minute second) :
    symbols? ('(' :: t.text ++ [')']) = some [.opening, .literal (.instant t), .closing] := by
  rw [List.cons_append, symbols?_opening, Token.symbols?_instant h, symbols?_closing]
  rfl

/-- The query that compares a field with an instant. -/
def instantQuery (f : Field) (t : Instant) : String :=
  f.keyword ++ " == (" ++ t.render ++ ")"

theorem toList_instantQuery (f : Field) (t : Instant) :
    (instantQuery f t).toList =
      f.keyword.toList ++ ' ' :: (Operator.eq.symbol.toList ++ ' ' :: ('(' :: t.text ++ [')'])) := by
  simp [instantQuery, Instant.render, Operator.symbol]

theorem byteLength_instantQuery (f : Field) {t : Instant} {date : Date} {hour minute second : Nat}
    (h : t.Shows date hour minute second) :
    Text.byteLength (instantQuery f t).toList = Text.byteLength f.keyword.toList + 25 := by
  have hclock := byteLength_clockText h
  rw [← Instant.text_of_shows h] at hclock
  rw [toList_instantQuery, Text.byteLength_append, Text.byteLength_cons, Text.byteLength_append,
    Text.byteLength_cons, List.cons_append, Text.byteLength_cons, Text.byteLength_append, hclock]
  rfl

/-- **A query for an instant is read as one.** -/
theorem ofText_instantQuery (f : Field) {t : Instant} {date : Date} {hour minute second : Nat}
    (h : t.Shows date hour minute second) :
    Expr.ofText (instantQuery f t) = .ok (.compare .eq (.field f) (.literal (.instant t))) := by
  have hshort : Text.byteLength (instantQuery f t).toList ≤ longestQuery := by
    have hkeyword : Text.byteLength f.keyword.toList ≤ 12 := by
      cases f <;> decide
    rw [byteLength_instantQuery f h, longestQuery]
    omega
  have hquoted : ¬ Misquoted (.field f) (.literal (.instant t)) := by
    simp [Misquoted, Operand.SpellsStatus]
  exact ofText_compare (toList_instantQuery f t) hshort (symbols?_instant_bracketed h)
    (.instant t) hquoted

/-- The predicate of such a query accepts exactly those who have the instant in the field. -/
theorem predicate_instantQuery {f : Field} {t : Instant} {a : Attendee}
    (ha : f.read a = .instant t) {date : Date} {hour minute second : Nat}
    (h : t.Shows date hour minute second) :
    ∃ p, Predicate.ofText (instantQuery f t) = .ok p ∧
      ∀ b, p b = .ok (decide (f.read b = f.read a)) := by
  refine ⟨_, predicate_ofText (ofText_instantQuery f h), fun b => ?_⟩
  -- A field holds values of one kind for everybody.
  have hkind : (f.read b).kind = .instant := by
    rw [Field.kind_read, ← Field.kind_read f a, ha]
    rfl
  obtain ⟨u, hu⟩ := Value.exists_instant_of_kind hkind
  show Operator.eq.apply (f.read b) (.instant t) = .ok (decide (f.read b = f.read a))
  rw [hu, ha]
  simp only [Operator.apply, Operator.holds?, Value.equal?, Value.instant.injEq]
  rfl

end Query

namespace Report

open Table

/-! ### A date and a time of day, read and written -/

/-- The ways to read and to write a date and a time of day agree on an instant. -/
structure Agrees (date : Date) (hour minute second : Nat) (t : Instant) : Prop where
  /-- A row that gives the time by the clock of half a day tells the instant. -/
  halfDay : ∀ least ≤ 2, ∀ titles cells s, HasFields titles cells →
    actionOf? (cellOf titles cells .action) = some s →
    cellOf titles cells .time = String.ofList (Instant.halfDayText least date hour minute second) →
    entryOf titles cells = .ok ⟨cellOf titles cells .name, s, t⟩
  /-- So does a row that gives it by the clock of the whole day. -/
  wholeDay : ∀ titles cells s, HasFields titles cells →
    actionOf? (cellOf titles cells .action) = some s →
    cellOf titles cells .time = String.ofList (Instant.clockText date hour minute second) →
    entryOf titles cells = .ok ⟨cellOf titles cells .name, s, t⟩
  /-- A line that shows a field with the instant shows it by the clock of the whole day. -/
  shown : ∀ f : Field, ∃ line, Template.ofText ("\x7b" ++ f.keyword ++ "\x7d") = .ok line ∧
    ∀ a, f.read a = .instant t →
      line.render a = String.ofList (Instant.clockText date hour minute second)
  /-- A query takes what is shown, between brackets, for the instant. -/
  scanned : ∃ ts,
    Query.Tokens.ofText
      ("(" ++ String.ofList (Instant.clockText date hour minute second) ++ ")") = .ok ts ∧
      ts.symbols = [.opening, .literal (.instant t), .closing]

theorem entryOf_of_time {titles cells : List String} {s : Status} {t : Instant}
    (hfields : HasFields titles cells) (haction : actionOf? (cellOf titles cells .action) = some s)
    (htime : Instant.ofReport? (cellOf titles cells .time) = some t) :
    entryOf titles cells = .ok ⟨cellOf titles cells .name, s, t⟩ :=
  entryOf_eq_ok_iff.mpr ⟨hfields, rfl, haction, htime⟩

theorem agrees_of_shows {t : Instant} {date : Date} {hour minute second : Nat}
    (h : t.Shows date hour minute second) : Agrees date hour minute second t := by
  obtain ⟨hhalf, hwhole⟩ := Instant.ofReport?_eq_some h
  refine ⟨?_, ?_, ?_, ?_⟩
  · intro least hleast titles cells s hfields haction htime
    exact entryOf_of_time hfields haction (htime ▸ hhalf least hleast)
  · intro titles cells s hfields haction htime
    exact entryOf_of_time hfields haction (htime ▸ hwhole)
  · intro f
    refine ⟨_, Template.ofText_field f, fun a ha => ?_⟩
    rw [Template.render_field, ha, ← Instant.text_of_shows h]
    rfl
  · have htext : ("(" ++ String.ofList (Instant.clockText date hour minute second) ++ ")").toList =
        '(' :: t.text ++ [')'] := by
      simp [Instant.text_of_shows h]
    have hsymbols := Query.symbols?_instant_bracketed h
    rw [← htext] at hsymbols
    exact Query.symbols?_eq_some_iff.mp hsymbols

/-! ### The times of a report -/

/-- What a report tells in a year of four digits shows a date and a time of day. -/
theorem Told.shows {rows : List Row} {e : Entry} (h : Told rows e) (hlow : 0 ≤ e.time.date.year)
    (hhigh : e.time.date.year ≤ 9999) :
    ∃ date hour minute second, e.time.Shows date hour minute second := by
  obtain ⟨row, -, hsays⟩ := h
  obtain ⟨date, hour, minute, second, hclock⟩ := Instant.exists_clock_of_ofReport? hsays.time
  rw [Instant.date_of_ofClock? hclock] at hlow hhigh
  exact ⟨date, hour, minute, second, hclock, hlow, hhigh⟩

/-- The first join and the last departure of an attendee show a date and a time of day, if all
times of the report do. -/
theorem Grouped.shows {es : List Entry} {as : List Attendee} {a : Attendee} (h : Grouped es as)
    (ha : a ∈ as)
    (hes : ∀ e ∈ es, ∃ date hour minute second, e.time.Shows date hour minute second) {f : Field}
    (hf : f = .firstJoin ∨ f = .lastLeft) :
    ∃ t, f.read a = .instant t ∧ ∃ date hour minute second, t.Shows date hour minute second := by
  let P : Instant → Prop := fun t => ∃ date hour minute second, t.Shows date hour minute second
  rcases hf with rfl | rfl
  · exact ⟨_, rfl, h.firstJoin_time P ha hes⟩
  · exact ⟨_, rfl, h.lastLeft_time P ha hes⟩

/--
**The times of a report can be asked for as they are shown.**

For every date of the years 0 to 9999 and every time of day, that of a leap second included,
there is one instant that rows tell which give it by either clock, that lines show by the clock
of the whole day, and that queries find in this text between brackets.  So if all times of a
report are of these years, the query that compares the first join or the last departure with
what is shown of an attendee's accepts exactly those who have the same.
-/
theorem times_agree :
    (∀ (date : Date) (hour minute second : Nat), date.Valid → 0 ≤ date.year → date.year ≤ 9999 →
      hour ≤ 23 → minute ≤ 59 → second ≤ 60 → ∃ t, Agrees date hour minute second t) ∧
    ∀ text as, attendees text = .ok as →
      (∀ e, Told (rows text) e → 0 ≤ e.time.date.year ∧ e.time.date.year ≤ 9999) →
      ∀ a ∈ as, ∀ f : Field, f = .firstJoin ∨ f = .lastLeft →
        ∃ line p, Template.ofText ("\x7b" ++ f.keyword ++ "\x7d") = .ok line ∧
          Query.Predicate.ofText (f.keyword ++ " == (" ++ line.render a ++ ")") = .ok p ∧
          ∀ b, p b = .ok (decide (f.read b = f.read a)) := by
  constructor
  · intro date hour minute second hvalid hlow hhigh hhour hminute hsecond
    obtain ⟨t, ht⟩ := Instant.exists_shows hvalid hlow hhigh hhour hminute hsecond
    exact ⟨t, agrees_of_shows ht⟩
  · intro text as h hyears a ha f hf
    obtain ⟨es, htold, hgroup⟩ := exists_grouped h
    have hes : ∀ e ∈ es, ∃ date hour minute second, e.time.Shows date hour minute second := by
      intro e he
      have hold := (htold e).mpr he
      obtain ⟨hlow, hhigh⟩ := hyears e hold
      exact hold.shows hlow hhigh
    obtain ⟨t, ht, date, hour, minute, second, hshows⟩ := hgroup.shows ha hes hf
    obtain ⟨p, hp, haccepts⟩ := Query.predicate_instantQuery ht hshows
    refine ⟨_, p, Template.ofText_field f, ?_, haccepts⟩
    rw [Template.render_field, ht]
    exact hp

/-- Twelve at night on a leap day; and two who join in one leap second, which the report gives by
either clock. -/
theorem times_agree_leap :
    let text := "Full Name\tUser Action\tTimestamp\n" ++
      "Ann\tJoined\t12/31/2016, 11:59:60 PM\n" ++ "Bob\tJoined\t2016-12-31 23:59:60\n"
    (∃ t, Agrees ⟨2000, 2, 29⟩ 0 0 0 t) ∧
      ∃ as p, attendees text = .ok as ∧ as.map Attendee.name = ["Ann", "Bob"] ∧
        Query.Predicate.ofText "first_join == (2016-12-31 23:59:60)" = .ok p ∧
        ∀ b ∈ as, p b = .ok true := by
  intro text
  obtain ⟨hagree, hasked⟩ := times_agree
  refine ⟨hagree ⟨2000, 2, 29⟩ 0 0 0 (by decide) (by decide) (by decide) (by decide) (by decide)
    (by decide), ?_⟩
  let t : Instant := ⟨1483228799, 1000000000, by decide⟩
  let es : List Entry := [⟨"Ann", .joined, t⟩, ⟨"Bob", .joined, t⟩]
  have hes : entriesOfRows (rows text) = .ok es := by decide +kernel
  have has : attendees text = .ok (attendeesOf es) := by
    rw [attendees, attendeesOfRows, hes]
    rfl
  have hyears : ∀ e ∈ es, 0 ≤ e.time.date.year ∧ e.time.date.year ≤ 9999 := by decide +kernel
  have hann : attendeeOf es t "Ann" ∈ attendeesOf es := by decide
  obtain ⟨line, p, hline, hp, haccepts⟩ := hasked text _ has
    (fun e he => hyears e ((told_iff_mem hes e).mp he)) _ hann .firstJoin (.inl rfl)
  obtain rfl := Except.ok.inj ((Template.ofText_field .firstJoin).symm.trans hline)
  have hshown : Field.keyword .firstJoin ++ " == (" ++
      Template.render ⟨[.field .firstJoin]⟩ (attendeeOf es t "Ann") ++ ")" =
        "first_join == (2016-12-31 23:59:60)" := by
    decide +kernel
  rw [hshown] at hp
  have hsame : ∀ b ∈ attendeesOf es,
      Field.read .firstJoin b = Field.read .firstJoin (attendeeOf es t "Ann") := by
    decide +kernel
  refine ⟨_, p, has, by decide, hp, fun b hb => ?_⟩
  rw [haccepts, decide_eq_true (hsame b hb)]

end Report

end RollCall
