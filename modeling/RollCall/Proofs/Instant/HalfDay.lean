/-
Instants in the pattern `M/D/YYYY, h:mm:ss AM` or `PM`.

The same date and time of day can be written in two ways, by the clock of half a day or by that
of the whole day, and a cell of a report may have either.  The clock of half a day shows twelve
where the other one shows zero or twelve, so the hour it shows is reduced before the half day is
added again.  Month, day and hour may be short here: whether they are padded or not, the mark
behind them ends them.

The patterns are tried one after the other, and a year of four digits decides for the second:
the first one takes two of its digits for a month and finds a digit where its mark should be.
-/
import RollCall.Proofs.Instant.Pattern

namespace RollCall.Text

/-- A text that neither begins nor ends with a blank has nothing trimmed off. -/
theorem trim_of_stops {cs : List Char} (hfirst : Stops isBlank cs)
    (hlast : Stops isBlank cs.reverse) : trim cs = cs := by
  rw [trim, dropBlanks, dropBlanks, dropWhile_of_stops hfirst, dropWhile_of_stops hlast,
    List.reverse_reverse]

end RollCall.Text

namespace RollCall.Instant

/-! ### The clock of half a day -/

/-- The hour that a clock of half a day shows. -/
def halfDayHour (hour : Nat) : Nat :=
  if hour % 12 = 0 then 12 else hour % 12

/-- A date with a year of four digits and a time of day, as the pattern of half days has them;
month, day and hour have at least as many digits as `least` says. -/
def halfDayText (least : Nat) (date : Date) (hour minute second : Nat) : List Char :=
  Text.padded least date.month ++ '/' :: Text.padded least date.day ++ '/' ::
    Text.padded 4 date.year.natAbs ++ ',' :: ' ' :: Text.padded least (halfDayHour hour) ++ ':' ::
    Text.padded 2 minute ++ ':' :: Text.padded 2 second ++ ' ' ::
    [if hour < 12 then 'A' else 'P', 'M']

theorem halfDayHour_bounds (hour : Nat) : 1 ≤ halfDayHour hour ∧ halfDayHour hour ≤ 12 := by
  unfold halfDayHour
  split <;> omega

theorem halfDayHour_mod (hour : Nat) : halfDayHour hour % 12 = hour % 12 := by
  unfold halfDayHour
  split <;> omega

/-- A number of up to two digits is read back in front of anything that is no digit. -/
theorem readBounded_two {least low high n : Nat} (hleast : least ≤ 2) (hlow : low ≤ n)
    (hhigh : n ≤ high) (hn : n < 10 ^ 2) {rest : List Char}
    (hrest : Text.Stops Char.isDigit rest) :
    readBounded 2 low high (Text.padded least n ++ rest) = some (n, rest) := by
  have hread : readNumber 2 (Text.padded least n ++ rest) =
      some (Text.ofDigits (Text.padded least n), rest) :=
    readNumber_append (Text.isDigit_padded least n) (Text.padded_ne_nil least n)
      (Text.length_padded_le hleast hn) (hrest.take _)
  rw [Text.ofDigits_padded] at hread
  simp [readBounded, hread, hlow, hhigh]

/-- The half day of an hour is read behind a space. -/
theorem readHalfDay_letters (hour : Nat) :
    readHalfDay (Text.dropBlanks [' ', if hour < 12 then 'A' else 'P', 'M']) =
      some (!decide (hour < 12), []) := by
  by_cases h : hour < 12
  · rw [if_pos h, decide_eq_true h]
    rfl
  · rw [if_neg h, decide_eq_false h]
    rfl

/-- The hour of the whole day, out of what the clock of half a day shows. -/
theorem hour_of_halfDay {hour : Nat} (h : hour ≤ 23) :
    (if (!decide (hour < 12)) = true then halfDayHour hour % 12 + 12 else halfDayHour hour % 12) =
      hour := by
  rw [halfDayHour_mod]
  by_cases hlate : hour < 12
  · rw [decide_eq_true hlate]
    exact Nat.mod_eq_of_lt hlate
  · rw [decide_eq_false hlate]
    show hour % 12 + 12 = hour
    omega

/-- **What is written by the clock of half a day is read back as the instant.** -/
theorem read?_halfDayText {t : Instant} {date : Date} {hour minute second : Nat}
    (h : t.Shows date hour minute second) {least : Nat} (hleast : least ≤ 2) :
    read? halfDayPattern (halfDayText least date hour minute second) = some t := by
  obtain ⟨hclock, hlow, hhigh⟩ := h
  obtain ⟨hvalid, hhour, hminute, hsecond, -⟩ := ofClock?_eq_some hclock
  obtain ⟨hmonth, hmonth', hday, hday'⟩ := valid_bounds hvalid
  obtain ⟨hshown, hshown'⟩ := halfDayHour_bounds hour
  have hyear : ((date.year.natAbs : Nat) : Int) = date.year := by omega
  have hmark : ∀ cs : List Char, Text.Stops Char.isDigit ('/' :: cs) :=
    fun cs => Text.stops_cons.mpr rfl
  simp only [read?, halfDayPattern, readParts, Part.read, halfDayText, List.append_assoc,
    List.cons_append]
  rw [readBounded_two hleast hmonth hmonth' (by omega) (hmark _)]
  simp only [Option.map_some, List.head?_cons, if_true, List.tail_cons]
  rw [readBounded_two hleast hday hday' (by omega) (hmark _)]
  simp only [Option.map_some, List.head?_cons, if_true, List.tail_cons]
  rw [readYear_padded (by omega)]
  simp only [Option.map_some, List.head?_cons, if_true, List.tail_cons]
  have hgap : ∀ cs : List Char,
      Text.dropBlanks (' ' :: (Text.padded least (halfDayHour hour) ++ cs)) =
        Text.padded least (halfDayHour hour) ++ cs := dropBlanks_padded least _
  rw [hgap, readBounded_two hleast hshown hshown' (by omega) (Text.stops_cons.mpr rfl)]
  simp only [Option.map_some, List.head?_cons, if_true, List.tail_cons]
  rw [readBounded_padded (Nat.zero_le minute) hminute (by omega)]
  simp only [Option.map_some, List.head?_cons, if_true, List.tail_cons]
  rw [readBounded_padded (Nat.zero_le second) hsecond (by omega)]
  simp only [Option.map_some, readHalfDay_letters, List.isEmpty_nil, if_true]
  simp only [Option.bind_some, Reading.instant?, hour_of_halfDay hhour, hyear]
  exact hclock

/-- Behind the month there has to be a mark. -/
theorem read?_halfDayPattern_of_head {cs rest : List Char} {n : Nat}
    (hread : readNumber 2 cs = some (n, rest)) (hrest : rest.head? ≠ some '/') :
    read? halfDayPattern cs = none := by
  cases hmonth : readBounded 2 1 12 cs with
  | none =>
      simp only [read?, halfDayPattern, readParts, Part.read, hmonth]
      rfl
  | some r =>
      have hbehind : r.2 = rest := by
        rw [readBounded, hread, Option.filter_eq_some_iff] at hmonth
        rw [← Option.some.inj hmonth.1]
      simp only [read?, halfDayPattern, readParts, Part.read, hmonth, Option.map_some, hbehind,
        hrest, if_false]
      rfl

/-- A text that begins with three digits is not written by the clock of half a day. -/
theorem read?_halfDayPattern_of_digits {ds : List Char} (hds : ∀ c ∈ ds, c.isDigit = true)
    (hlong : 2 < ds.length) (rest : List Char) : read? halfDayPattern (ds ++ rest) = none := by
  match ds with
  | a :: b :: c :: ds =>
      have hread : readNumber 2 ([a, b] ++ (c :: ds ++ rest)) =
          some (Text.ofDigits [a, b], c :: ds ++ rest) := by
        refine readNumber_append ?_ (by simp) (by simp) (by simp)
        intro d hd
        exact hds d (List.mem_append_left (c :: ds) hd)
      refine read?_halfDayPattern_of_head hread ?_
      have hmark : c ≠ '/' := Text.ne_of_class (hds c (by simp)) rfl
      simpa using hmark

/-! ### Cells of a report -/

theorem stops_isBlank_padded (width n : Nat) (rest : List Char) :
    Text.Stops Text.isBlank (Text.padded width n ++ rest) := by
  obtain ⟨c, cs, hpadded, hc⟩ := Text.padded_eq_cons width n
  rw [hpadded, List.cons_append, Text.stops_cons]
  exact isBlank_of_isDigit hc

theorem stops_isBlank_reverse_padded (cs : List Char) (width n : Nat) :
    Text.Stops Text.isBlank (cs ++ Text.padded width n).reverse := by
  rw [List.reverse_append]
  cases hlast : (Text.padded width n).reverse with
  | nil => exact absurd (List.reverse_eq_nil_iff.mp hlast) (Text.padded_ne_nil width n)
  | cons c ds =>
      have hmem : c ∈ Text.padded width n := by
        rw [← List.mem_reverse, hlast]
        exact List.mem_cons_self
      rw [List.cons_append, Text.stops_cons]
      exact isBlank_of_isDigit (Text.isDigit_padded width n c hmem)

theorem trim_clockText (date : Date) (hour minute second : Nat) :
    Text.trim (clockText date hour minute second) = clockText date hour minute second := by
  have hlast := stops_isBlank_reverse_padded (Text.padded 4 date.year.natAbs ++ '-' ::
    Text.padded 2 date.month ++ '-' :: Text.padded 2 date.day ++ ' ' :: Text.padded 2 hour ++
    ':' :: Text.padded 2 minute ++ [':']) 2 second
  refine Text.trim_of_stops ?_ ?_
  · simp only [clockText, List.append_assoc]
    exact stops_isBlank_padded 4 _ _
  · simpa [clockText] using hlast

theorem trim_halfDayText (least : Nat) (date : Date) (hour minute second : Nat) :
    Text.trim (halfDayText least date hour minute second) =
      halfDayText least date hour minute second := by
  refine Text.trim_of_stops ?_ ?_
  · simp only [halfDayText, List.append_assoc]
    exact stops_isBlank_padded least _ _
  · have hlast : Text.isBlank 'M' = false := rfl
    simp [halfDayText, hlast]

/-- **A cell may be written by either clock.** -/
theorem ofReport?_eq_some {t : Instant} {date : Date} {hour minute second : Nat}
    (h : t.Shows date hour minute second) :
    (∀ least ≤ 2, ofReport? (String.ofList (halfDayText least date hour minute second)) = some t) ∧
      ofReport? (String.ofList (clockText date hour minute second)) = some t := by
  constructor
  · intro least hleast
    rw [ofReport?, String.toList_ofList, trim_halfDayText, reportPatterns, List.findSome?_cons,
      read?_halfDayText h hleast]
  · have hyear : date.year.natAbs < 10 ^ 4 := by
      have := h.2
      omega
    have hnone : read? halfDayPattern (clockText date hour minute second) = none := by
      simp only [clockText, List.append_assoc]
      refine read?_halfDayPattern_of_digits (Text.isDigit_padded 4 _) ?_ _
      rw [Text.length_padded hyear]
      decide
    rw [ofReport?, String.toList_ofList, trim_clockText, reportPatterns, List.findSome?_cons, hnone,
      List.findSome?_cons, read?_clockText h]

end RollCall.Instant
