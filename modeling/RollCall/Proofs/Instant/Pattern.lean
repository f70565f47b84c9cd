/-
Instants in the pattern `YYYY-MM-DD HH:MM:SS`.

An instant that has been read names a date and a time of day that the calendar and the
clock have.  Its text shows these again, second 60 of a leap second included, and
numbers padded to their usual width are read back one by one, so the instant that is
read off the text is the same one.  The year has to have four digits for that, which
it has if it was read without a sign.
-/
import RollCall.Calendar.Lemmas
import RollCall.Instant.Pattern
import RollCall.Proofs.Text.Digits

namespace RollCall.Instant

/-! ### Numbers of their usual width -/

theorem isBlank_of_isDigit {c : Char} (h : c.isDigit = true) : Text.isBlank c = false := by
  have hbounds := Text.digit_bounds h
  simp only [Text.isBlank, Bool.or_eq_false_iff, Bool.and_eq_false_iff, decide_eq_false_iff_not,
    beq_eq_false_iff_ne]
  omega

theorem dropBlanks_of_isDigit {c : Char} (h : c.isDigit = true) (cs : List Char) :
    Text.dropBlanks (c :: cs) = c :: cs := by
  simp [Text.dropBlanks, isBlank_of_isDigit h]

theorem dropBlanks_padded (width n : Nat) (rest : List Char) :
    Text.dropBlanks (Text.padded width n ++ rest) = Text.padded width n ++ rest := by
  obtain ⟨c, cs, hpadded, hc⟩ := Text.padded_eq_cons width n
  rw [hpadded]
  exact dropBlanks_of_isDigit hc _

/-- A number is read as far as its digits go, if the width has room for them and, where there is
room for more, no digit follows. -/
theorem readNumber_append {width : Nat} {ds rest : List Char} (hds : ∀ c ∈ ds, c.isDigit = true)
    (hne : ds ≠ []) (hlength : ds.length ≤ width)
    (hrest : Text.Stops Char.isDigit (rest.take (width - ds.length))) :
    readNumber width (ds ++ rest) = some (Text.ofDigits ds, rest) := by
  have hblanks : Text.dropBlanks (ds ++ rest) = ds ++ rest := by
    cases ds with
    | nil => exact absurd rfl hne
    | cons c ds => exact dropBlanks_of_isDigit (hds c List.mem_cons_self) _
  have hdigits : ((ds ++ rest).take width).takeWhile Char.isDigit = ds := by
    rw [List.take_append, List.take_of_length_le hlength]
    exact Text.takeWhile_append_of_stops hds hrest
  simp [readNumber, hblanks, hdigits, hne]

/-- **A number of its usual width is read back**, whatever follows it. -/
theorem readNumber_padded {width n : Nat} [NeZero width] (h : n < 10 ^ width)
    (rest : List Char) : readNumber width (Text.padded width n ++ rest) = some (n, rest) := by
  have hlength := Text.length_padded h
  have hread : readNumber width (Text.padded width n ++ rest) =
      some (Text.ofDigits (Text.padded width n), rest) :=
    readNumber_append (Text.isDigit_padded width n) (Text.padded_ne_nil width n) hlength.le
      (by simp [hlength])
  rwa [Text.ofDigits_padded] at hread

theorem readBounded_padded {width low high n : Nat} [NeZero width] (hlow : low ≤ n)
    (hhigh : n ≤ high) (h : n < 10 ^ width) (rest : List Char) :
    readBounded width low high (Text.padded width n ++ rest) = some (n, rest) := by
  simp [readBounded, readNumber_padded h, hlow, hhigh]

/-- A year that begins with a digit has no sign. -/
theorem readYear_of_isDigit {c : Char} (h : c.isDigit = true) (cs : List Char) :
    readYear (c :: cs) =
      (readNumber 4 (c :: cs)).map fun (n, rest) => ((n : Int), rest) := by
  unfold readYear
  rw [dropBlanks_of_isDigit h]
  split
  · rename_i hc
    rw [(List.cons.inj hc).1] at h
    exact absurd h (by decide)
  · rename_i hc
    rw [(List.cons.inj hc).1] at h
    exact absurd h (by decide)
  · rfl

theorem readYear_padded {n : Nat} (h : n < 10 ^ 4) (rest : List Char) :
    readYear (Text.padded 4 n ++ rest) = some ((n : Int), rest) := by
  have hread := readNumber_padded h rest
  obtain ⟨c, cs, hpadded, hc⟩ := Text.padded_eq_cons 4 n
  rw [hpadded] at hread ⊢
  rw [List.cons_append, readYear_of_isDigit hc, ← List.cons_append, hread]
  rfl

/-! ### What an instant shows -/

/-- A date with a year of four digits and a time of day, as the pattern has them. -/
def clockText (date : Date) (hour minute second : Nat) : List Char :=
  Text.padded 4 date.year.natAbs ++ '-' :: Text.padded 2 date.month ++ '-' ::
    Text.padded 2 date.day ++ ' ' :: Text.padded 2 hour ++ ':' :: Text.padded 2 minute ++
    ':' :: Text.padded 2 second

/-- An instant at a time of day on a date of the calendar, in a year of four digits. -/
def Shows (t : Instant) (date : Date) (hour minute second : Nat) : Prop :=
  ofClock? date hour minute second = some t ∧ 0 ≤ date.year ∧ date.year ≤ 9999

theorem ofClock?_eq_some {date : Date} {hour minute second : Nat} {t : Instant}
    (h : ofClock? date hour minute second = some t) :
    date.Valid ∧ hour ≤ 23 ∧ minute ≤ 59 ∧ second ≤ 60 ∧
      t.seconds / day = date.dayNumber ∧
      t.timeOfDay = (hour * 3600 + minute * 60 + min second 59 : Nat) ∧
      t.nanos / 1000000000 = second - min second 59 := by
  unfold ofClock? at h
  split at h
  · rename_i hbounds
    simp only [Bool.and_eq_true, decide_eq_true_eq, Date.isValid_iff] at hbounds
    obtain ⟨⟨⟨⟨⟨hdate, -⟩, -⟩, hhour⟩, hminute⟩, hsecond⟩ := hbounds
    refine ⟨hdate, hhour, hminute, hsecond, ?_⟩
    simp only [timeOfDay, day] at h ⊢
    split at h
    all_goals
      obtain rfl := Option.some.inj h
      simp only
      omega
  · cases h

theorem date_of_ofClock? {date : Date} {hour minute second : Nat} {t : Instant}
    (h : ofClock? date hour minute second = some t) : t.date = date := by
  obtain ⟨hvalid, -, -, -, hday, -⟩ := ofClock?_eq_some h
  rw [Instant.date, hday, Date.ofDayNumber_dayNumber hvalid]

/-- There is an instant for every date and every time of day, that of a leap second included. -/
theorem exists_shows {date : Date} {hour minute second : Nat} (hvalid : date.Valid)
    (hlow : 0 ≤ date.year) (hhigh : date.year ≤ 9999) (hhour : hour ≤ 23) (hminute : minute ≤ 59)
    (hsecond : second ≤ 60) : ∃ t : Instant, t.Shows date hour minute second := by
  have hfirst : Date.firstYear ≤ date.year := by
    simp only [Date.firstYear]
    omega
  have hlast : date.year ≤ Date.lastYear := by
    simp only [Date.lastYear]
    omega
  have hclock : ∃ t, ofClock? date hour minute second = some t := by
    simp only [ofClock?, Date.isValid_iff.mpr hvalid, hfirst, hlast, hhour, hminute, hsecond,
      decide_true, Bool.and_self, if_true]
    split
    · exact ⟨_, rfl⟩
    · exact ⟨_, rfl⟩
  obtain ⟨t, ht⟩ := hclock
  exact ⟨t, ht, hlow, hhigh⟩

theorem valid_bounds {date : Date} (h : date.Valid) :
    1 ≤ date.month ∧ date.month ≤ 12 ∧ 1 ≤ date.day ∧ date.day ≤ 31 := by
  obtain ⟨hmonth, hday, length, hfound, hle⟩ := h
  have hlast : date.month - 1 < 12 := by
    have := (List.getElem?_eq_some_iff.mp hfound).1
    rwa [length_monthLengths] at this
  have hlength : length ≤ 31 := by
    have hmem := List.mem_of_getElem? hfound
    generalize isLeapYear date.year = leap at hmem
    cases leap <;> simp [monthLengths] at hmem <;> omega
  omega

/-- **An instant shows the date and the time of day that name it.** -/
theorem text_of_shows {t : Instant} {date : Date} {hour minute second : Nat}
    (h : t.Shows date hour minute second) : t.text = clockText date hour minute second := by
  obtain ⟨hclock, hlow, hhigh⟩ := h
  obtain ⟨-, -, hminute, hsecond, -, htime, hnanos⟩ := ofClock?_eq_some hclock
  have hdate := date_of_ofClock? hclock
  have hyear : yearText date.year = Text.padded 4 date.year.natAbs := by
    rw [yearText, if_neg (by omega), if_neg (by omega)]
  have hhours : (hour * 3600 + minute * 60 + min second 59) / 3600 = hour := by omega
  have hminutes : (hour * 3600 + minute * 60 + min second 59) % 3600 / 60 = minute := by omega
  have hseconds : (hour * 3600 + minute * 60 + min second 59) % 60 +
      t.nanos / 1000000000 = second := by omega
  simp only [text, hdate, hyear, htime, Int.toNat_natCast, hhours, hminutes, hseconds, clockText]

/-- **What an instant shows is read back as that instant.** -/
theorem read?_clockText {t : Instant} {date : Date} {hour minute second : Nat}
    (h : t.Shows date hour minute second) :
    read? wholeDayPattern (clockText date hour minute second) = some t := by
  obtain ⟨hclock, hlow, hhigh⟩ := h
  obtain ⟨hvalid, hhour, hminute, hsecond, -⟩ := ofClock?_eq_some hclock
  obtain ⟨hmonth, hmonth', hday, hday'⟩ := valid_bounds hvalid
  have hyear : ((date.year.natAbs : Nat) : Int) = date.year := by omega
  have hlast := readBounded_padded (Nat.zero_le second) hsecond
    (by omega : second < 10 ^ 2) []
  rw [List.append_nil] at hlast
  simp only [read?, wholeDayPattern, readParts, Part.read, clockText, List.append_assoc,
    List.cons_append]
  rw [readYear_padded (by omega)]
  simp only [Option.map_some, List.head?_cons, if_true, List.tail_cons]
  rw [readBounded_padded hmonth hmonth' (by omega)]
  simp only [Option.map_some, List.head?_cons, if_true, List.tail_cons]
  rw [readBounded_padded hday hday' (by omega)]
  simp only [Option.map_some]
  have hgap : Text.dropBlanks (' ' :: (Text.padded 2 hour ++ ':' :: (Text.padded 2 minute ++
      ':' :: Text.padded 2 second))) = Text.padded 2 hour ++ ':' :: (Text.padded 2 minute ++
      ':' :: Text.padded 2 second) := dropBlanks_padded 2 hour _
  rw [hgap, readBounded_padded (Nat.zero_le hour) hhour (by omega)]
  simp only [Option.map_some, List.head?_cons, if_true, List.tail_cons]
  rw [readBounded_padded (Nat.zero_le minute) hminute (by omega)]
  simp only [Option.map_some, List.head?_cons, if_true, List.tail_cons]
  rw [hlast]
  simp [Reading.instant?, hyear, hclock]

/-! ### Instants that have been read -/

/-- Parts other than the year leave it as it is. -/
theorem year_read {part : Part} {r s : Reading} {cs rest : List Char} (hpart : part ≠ .year)
    (h : part.read r cs = some (s, rest)) : s.year = r.year := by
  cases part with
  | year => exact absurd rfl hpart
  | mark c =>
      simp only [Part.read] at h
      split at h
      · obtain ⟨rfl, -⟩ := Prod.mk.inj (Option.some.inj h)
        rfl
      · cases h
  | gap =>
      obtain ⟨rfl, -⟩ := Prod.mk.inj (Option.some.inj h)
      rfl
  | _ =>
      simp only [Part.read, Option.map_eq_some_iff] at h
      obtain ⟨_, -, h⟩ := h
      obtain ⟨rfl, -⟩ := Prod.mk.inj h
      rfl

theorem year_readParts {parts : List Part} (hparts : Part.year ∉ parts) :
    ∀ {r s : Reading} {cs : List Char}, readParts parts r cs = some s → s.year = r.year := by
  induction parts with
  | nil =>
      intro r s cs h
      simp only [readParts] at h
      split at h
      · obtain rfl := Option.some.inj h
        rfl
      · cases h
  | cons part parts ih =>
      intro r s cs h
      simp only [List.mem_cons, not_or] at hparts
      simp only [readParts] at h
      split at h
      · cases h
      · rename_i r' rest hread
        rw [ih hparts.2 h, year_read (Ne.symm hparts.1) hread]

theorem readNumber_lt {width n : Nat} {cs rest : List Char}
    (h : readNumber width cs = some (n, rest)) : n < 10 ^ width := by
  simp only [readNumber] at h
  split at h
  · cases h
  · obtain ⟨rfl, -⟩ := Prod.mk.inj (Option.some.inj h)
    refine lt_of_lt_of_le (Text.ofDigits_lt fun c hc => ?_) (Nat.pow_le_pow_right (by decide) ?_)
    · exact List.all_eq_true.mp List.all_takeWhile c hc
    · exact le_trans (List.takeWhile_prefix _).length_le (List.length_take_le _ _)

/-- **An instant that is read behind a digit shows a date and a time of day.** -/
theorem shows_of_read? {c : Char} {cs : List Char} {t : Instant} (hc : c.isDigit = true)
    (h : read? wholeDayPattern (c :: cs) = some t) :
    ∃ date hour minute second, t.Shows date hour minute second := by
  simp only [read?, wholeDayPattern, Option.bind_eq_some_iff] at h
  obtain ⟨r, hparts, hinstant⟩ := h
  simp only [readParts, Part.read, readYear_of_isDigit hc] at hparts
  cases hnumber : readNumber 4 (c :: cs) with
  | none => simp [hnumber] at hparts
  | some year =>
      obtain ⟨n, rest⟩ := year
      have hlt := readNumber_lt hnumber
      simp only [hnumber, Option.map_some] at hparts
      have hlater : Part.year ∉ wholeDayPattern.tail := by decide
      have hyear : r.year = n := year_readParts hlater hparts
      exact ⟨_, _, _, _, hinstant, by simp only; omega, by simp only; omega⟩

end RollCall.Instant
