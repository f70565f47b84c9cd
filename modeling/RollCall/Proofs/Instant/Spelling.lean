/-
What texts a pattern takes for an instant.

A reading takes a text apart into one piece for each part of the pattern.  What a piece may
be is said here of the characters in it and of the one behind it: digits, up to the width or
to where no digit follows, with any blanks in front; for a year also a sign with any number
of digits; for a gap any blanks, or none.  A part is read exactly as one of its pieces, so a
text is read exactly if it falls into such pieces, and then it names what they say.

A text follows one of the two patterns of a report at most, since the first number ends at
a slash in one and at a hyphen in the other.
-/
import RollCall.Proofs.Instant.HalfDay

namespace RollCall.Instant

open Text (Stops)

/-- A number of at most `width` digits in front of `rest`, behind any blanks; if it is shorter, no
digit follows. -/
inductive IsNumber (width : Nat) (rest : List Char) : (piece : List Char) → (n : Nat) → Prop
  | mk {blanks ds : List Char} (hblanks : ∀ c ∈ blanks, Text.isBlank c = true)
      (hds : ∀ c ∈ ds, c.isDigit = true) (hne : ds ≠ []) (hlength : ds.length ≤ width)
      (hstop : ds.length = width ∨ Stops Char.isDigit rest) :
      IsNumber width rest (blanks ++ ds) (Text.ofDigits ds)

/-- A year in front of `rest`: up to four digits, or a sign and all digits behind it. -/
inductive IsYear (rest : List Char) : (piece : List Char) → (year : Int) → Prop
  | plain {piece : List Char} {n : Nat} (h : IsNumber 4 rest piece n) : IsYear rest piece n
  | signed {blanks ds : List Char} {sign : Char} (hblanks : ∀ c ∈ blanks, Text.isBlank c = true)
      (hsign : sign = '-' ∨ sign = '+') (hds : ∀ c ∈ ds, c.isDigit = true) (hne : ds ≠ [])
      (hstop : Stops Char.isDigit rest) :
      IsYear rest (blanks ++ sign :: ds)
        (if sign = '-' then -(Text.ofDigits ds : Int) else Text.ofDigits ds)

namespace Part

/-- The bounds of a number of up to two digits. -/
def bounds? : Part → Option (Nat × Nat)
  | .month => some (1, 12)
  | .day => some (1, 31)
  | .hour => some (0, 23)
  | .halfDayHour => some (1, 12)
  | .minute => some (0, 59)
  | .second => some (0, 60)
  | .mark _ | .gap | .year | .halfDay => none

/-- What a number of up to two digits says. -/
def told (r : Reading) (n : Nat) : Part → Reading
  | .month => { r with month := n }
  | .day => { r with day := n }
  | .hour => { r with hour := n }
  | .halfDayHour => { r with hour := n % 12 }
  | .minute => { r with minute := n }
  | .second => { r with second := n }
  | .mark _ | .gap | .year | .halfDay => r

/-- A piece of a text in front of `rest`, what part it is and what the reading makes of it. -/
inductive Takes (r : Reading) (rest : List Char) : Part → (piece : List Char) → Reading → Prop
  | mark (c : Char) : Takes r rest (.mark c) [c] r
  | gap {blanks : List Char} (hblanks : ∀ c ∈ blanks, Text.isBlank c = true)
      (hstop : Stops Text.isBlank rest) : Takes r rest .gap blanks r
  | year {piece : List Char} {year : Int} (h : IsYear rest piece year) :
      Takes r rest .year piece { r with year := year }
  | number {part : Part} {low high n : Nat} {piece : List Char}
      (hbounds : part.bounds? = some (low, high)) (h : IsNumber 2 rest piece n) (hlow : low ≤ n)
      (hhigh : n ≤ high) : Takes r rest part piece (part.told r n)
  | halfDay {c m : Char} (late : Bool) (hc : c.toUpper = if late then 'P' else 'A')
      (hm : m.toUpper = 'M') : Takes r rest .halfDay [c, m] { r with afternoon := late }

end Part

/-- Pieces of a text, one for each part, and the reading that they lead to. -/
inductive Follows : List Part → Reading → (pieces : List (List Char)) → Reading → Prop
  | nil (r : Reading) : Follows [] r [] r
  | cons {part : Part} {parts : List Part} {r r' r'' : Reading} {piece : List Char}
      {rest : List (List Char)} (h : part.Takes r rest.flatten piece r')
      (hrest : Follows parts r' rest r'') : Follows (part :: parts) r (piece :: rest) r''

/-- Pieces that follow a pattern and name an instant of the calendar. -/
def Names (pattern : List Part) (pieces : List (List Char)) (t : Instant) : Prop :=
  ∃ r, Follows pattern {} pieces r ∧ r.instant? = some t

/-- A cell of a report falls into pieces that name an instant, without the blanks around it. -/
def Spelled (cell : String) (t : Instant) : Prop :=
  ∃ pattern ∈ reportPatterns, ∃ pieces, pieces.flatten = Text.trim cell.toList ∧
    Names pattern pieces t

/-! ### Numbers -/

theorem dropBlanks_append {blanks : List Char} (hblanks : ∀ c ∈ blanks, Text.isBlank c = true)
    (cs : List Char) : Text.dropBlanks (blanks ++ cs) = Text.dropBlanks cs :=
  List.dropWhile_append_of_pos hblanks

theorem readNumber_eq_some_iff {width n : Nat} {cs rest : List Char} :
    readNumber width cs = some (n, rest) ↔
      ∃ piece, cs = piece ++ rest ∧ IsNumber width rest piece n := by
  constructor
  · intro h
    obtain ⟨blanks, behind, rfl, hblanks, hfirst⟩ := Text.exists_run Text.isBlank cs
    rw [readNumber, dropBlanks_append hblanks, Text.dropBlanks, Text.dropWhile_of_stops hfirst] at h
    obtain ⟨ds, more, htake, hds, hmore⟩ := Text.exists_run Char.isDigit (behind.take width)
    have hbehind : behind = ds ++ (more ++ behind.drop width) := by
      rw [← List.append_assoc, ← htake, List.take_append_drop]
    simp only [htake, Text.takeWhile_append_of_stops hds hmore] at h
    split at h
    · cases h
    · rename_i hne
      obtain ⟨rfl, hrest⟩ := Prod.mk.inj (Option.some.inj h)
      rw [hbehind, List.drop_left] at hrest
      have hlength : ds.length ≤ width := by
        have := congrArg List.length htake
        rw [List.length_append, List.length_take] at this
        omega
      refine ⟨blanks ++ ds, by rw [List.append_assoc, ← hrest, ← hbehind],
        .mk hblanks hds (by simpa using hne) hlength ?_⟩
      by_cases hfull : ds.length = width
      · exact .inl hfull
      · refine .inr ?_
        rw [← hrest]
        cases more with
        | cons c more => exact hmore
        | nil =>
            -- the digits end because the text does
            have hshort : behind.length ≤ width := by
              have := congrArg List.length htake
              rw [List.length_append, List.length_take, List.length_nil] at this
              omega
            simp [List.drop_eq_nil_of_le hshort]
  · rintro ⟨_, rfl, @⟨blanks, ds, hblanks, hds, hne, hlength, hstop⟩⟩
    have hread : readNumber width (ds ++ rest) = some (Text.ofDigits ds, rest) := by
      refine readNumber_append hds hne hlength ?_
      rcases hstop with hfull | hstop
      · simp [hfull]
      · exact hstop.take _
    rw [List.append_assoc, readNumber, dropBlanks_append hblanks, ← readNumber, hread]

theorem readBounded_eq_some_iff {width low high n : Nat} {cs rest : List Char} :
    readBounded width low high cs = some (n, rest) ↔
      (∃ piece, cs = piece ++ rest ∧ IsNumber width rest piece n) ∧ low ≤ n ∧ n ≤ high := by
  rw [readBounded, Option.filter_eq_some_iff, readNumber_eq_some_iff]
  simp

theorem readAfterSign_eq_some_iff {n : Nat} {cs rest : List Char} :
    readAfterSign cs = some (n, rest) ↔
      ∃ ds, cs = ds ++ rest ∧ (∀ c ∈ ds, c.isDigit = true) ∧ ds ≠ [] ∧ Stops Char.isDigit rest ∧
        n = Text.ofDigits ds := by
  constructor
  · intro h
    obtain ⟨ds, behind, rfl, hds, hstop⟩ := Text.exists_run Char.isDigit cs
    simp only [readAfterSign, Text.spanDigits_append hds hstop] at h
    split at h
    · cases h
    · rename_i hne
      obtain ⟨rfl, rfl⟩ := Prod.mk.inj (Option.some.inj h)
      exact ⟨ds, rfl, hds, by simpa using hne, hstop, rfl⟩
  · rintro ⟨ds, rfl, hds, hne, hstop, rfl⟩
    simp [readAfterSign, Text.spanDigits_append hds hstop, hne]

theorem IsNumber.blanks_append {width n : Nat} {rest piece blanks : List Char}
    (hblanks : ∀ c ∈ blanks, Text.isBlank c = true) (h : IsNumber width rest piece n) :
    IsNumber width rest (blanks ++ piece) n := by
  obtain ⟨hblanks', hds, hne, hlength, hstop⟩ := h
  rw [← List.append_assoc]
  exact .mk (List.forall_mem_append.mpr ⟨hblanks, hblanks'⟩) hds hne hlength hstop

theorem readYear_append {blanks : List Char} (hblanks : ∀ c ∈ blanks, Text.isBlank c = true)
    (cs : List Char) : readYear (blanks ++ cs) = readYear cs := by
  rw [readYear, dropBlanks_append hblanks, ← readYear]

theorem exists_isYear {year : Int} {cs rest : List Char} (h : readYear cs = some (year, rest)) :
    ∃ piece, cs = piece ++ rest ∧ IsYear rest piece year := by
  obtain ⟨blanks, behind, rfl, hblanks, hfirst⟩ := Text.exists_run Text.isBlank cs
  rw [readYear_append hblanks, readYear, Text.dropBlanks, Text.dropWhile_of_stops hfirst] at h
  split at h
  · obtain ⟨⟨n, rest'⟩, hread, heq⟩ := Option.map_eq_some_iff.mp h
    obtain ⟨rfl, rfl⟩ := Prod.mk.inj heq
    obtain ⟨ds, rfl, hds, hne, hstop, rfl⟩ := readAfterSign_eq_some_iff.mp hread
    exact ⟨_, by simp, .signed hblanks (.inl rfl) hds hne hstop⟩
  · obtain ⟨⟨n, rest'⟩, hread, heq⟩ := Option.map_eq_some_iff.mp h
    obtain ⟨rfl, rfl⟩ := Prod.mk.inj heq
    obtain ⟨ds, rfl, hds, hne, hstop, rfl⟩ := readAfterSign_eq_some_iff.mp hread
    exact ⟨_, by simp, .signed hblanks (.inr rfl) hds hne hstop⟩
  · obtain ⟨⟨n, rest'⟩, hread, heq⟩ := Option.map_eq_some_iff.mp h
    obtain ⟨rfl, rfl⟩ := Prod.mk.inj heq
    obtain ⟨piece, rfl, hpiece⟩ := readNumber_eq_some_iff.mp hread
    exact ⟨_, by simp, .plain (hpiece.blanks_append hblanks)⟩

theorem readYear_of_isYear {year : Int} {piece rest : List Char} (h : IsYear rest piece year) :
    readYear (piece ++ rest) = some (year, rest) := by
  cases h with
  | plain h =>
      obtain @⟨blanks, ds, hblanks, hds, hne, hlength, hstop⟩ := h
      have hread : readNumber 4 (ds ++ rest) = some (Text.ofDigits ds, rest) :=
        readNumber_eq_some_iff.mpr ⟨ds, rfl, .mk (List.forall_mem_nil _) hds hne hlength hstop⟩
      rw [List.append_assoc, readYear_append hblanks]
      cases ds with
      | nil => exact absurd rfl hne
      | cons d ds =>
          rw [List.cons_append] at hread ⊢
          rw [readYear_of_isDigit (hds d List.mem_cons_self), hread]
          rfl
  | @signed blanks ds sign hblanks hsign hds hne hstop =>
      have hread : readAfterSign (ds ++ rest) = some (Text.ofDigits ds, rest) :=
        readAfterSign_eq_some_iff.mpr ⟨ds, rfl, hds, hne, hstop, rfl⟩
      rw [List.append_assoc, readYear_append hblanks, List.cons_append]
      rcases hsign with rfl | rfl
      · show (readAfterSign (ds ++ rest)).map _ = _
        rw [hread]
        rfl
      · show (readAfterSign (ds ++ rest)).map _ = _
        rw [hread]
        rfl

/-! ### Parts -/

namespace Part

theorem read_of_bounds {part : Part} {low high : Nat} (h : part.bounds? = some (low, high))
    (r : Reading) (cs : List Char) :
    part.read r cs = (readBounded 2 low high cs).map fun (n, rest) => (part.told r n, rest) := by
  cases part with
  | mark | gap | year | halfDay => cases h
  | month | day | hour | halfDayHour | minute | second =>
      obtain ⟨rfl, rfl⟩ := Prod.mk.inj (Option.some.inj h)
      rfl

theorem readHalfDay_eq_some_iff {late : Bool} {cs rest : List Char} :
    readHalfDay cs = some (late, rest) ↔
      ∃ c m, cs = c :: m :: rest ∧ c.toUpper = (if late then 'P' else 'A') ∧ m.toUpper = 'M' := by
  constructor
  · intro h
    unfold readHalfDay at h
    split at h
    · rename_i c m rest'
      by_cases hm : m.toUpper = 'M'
      · rw [if_pos hm] at h
        by_cases hmorning : c.toUpper = 'A'
        · rw [if_pos hmorning] at h
          obtain ⟨rfl, rfl⟩ := Prod.mk.inj (Option.some.inj h)
          exact ⟨c, m, rfl, hmorning, hm⟩
        · rw [if_neg hmorning] at h
          by_cases hlate : c.toUpper = 'P'
          · rw [if_pos hlate] at h
            obtain ⟨rfl, rfl⟩ := Prod.mk.inj (Option.some.inj h)
            exact ⟨c, m, rfl, hlate, hm⟩
          · rw [if_neg hlate] at h
            cases h
      · rw [if_neg hm] at h
        cases h
    · cases h
  · rintro ⟨c, m, rfl, hc, hm⟩
    cases late with
    | true => simp_all [readHalfDay]
    | false => simp_all [readHalfDay]

theorem exists_takes {part : Part} {r r' : Reading} {cs rest : List Char}
    (h : part.read r cs = some (r', rest)) :
    ∃ piece, cs = piece ++ rest ∧ part.Takes r rest piece r' := by
  cases hbounds : part.bounds? with
  | some bounds =>
      obtain ⟨low, high⟩ := bounds
      rw [read_of_bounds hbounds] at h
      obtain ⟨⟨n, rest'⟩, hread, heq⟩ := Option.map_eq_some_iff.mp h
      obtain ⟨rfl, rfl⟩ := Prod.mk.inj heq
      obtain ⟨⟨piece, rfl, hpiece⟩, hlow, hhigh⟩ := readBounded_eq_some_iff.mp hread
      exact ⟨piece, rfl, .number hbounds hpiece hlow hhigh⟩
  | none =>
      cases part with
      | month | day | hour | halfDayHour | minute | second => cases hbounds
      | mark c =>
          rw [read] at h
          split at h
          · rename_i hhead
            obtain ⟨cs, rfl⟩ := List.head?_eq_some_iff.mp hhead
            obtain ⟨rfl, rfl⟩ := Prod.mk.inj (Option.some.inj h)
            exact ⟨[c], rfl, .mark c⟩
          · cases h
      | gap =>
          obtain ⟨rfl, rfl⟩ := Prod.mk.inj (Option.some.inj h)
          obtain ⟨blanks, rest, rfl, hblanks, hstop⟩ := Text.exists_run Text.isBlank cs
          rw [dropBlanks_append hblanks, Text.dropBlanks, Text.dropWhile_of_stops hstop]
          exact ⟨blanks, rfl, .gap hblanks hstop⟩
      | year =>
          obtain ⟨⟨n, rest'⟩, hread, heq⟩ := Option.map_eq_some_iff.mp h
          obtain ⟨rfl, rfl⟩ := Prod.mk.inj heq
          obtain ⟨piece, rfl, hpiece⟩ := exists_isYear hread
          exact ⟨piece, rfl, .year hpiece⟩
      | halfDay =>
          obtain ⟨⟨late, rest'⟩, hread, heq⟩ := Option.map_eq_some_iff.mp h
          obtain ⟨rfl, rfl⟩ := Prod.mk.inj heq
          obtain ⟨c, m, rfl, hc, hm⟩ := readHalfDay_eq_some_iff.mp hread
          exact ⟨[c, m], rfl, .halfDay late hc hm⟩

theorem Takes.read {part : Part} {r r' : Reading} {piece rest : List Char}
    (h : part.Takes r rest piece r') : part.read r (piece ++ rest) = some (r', rest) := by
  cases h with
  | mark c => simp [Part.read]
  | gap hblanks hstop =>
      rw [Part.read, dropBlanks_append hblanks, Text.dropBlanks, Text.dropWhile_of_stops hstop]
  | year h =>
      rw [Part.read, readYear_of_isYear h]
      rfl
  | number hbounds h hlow hhigh =>
      rw [read_of_bounds hbounds, readBounded_eq_some_iff.mpr ⟨⟨_, rfl, h⟩, hlow, hhigh⟩]
      rfl
  | @halfDay c m late hc hm =>
      rw [Part.read, List.cons_append, List.cons_append, List.nil_append,
        readHalfDay_eq_some_iff.mpr ⟨c, m, rfl, hc, hm⟩]
      rfl

end Part

/-! ### Patterns -/

/-- **The parts are read exactly if the text falls into pieces of them.** -/
theorem readParts_eq_some_iff (parts : List Part) :
    ∀ {r r' : Reading} {cs : List Char}, readParts parts r cs = some r' ↔
      ∃ pieces, pieces.flatten = cs ∧ Follows parts r pieces r' := by
  induction parts with
  | nil =>
      intro r r' cs
      constructor
      · intro h
        rw [readParts] at h
        split at h
        · rename_i hnil
          obtain rfl := Option.some.inj h
          exact ⟨[], (List.isEmpty_iff.mp hnil).symm, .nil r⟩
        · cases h
      · rintro ⟨pieces, rfl, h⟩
        cases h
        rfl
  | cons part parts ih =>
      intro r r' cs
      constructor
      · intro h
        rw [readParts] at h
        split at h
        · cases h
        · rename_i r'' rest hread
          obtain ⟨piece, rfl, hpiece⟩ := Part.exists_takes hread
          obtain ⟨pieces, rfl, hpieces⟩ := ih.mp h
          exact ⟨piece :: pieces, rfl, .cons hpiece hpieces⟩
      · rintro ⟨pieces, rfl, h⟩
        cases h with
        | cons hpiece hrest =>
            rw [List.flatten_cons, readParts, hpiece.read]
            exact ih.mpr ⟨_, rfl, hrest⟩

theorem read?_eq_some_iff {pattern : List Part} {cs : List Char} {t : Instant} :
    read? pattern cs = some t ↔ ∃ pieces, pieces.flatten = cs ∧ Names pattern pieces t := by
  rw [read?, Option.bind_eq_some_iff]
  constructor
  · rintro ⟨r, hparts, ht⟩
    obtain ⟨pieces, rfl, hpieces⟩ := (readParts_eq_some_iff pattern).mp hparts
    exact ⟨pieces, rfl, r, hpieces, ht⟩
  · rintro ⟨pieces, rfl, r, hpieces, ht⟩
    exact ⟨r, (readParts_eq_some_iff pattern).mpr ⟨pieces, rfl, hpieces⟩, ht⟩

/-! ### Cells of a report -/

/-- Where something else than a digit follows, a number may be read with room for more digits. -/
theorem IsNumber.wider {width width' n : Nat} {rest piece : List Char} (hwidth : width ≤ width')
    (hrest : Stops Char.isDigit rest) (h : IsNumber width rest piece n) :
    IsNumber width' rest piece n := by
  obtain ⟨hblanks, hds, hne, hlength, -⟩ := h
  exact .mk hblanks hds hne (hlength.trans hwidth) (.inr hrest)

/-- A month or a year, with which the patterns of a report begin. -/
def BeginsReport (part : Part) : Prop :=
  part = .month ∨ part = .year

/-- What follows such a pattern begins with a year, or what might be one, and a mark. -/
theorem exists_isYear_of_follows {part : Part} {c : Char} {parts : List Part} {r r' : Reading}
    {pieces : List (List Char)} (hpart : BeginsReport part) (hc : c.isDigit = false)
    (h : Follows (part :: .mark c :: parts) r pieces r') :
    ∃ piece rest year, pieces.flatten = piece ++ c :: rest ∧ IsYear (c :: rest) piece year := by
  cases h with
  | @cons _ _ _ _ _ piece _ hfirst hrest =>
      cases hrest with
      | @cons _ _ _ _ _ _ rest hmark hrest =>
          cases hmark with
          | number hbounds => cases hbounds
          | mark =>
              refine ⟨piece, rest.flatten, ?_⟩
              rcases hpart with rfl | rfl
              · cases hfirst with
                | number _ h =>
                    exact ⟨_, rfl, .plain (h.wider (by decide) (Text.stops_cons.mpr hc))⟩
              · cases hfirst with
                | year h => exact ⟨_, rfl, h⟩
                | number hbounds => cases hbounds

/-- A text follows one of the two patterns at most: where the first has a slash, the other has a
hyphen. -/
theorem read?_wholeDayPattern_of_follows {pieces : List (List Char)} {r : Reading}
    (h : Follows halfDayPattern {} pieces r) : read? wholeDayPattern pieces.flatten = none := by
  obtain ⟨piece, rest, year, hpieces, hyear⟩ := exists_isYear_of_follows (.inl rfl) rfl h
  rw [hpieces]
  simp only [read?, wholeDayPattern, readParts, Part.read, readYear_of_isYear hyear]
  rfl

/-- **The cells of a report that name an instant**, and the instant that each of them names. -/
theorem ofReport?_eq_some_iff {cell : String} {t : Instant} :
    ofReport? cell = some t ↔ Spelled cell t := by
  constructor
  · intro h
    obtain ⟨pattern, hpattern, hread⟩ := List.exists_of_findSome?_eq_some h
    exact ⟨pattern, hpattern, read?_eq_some_iff.mp hread⟩
  · rintro ⟨pattern, hpattern, hspelled⟩
    have hread := read?_eq_some_iff.mpr hspelled
    simp only [reportPatterns, List.mem_cons, List.not_mem_nil, or_false] at hpattern
    rcases hpattern with rfl | rfl
    · rw [ofReport?, reportPatterns, List.findSome?_cons, hread]
    · have hhalf : read? halfDayPattern (Text.trim cell.toList) = none := by
        cases hhalf : read? halfDayPattern (Text.trim cell.toList) with
        | none => rfl
        | some t' =>
            obtain ⟨pieces, hpieces, r, hfollows, -⟩ := read?_eq_some_iff.mp hhalf
            rw [← hpieces, read?_wholeDayPattern_of_follows hfollows] at hread
            cases hread
      rw [ofReport?, reportPatterns, List.findSome?_cons, hhalf, List.findSome?_cons, hread]

theorem ofReport?_eq_none_iff {cell : String} : ofReport? cell = none ↔ ∀ t, ¬ Spelled cell t := by
  rw [Option.eq_none_iff_forall_ne_some]
  exact forall_congr' fun t => not_congr ofReport?_eq_some_iff

end RollCall.Instant
