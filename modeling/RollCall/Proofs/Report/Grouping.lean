/-
The attendees of a report.

`Grouped es as` says what the attendees of some entries are, entry by entry: every name
that an entry has makes one attendee, the attendees stand in the order in which their
names first appear, the events of each are those of its entries in the order of time, and
the meeting ends for all of them at the latest time of all entries.  Put together, no entry
is lost and none is counted twice.

The list of names is what holds the attendees apart: it names nobody twice and leaves
nobody out, so cutting the entries by the names on it is cutting them into classes.
-/
import Mathlib.Data.List.Induction
import Mathlib.Data.List.Perm.Basic
import RollCall.Proofs.Attendance.Order
import RollCall.Proofs.Report.Rows

namespace RollCall

namespace Report

open Table

/-! ### First appearance -/

theorem mem_names {es : List Entry} {n : String} : n ∈ names es ↔ ∃ e ∈ es, e.name = n := by
  simp [names, List.mem_eraseDups]

/-- What comes last is left out exactly if it has appeared before. -/
theorem eraseDups_concat {α : Type} [DecidableEq α] (l : List α) (x : α) :
    (l ++ [x]).eraseDups = if x ∈ l then l.eraseDups else l.eraseDups ++ [x] := by
  rw [List.eraseDups_append]
  by_cases hx : x ∈ l
  · simp [List.removeAll, hx]
  · simp [List.removeAll, hx, List.eraseDups_cons]

/-- Each item is kept once, and what first appears earlier stands earlier. -/
theorem eraseDups_pairwise {α : Type} [DecidableEq α] (l : List α) :
    l.eraseDups.Pairwise fun a b => a ≠ b ∧ l.idxOf a < l.idxOf b := by
  induction l using List.reverseRecOn with
  | nil => simp
  | append_singleton l x ih =>
      have hkeep : ∀ {a}, a ∈ l.eraseDups → (l ++ [x]).idxOf a = l.idxOf a := by
        intro a ha
        exact List.idxOf_append_of_mem (List.mem_eraseDups.mp ha)
      have hold : l.eraseDups.Pairwise fun a b =>
          a ≠ b ∧ (l ++ [x]).idxOf a < (l ++ [x]).idxOf b := by
        refine ih.imp_of_mem ?_
        intro a b ha hb hab
        rw [hkeep ha, hkeep hb]
        exact hab
      rw [eraseDups_concat]
      by_cases hx : x ∈ l
      · rw [if_pos hx]
        exact hold
      · rw [if_neg hx]
        refine List.pairwise_append.mpr ⟨hold, List.pairwise_singleton .., ?_⟩
        intro a ha b hb
        obtain rfl := List.mem_singleton.mp hb
        have ha' : a ∈ l := List.mem_eraseDups.mp ha
        refine ⟨fun h => hx (h ▸ ha'), ?_⟩
        rw [hkeep ha, List.idxOf_append_of_notMem hx]
        exact Nat.lt_of_lt_of_le (List.idxOf_lt_length_of_mem ha') (Nat.le_add_right ..)

theorem nodup_names (es : List Entry) : (names es).Nodup :=
  (eraseDups_pairwise _).imp fun h => h.1

/-! ### Cutting the entries by name -/

/-- The entries of one name. -/
def entriesOf (name : String) (es : List Entry) : List Entry :=
  es.filter (·.name = name)

/-- An entry, given the name and what else it says. -/
def entry (name : String) (v : Event) : Entry :=
  ⟨name, v.action, v.time⟩

/-- What the entries of one name say, with the name, is those entries. -/
theorem map_entry_eventsOf (name : String) (es : List Entry) :
    (eventsOf name es).map (entry name) = entriesOf name es := by
  show ((entriesOf name es).map Entry.event).map (entry name) = entriesOf name es
  rw [List.map_map]
  conv_rhs => rw [← List.map_id (entriesOf name es)]
  refine List.map_congr_left fun e he => ?_
  obtain rfl : e.name = name := by simpa using (List.mem_filter.mp he).2
  rfl

/-- The classes of different names make up the entries that have one of these names. -/
theorem flatMap_entriesOf_perm (es : List Entry) :
    ∀ (ns : List String), ns.Nodup →
      (ns.flatMap fun n => entriesOf n es).Perm (es.filter (·.name ∈ ns)) := by
  intro ns
  induction ns with
  | nil => intro _; simp
  | cons n ns ih =>
      intro hnodup
      obtain ⟨hn, hns⟩ := List.nodup_cons.mp hnodup
      have hsplit := List.filter_append_perm (·.name = n) (es.filter (·.name ∈ n :: ns))
      have hfirst : (es.filter (·.name ∈ n :: ns)).filter (·.name = n) = entriesOf n es := by
        rw [List.filter_filter, entriesOf]
        refine List.filter_congr fun e _ => ?_
        by_cases he : e.name = n <;> simp [he]
      have hrest : (es.filter (·.name ∈ n :: ns)).filter (fun e => !decide (e.name = n)) =
          es.filter (·.name ∈ ns) := by
        rw [List.filter_filter]
        refine List.filter_congr fun e _ => ?_
        by_cases he : e.name = n
        · simp [he, hn]
        · simp [he]
      rw [hfirst, hrest] at hsplit
      rw [List.flatMap_cons]
      exact (List.Perm.append_left _ (ih hns)).trans hsplit

/-! ### The end of the meeting -/

/-- The latest time of some entries. -/
structure IsLatest (es : List Entry) (t : Instant) : Prop where
  attained : ∃ e ∈ es, e.time = t
  bound : ∀ e ∈ es, e.time ≤ t

/-- The greater of two times is one of them, and neither is later. -/
theorem max_cases (t u : Instant) : (max t u = t ∨ max t u = u) ∧ t ≤ max t u ∧ u ≤ max t u := by
  show ((if t ≤ u then u else t) = t ∨ (if t ≤ u then u else t) = u) ∧
    (t ≤ if t ≤ u then u else t) ∧ (u ≤ if t ≤ u then u else t)
  by_cases h : t ≤ u
  · rw [if_pos h]
    exact ⟨.inr rfl, h, Int.le_refl _⟩
  · rw [if_neg h]
    exact ⟨.inl rfl, Int.le_refl _, Int.le_of_lt (Int.not_le.mp h)⟩

/-- Going through the entries keeps the latest time of those passed. -/
theorem foldl_max_spec :
    ∀ (es : List Entry) (t : Instant),
      (es.foldl (fun t e => max t e.time) t = t ∨
          ∃ e ∈ es, e.time = es.foldl (fun t e => max t e.time) t) ∧
        t ≤ es.foldl (fun t e => max t e.time) t ∧
        ∀ e ∈ es, e.time ≤ es.foldl (fun t e => max t e.time) t := by
  intro es
  induction es with
  | nil => intro t; exact ⟨.inl rfl, Int.le_refl _, by simp⟩
  | cons e es ih =>
      intro t
      obtain ⟨hone, hleft, hright⟩ := max_cases t e.time
      obtain ⟨hat, hle, hall⟩ := ih (max t e.time)
      rw [List.foldl_cons]
      refine ⟨?_, Int.le_trans hleft hle, ?_⟩
      · rcases hat with hat | ⟨x, hx, hat⟩
        · rcases hone with h | h
          · exact .inl (hat.trans h)
          · exact .inr ⟨e, by simp, (hat.trans h).symm⟩
        · exact .inr ⟨x, by simp [hx], hat⟩
      · intro x hx
        rcases List.mem_cons.mp hx with rfl | hx
        · exact Int.le_trans hright hle
        · exact hall x hx

theorem isLatest_of_latest? {es : List Entry} {t : Instant} (h : latest? es = some t) :
    IsLatest es t := by
  cases es with
  | nil => cases h
  | cons e es =>
      obtain rfl := Option.some.inj h
      obtain ⟨hat, hle, hall⟩ := foldl_max_spec es e.time
      refine ⟨?_, ?_⟩
      · rcases hat with hat | ⟨x, hx, hat⟩
        · exact ⟨e, by simp, hat.symm⟩
        · exact ⟨x, by simp [hx], hat⟩
      · intro x hx
        rcases List.mem_cons.mp hx with rfl | hx
        · exact hle
        · exact hall x hx

/-! ### The attendees -/

/-- The attendees are those of the entries. -/
structure Grouped (es : List Entry) (as : List Attendee) : Prop where
  /-- Nobody is listed twice. -/
  distinct : (as.map Attendee.name).Nodup
  /-- Whoever is listed has an entry, and whoever has an entry is listed. -/
  everybody : ∀ n, n ∈ as.map Attendee.name ↔ ∃ e ∈ es, e.name = n
  /-- Whose name appears first is listed first. -/
  appearance : (as.map Attendee.name).Pairwise fun m n =>
    (es.map Entry.name).idxOf m < (es.map Entry.name).idxOf n
  /-- The events of each are those of their entries, sorted by time and stable. -/
  events : ∀ a ∈ as, Event.InTimeOrder ((es.filter (·.name = a.name)).map Entry.event) a.events
  /-- Every entry is in exactly one place. -/
  complete : (as.flatMap fun a => a.events.map (entry a.name)).Perm es
  /-- The meeting ends at the latest time of all entries. -/
  closing : ∀ a ∈ as, IsLatest es a.closedAt
  /-- It ends for everybody at once. -/
  together : ∀ a ∈ as, ∀ b ∈ as, a.closedAt = b.closedAt

/-- The attendee of one name. -/
def attendeeOf (es : List Entry) (closedAt : Instant) (name : String) : Attendee :=
  .ofEvents name (eventsOf name es) closedAt

theorem map_name_attendeeOf (es : List Entry) (closedAt : Instant) :
    ((names es).map (attendeeOf es closedAt)).map Attendee.name = names es := by
  rw [List.map_map]
  exact List.map_id (names es)

theorem grouped_attendeeOf {es : List Entry} {closedAt : Instant} (h : IsLatest es closedAt) :
    Grouped es ((names es).map (attendeeOf es closedAt)) where
  distinct := by
    rw [map_name_attendeeOf]
    exact nodup_names es
  everybody := by
    intro n
    rw [map_name_attendeeOf]
    exact mem_names
  appearance := by
    rw [map_name_attendeeOf]
    exact (eraseDups_pairwise _).imp fun h => h.2
  events := by
    intro a ha
    obtain ⟨n, -, rfl⟩ := List.mem_map.mp ha
    exact Event.inTimeOrder_spec _
  complete := by
    rw [List.flatMap_map]
    have hclass : ∀ n ∈ names es,
        ((attendeeOf es closedAt n).events.map (entry n)).Perm (entriesOf n es) := by
      intro n _
      rw [← map_entry_eventsOf]
      exact (Event.inTimeOrder_spec _).perm.map _
    have hall : es.filter (·.name ∈ names es) = es := by
      rw [List.filter_eq_self]
      intro e he
      simpa using mem_names.mpr ⟨e, he, rfl⟩
    have hcut := flatMap_entriesOf_perm es (names es) (nodup_names es)
    rw [hall] at hcut
    exact (List.Perm.flatMap_left _ hclass).trans hcut
  closing := by
    intro a ha
    obtain ⟨n, -, rfl⟩ := List.mem_map.mp ha
    exact h
  together := by
    intro a ha b hb
    obtain ⟨n, -, rfl⟩ := List.mem_map.mp ha
    obtain ⟨m, -, rfl⟩ := List.mem_map.mp hb
    rfl

/-- **The attendees of some entries are grouped as they should be.** -/
theorem grouped_attendeesOf (es : List Entry) : Grouped es (attendeesOf es) := by
  unfold attendeesOf
  cases hlatest : latest? es with
  | none =>
      cases es with
      | nil => exact ⟨by simp, by simp, by simp, by simp, by simp, by simp, by simp⟩
      | cons e es => cases hlatest
  | some closedAt => exact grouped_attendeeOf (isLatest_of_latest? hlatest)

/-! ### Reports -/

/-- The titles of a report, without the blanks around them. -/
def titlesOf : List Row → List String
  | [] => []
  | titles :: _ => trimmedCells titles

/-- The entries of a report are those of the rows behind the titles. -/
theorem entriesOfRows_eq (rows : List Row) :
    entriesOfRows rows = entriesFrom (titlesOf rows) 1 rows.tail := by
  cases rows with
  | nil => rfl
  | cons titles rows => rfl

/--
**Reading a report**, whatever rows the text has.

It succeeds exactly if every row behind the titles has the three fields, a known action and
a recognised time.  Otherwise the first row that has not is the error, with its number, its
place and its fault, whatever rows follow it.  On success the entries are what the rows say,
in their order, and the attendees are the groups of these entries.
-/
theorem attendees_of_rows :
    (∀ text, attendees text = attendeesOfRows (rows text)) ∧
      ∀ rows : List Row,
        ((∃ as, attendeesOfRows rows = .ok as) ↔
            ∀ row ∈ rows.tail, Readable (titlesOf rows) (trimmedCells row)) ∧
          (∀ good bad rest, rows.tail = good ++ bad :: rest →
            (∀ row ∈ good, Readable (titlesOf rows) (trimmedCells row)) →
            ¬ Readable (titlesOf rows) (trimmedCells bad) →
            ∃ fault, Faulty (titlesOf rows) (trimmedCells bad) fault ∧
              attendeesOfRows rows = .error ⟨good.length + 1, bad.place, fault⟩) ∧
          ∀ as, attendeesOfRows rows = .ok as →
            ∃ es, List.Forall₂ (fun row e => Says (titlesOf rows) (trimmedCells row) e)
                rows.tail es ∧ Grouped es as := by
  refine ⟨fun _ => rfl, fun rows => ⟨?_, ?_, ?_⟩⟩
  · rw [← exists_entriesFrom_eq_ok_iff rows.tail 1, ← entriesOfRows_eq, attendeesOfRows]
    cases entriesOfRows rows <;> simp [Except.map]
  · intro good bad rest htail hgood hbad
    cases hentry : entryOf (titlesOf rows) (trimmedCells bad) with
    | ok e => exact absurd (readable_iff.mpr ⟨e, hentry⟩) hbad
    | error fault =>
        refine ⟨fault, faulty_of_entryOf_eq_error hentry, ?_⟩
        rw [attendeesOfRows, entriesOfRows_eq, htail,
          entriesFrom_first_fault hentry rest good 1 hgood, Nat.add_comm]
        rfl
  · intro as h
    unfold attendeesOfRows at h
    cases hes : entriesOfRows rows with
    | error e => rw [hes] at h; cases h
    | ok es =>
        rw [hes] at h
        obtain rfl : attendeesOf es = as := Except.ok.inj h
        rw [entriesOfRows_eq] at hes
        exact ⟨es, (entriesFrom_eq_ok_iff _ _ _).mp hes, grouped_attendeesOf es⟩

end Report

end RollCall
