/-
Two reports that tell the same.

Rows may come in any order and may be repeated.  As long as two reports tell the same
entries, and nobody both joins and leaves at one time, they list the same people and agree
in every field of each of them; only the order of the list is left open.

Everything goes through `Grouped`: it says which events an attendee was seen in and when
the meeting ends by the entries alone, and `read_eq_of_mem_iff` says that this decides the
fields.
-/
import RollCall.Proofs.Attendance.Repeats
import RollCall.Proofs.Report.Grouping

namespace RollCall

namespace Report

open Table

/-! ### What grouping leaves to the entries -/

/-- Nobody both joins and leaves at one time. -/
def Unmixed (es : List Entry) : Prop :=
  ∀ e ∈ es, ∀ f ∈ es, e.name = f.name → e.time = f.time → e.action = f.action

theorem Unmixed.of_same {es es' : List Entry} (h : Unmixed es) (hsame : ∀ e, e ∈ es ↔ e ∈ es') :
    Unmixed es' :=
  fun e he f hf => h e ((hsame e).mpr he) f ((hsame f).mpr hf)

namespace Grouped

variable {es es' : List Entry} {as as' : List Attendee}

/-- An attendee was seen in the events of the entries with the attendee's name. -/
theorem mem_events_iff (h : Grouped es as) {a : Attendee} (ha : a ∈ as) (v : Event) :
    v ∈ a.events ↔ entry a.name v ∈ es := by
  rw [(h.events a ha).mem_iff, List.mem_map]
  constructor
  · rintro ⟨e, he, rfl⟩
    obtain ⟨hmem, hname⟩ := List.mem_filter.mp he
    have hname : e.name = a.name := by simpa using hname
    rw [← hname]
    exact hmem
  · intro hmem
    exact ⟨entry a.name v, List.mem_filter.mpr ⟨hmem, by simp [entry]⟩, rfl⟩

/-- The latest time depends on which entries there are. -/
theorem closedAt_eq (h : Grouped es as) (h' : Grouped es' as') (hsame : ∀ e, e ∈ es ↔ e ∈ es')
    {a b : Attendee} (ha : a ∈ as) (hb : b ∈ as') : a.closedAt = b.closedAt := by
  obtain ⟨⟨e, he, hea⟩, hbound⟩ := h.closing a ha
  obtain ⟨⟨f, hf, hfb⟩, hbound'⟩ := h'.closing b hb
  have hle : a.closedAt ≤ b.closedAt := hea ▸ hbound' e ((hsame e).mp he)
  have hge : b.closedAt ≤ a.closedAt := hfb ▸ hbound f ((hsame f).mpr hf)
  exact Instant.rank_injective (Int.le_antisymm hle hge)

theorem mem_names_iff (h : Grouped es as) (h' : Grouped es' as')
    (hsame : ∀ e, e ∈ es ↔ e ∈ es') (n : String) :
    n ∈ as.map Attendee.name ↔ n ∈ as'.map Attendee.name := by
  rw [h.everybody, h'.everybody]
  exact exists_congr fun e => and_congr_left fun _ => hsame e

/-- Attendees of one name agree in every field. -/
theorem read_eq (h : Grouped es as) (h' : Grouped es' as') (hsame : ∀ e, e ∈ es ↔ e ∈ es')
    (hunmixed : Unmixed es) {a b : Attendee} (ha : a ∈ as) (hb : b ∈ as')
    (hname : a.name = b.name) (f : Field) : f.read a = f.read b := by
  refine Attendee.read_eq_of_mem_iff hname (h.closedAt_eq h' hsame ha hb) ?_ ?_ f
  · intro v hv w hw htime
    exact hunmixed _ ((h.mem_events_iff ha v).mp hv) _ ((h.mem_events_iff ha w).mp hw) rfl htime
  · intro v
    rw [h.mem_events_iff ha, h'.mem_events_iff hb, ← hname]
    exact hsame _

/-- Nobody's readings are listed twice, since they tell the name. -/
theorem nodup_readings (h : Grouped es as) : (as.map fun a (f : Field) => f.read a).Nodup := by
  refine List.Nodup.of_map (fun r => r .name) ?_
  have hnames : ((as.map Attendee.name).map Value.text).Nodup :=
    h.distinct.map fun _ _ heq => Value.text.inj heq
  simpa [List.map_map, Function.comp_def, Field.read] using hnames

/-- What one list of attendees reads, the other one reads as well. -/
theorem readings_subset (h : Grouped es as) (h' : Grouped es' as')
    (hsame : ∀ e, e ∈ es ↔ e ∈ es') (hunmixed : Unmixed es) :
    ∀ r ∈ as.map fun a (f : Field) => f.read a, r ∈ as'.map fun a (f : Field) => f.read a := by
  intro r hr
  obtain ⟨a, ha, rfl⟩ := List.mem_map.mp hr
  have hlisted := (h.mem_names_iff h' hsame a.name).mp (List.mem_map_of_mem ha)
  obtain ⟨b, hb, hname⟩ := List.mem_map.mp hlisted
  refine List.mem_map.mpr ⟨b, hb, funext fun f => ?_⟩
  exact (h.read_eq h' hsame hunmixed ha hb hname.symm f).symm

theorem readings_perm (h : Grouped es as) (h' : Grouped es' as')
    (hsame : ∀ e, e ∈ es ↔ e ∈ es') (hunmixed : Unmixed es) :
    (as.map fun a (f : Field) => f.read a).Perm (as'.map fun a (f : Field) => f.read a) := by
  rw [List.perm_ext_iff_of_nodup h.nodup_readings h'.nodup_readings]
  intro r
  refine ⟨h.readings_subset h' hsame hunmixed r, ?_⟩
  exact h'.readings_subset h (fun e => (hsame e).symm) (hunmixed.of_same hsame) r

end Grouped

/-! ### Reports -/

/-- Some row of the report says the entry. -/
def Told (rows : List Row) (e : Entry) : Prop :=
  ∃ row ∈ rows.tail, Says (titlesOf rows) (trimmedCells row) e

theorem says_unique {titles cells : List String} {e e' : Entry} (h : Says titles cells e)
    (h' : Says titles cells e') : e = e' :=
  Except.ok.inj ((entryOf_eq_ok_iff.mpr h).symm.trans (entryOf_eq_ok_iff.mpr h'))

theorem exists_says_iff_mem {titles : List String} {rows : List Row} {es : List Entry}
    (h : List.Forall₂ (fun row e => Says titles (trimmedCells row) e) rows es) (e : Entry) :
    (∃ row ∈ rows, Says titles (trimmedCells row) e) ↔ e ∈ es := by
  induction h with
  | nil => simp
  | @cons row first rows es hrow _ ih =>
      have hfirst : Says titles (trimmedCells row) e ↔ e = first :=
        ⟨fun h => says_unique h hrow, fun h => h ▸ hrow⟩
      rw [List.mem_cons, ← ih, ← hfirst]
      simp

/-- The entries that are read are those that are told. -/
theorem told_iff_mem {rows : List Row} {es : List Entry} (h : entriesOfRows rows = .ok es)
    (e : Entry) : Told rows e ↔ e ∈ es := by
  rw [entriesOfRows_eq, entriesFrom_eq_ok_iff] at h
  exact exists_says_iff_mem h e

theorem exists_grouped {rows : List Row} {as : List Attendee}
    (h : attendeesOfRows rows = .ok as) :
    ∃ es, (∀ e, Told rows e ↔ e ∈ es) ∧ Grouped es as := by
  obtain ⟨es, hes, rfl⟩ := Result.map_eq_ok.mp h
  exact ⟨es, told_iff_mem hes, grouped_attendeesOf es⟩

/--
**Reports that tell the same entries agree.**  Their rows may stand in different orders and
may be repeated, and their columns may differ.  If nobody both joins and leaves at one time,
the two list the same names, the attendees of one name have the same six fields, and so what
they read is the same list up to its order.
-/
theorem attendees_of_same_entries {rows rows' : List Row} {as as' : List Attendee}
    (h : attendeesOfRows rows = .ok as) (h' : attendeesOfRows rows' = .ok as')
    (hsame : ∀ e, Told rows e ↔ Told rows' e)
    (hunmixed : ∀ e f, Told rows e → Told rows f → e.name = f.name → e.time = f.time →
      e.action = f.action) :
    (∀ n, n ∈ as.map Attendee.name ↔ n ∈ as'.map Attendee.name) ∧
      (∀ a ∈ as, ∀ b ∈ as', a.name = b.name → ∀ f : Field, f.read a = f.read b) ∧
      (as.map fun a (f : Field) => f.read a).Perm (as'.map fun a (f : Field) => f.read a) := by
  obtain ⟨es, htold, hgroup⟩ := exists_grouped h
  obtain ⟨es', htold', hgroup'⟩ := exists_grouped h'
  have hmem : ∀ e, e ∈ es ↔ e ∈ es' := fun e => by rw [← htold, ← htold', hsame]
  have hone : Unmixed es :=
    fun e he f hf => hunmixed e f ((htold e).mpr he) ((htold f).mpr hf)
  exact ⟨hgroup.mem_names_iff hgroup' hmem,
    fun a ha b hb hname f => hgroup.read_eq hgroup' hmem hone ha hb hname f,
    hgroup.readings_perm hgroup' hmem hone⟩

/-- Another order of the rows and of the columns, and a row told twice: the list is turned round,
and what it says of Ann and of Bob stays. -/
theorem attendees_of_same_entries_turned :
    ∃ as as',
      attendees ("Full Name\tUser Action\tTimestamp\n" ++
          "Ann\tJoined\t2021-03-15 10:00:00\n" ++
          "Bob\tJoined\t2021-03-15 10:10:00\n" ++
          "Ann\tLeft\t2021-03-15 10:30:00\n") = .ok as ∧
      attendees ("Timestamp\tFull Name\tUser Action\n" ++
          "3/15/2021, 10:10:00 AM\tBob\tJoined\n" ++
          "2021-03-15 10:30:00\tAnn\tLeft\n" ++
          "2021-03-15 10:00:00\tAnn\tJoined\n" ++
          "2021-03-15 10:30:00\tAnn\tLeft\n") = .ok as' ∧
      as.map Attendee.name = ["Ann", "Bob"] ∧ as'.map Attendee.name = ["Bob", "Ann"] ∧
      (as.map fun a (f : Field) => f.read a).Perm (as'.map fun a (f : Field) => f.read a) := by
  let es : List Entry :=
    [⟨"Ann", .joined, ⟨1615802400, 0, by decide⟩⟩, ⟨"Bob", .joined, ⟨1615803000, 0, by decide⟩⟩,
      ⟨"Ann", .left, ⟨1615804200, 0, by decide⟩⟩]
  let es' : List Entry :=
    [⟨"Bob", .joined, ⟨1615803000, 0, by decide⟩⟩, ⟨"Ann", .left, ⟨1615804200, 0, by decide⟩⟩,
      ⟨"Ann", .joined, ⟨1615802400, 0, by decide⟩⟩, ⟨"Ann", .left, ⟨1615804200, 0, by decide⟩⟩]
  have hes : entriesOfRows (rows ("Full Name\tUser Action\tTimestamp\n" ++
          "Ann\tJoined\t2021-03-15 10:00:00\n" ++
          "Bob\tJoined\t2021-03-15 10:10:00\n" ++
          "Ann\tLeft\t2021-03-15 10:30:00\n")) = .ok es := by
    decide +kernel
  have hes' : entriesOfRows (rows ("Timestamp\tFull Name\tUser Action\n" ++
          "3/15/2021, 10:10:00 AM\tBob\tJoined\n" ++
          "2021-03-15 10:30:00\tAnn\tLeft\n" ++
          "2021-03-15 10:00:00\tAnn\tJoined\n" ++
          "2021-03-15 10:30:00\tAnn\tLeft\n")) = .ok es' := by
    decide +kernel
  have has := congrArg (·.map attendeesOf) hes
  have has' := congrArg (·.map attendeesOf) hes'
  have hmem : ∀ e, e ∈ es ↔ e ∈ es' := by
    have hone : ∀ e ∈ es, e ∈ es' := by decide
    have htwo : ∀ e ∈ es', e ∈ es := by decide
    exact fun e => ⟨hone e, htwo e⟩
  have hunmixed : ∀ e ∈ es, ∀ f ∈ es, e.name = f.name → e.time = f.time → e.action = f.action := by
    decide
  refine ⟨attendeesOf es, attendeesOf es', has, has', by decide, by decide, ?_⟩
  refine (attendees_of_same_entries has has' ?_ ?_).2.2
  · intro e
    rw [told_iff_mem hes, told_iff_mem hes']
    exact hmem e
  · intro e f he hf
    exact hunmixed e ((told_iff_mem hes e).mp he) f ((told_iff_mem hes f).mp hf)

end Report

end RollCall
