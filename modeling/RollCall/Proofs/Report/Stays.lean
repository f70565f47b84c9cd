/-
How long the attendees of a report stayed.

Three facts meet here: the meeting ends at the latest time of all entries, the events of an
attendee are in the order of time, and the times were read off a clock that shows whole
seconds.  What an attendee says of times and spans rests on the times of events and the end
of the meeting alone, so a fact about all entries reaches it through `Grouped.times`.
-/
import RollCall.Proofs.Attendance.Stays
import RollCall.Proofs.Report.Retelling

namespace RollCall

namespace Report

open Table

/-! ### What is known of all entries -/

theorem Told.isWhole {rows : List Row} {e : Entry} (h : Told rows e) : e.time.IsWhole := by
  obtain ⟨row, -, hsays⟩ := h
  exact Instant.isWhole_of_ofReport? hsays.time

namespace Grouped

variable {es : List Entry} {as : List Attendee} {a : Attendee}

/-- What holds of the time of every entry holds of the times of an attendee. -/
theorem times (P : Instant → Prop) (h : Grouped es as) (ha : a ∈ as) (hes : ∀ e ∈ es, P e.time) :
    P a.closedAt ∧ ∀ v ∈ a.events, P v.time := by
  obtain ⟨e, he, hclosed⟩ := (h.closing a ha).attained
  refine ⟨hclosed ▸ hes e he, fun v hv => ?_⟩
  exact hes _ ((h.mem_events_iff ha v).mp hv)

/-- No event of an attendee is after the end of the meeting. -/
theorem time_le_closedAt (h : Grouped es as) (ha : a ∈ as) : ∀ v ∈ a.events, v.time ≤ a.closedAt :=
  (h.times (· ≤ a.closedAt) ha (h.closing a ha).bound).2

/-- The first join is one of the times of an attendee. -/
theorem firstJoin_time (P : Instant → Prop) (h : Grouped es as) (ha : a ∈ as)
    (hes : ∀ e ∈ es, P e.time) : P a.firstJoin := by
  obtain ⟨hclosed, hevents⟩ := h.times P ha hes
  rcases a.firstJoin_cases with ⟨v, hv, htime⟩ | htime
  · exact htime ▸ hevents v hv
  · exact htime ▸ hclosed

/-- So is the last departure. -/
theorem lastLeft_time (P : Instant → Prop) (h : Grouped es as) (ha : a ∈ as)
    (hes : ∀ e ∈ es, P e.time) : P a.lastLeft := by
  obtain ⟨hclosed, hevents⟩ := h.times P ha hes
  rcases a.lastLeft_cases with ⟨v, hv, htime⟩ | htime
  · exact htime ▸ hevents v hv
  · exact htime ▸ hclosed

/-- Every session lasts whole seconds. -/
theorem isWhole_durations (h : Grouped es as) (ha : a ∈ as) (hes : ∀ e ∈ es, e.time.IsWhole) :
    ∀ d ∈ a.durations, d.IsWhole := by
  intro d hd
  obtain ⟨s, hs, rfl⟩ := List.mem_map.mp hd
  obtain ⟨hclosed, hevents⟩ := h.times Instant.IsWhole ha hes
  have hturn := Attendee.inTurn_sessions (h.time_le_closedAt ha)
  exact hturn.isWhole_span (Attendee.times_sessions hclosed hevents) s hs

/-- Without leap seconds the sessions last no longer than the time from the first join on. -/
theorem total_le (h : Grouped es as) (ha : a ∈ as) (hes : ∀ e ∈ es, e.time.nanos = 0) :
    a.total ≤ a.closedAt - a.firstJoin := by
  obtain ⟨hclosed, hevents⟩ := h.times (·.nanos = 0) ha hes
  have hturn := Attendee.inTurn_sessions (h.time_le_closedAt ha)
  have hjoin := h.firstJoin_time (·.nanos = 0) ha hes
  exact hturn.total_le hclosed hjoin (Attendee.times_sessions (P := (·.nanos = 0)) hclosed hevents)

end Grouped

/-! ### Reports -/

/--
**How long an attendee of a report stayed.**  Each duration and their total are counts of
whole seconds, and neither the first join nor the last departure is after the end of the
meeting.  The sessions run forward, one behind the other, from the first join to the end of
the meeting; and if no time in the report is a leap second, they last no longer than that.
-/
theorem attendees_stay_within {text : String} {as : List Attendee}
    (h : attendees text = .ok as) {a : Attendee} (ha : a ∈ as) :
    ((∀ d ∈ a.durations, d.IsWhole) ∧ a.total.IsWhole) ∧
      (a.firstJoin ≤ a.closedAt ∧ a.lastLeft ≤ a.closedAt) ∧
      ((∀ s ∈ a.sessions, a.firstJoin ≤ s.start ∧ s.start ≤ s.stop ∧ s.stop ≤ a.closedAt) ∧
        a.sessions.Pairwise fun r s => r.stop ≤ s.start) ∧
      ((∀ e, Told (rows text) e → e.time.isLeap = false) →
        a.total ≤ a.closedAt - a.firstJoin) := by
  obtain ⟨es, htold, hgroup⟩ := exists_grouped h
  have hwhole : ∀ e ∈ es, e.time.IsWhole := fun e he => ((htold e).mpr he).isWhole
  have hdurations := hgroup.isWhole_durations ha hwhole
  have hbound := hgroup.time_le_closedAt ha
  have hturn := Attendee.inTurn_sessions hbound
  refine ⟨⟨hdurations, Span.isWhole_total hdurations⟩,
    ⟨hturn.le_closedAt, Attendee.lastLeft_le hbound⟩, ⟨hturn.bounds, hturn.pairwise⟩, ?_⟩
  intro hleap
  refine hgroup.total_le ha fun e he => ?_
  exact (hwhole e he).nanos_eq_zero (hleap e ((htold e).mpr he))

/-- Ann comes back and stays to the end, which Bob's departure marks. -/
theorem attendees_stay_within_returning :
    let text := "Full Name\tUser Action\tTimestamp\n" ++
      "Ann\tJoined\t2021-03-15 10:00:00\n" ++ "Ann\tLeft\t2021-03-15 10:30:00\n" ++
      "Ann\tJoined\t2021-03-15 10:45:00\n" ++ "Bob\tLeft\t2021-03-15 11:00:00\n"
    ∃ as a, attendees text = .ok as ∧ a ∈ as ∧
      a.durations = [.ofSeconds 1800, .ofSeconds 900] ∧ a.total.IsWhole ∧
      a.total ≤ a.closedAt - a.firstJoin := by
  intro text
  let es : List Entry :=
    [⟨"Ann", .joined, ⟨1615802400, 0, by decide⟩⟩, ⟨"Ann", .left, ⟨1615804200, 0, by decide⟩⟩,
      ⟨"Ann", .joined, ⟨1615805100, 0, by decide⟩⟩, ⟨"Bob", .left, ⟨1615806000, 0, by decide⟩⟩]
  have hes : entriesOfRows (rows text) = .ok es := by decide +kernel
  have has : attendees text = .ok (attendeesOf es) := by
    rw [attendees, attendeesOfRows, hes]
    rfl
  have hann : attendeeOf es ⟨1615806000, 0, by decide⟩ "Ann" ∈ attendeesOf es := by decide
  have hdurations : (attendeeOf es ⟨1615806000, 0, by decide⟩ "Ann").durations =
      [.ofSeconds 1800, .ofSeconds 900] := by
    decide +kernel
  have hleap : ∀ e ∈ es, e.time.isLeap = false := by decide
  obtain ⟨⟨-, htotal⟩, -, -, hle⟩ := attendees_stay_within has hann
  refine ⟨attendeesOf es, _, has, hann, hdurations, htotal, hle fun e he => ?_⟩
  exact hleap e ((told_iff_mem hes e).mp he)

/-- With a leap second they may last longer: who leaves at 12:00:60 and joins again at once is
counted one second more than passes from 11:00:00 to 13:00:00. -/
example :
    let a := Attendee.ofEvents "Ann"
      [⟨.joined, ⟨39600, 0, by decide⟩⟩, ⟨.left, ⟨43259, 1000000000, by decide⟩⟩,
        ⟨.joined, ⟨43259, 1000000000, by decide⟩⟩] ⟨46800, 0, by decide⟩
    a.total = .ofSeconds 7201 ∧ a.closedAt - a.firstJoin = Span.ofSeconds 7200 := by
  decide

end Report

end RollCall
