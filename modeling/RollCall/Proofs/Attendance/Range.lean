/-
No total is too long.

However many sessions an attendee has, their lengths can be added up one by one, and every
sum on the way can be held.  A bound on each session says nothing here, as there is none on
their number.  But the sessions that departures have closed lie one behind the other, so what
bounds a single difference bounds their sum as well: `InTurn.total_bounds` adds up the ways
in seconds and in ranks, and whatever is added for leap seconds or taken off is within them.

The end of the meeting is left out of this, for it need not be after the events.  It closes
one session at most, the last, and that one may run back.  So the sessions are compared with
those that are closed at the end of the calendar, which are in turn, and the last one is
added with a bound of its own.
-/
import RollCall.Proofs.Attendance.Order
import RollCall.Proofs.Attendance.Stays
import RollCall.Proofs.Instant.Range

namespace RollCall

open Instant (earliest latest InCalendar)

namespace InTurn

variable {limit t : Instant} {ss : List Session}

/-- The first of some sessions in turn are in turn. -/
theorem of_prefix (h : InTurn limit t ss) :
    ∀ front, front <+: ss → InTurn limit t front := by
  induction h with
  | nil hend =>
      intro front hfront
      obtain rfl := List.prefix_nil.mp hfront
      exact .nil hend
  | cons hstart hstop hrest ih =>
      intro front hfront
      cases front with
      | nil => exact .nil (InTurn.cons hstart hstop hrest).le_closedAt
      | cons r front =>
          obtain ⟨rfl, htail⟩ := List.cons_prefix_cons.mp hfront
          exact .cons hstart hstop (ih front htail)

/-- The first of their lengths are those of sessions in turn. -/
theorem exists_of_prefix_map {front : List Span} (h : InTurn limit t ss)
    (hfront : front <+: ss.map Session.span) :
    ∃ rs, InTurn limit t rs ∧ front = rs.map Session.span := by
  refine ⟨ss.take front.length, h.of_prefix _ (List.take_prefix _ _), ?_⟩
  rw [List.map_take]
  exact List.prefix_iff_eq_take.mp hfront

/-- **Sessions in turn last no longer than the ranks between the two instants**, and not less than
the seconds between them counted back. -/
theorem total_bounds (h : InTurn limit t ss) :
    -((limit.seconds - t.seconds) * Span.second) ≤ (Span.total (ss.map Session.span)).nanos ∧
      (Span.total (ss.map Session.span)).nanos ≤ limit.rank - t.rank := by
  induction h with
  | @nil t hend =>
      show -((limit.seconds - t.seconds) * Span.second) ≤ 0 ∧ 0 ≤ limit.rank - t.rank
      have hseconds := Instant.le_iff.mp hend
      have hrank : t.rank ≤ limit.rank := hend
      unfold Span.second
      omega
  | @cons t s ss hstart hstop _ ih =>
      have hfirst := Instant.nanos_sub_bounds hstop
      have hseconds := Instant.le_iff.mp hstart
      have hrank : t.rank ≤ s.start.rank := hstart
      rw [List.map_cons, Span.total_cons]
      show _ ≤ (s.stop - s.start).nanos + (Span.total (ss.map Session.span)).nanos ∧
        (s.stop - s.start).nanos + (Span.total (ss.map Session.span)).nanos ≤ _
      unfold Span.second at hfirst ih ⊢
      omega

end InTurn

namespace Attendee

/-- The end of the meeting closes one session at most, and that is the last. -/
theorem sessionsFrom_cases (closedAt limit : Instant) (opened : Option Instant)
    (es : List Event) :
    sessionsFrom closedAt opened es = sessionsFrom limit opened es ∨
      ∃ ss start, sessionsFrom closedAt opened es = ss ++ [⟨start, closedAt⟩] ∧
        sessionsFrom limit opened es = ss ++ [⟨start, limit⟩] := by
  fun_induction sessionsFrom closedAt opened es with
  | case1 => exact .inl rfl
  | case2 start => exact .inr ⟨[], start, rfl, rfl⟩
  | case3 e es he ih => simpa only [sessionsFrom, he] using ih
  | case4 e es he ih => simpa only [sessionsFrom, he] using ih
  | case5 start e es he ih => simpa only [sessionsFrom, he] using ih
  | case6 start e es he ih =>
      simp only [sessionsFrom, he]
      rcases ih with hsame | ⟨ss, last, hsessions, hlimit⟩
      · exact .inl (congrArg _ hsame)
      · exact .inr ⟨⟨start, e.time⟩ :: ss, last, congrArg _ hsessions, congrArg _ hlimit⟩

variable {a : Attendee}

/-- The times of an attendee are instants of the calendar. -/
structure Dated (a : Attendee) : Prop where
  events : ∀ e ∈ a.events, e.time.InCalendar
  closedAt : a.closedAt.InCalendar

namespace Dated

/-- Closed at the end of the calendar, the sessions are in turn. -/
theorem inTurn (h : a.Dated) : InTurn latest earliest (sessionsFrom latest none a.events) := by
  have hbounds : ∀ e ∈ a.events, earliest ≤ e.time ∧ e.time ≤ latest :=
    fun e he => (h.events e he).bounds
  obtain ⟨hfrom, hto⟩ := h.closedAt.bounds
  refine inTurn_sessionsFrom none a.events earliest ⟨⟨a.ordered, ?_⟩, ?_, ?_, by simp⟩
  · exact fun e he => (hbounds e he).2
  · exact Int.le_trans hfrom hto
  · exact fun _ e he _ => (hbounds e he).1

/-- The first durations are those of sessions in turn; or they are all, and the last is one of its
own. -/
theorem prefix_cases (h : a.Dated) {front : List Span} (hfront : front <+: a.durations) :
    ∃ ss, InTurn latest earliest ss ∧ (front = ss.map Session.span ∨
      ∃ s ∈ a.sessions, front = ss.map Session.span ++ [s.span]) := by
  have hturn := h.inTurn
  rw [durations, sessions] at hfront
  rcases sessionsFrom_cases a.closedAt latest none a.events with
    hsame | ⟨ss, start, hsessions, hlatest⟩
  · rw [hsame] at hfront
    obtain ⟨rs, hrs, heq⟩ := hturn.exists_of_prefix_map hfront
    exact ⟨rs, hrs, .inl heq⟩
  · rw [hlatest] at hturn
    have hclosed := hturn.of_prefix ss (List.prefix_append _ _)
    rw [hsessions, List.map_append, List.map_singleton, List.prefix_concat_iff] at hfront
    rcases hfront with hall | hfront
    · have hlast : (⟨start, a.closedAt⟩ : Session) ∈ a.sessions := by
        rw [sessions, hsessions]
        simp
      exact ⟨ss, hclosed, .inr ⟨_, hlast, hall⟩⟩
    · obtain ⟨rs, hrs, heq⟩ := hclosed.exists_of_prefix_map hfront
      exact ⟨rs, hrs, .inl heq⟩

/-- Every session is one between instants of the calendar. -/
theorem span_bounds (h : a.Dated) : ∀ s ∈ a.sessions,
    -((latest.seconds - earliest.seconds + 3) * Span.second) ≤ s.span.nanos ∧
      s.span.nanos ≤ (latest.seconds - earliest.seconds + 3) * Span.second := by
  intro s hs
  obtain ⟨hstart, hstop⟩ := times_sessions h.closedAt h.events s hs
  exact hstop.sub_bounds hstart

/-- **Every running sum can be held.** -/
theorem inRange_total (h : a.Dated) :
    ∀ front, front <+: a.durations → (Span.total front).InRange := by
  intro front hfront
  obtain ⟨hearliest, hlatest⟩ := Instant.calendar_seconds
  have hrank : latest.rank - earliest.rank =
      (latest.seconds - earliest.seconds) * 2000000000 + 1999999999 := by
    rw [hearliest, hlatest]
    decide
  obtain ⟨ss, hss, hcases⟩ := h.prefix_cases hfront
  have hturn := hss.total_bounds
  unfold Span.InRange Span.longest
  rcases hcases with rfl | ⟨s, hs, rfl⟩
  · unfold Span.second at hturn
    omega
  · have hlast := h.span_bounds s hs
    rw [Span.total_concat]
    show _ ≤ (Span.total (ss.map Session.span)).nanos + s.span.nanos ∧
      (Span.total (ss.map Session.span)).nanos + s.span.nanos ≤ _
    unfold Span.second at hturn hlast
    omega

/-- So can every single length. -/
theorem inRange_durations (h : a.Dated) : ∀ d ∈ a.durations, d.InRange := by
  intro d hd
  obtain ⟨s, hs, rfl⟩ := List.mem_map.mp hd
  obtain ⟨hearliest, hlatest⟩ := Instant.calendar_seconds
  have hbounds := h.span_bounds s hs
  unfold Span.InRange Span.longest
  unfold Span.second at hbounds
  omega

end Dated

/--
**A total can be computed, whatever the events.**

Take any events, in any order and of any number, and any end of the meeting, be it before
them or after, all of them instants of the calendar and leap seconds with any fraction among
them.  The lengths of the sessions can be held, and so can every sum of the first of them.
So adding them up one by one never fails, and it gives the total.
-/
theorem ofEvents_total_in_range (name : String) {events : List Event} {closedAt : Instant}
    (hevents : ∀ e ∈ events, e.time.InCalendar) (hclosed : closedAt.InCalendar) :
    let a := Attendee.ofEvents name events closedAt
    (∀ d ∈ a.durations, d.InRange) ∧
      (∀ front, front <+: a.durations → (Span.total front).InRange) ∧
      Span.total? a.durations = some a.total := by
  intro a
  have hdated : a.Dated := by
    refine ⟨fun e he => hevents e ?_, hclosed⟩
    exact (Event.inTimeOrder_spec events).mem_iff.mp he
  have hrunning := hdated.inRange_total
  exact ⟨hdated.inRange_durations, hrunning, (Span.total?_eq_some_iff _ _).mpr ⟨hrunning, rfl⟩⟩

/-- Ann leaves at a midnight and had joined at the end of the leap second before it, so that less
than nothing has passed; and when she joins again the meeting has ended long ago. -/
theorem ofEvents_total_in_range_backward :
    let events : List Event := [⟨.joined, ⟨8210266876799, 1500000000, by decide⟩⟩,
      ⟨.left, ⟨86400, 0, by decide⟩⟩, ⟨.joined, ⟨86399, 1999999999, by decide⟩⟩]
    let closedAt : Instant := ⟨-8334601228800, 0, by decide⟩
    let a := Attendee.ofEvents "Ann" events closedAt
    (∀ e ∈ events, e.time.InCalendar) ∧ closedAt.InCalendar ∧
      a.durations = [⟨-999999999⟩, ⟨-16544868105600500000000⟩] ∧
      Span.total? a.durations = some ⟨-16544868105601499999999⟩ := by
  intro events closedAt a
  have hevents : ∀ e ∈ events, e.time.InCalendar := by decide +kernel
  have hclosed : closedAt.InCalendar := by decide +kernel
  obtain ⟨-, -, htotal⟩ := ofEvents_total_in_range "Ann" hevents hclosed
  have hdurations : a.durations = [⟨-999999999⟩, ⟨-16544868105600500000000⟩] := by
    decide +kernel
  have hsum : a.total = ⟨-16544868105601499999999⟩ := by
    rw [total, hdurations]
    decide
  exact ⟨hevents, hclosed, hdurations, htotal.trans (congrArg some hsum)⟩

end Attendee

end RollCall
