/-
Where the sessions of an attendee lie.

The events are in the order of time and none is after the end of the meeting, so each
session begins where or after the one before it has ended, and the last one ends with the
meeting at the latest.  `InTurn` says so of the sessions, beginning at an instant from
which nothing happens before; for all the sessions that instant is the first join.

`Awaits` is what holds on the way through the events, with a session open or none.  Each of
the four things that an event can do keeps it.

Where no instant is a leap second, the lengths of sessions in turn add up to no more than
the time from the beginning to the end: the stretch up to each start is left out, and the
rest adjoins.
-/
import RollCall.Attendance.Session
import RollCall.Proofs.Instant.Difference

namespace RollCall

/-! ### Sessions in turn -/

/-- The sessions lie one behind the other between two instants. -/
inductive InTurn (closedAt : Instant) : Instant → List Session → Prop
  | nil {t : Instant} (hend : t ≤ closedAt) : InTurn closedAt t []
  | cons {t : Instant} {s : Session} {ss : List Session} (hstart : t ≤ s.start)
      (hstop : s.start ≤ s.stop) (hrest : InTurn closedAt s.stop ss) : InTurn closedAt t (s :: ss)

namespace InTurn

variable {closedAt t : Instant} {ss : List Session}

theorem le_closedAt (h : InTurn closedAt t ss) : t ≤ closedAt := by
  induction h with
  | nil hend => exact hend
  | cons hstart hstop _ ih => exact Int.le_trans hstart (Int.le_trans hstop ih)

/-- Each session runs forward and lies between the two instants. -/
theorem bounds (h : InTurn closedAt t ss) :
    ∀ s ∈ ss, t ≤ s.start ∧ s.start ≤ s.stop ∧ s.stop ≤ closedAt := by
  induction h with
  | nil => simp
  | @cons t s ss hstart hstop hrest ih =>
      intro r hr
      rcases List.mem_cons.mp hr with rfl | hr
      · exact ⟨hstart, hstop, hrest.le_closedAt⟩
      · obtain ⟨hle, hforward, hend⟩ := ih r hr
        exact ⟨Int.le_trans hstart (Int.le_trans hstop hle), hforward, hend⟩

/-- No session begins before one in front of it has ended. -/
theorem pairwise (h : InTurn closedAt t ss) : ss.Pairwise fun r s => r.stop ≤ s.start := by
  induction h with
  | nil => exact .nil
  | cons _ _ hrest ih => exact .cons (fun r hr => (hrest.bounds r hr).1) ih

/-- Sessions between whole seconds last whole seconds. -/
theorem isWhole_span (h : InTurn closedAt t ss)
    (hwhole : ∀ s ∈ ss, s.start.IsWhole ∧ s.stop.IsWhole) : ∀ s ∈ ss, s.span.IsWhole := by
  intro s hs
  obtain ⟨hstart, hstop⟩ := hwhole s hs
  exact Instant.isWhole_sub hstop hstart (h.bounds s hs).2.1

/-- **Sessions in turn last no longer than the time they lie in**, if no instant is a leap
second. -/
theorem total_le (h : InTurn closedAt t ss) (hclosed : closedAt.nanos = 0) (ht : t.nanos = 0)
    (hnanos : ∀ s ∈ ss, s.start.nanos = 0 ∧ s.stop.nanos = 0) :
    Span.total (ss.map Session.span) ≤ closedAt - t := by
  induction h with
  | @nil t hend =>
      show (0 : Int) ≤ (closedAt - t).nanos
      rw [Instant.nanos_sub_of_nanos_eq_zero hclosed ht, Span.second]
      have hle := Instant.le_iff.mp hend
      omega
  | @cons t s ss hstart _ _ ih =>
      obtain ⟨⟨hs, hstop⟩, hss⟩ := List.forall_mem_cons.mp hnanos
      have hrest : (Span.total (ss.map Session.span)).nanos ≤ (closedAt - s.stop).nanos :=
        ih hstop hss
      have hle := Instant.le_iff.mp hstart
      rw [List.map_cons, Span.total_cons]
      show (s.stop - s.start).nanos + (Span.total (ss.map Session.span)).nanos ≤
        (closedAt - t).nanos
      rw [Instant.nanos_sub_of_nanos_eq_zero hclosed hstop] at hrest
      rw [Instant.nanos_sub_of_nanos_eq_zero hstop hs, Instant.nanos_sub_of_nanos_eq_zero hclosed ht]
      unfold Span.second at hrest ⊢
      omega

end InTurn

namespace Attendee

/-! ### Going through the events -/

/-- The events to come are in the order of time, and the meeting ends after them. -/
structure Ahead (closedAt : Instant) (es : List Event) : Prop where
  ordered : Event.Ordered es
  bound : ∀ e ∈ es, e.time ≤ closedAt

namespace Ahead

variable {closedAt : Instant} {e : Event} {es : List Event}

theorem tail (h : Ahead closedAt (e :: es)) : Ahead closedAt es :=
  ⟨h.ordered.of_cons, fun x hx => h.bound x (by simp [hx])⟩

theorem head_le (h : Ahead closedAt (e :: es)) : ∀ x ∈ es, e.time ≤ x.time :=
  (List.pairwise_cons.mp h.ordered).1

end Ahead

/-- What holds of the events to come when nothing before an instant is left to be told. -/
structure Awaits (closedAt t : Instant) (opened : Option Instant) (es : List Event) : Prop where
  ahead : Ahead closedAt es
  left : t ≤ closedAt
  /-- If no session is open, the next one begins with a join. -/
  joins : opened = none → ∀ e ∈ es, e.action = .joined → t ≤ e.time
  /-- If one is open, it has begun and nothing to come is before that. -/
  since : ∀ start ∈ opened, t ≤ start ∧ start ≤ closedAt ∧ ∀ e ∈ es, start ≤ e.time

namespace Awaits

variable {closedAt t start : Instant} {e : Event} {es : List Event}

/-- A join opens a session. -/
theorem join (h : Awaits closedAt t none (e :: es)) (he : e.action = .joined) :
    Awaits closedAt t (some e.time) es where
  ahead := h.ahead.tail
  left := h.left
  joins := by simp
  since := by
    rintro _ ⟨⟩
    exact ⟨h.joins rfl e (by simp) he, h.ahead.bound e (by simp), h.ahead.head_le⟩

/-- A departure without a join is passed over. -/
theorem stray (h : Awaits closedAt t none (e :: es)) : Awaits closedAt t none es where
  ahead := h.ahead.tail
  left := h.left
  joins _ x hx := h.joins rfl x (by simp [hx])
  since := by simp

/-- So is a join while a session is open. -/
theorem rejoin (h : Awaits closedAt t (some start) (e :: es)) :
    Awaits closedAt t (some start) es where
  ahead := h.ahead.tail
  left := h.left
  joins := by simp
  since := by
    rintro _ ⟨⟩
    obtain ⟨ht, hclosed, hes⟩ := h.since start rfl
    exact ⟨ht, hclosed, fun x hx => hes x (by simp [hx])⟩

/-- A departure closes the session, and nothing to come is before it. -/
theorem leave (h : Awaits closedAt t (some start) (e :: es)) : Awaits closedAt e.time none es where
  ahead := h.ahead.tail
  left := h.ahead.bound e (by simp)
  joins _ x hx _ := h.ahead.head_le x hx
  since := by simp

end Awaits

/-- **The sessions of the events to come are in turn.** -/
theorem inTurn_sessionsFrom {closedAt : Instant} (opened : Option Instant) (es : List Event) :
    ∀ t, Awaits closedAt t opened es → InTurn closedAt t (sessionsFrom closedAt opened es) := by
  fun_induction sessionsFrom closedAt opened es with
  | case1 => intro t h; exact .nil h.left
  | case2 start =>
      -- The end of the meeting closes what is still open.
      intro t h
      obtain ⟨ht, hclosed, -⟩ := h.since start rfl
      exact .cons ht hclosed (.nil (Int.le_refl _))
  | case3 e es he ih => intro t h; exact ih t (h.join he)
  | case4 e es _ ih => intro t h; exact ih t h.stray
  | case5 start e es _ ih => intro t h; exact ih t h.rejoin
  | case6 start e es _ ih =>
      -- The next session lies behind this departure, so the bound moves on to it.
      intro t h
      obtain ⟨ht, -, hes⟩ := h.since start rfl
      exact .cons ht (hes e (by simp)) (ih e.time h.leave)

/-- Sessions begin and end at the times of events, or with the meeting. -/
theorem times_sessionsFrom {closedAt : Instant} {P : Instant → Prop} (hclosed : P closedAt)
    (opened : Option Instant) (es : List Event) :
    (∀ t ∈ opened, P t) → (∀ e ∈ es, P e.time) →
      ∀ s ∈ sessionsFrom closedAt opened es, P s.start ∧ P s.stop := by
  fun_induction sessionsFrom closedAt opened es with
  | case1 => simp
  | case2 start => intro hstart _; simpa using ⟨hstart start rfl, hclosed⟩
  | case3 e es _ ih =>
      intro _ hes
      obtain ⟨he, hes⟩ := List.forall_mem_cons.mp hes
      exact ih (by simpa using he) hes
  | case4 e es _ ih => intro hstart hes; exact ih hstart (List.forall_mem_cons.mp hes).2
  | case5 start e es _ ih => intro hstart hes; exact ih hstart (List.forall_mem_cons.mp hes).2
  | case6 start e es _ ih =>
      intro hstart hes
      obtain ⟨he, hes⟩ := List.forall_mem_cons.mp hes
      exact List.forall_mem_cons.mpr ⟨⟨hstart start rfl, he⟩, ih (by simp) hes⟩

/-! ### All events of an attendee -/

variable {a : Attendee}

theorem firstTime?_eq_some {action : Status} {es : List Event} {t : Instant}
    (h : firstTime? action es = some t) : ∃ e ∈ es, e.time = t := by
  obtain ⟨e, he, rfl⟩ := Option.map_eq_some_iff.mp h
  exact ⟨e, List.mem_of_find?_eq_some he, rfl⟩

/-- The first join is the time of an event, or the end of the meeting. -/
theorem firstJoin_cases (a : Attendee) :
    (∃ e ∈ a.events, e.time = a.firstJoin) ∨ a.firstJoin = a.closedAt := by
  unfold firstJoin
  cases hjoin : firstTime? .joined a.events with
  | some t => exact .inl (firstTime?_eq_some hjoin)
  | none =>
      cases a.events with
      | nil => exact .inr rfl
      | cons e es => exact .inl ⟨e, by simp, rfl⟩

/-- The last departure is the time of an event, or the end of the meeting. -/
theorem lastLeft_cases (a : Attendee) :
    (∃ e ∈ a.events, e.time = a.lastLeft) ∨ a.lastLeft = a.closedAt := by
  unfold lastLeft
  cases hleft : firstTime? .left a.events.reverse with
  | some t =>
      obtain ⟨e, he, htime⟩ := firstTime?_eq_some hleft
      exact .inl ⟨e, List.mem_reverse.mp he, htime⟩
  | none => exact .inr rfl

/-- No join is earlier than the first. -/
theorem firstJoin_le {e : Event} (he : e ∈ a.events) (hjoined : e.action = .joined) :
    a.firstJoin ≤ e.time := by
  unfold firstJoin firstTime?
  cases hfind : a.events.find? (·.action = .joined) with
  | none => simpa [hjoined] using List.find?_eq_none.mp hfind e he
  | some first =>
      obtain ⟨-, before, after, hevents, hbefore⟩ := List.find?_eq_some_iff_append.mp hfind
      show first.time ≤ e.time
      have hordered := a.ordered
      rw [hevents] at he hordered
      rcases List.mem_append.mp he with hmem | hmem
      · simpa [hjoined] using hbefore e hmem
      · rcases List.mem_cons.mp hmem with rfl | hmem
        · exact Int.le_refl _
        · exact (List.pairwise_cons.mp (List.pairwise_append.mp hordered).2.1).1 e hmem

/-- **The sessions lie between the first join and the end of the meeting.** -/
theorem inTurn_sessions (h : ∀ e ∈ a.events, e.time ≤ a.closedAt) :
    InTurn a.closedAt a.firstJoin a.sessions := by
  refine inTurn_sessionsFrom none a.events a.firstJoin ⟨⟨a.ordered, h⟩, ?_, ?_, by simp⟩
  · rcases firstJoin_cases a with ⟨e, he, htime⟩ | htime
    · exact htime ▸ h e he
    · exact htime ▸ Int.le_refl _
  · intro _ e he hjoined
    exact firstJoin_le he hjoined

theorem lastLeft_le (h : ∀ e ∈ a.events, e.time ≤ a.closedAt) : a.lastLeft ≤ a.closedAt := by
  rcases lastLeft_cases a with ⟨e, he, htime⟩ | htime
  · exact htime ▸ h e he
  · exact htime ▸ Int.le_refl _

theorem times_sessions {P : Instant → Prop} (hclosed : P a.closedAt)
    (h : ∀ e ∈ a.events, P e.time) : ∀ s ∈ a.sessions, P s.start ∧ P s.stop :=
  times_sessionsFrom hclosed none a.events (by simp) h

end Attendee

end RollCall
