/-
Sessions.

The events of an attendee are cut into sessions.  A join opens a session if none is
open, and joining again changes nothing; a departure closes the open session, and one
without an open session means nothing.  What is still open at the last event is closed
by the end of the meeting.
-/
import RollCall.Attendance

namespace RollCall

/-- A stay, from a join to a departure or to the end of the meeting. -/
structure Session where
  start : Instant
  stop : Instant
deriving DecidableEq, Repr, Inhabited

/-- The length of a session. -/
def Session.span (s : Session) : Span :=
  s.stop - s.start

namespace Attendee

/-- The sessions of the events to come, given the start of the session that is open. -/
def sessionsFrom (closedAt : Instant) : Option Instant → List Event → List Session
  | none, [] => []
  | some start, [] => [⟨start, closedAt⟩]
  | none, e :: es =>
    match e.action with
    | .joined => sessionsFrom closedAt (some e.time) es
    | .left => sessionsFrom closedAt none es
  | some start, e :: es =>
    match e.action with
    | .joined => sessionsFrom closedAt (some start) es
    | .left => ⟨start, e.time⟩ :: sessionsFrom closedAt none es

/-- The sessions of an attendee, in the order of time. -/
def sessions (a : Attendee) : List Session :=
  sessionsFrom a.closedAt none a.events

/-- The time of the first event of the given kind. -/
def firstTime? (action : Status) (events : List Event) : Option Instant :=
  (events.find? (·.action = action)).map Event.time

/-- The first join; without one the first event, and without any the end of the meeting. -/
def firstJoin (a : Attendee) : Instant :=
  (firstTime? .joined a.events).getD ((a.events.head?.map Event.time).getD a.closedAt)

/-- The last departure; without one the end of the meeting. -/
def lastLeft (a : Attendee) : Instant :=
  (firstTime? .left a.events.reverse).getD a.closedAt

/-- The lengths of the sessions. -/
def durations (a : Attendee) : List Span :=
  a.sessions.map Session.span

/-- The lengths of the sessions together. -/
def total (a : Attendee) : Span :=
  Span.total a.durations

/-- The kind of the last event; who was never seen has left. -/
def finalStatus (a : Attendee) : Status :=
  (a.events.getLast?.map Event.action).getD .left

end Attendee

end RollCall
