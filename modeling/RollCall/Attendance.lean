/-
People who join and leave.

An attendee is a name, the joins and departures seen of it, and the end of the
meeting.  The events are held in the order of their times, and events of one time in
the order in which they were reported.  A report is nearly in order as it stands, so
the events are put in their places one by one from the last to the first: each goes in
front of all that are not earlier.
-/
import RollCall.Instant.Basic

namespace RollCall

/-- What an event says of a person: present or gone.  Having joined comes before having left. -/
inductive Status where
  | joined
  | left
deriving DecidableEq, Repr, Inhabited

namespace Status

/-- The word for a status. -/
def word : Status → String
  | .joined => "joined"
  | .left => "left"

/-- The place of a status in their order. -/
def rank : Status → Nat
  | .joined => 0
  | .left => 1

end Status

/-- Somebody joined or left. -/
structure Event where
  action : Status
  time : Instant
deriving DecidableEq, Repr, Inhabited

namespace Event

/-- Puts an event in front of all that are not earlier. -/
def place (e : Event) : List Event → List Event
  | [] => [e]
  | x :: xs => if e.time ≤ x.time then e :: x :: xs else x :: place e xs

/-- The events in the order of time, those of one time in the order given. -/
def inTimeOrder : List Event → List Event
  | [] => []
  | e :: es => place e (inTimeOrder es)

/-- Each event is at the time of the next one or before it. -/
def Ordered (es : List Event) : Prop :=
  es.Pairwise fun a b => a.time ≤ b.time

theorem mem_place {e x : Event} {es : List Event} : x ∈ place e es ↔ x = e ∨ x ∈ es := by
  induction es with
  | nil => simp [place]
  | cons y ys ih =>
    unfold place
    split
    · simp
    · simp [ih]
      constructor <;> (intro h; rcases h with h | h | h <;> simp [h])

theorem ordered_place {e : Event} {es : List Event} (h : Ordered es) : Ordered (place e es) := by
  induction es with
  | nil => simp [place, Ordered]
  | cons y ys ih =>
    obtain ⟨first, rest⟩ := List.pairwise_cons.1 h
    unfold place
    split
    · next le =>
      refine List.pairwise_cons.2 ⟨fun x hx => ?_, h⟩
      rcases List.mem_cons.1 hx with rfl | hx
      · exact le
      · exact Int.le_trans le (first x hx)
    · next gt =>
      refine List.pairwise_cons.2 ⟨fun x hx => ?_, ih rest⟩
      rcases mem_place.1 hx with rfl | hx
      · exact Int.le_of_lt (Int.not_le.1 gt)
      · exact first x hx

theorem ordered_inTimeOrder (es : List Event) : Ordered (inTimeOrder es) := by
  induction es with
  | nil => exact List.Pairwise.nil
  | cons e es ih => exact ordered_place ih

end Event

/-- A person, the events seen of them in the order of time, and the end of the meeting, which
closes a session that no departure has closed. -/
structure Attendee where
  name : String
  events : List Event
  closedAt : Instant
  ordered : Event.Ordered events
deriving DecidableEq

/-- The attendee of some events, in whatever order they were seen. -/
def Attendee.ofEvents (name : String) (events : List Event) (closedAt : Instant) : Attendee :=
  ⟨name, Event.inTimeOrder events, closedAt, Event.ordered_inTimeOrder events⟩

end RollCall
