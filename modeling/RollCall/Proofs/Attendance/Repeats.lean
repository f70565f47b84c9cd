/-
Events told more than once.

If no time has both a join and a departure, the events of one time are one event told
again and again, and in the order of time its repetitions stand side by side.  Leaving out
all but one of them changes nothing that is said of an attendee: a second join finds a
session open, a second departure finds none, and the first join, the last departure and
the last event keep their times.

What is left has every event once, in an order that its members alone decide.  Therefore
two attendees who were seen in the same events agree in every field, however often and in
whatever order the events were told.
-/
import Mathlib.Data.List.Dedup
import Mathlib.Data.List.Sort
import RollCall.Field
import RollCall.Proofs.Attendance.Order

namespace RollCall

namespace Event

/-- No time has both a join and a departure. -/
def Unmixed (es : List Event) : Prop :=
  ∀ e ∈ es, ∀ f ∈ es, e.time = f.time → e.action = f.action

variable {e : Event} {es : List Event}

theorem Unmixed.tail (h : Unmixed (e :: es)) : Unmixed es :=
  fun x hx y hy => h x (List.mem_cons_of_mem _ hx) y (List.mem_cons_of_mem _ hy)

theorem Unmixed.of_same {es' : List Event} (h : Unmixed es) (hmem : ∀ e, e ∈ es ↔ e ∈ es') :
    Unmixed es' :=
  fun x hx y hy => h x ((hmem x).mpr hx) y ((hmem y).mpr hy)

theorem Unmixed.eq (h : Unmixed es) {x y : Event} (hx : x ∈ es) (hy : y ∈ es)
    (htime : x.time = y.time) : x = y := by
  have haction := h x hx y hy htime
  cases x
  cases y
  simp_all

/-- An event that is told again is told again at once. -/
theorem eq_cons_of_mem (hord : Ordered (e :: es)) (hun : Unmixed (e :: es)) (he : e ∈ es) :
    ∃ rest, es = e :: rest := by
  obtain ⟨hfirst, htail⟩ := List.pairwise_cons.mp hord
  cases es with
  | nil => cases he
  | cons x rest =>
      have hle : e.time ≤ x.time := hfirst x List.mem_cons_self
      have hge : x.time ≤ e.time := by
        rcases List.mem_cons.mp he with rfl | he
        · exact Int.le_refl _
        · exact (List.pairwise_cons.mp htail).1 e he
      have htime : e.time = x.time := Instant.rank_injective (Int.le_antisymm hle hge)
      exact ⟨rest, by rw [hun.eq (by simp) (by simp) htime]⟩

/--
What does not look at repetitions side by side is the same when they are left out.

`f` may be any function of the events, and its value on one event more has to be decided by
that event and its value on the rest.
-/
theorem apply_dedup {α : Type} {f : List Event → α} (hord : Ordered es) (hun : Unmixed es)
    (hrepeat : ∀ e es, f (e :: e :: es) = f (e :: es))
    (hcons : ∀ e es es', f es = f es' → f (e :: es) = f (e :: es')) : f es.dedup = f es := by
  induction es with
  | nil => rfl
  | cons e es ih =>
      have hrest := ih (List.pairwise_cons.mp hord).2 hun.tail
      by_cases he : e ∈ es
      · obtain ⟨rest, rfl⟩ := eq_cons_of_mem hord hun he
        rw [List.dedup_cons_of_mem he, hrest, hrepeat]
      · rw [List.dedup_cons_of_notMem he]
        exact hcons e _ _ hrest

/-- Without repetitions each event is before the next one. -/
theorem pairwise_lt_dedup (hord : Ordered es) (hun : Unmixed es) :
    es.dedup.Pairwise fun a b => a.time < b.time := by
  have hle : Ordered es.dedup := hord.sublist (List.dedup_sublist es)
  refine (hle.and (List.nodup_dedup es)).imp_of_mem ?_
  intro a b ha hb hab
  refine Int.lt_iff_le_and_ne.mpr ⟨hab.1, fun hrank => hab.2 ?_⟩
  exact hun.eq (List.mem_dedup.mp ha) (List.mem_dedup.mp hb) (Instant.rank_injective hrank)

/-- Without repetitions the events in order are decided by which events there are. -/
theorem dedup_eq_of_mem_iff {es es' : List Event} (hord : Ordered es) (hord' : Ordered es')
    (hun : Unmixed es) (hmem : ∀ e, e ∈ es ↔ e ∈ es') : es.dedup = es'.dedup := by
  have hun' : Unmixed es' := hun.of_same hmem
  have : Std.Irrefl fun a b : Event => a.time < b.time := ⟨fun a => Int.lt_irrefl _⟩
  have : Std.Antisymm fun a b : Event => a.time < b.time :=
    ⟨fun a b hab hba => absurd hba (Int.lt_asymm hab)⟩
  refine (pairwise_lt_dedup hord hun).eq_of_mem_iff (pairwise_lt_dedup hord' hun') fun e => ?_
  rw [List.mem_dedup, List.mem_dedup]
  exact hmem e

end Event

namespace Attendee

open Event

/-- The attendee with every event told once. -/
def once (a : Attendee) : Attendee :=
  { a with
    events := a.events.dedup
    ordered := a.ordered.sublist (List.dedup_sublist a.events) }

variable {a b : Attendee}

/-! ### What is said of an attendee -/

/-- A second join finds a session open, and a second departure finds none. -/
theorem sessionsFrom_repeat (closedAt : Instant) (opened : Option Instant) (e : Event)
    (es : List Event) :
    sessionsFrom closedAt opened (e :: e :: es) = sessionsFrom closedAt opened (e :: es) := by
  obtain ⟨action, time⟩ := e
  cases opened <;> cases action <;> rfl

theorem sessionsFrom_cons_congr {closedAt : Instant} {es es' : List Event}
    (h : ∀ opened, sessionsFrom closedAt opened es = sessionsFrom closedAt opened es')
    (opened : Option Instant) (e : Event) :
    sessionsFrom closedAt opened (e :: es) = sessionsFrom closedAt opened (e :: es') := by
  obtain ⟨action, time⟩ := e
  cases opened <;> cases action <;> simp only [sessionsFrom, h]

theorem sessions_once (h : Unmixed a.events) : a.once.sessions = a.sessions := by
  -- Which session is open differs from event to event, so all starts are followed at once.
  have hall := apply_dedup (f := fun es opened => sessionsFrom a.closedAt opened es) a.ordered h
    (fun e es => funext fun opened => sessionsFrom_repeat a.closedAt opened e es)
    (fun e es es' heq => funext fun opened =>
      sessionsFrom_cons_congr (fun o => congrFun heq o) opened e)
  exact congrFun hall none

theorem durations_once (h : Unmixed a.events) : a.once.durations = a.durations := by
  rw [durations, sessions_once h, durations]

theorem firstJoin_once (h : Unmixed a.events) : a.once.firstJoin = a.firstJoin := by
  have hfirst : firstTime? .joined a.once.events = firstTime? .joined a.events := by
    refine apply_dedup (f := firstTime? .joined) a.ordered h ?_ ?_
    · intro e es
      by_cases he : e.action = .joined <;> simp [firstTime?, he]
    · intro e es es' heq
      by_cases he : e.action = .joined
      · simp [firstTime?, he]
      · simpa [firstTime?, he] using heq
  have hhead : a.once.events.head? = a.events.head? :=
    apply_dedup (f := List.head?) a.ordered h (fun _ _ => rfl) (fun _ _ _ _ => rfl)
  rw [firstJoin, hfirst, hhead]
  rfl

theorem lastLeft_once (h : Unmixed a.events) : a.once.lastLeft = a.lastLeft := by
  have hlast : firstTime? .left a.once.events.reverse = firstTime? .left a.events.reverse := by
    refine apply_dedup (f := fun es => firstTime? .left es.reverse) a.ordered h ?_ ?_
    · intro e es
      by_cases he : e.action = .left <;> simp [firstTime?, List.find?_append, he]
    · intro e es es' heq
      simp only [firstTime?, List.reverse_cons, List.find?_append, Option.map_or] at heq ⊢
      rw [heq]
  rw [lastLeft, hlast]
  rfl

theorem finalStatus_once (h : Unmixed a.events) : a.once.finalStatus = a.finalStatus := by
  have hlast : a.once.events.getLast? = a.events.getLast? := by
    refine apply_dedup (f := List.getLast?) a.ordered h ?_ ?_
    · intro e es
      exact List.getLast?_cons_cons
    · intro e es es' heq
      rw [List.getLast?_cons, List.getLast?_cons, heq]
  rw [finalStatus, hlast]
  rfl

/-- **Telling an event again changes no field.** -/
theorem read_once (h : Unmixed a.events) (f : Field) : f.read a.once = f.read a := by
  cases f with
  | name => rfl
  | firstJoin => exact congrArg Value.instant (firstJoin_once h)
  | lastLeft => exact congrArg Value.instant (lastLeft_once h)
  | durations => exact congrArg Value.spans (durations_once h)
  | total => exact congrArg (fun ds => Value.span (Span.total ds)) (durations_once h)
  | finalStatus => exact congrArg Value.status (finalStatus_once h)

/-- **The events decide every field, whatever their number and order.** -/
theorem read_eq_of_mem_iff (hname : a.name = b.name) (hclosed : a.closedAt = b.closedAt)
    (hun : Unmixed a.events) (hmem : ∀ e, e ∈ a.events ↔ e ∈ b.events) (f : Field) :
    f.read a = f.read b := by
  have hun' : Unmixed b.events := hun.of_same hmem
  have honce : a.once = b.once := by
    obtain ⟨name, events, closedAt, ordered⟩ := a
    obtain ⟨name', events', closedAt', ordered'⟩ := b
    obtain rfl : name = name' := hname
    obtain rfl : closedAt = closedAt' := hclosed
    have hevents := dedup_eq_of_mem_iff ordered ordered' hun hmem
    simp only [once, hevents]
  rw [← read_once hun, honce, read_once hun']

end Attendee

end RollCall
