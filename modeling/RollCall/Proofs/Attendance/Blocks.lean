/-
Sessions as stretches of the events.

The events of an attendee fall into blocks: stretches of one action, each as long as it can
be.  Joins and departures then take turns, and a session is nothing but a block of joins: it
begins with the first event of the block and ends with the first event of the block behind
it, which is one of departures, or with the meeting if no block is behind it.  What else is
in a block makes no difference, and neither does a block of departures at the beginning.

The sessions are told event by event, with one open or none.  Within a block nothing changes
after its first event, so a whole block is one step, and the proof goes from block to block.
The last status and the first join are looked up from the two ends of the same events, and
the blocks say where those look-ups end.
-/
import Mathlib.Data.List.Chain
import RollCall.Attendance.Session
import RollCall.Proofs.Attendance.Order

namespace RollCall

/-- There are two actions. -/
theorem Status.eq_left_of_ne {s : Status} (h : s ≠ .joined) : s = .left := by
  cases s with
  | joined => exact absurd rfl h
  | left => rfl

/-- Events of one action side by side: the first of them and the others. -/
structure Block where
  first : Event
  later : List Event
  same : ∀ e ∈ later, e.action = first.action

namespace Block

/-- All events of a block. -/
def events (b : Block) : List Event :=
  b.first :: b.later

/-- What all events of a block say. -/
def action (b : Block) : Status :=
  b.first.action

theorem action_of_mem {b : Block} {e : Event} (h : e ∈ b.events) : e.action = b.action := by
  rcases List.mem_cons.mp h with rfl | h
  · rfl
  · exact b.same e h

/-- A block with one event more in front. -/
def extend (b : Block) (e : Event) (h : b.action = e.action) : Block :=
  ⟨e, b.events, fun _ hx => (action_of_mem hx).trans h⟩

/-- Two blocks side by side do not have the same action. -/
def Alternating (bs : List Block) : Prop :=
  bs.IsChain fun b c => b.action ≠ c.action

/-- Only the action of the first block counts. -/
theorem Alternating.of_action_eq {b c : Block} {bs : List Block} (h : Alternating (b :: bs))
    (hc : c.action = b.action) : Alternating (c :: bs) := by
  obtain ⟨hnext, hrest⟩ := List.isChain_cons.mp h
  refine List.isChain_cons.mpr ⟨fun d hd => ?_, hrest⟩
  rw [hc]
  exact hnext d hd

/-- The events are cut into blocks that are as long as they can be. -/
structure Divided (es : List Event) (bs : List Block) : Prop where
  whole : bs.flatMap Block.events = es
  turns : Alternating bs

/-! ### Cutting events into blocks -/

/-- Puts an event in front of some blocks, into the first of them if it fits there. -/
def push (e : Event) : List Block → List Block
  | [] => [⟨e, [], by simp⟩]
  | b :: bs => if h : b.action = e.action then b.extend e h :: bs else ⟨e, [], by simp⟩ :: b :: bs

/-- The blocks of some events. -/
def ofEvents (es : List Event) : List Block :=
  es.foldr push []

theorem push_of_eq {e : Event} {b : Block} (h : b.action = e.action) (bs : List Block) :
    push e (b :: bs) = b.extend e h :: bs :=
  dif_pos h

theorem push_of_ne {e : Event} {b : Block} (h : b.action ≠ e.action) (bs : List Block) :
    push e (b :: bs) = ⟨e, [], by simp⟩ :: b :: bs :=
  dif_neg h

theorem divided_push {es : List Event} {bs : List Block} (h : Divided es bs) (e : Event) :
    Divided (e :: es) (push e bs) := by
  obtain ⟨rfl, hturns⟩ := h
  cases bs with
  | nil => exact ⟨rfl, List.isChain_singleton _⟩
  | cons b bs =>
      by_cases hb : b.action = e.action
      · rw [push_of_eq hb]
        exact ⟨rfl, hturns.of_action_eq hb.symm⟩
      · rw [push_of_ne hb]
        exact ⟨rfl, List.isChain_cons_cons.mpr ⟨Ne.symm hb, hturns⟩⟩

/-- The blocks of some events are a division of them. -/
theorem divided_ofEvents (es : List Event) : Divided es (ofEvents es) := by
  induction es with
  | nil => exact ⟨rfl, List.isChain_nil⟩
  | cons e es ih => exact divided_push ih e

/-- **There is one way to cut events into blocks.** -/
theorem eq_ofEvents :
    ∀ (es : List Event) {bs : List Block}, Divided es bs → bs = ofEvents es := by
  intro es
  induction es with
  | nil =>
      intro bs h
      cases bs with
      | nil => rfl
      | cons b bs => exact absurd h.whole (by simp [Block.events])
  | cons e es ih =>
      intro bs h
      obtain ⟨hwhole, hturns⟩ := h
      match bs with
      | [] => cases hwhole
      | ⟨first, [], _⟩ :: bs =>
          obtain ⟨rfl, hrest⟩ := List.cons.inj hwhole
          have hblocks := ih ⟨hrest, hturns.tail⟩
          show _ = push first (ofEvents es)
          rw [← hblocks]
          cases bs with
          | nil => rfl
          | cons b bs =>
              have hne := (List.isChain_cons_cons.mp hturns).1
              rw [push_of_ne (Ne.symm hne)]
      | ⟨first, x :: later, hsame⟩ :: bs =>
          obtain ⟨rfl, hrest⟩ := List.cons.inj hwhole
          -- Without its first event the block still is one.
          have hx : x.action = first.action := hsame x (by simp)
          let b : Block := ⟨x, later, fun y hy => (hsame y (by simp [hy])).trans hx.symm⟩
          have hdivided : Divided es (b :: bs) := ⟨hrest, hturns.of_action_eq hx⟩
          have hblocks := ih hdivided
          show _ = push first (ofEvents es)
          rw [← hblocks, push_of_eq (b := b) hx]
          rfl

/-! ### Blocks of joins -/

/-- Each block and the one behind it. -/
def followed : List Block → List (Block × Option Block)
  | [] => []
  | b :: bs => (b, bs.head?) :: followed bs

/-- The blocks of joins, each with the block behind it. -/
def joins (bs : List Block) : List (Block × Option Block) :=
  (followed bs).filter (·.1.action = .joined)

/-- The session of a block: from its first event to the first event of the block behind it, or to
the end of the meeting. -/
def stay (closedAt : Instant) (p : Block × Option Block) : Session :=
  ⟨p.1.first.time, (p.2.map fun b => b.first.time).getD closedAt⟩

section Joins

variable {b : Block} {bs : List Block}

theorem joins_cons_joined (h : b.action = .joined) :
    joins (b :: bs) = (b, bs.head?) :: joins bs := by
  simp [joins, followed, h]

theorem joins_cons_left (h : b.action = .left) : joins (b :: bs) = joins bs := by
  simp [joins, followed, h]

/-- What is behind a block is the next one. -/
theorem mem_followed {p : Block × Option Block} (h : p ∈ followed bs) :
    ∃ before after, bs = before ++ p.1 :: after ∧ p.2 = after.head? := by
  induction bs with
  | nil => cases h
  | cons c bs ih =>
      rcases List.mem_cons.mp h with rfl | h
      · exact ⟨[], bs, rfl, rfl⟩
      · obtain ⟨before, after, rfl, hnext⟩ := ih h
        exact ⟨c :: before, after, rfl, hnext⟩

/-- Behind a block of joins there is one of departures, or nothing. -/
theorem action_of_mem_joins (hturns : Alternating bs) {p : Block × Option Block}
    (h : p ∈ joins bs) :
    ∀ c ∈ p.2, c.action = .left := by
  intro c hc
  obtain ⟨hmem, hjoined⟩ := List.mem_filter.mp h
  obtain ⟨before, after, rfl, hnext⟩ := mem_followed hmem
  rw [hnext] at hc
  have hne := (List.isChain_cons.mp (List.isChain_append.mp hturns).2.1).1 c hc
  rw [of_decide_eq_true hjoined] at hne
  exact Status.eq_left_of_ne (Ne.symm hne)

/-- Nothing is behind the last block. -/
theorem exists_followed_concat (bs : List Block) (b : Block) :
    ∃ ps, followed (bs ++ [b]) = ps ++ [(b, none)] := by
  induction bs with
  | nil => exact ⟨[], rfl⟩
  | cons c bs ih =>
      obtain ⟨ps, hps⟩ := ih
      exact ⟨(c, (bs ++ [b]).head?) :: ps, by simp [followed, hps]⟩

/-- The last block of joins has nothing behind it exactly if it is the last block of all. -/
theorem getLast?_joins_iff :
    (joins bs).getLast? = some (b, none) ↔ bs.getLast? = some b ∧ b.action = .joined := by
  constructor
  · intro h
    obtain ⟨hmem, hjoined⟩ := List.mem_filter.mp (List.mem_of_getLast? h)
    obtain ⟨before, after, rfl, hnext⟩ := mem_followed hmem
    obtain rfl := List.head?_eq_none_iff.mp hnext.symm
    exact ⟨by simp, of_decide_eq_true hjoined⟩
  · rintro ⟨hlast, hjoined⟩
    obtain ⟨before, rfl⟩ := List.getLast?_eq_some_iff.mp hlast
    obtain ⟨ps, hps⟩ := exists_followed_concat before b
    simp [joins, hps, hjoined]

end Joins

end Block

namespace Attendee

open Block

variable {closedAt start : Instant} {b : Block} {bs : List Block}

/-! ### A block is one step -/

/-- Joins while a session is open change nothing. -/
theorem sessionsFrom_joined_append {es : List Event} (h : ∀ e ∈ es, e.action = .joined)
    (rest : List Event) :
    sessionsFrom closedAt (some start) (es ++ rest) = sessionsFrom closedAt (some start) rest := by
  induction es with
  | nil => rfl
  | cons e es ih =>
      obtain ⟨he, hes⟩ := List.forall_mem_cons.mp h
      rw [List.cons_append, sessionsFrom, he]
      exact ih hes

/-- Neither do departures while none is open. -/
theorem sessionsFrom_left_append {es : List Event} (h : ∀ e ∈ es, e.action = .left)
    (rest : List Event) :
    sessionsFrom closedAt none (es ++ rest) = sessionsFrom closedAt none rest := by
  induction es with
  | nil => rfl
  | cons e es ih =>
      obtain ⟨he, hes⟩ := List.forall_mem_cons.mp h
      rw [List.cons_append, sessionsFrom, he]
      exact ih hes

/-- A block of joins opens a session with its first event. -/
theorem sessionsFrom_block_joined (h : b.action = .joined) (rest : List Event) :
    sessionsFrom closedAt none (b.events ++ rest) =
      sessionsFrom closedAt (some b.first.time) rest := by
  have hfirst : b.first.action = .joined := h
  rw [Block.events, List.cons_append, sessionsFrom, hfirst]
  exact sessionsFrom_joined_append (fun e he => (b.same e he).trans h) rest

/-- A block of departures closes the session with its first event. -/
theorem sessionsFrom_block_left (h : b.action = .left) (rest : List Event) :
    sessionsFrom closedAt (some start) (b.events ++ rest) =
      ⟨start, b.first.time⟩ :: sessionsFrom closedAt none rest := by
  have hfirst : b.first.action = .left := h
  rw [Block.events, List.cons_append, sessionsFrom, hfirst]
  exact congrArg _ (sessionsFrom_left_append (fun e he => (b.same e he).trans h) rest)

/-- A block of departures while no session is open is passed over. -/
theorem sessionsFrom_block_stray (h : b.action = .left) (rest : List Event) :
    sessionsFrom closedAt none (b.events ++ rest) = sessionsFrom closedAt none rest :=
  sessionsFrom_left_append (fun _ he => (Block.action_of_mem he).trans h) rest

/-! ### All blocks -/

/-- **The sessions are the stays of the blocks of joins.** -/
theorem sessionsFrom_blocks (closedAt : Instant) :
    ∀ bs : List Block, Alternating bs →
      sessionsFrom closedAt none (bs.flatMap Block.events) = (joins bs).map (stay closedAt) := by
  intro bs
  induction bs with
  | nil => intro _; rfl
  | cons b bs ih =>
      intro hturns
      have hrest := ih hturns.tail
      rw [List.flatMap_cons]
      cases hb : b.action with
      | left => rw [sessionsFrom_block_stray hb, joins_cons_left hb, hrest]
      | joined =>
          rw [sessionsFrom_block_joined hb, joins_cons_joined hb]
          cases bs with
          | nil => rfl
          | cons c bs =>
              have hc : c.action = .left := by
                have hne := (List.isChain_cons_cons.mp hturns).1
                rw [hb] at hne
                exact Status.eq_left_of_ne (Ne.symm hne)
              rw [List.flatMap_cons] at hrest ⊢
              rw [sessionsFrom_block_stray hc] at hrest
              rw [sessionsFrom_block_left hc, hrest]
              rfl

/-- The first join is the first event of the first block of joins. -/
theorem firstTime?_joined_blocks (bs : List Block) :
    firstTime? .joined (bs.flatMap Block.events) =
      (joins bs).head?.map fun p => p.1.first.time := by
  induction bs with
  | nil => rfl
  | cons b bs ih =>
      rw [List.flatMap_cons]
      cases hb : b.action with
      | joined =>
          have hfirst : b.first.action = .joined := hb
          simp [joins_cons_joined hb, Block.events, firstTime?, hfirst]
      | left =>
          have hnone : b.events.find? (·.action = .joined) = none := by
            rw [List.find?_eq_none]
            intro e he
            simp [(Block.action_of_mem he).trans hb]
          rw [joins_cons_left hb, ← ih]
          simp [firstTime?, List.find?_append, hnone]

/-- The last event says what the last block says. -/
theorem getLast?_blocks (bs : List Block) :
    (bs.flatMap Block.events).getLast?.map Event.action = bs.getLast?.map Block.action := by
  rcases List.eq_nil_or_concat bs with rfl | ⟨before, b, rfl⟩
  · rfl
  · have hlast : ∃ e, b.events.getLast? = some e ∧ e ∈ b.events := by
      have hne : b.events ≠ [] := by simp [Block.events]
      exact ⟨_, List.getLast?_eq_some_getLast hne, List.getLast_mem hne⟩
    obtain ⟨e, he, hmem⟩ := hlast
    simp [List.getLast?_append, he, Block.action_of_mem hmem]

/-- If an event is a join, there is a block of joins. -/
theorem joins_ne_nil_of_mem {e : Event} (h : e ∈ bs.flatMap Block.events)
    (he : e.action = .joined) :
    joins bs ≠ [] := by
  intro hnil
  have hnone := firstTime?_joined_blocks bs
  rw [hnil, List.head?_nil, Option.map_none, firstTime?, Option.map_eq_none_iff,
    List.find?_eq_none] at hnone
  simpa [he] using hnone e h

/-- The sessions are the stays of the blocks that the events are divided into. -/
theorem sessions_of_divided {a : Attendee} (h : Divided a.events bs) :
    a.sessions = (joins bs).map (stay a.closedAt) := by
  have hall := sessionsFrom_blocks a.closedAt bs h.turns
  rwa [h.whole] at hall

/-- Who was last seen joining is in the session of a last block of joins. -/
theorem finalStatus_of_divided {a : Attendee} (h : Divided a.events bs) :
    a.finalStatus = .joined ↔ ∃ b, (joins bs).getLast? = some (b, none) := by
  have hlast := getLast?_blocks bs
  rw [h.whole] at hlast
  simp only [getLast?_joins_iff]
  rw [finalStatus, hlast]
  cases bs.getLast? with
  | none => simp
  | some b => simp

/-- The first join is the start of the first session, if there is a join. -/
theorem firstJoin_of_divided {a : Attendee} (h : Divided a.events bs) {e : Event}
    (he : e ∈ a.events) (hjoined : e.action = .joined) :
    a.sessions.head?.map Session.start = some a.firstJoin := by
  rw [← h.whole] at he
  have hfirst := firstTime?_joined_blocks bs
  rw [h.whole] at hfirst
  rw [sessions_of_divided h, firstJoin, hfirst]
  cases hjoins : joins bs with
  | nil => exact absurd hjoins (joins_ne_nil_of_mem he hjoined)
  | cons p ps => rfl

/--
**The sessions of an attendee are the stays of the blocks of joins**, one for each, in their
order.

The events in the order of time are cut into blocks in one way.  A stay begins with the first
event of its block and ends with the first event of the block behind it, a block of departures,
or with the meeting if there is none.  Who was last seen joining is who is in a session that
the meeting ends; and the first join is the start of the first session, if anybody joined.
-/
theorem ofEvents_stays (name : String) (es : List Event) (closedAt : Instant) :
    let a := ofEvents name es closedAt
    Event.InTimeOrder es a.events ∧
      ∃ bs, (∀ cs, Divided a.events cs ↔ cs = bs) ∧
        a.sessions = (joins bs).map (stay closedAt) ∧
        a.durations = (joins bs).map (fun p => (stay closedAt p).stop - (stay closedAt p).start) ∧
        (∀ p ∈ joins bs, ∀ c ∈ p.2, c.action = .left) ∧
        (a.finalStatus = .joined ↔ ∃ b, (joins bs).getLast? = some (b, none)) ∧
        ((∃ e ∈ es, e.action = .joined) →
          a.sessions.head?.map Session.start = some a.firstJoin) := by
  intro a
  have hsort : Event.InTimeOrder es a.events := Event.inTimeOrder_spec es
  have hdivided := divided_ofEvents a.events
  have hsessions : a.sessions = (joins (Block.ofEvents a.events)).map (stay closedAt) :=
    sessions_of_divided hdivided
  refine ⟨hsort, Block.ofEvents a.events, fun cs => ⟨eq_ofEvents a.events, ?_⟩, hsessions, ?_,
    fun p => action_of_mem_joins hdivided.turns, finalStatus_of_divided hdivided, ?_⟩
  · rintro rfl
    exact hdivided
  · rw [durations, hsessions, List.map_map]
    rfl
  · rintro ⟨e, he, hjoined⟩
    exact firstJoin_of_divided hdivided (hsort.mem_iff.mpr he) hjoined

/-- A departure that nothing came before, a join told twice, a departure told twice, and a join
that the meeting ends. -/
theorem ofEvents_stays_returning :
    let es : List Event := [⟨.joined, ⟨600, 0, by decide⟩⟩, ⟨.left, ⟨0, 0, by decide⟩⟩,
      ⟨.joined, ⟨300, 0, by decide⟩⟩, ⟨.left, ⟨900, 0, by decide⟩⟩, ⟨.left, ⟨960, 0, by decide⟩⟩,
      ⟨.joined, ⟨1200, 0, by decide⟩⟩]
    let a := ofEvents "Ann" es ⟨1800, 0, by decide⟩
    a.durations = [.ofSeconds 600, .ofSeconds 600] ∧ a.finalStatus = .joined ∧
      (∃ bs b, Divided a.events bs ∧ (joins bs).length = 2 ∧
        (joins bs).getLast? = some (b, none)) ∧
      a.sessions.head?.map Session.start = some a.firstJoin := by
  intro es a
  obtain ⟨-, bs, hbs, -, hdurations, -, hfinal, hfirst⟩ :=
    ofEvents_stays "Ann" es ⟨1800, 0, by decide⟩
  have hspans : a.durations = [.ofSeconds 600, .ofSeconds 600] := by decide
  have hstatus : a.finalStatus = .joined := by decide
  obtain ⟨b, hlast⟩ := hfinal.mp hstatus
  have hlength : (joins bs).length = 2 := by
    have hsame := congrArg List.length (hdurations.symm.trans hspans)
    rwa [List.length_map] at hsame
  exact ⟨hspans, hstatus, ⟨bs, b, (hbs bs).mpr rfl, hlength, hlast⟩,
    hfirst ⟨⟨.joined, ⟨600, 0, by decide⟩⟩, by decide, rfl⟩⟩

end Attendee

end RollCall
