/-
What the rows of others change about an attendee.

The rows of all people pass through one list of entries, and the latest time of the list
closes everybody's meeting.  Still an attendee depends on nothing but the rows of that
name and this one time: `Grouped.eq_of_entriesOf` says so, for the events in the order of
time are decided by the entries of the name, however others stand between them.

And even the time does not matter to somebody who has left.  There are three ways in which
the end of the meeting may stand in for something that was not seen: for a first join, for
a last departure and for the end of a session.  A last event that is a departure rules out
all of them.  For the sessions this is followed through the events, with one open or none:
`sessionsFrom_of_left` keeps that none is open when no event is left.
-/
import RollCall.Proofs.Report.Retelling

namespace RollCall

namespace Attendee

/-! ### Somebody who has left -/

/-- The sessions do not depend on the end of the meeting if the last event is a departure; without
any event to come, no session may be open. -/
theorem sessionsFrom_of_left (closedAt closedAt' : Instant) :
    ∀ (es : List Event) (opened : Option Instant), (es = [] → opened = none) →
      (∀ e ∈ es.getLast?, e.action = .left) →
      sessionsFrom closedAt opened es = sessionsFrom closedAt' opened es := by
  intro es
  induction es with
  | nil =>
      intro opened hnone _
      rw [hnone rfl]
      rfl
  | cons e es ih =>
      intro opened _ hlast
      have hrest : ∀ x ∈ es.getLast?, x.action = .left := by
        intro x hx
        refine hlast x ?_
        rw [List.getLast?_cons, Option.mem_def.mp hx]
        rfl
      -- A join is not the last event, so the session that it opens has a departure behind it.
      have hmore : e.action = .joined → es ≠ [] := by
        rintro hjoined rfl
        rw [hlast e rfl] at hjoined
        cases hjoined
      cases haction : e.action with
      | joined =>
          have hstep := fun start : Instant =>
            ih (some start) (fun hnil => absurd hnil (hmore haction)) hrest
          cases opened with
          | none => simpa only [sessionsFrom, haction] using hstep e.time
          | some start => simpa only [sessionsFrom, haction] using hstep start
      | left =>
          have hstep := ih none (fun _ => rfl) hrest
          cases opened with
          | none => simpa only [sessionsFrom, haction] using hstep
          | some start => simpa only [sessionsFrom, haction] using congrArg _ hstep

variable {a b : Attendee}

/-- Whoever was seen and has left was seen leaving. -/
theorem getLast?_of_left (hseen : a.events ≠ []) (hleft : a.finalStatus = .left) :
    ∃ e, a.events.getLast? = some e ∧ e.action = .left := by
  have hlast := List.getLast?_eq_some_getLast hseen
  refine ⟨_, hlast, ?_⟩
  rw [finalStatus, hlast] at hleft
  exact hleft

theorem sessions_eq_of_left (hevents : a.events = b.events) (hseen : a.events ≠ [])
    (hleft : a.finalStatus = .left) : a.sessions = b.sessions := by
  obtain ⟨e, hlast, haction⟩ := getLast?_of_left hseen hleft
  rw [sessions, sessions, ← hevents]
  refine sessionsFrom_of_left _ _ _ none (fun _ => rfl) fun x hx => ?_
  obtain rfl : e = x := Option.some.inj (hlast.symm.trans hx)
  exact haction

/-- Of somebody who was seen the first event is known, if no join is. -/
theorem firstJoin_eq_of_ne_nil (hevents : a.events = b.events) (hseen : a.events ≠ []) :
    a.firstJoin = b.firstJoin := by
  obtain ⟨e, es, hcons⟩ := List.exists_cons_of_ne_nil hseen
  rw [firstJoin, firstJoin, ← hevents, hcons]
  rfl

theorem lastLeft_eq_of_left (hevents : a.events = b.events) (hseen : a.events ≠ [])
    (hleft : a.finalStatus = .left) : a.lastLeft = b.lastLeft := by
  obtain ⟨e, hlast, haction⟩ := getLast?_of_left hseen hleft
  obtain ⟨before, hsplit⟩ := List.getLast?_eq_some_iff.mp hlast
  rw [lastLeft, lastLeft, ← hevents, hsplit]
  simp [firstTime?, haction]

/-- **Whoever has left does not depend on the end of the meeting.** -/
theorem read_eq_of_left (hname : a.name = b.name) (hevents : a.events = b.events)
    (hseen : a.events ≠ []) (hleft : a.finalStatus = .left) (f : Field) : f.read a = f.read b := by
  have hsessions := sessions_eq_of_left hevents hseen hleft
  have hdurations : a.durations = b.durations := congrArg (List.map Session.span) hsessions
  cases f with
  | name => exact congrArg Value.text hname
  | firstJoin => exact congrArg Value.instant (firstJoin_eq_of_ne_nil hevents hseen)
  | lastLeft => exact congrArg Value.instant (lastLeft_eq_of_left hevents hseen hleft)
  | durations => exact congrArg Value.spans hdurations
  | total => exact congrArg (fun ds => Value.span (Span.total ds)) hdurations
  | finalStatus =>
      have hstatus : a.finalStatus = b.finalStatus := by
        rw [finalStatus, finalStatus, hevents]
      exact congrArg Value.status hstatus

end Attendee

namespace Report

open Table

theorem IsLatest.unique {es : List Entry} {t u : Instant} (ht : IsLatest es t)
    (hu : IsLatest es u) : t = u := by
  obtain ⟨e, he, rfl⟩ := ht.attained
  obtain ⟨f, hf, rfl⟩ := hu.attained
  exact Instant.rank_injective (Int.le_antisymm (hu.bound e he) (ht.bound f hf))

/-- Where nobody is listed twice, a name stands for one attendee. -/
theorem filter_name_eq {as : List Attendee} (hdistinct : (as.map Attendee.name).Nodup)
    {a : Attendee} (ha : a ∈ as) : as.filter (·.name = a.name) = [a] := by
  induction as with
  | nil => cases ha
  | cons x as ih =>
      obtain ⟨hx, hrest⟩ := List.nodup_cons.mp hdistinct
      rcases List.mem_cons.mp ha with rfl | ha
      · have hnone : as.filter (·.name = a.name) = [] := by
          rw [List.filter_eq_nil_iff]
          intro b hb
          have hne : b.name ≠ a.name := fun h => hx (h ▸ List.mem_map_of_mem hb)
          simpa using hne
        simp [hnone]
      · have hne : x.name ≠ a.name := fun h => hx (h ▸ List.mem_map_of_mem ha)
        simpa [hne] using ih hrest ha

namespace Grouped

variable {es es' : List Entry} {as as' : List Attendee} {a b : Attendee}

/-- A name without entries is nobody's. -/
theorem notMem_names (h : Grouped es as) {n : String} (hnone : entriesOf n es = []) :
    n ∉ as.map Attendee.name := by
  rw [h.everybody]
  rintro ⟨e, he, rfl⟩
  have hmem : e ∈ entriesOf e.name es := List.mem_filter.mpr ⟨he, by simp⟩
  rw [hnone] at hmem
  cases hmem

/-- A name with entries stands for one attendee, who was seen. -/
theorem exists_only (h : Grouped es as) {n : String} (hsome : entriesOf n es ≠ []) :
    ∃ a ∈ as, a.name = n ∧ a.events ≠ [] ∧ as.filter (·.name = n) = [a] := by
  obtain ⟨e, he⟩ := List.exists_mem_of_ne_nil _ hsome
  obtain ⟨hmem, hname⟩ := List.mem_filter.mp he
  have hlisted := (h.everybody n).mpr ⟨e, hmem, by simpa using hname⟩
  obtain ⟨a, ha, rfl⟩ := List.mem_map.mp hlisted
  refine ⟨a, ha, rfl, ?_, filter_name_eq h.distinct ha⟩
  have hevent : e.event ∈ a.events := (h.events a ha).mem_iff.mpr (List.mem_map_of_mem he)
  exact List.ne_nil_of_mem hevent

/-- The events of an attendee are decided by the entries of the name. -/
theorem events_eq_of_entriesOf (h : Grouped es as) (h' : Grouped es' as') (ha : a ∈ as)
    (hb : b ∈ as') (hname : a.name = b.name)
    (hsame : entriesOf a.name es = entriesOf a.name es') : a.events = b.events := by
  have hsorted := h.events a ha
  have hsorted' := h'.events b hb
  rw [← hname] at hsorted'
  rw [show es.filter (·.name = a.name) = es'.filter (·.name = a.name) from hsame] at hsorted
  exact Event.inTimeOrder_unique _ _ hsorted hsorted'

/-- **The entries of the name and the end of the meeting decide an attendee.** -/
theorem eq_of_entriesOf (h : Grouped es as) (h' : Grouped es' as') (ha : a ∈ as) (hb : b ∈ as')
    (hname : a.name = b.name) (hsame : entriesOf a.name es = entriesOf a.name es') {t : Instant}
    (ht : IsLatest es t) (ht' : IsLatest es' t) : a = b := by
  have hevents := h.events_eq_of_entriesOf h' ha hb hname hsame
  have hclosed : a.closedAt = b.closedAt :=
    ((h.closing a ha).unique ht).trans ((h'.closing b hb).unique ht').symm
  cases a
  cases b
  simp_all

end Grouped

/-! ### Reports -/

/-- The entries that the rows behind the titles say, row by row. -/
def Tells (rows : List Row) (es : List Entry) : Prop :=
  List.Forall₂ (fun row e => Says (titlesOf rows) (trimmedCells row) e) rows.tail es

theorem entriesOfRows_eq_ok_iff {rows : List Row} {es : List Entry} :
    entriesOfRows rows = .ok es ↔ Tells rows es := by
  rw [entriesOfRows_eq]
  exact entriesFrom_eq_ok_iff rows.tail 1 es

theorem exists_tells_grouped {rows : List Row} {as : List Attendee}
    (h : attendeesOfRows rows = .ok as) : ∃ es, Tells rows es ∧ Grouped es as := by
  obtain ⟨es, hes, rfl⟩ := Result.map_eq_ok.mp h
  exact ⟨es, entriesOfRows_eq_ok_iff.mp hes, grouped_attendeesOf es⟩

/--
**An attendee is isolated from the rows of others.**

Let two reports have the same rows of one name, in the same order.  If there are none, neither
lists anybody of that name.  Else each lists one attendee of that name, whatever rows of others
there are and wherever they stand: the same one if the latest times of the reports agree, and one
of the same six fields, whether they agree or not, if the attendee has left.
-/
theorem attendees_isolated {rows rows' : List Row} {as as' : List Attendee}
    (h : attendeesOfRows rows = .ok as) (h' : attendeesOfRows rows' = .ok as') :
    ∃ es es', Tells rows es ∧ Tells rows' es' ∧ ∀ n, entriesOf n es = entriesOf n es' →
      (entriesOf n es = [] → n ∉ as.map Attendee.name ∧ n ∉ as'.map Attendee.name) ∧
      (entriesOf n es ≠ [] →
        ∃ a b, as.filter (·.name = n) = [a] ∧ as'.filter (·.name = n) = [b] ∧
          ((∃ t, IsLatest es t ∧ IsLatest es' t) → a = b) ∧
          (a.finalStatus = .left → ∀ f : Field, f.read a = f.read b)) := by
  obtain ⟨es, htells, hgroup⟩ := exists_tells_grouped h
  obtain ⟨es', htells', hgroup'⟩ := exists_tells_grouped h'
  refine ⟨es, es', htells, htells', fun n hsame => ⟨fun hnone => ?_, fun hsome => ?_⟩⟩
  · exact ⟨hgroup.notMem_names hnone, hgroup'.notMem_names (hsame ▸ hnone)⟩
  · obtain ⟨a, ha, rfl, hseen, honly⟩ := hgroup.exists_only hsome
    obtain ⟨b, hb, hname, -, honly'⟩ := hgroup'.exists_only (hsame ▸ hsome)
    refine ⟨a, b, honly, honly', ?_, fun hleft f => ?_⟩
    · rintro ⟨t, ht, ht'⟩
      exact hgroup.eq_of_entriesOf hgroup' ha hb hname.symm hsame ht ht'
    · have hevents := hgroup.events_eq_of_entriesOf hgroup' ha hb hname.symm hsame
      exact Attendee.read_eq_of_left hname.symm hevents hseen hleft f

/-- Ann comes and leaves.  In two reports somebody else leaves last, at the same time in both, and in
the third nobody is there but her. -/
theorem attendees_isolated_departed :
    let titles := "Full Name\tUser Action\tTimestamp\n"
    let joined := "Ann\tJoined\t2021-03-15 10:00:00\n"
    let left := "Ann\tLeft\t2021-03-15 10:30:00\n"
    let text := titles ++ joined ++ "Bob\tJoined\t2021-03-15 10:10:00\n" ++ left ++
      "Bob\tLeft\t2021-03-15 11:00:00\n"
    let text' := titles ++ "Cal\tLeft\t3/15/2021, 11:00:00 AM\n" ++ joined ++ left
    let text'' := titles ++ joined ++ left
    ∃ as as' as'' a b, attendees text = .ok as ∧ attendees text' = .ok as' ∧
      attendees text'' = .ok as'' ∧ as.filter (·.name = "Ann") = [a] ∧
      as'.filter (·.name = "Ann") = [a] ∧ as''.filter (·.name = "Ann") = [b] ∧
      a.closedAt ≠ b.closedAt ∧ a.finalStatus = .left ∧ ∀ f : Field, f.read a = f.read b := by
  intro titles joined left text text' text''
  let arrival : Entry := ⟨"Ann", .joined, ⟨1615802400, 0, by decide⟩⟩
  let departure : Entry := ⟨"Ann", .left, ⟨1615804200, 0, by decide⟩⟩
  let last (name : String) : Entry := ⟨name, .left, ⟨1615806000, 0, by decide⟩⟩
  let es : List Entry :=
    [arrival, ⟨"Bob", .joined, ⟨1615803000, 0, by decide⟩⟩, departure, last "Bob"]
  let es' : List Entry := [last "Cal", arrival, departure]
  let es'' : List Entry := [arrival, departure]
  have hes : entriesOfRows (rows text) = .ok es := by decide +kernel
  have hes' : entriesOfRows (rows text') = .ok es' := by decide +kernel
  have hes'' : entriesOfRows (rows text'') = .ok es'' := by decide +kernel
  have has := congrArg (·.map attendeesOf) hes
  have has' := congrArg (·.map attendeesOf) hes'
  have has'' := congrArg (·.map attendeesOf) hes''
  have hunique : ∀ {rows : List Row} {us vs : List Entry}, Tells rows us →
      entriesOfRows rows = .ok vs → us = vs := fun htells hvs =>
    Except.ok.inj ((entriesOfRows_eq_ok_iff.mpr htells).symm.trans hvs)
  have hann : (attendeesOf es).filter (·.name = "Ann") =
      [attendeeOf es ⟨1615806000, 0, by decide⟩ "Ann"] := by decide
  have hann'' : (attendeesOf es'').filter (·.name = "Ann") =
      [attendeeOf es'' ⟨1615804200, 0, by decide⟩ "Ann"] := by decide
  have hsome : entriesOf "Ann" es ≠ [] := by decide
  have hend : ∃ t, IsLatest es t ∧ IsLatest es' t :=
    ⟨⟨1615806000, 0, by decide⟩, isLatest_of_latest? rfl, isLatest_of_latest? rfl⟩
  -- The latest time is the same.
  obtain ⟨us, us', hus, hus', hall⟩ := attendees_isolated has has'
  obtain rfl := hunique hus hes
  obtain rfl := hunique hus' hes'
  obtain ⟨a, a', ha, ha', hsame, -⟩ := (hall "Ann" (by decide)).2 hsome
  obtain rfl := hsame hend
  -- The latest time is another one.
  obtain ⟨us, us', hus, hus', hall⟩ := attendees_isolated has has''
  obtain rfl := hunique hus hes
  obtain rfl := hunique hus' hes''
  obtain ⟨b, b', hb, hb', -, hread⟩ := (hall "Ann" (by decide)).2 hsome
  obtain rfl : a = b := List.singleton_inj.mp (ha.symm.trans hb)
  obtain rfl := List.singleton_inj.mp (hann.symm.trans ha)
  obtain rfl := List.singleton_inj.mp (hann''.symm.trans hb')
  exact ⟨_, _, _, _, _, has, has', has'', ha, ha', hb', by decide, by decide, hread (by decide)⟩

end Report

end RollCall
