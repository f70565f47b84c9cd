/-
What a line shows of the lengths of stays.

A clock has no fractions, so in general it tells a length up to what was cut off.  But the
times of a report were read off clocks themselves, and what passes between two of them is a
count of whole seconds; so what a line shows of an attendee's lengths leaves nothing out.
-/
import RollCall.Proofs.Report.Stays
import RollCall.Proofs.Span
import RollCall.Template

namespace RollCall

namespace Report

open Table

/-- The lengths of an attendee of a report are whole seconds, one by one and together. -/
theorem isWhole_lengths {text : String} {as : List Attendee} (h : attendees text = .ok as)
    {a : Attendee} (ha : a ∈ as) : (∀ d ∈ a.durations, d.IsWhole) ∧ a.total.IsWhole := by
  obtain ⟨es, htold, hgroup⟩ := exists_grouped h
  have hdurations := hgroup.isWhole_durations ha fun e he => ((htold e).mpr he).isWhole
  exact ⟨hdurations, Span.isWhole_total hdurations⟩

/--
**What is shown of lengths leaves out fractions only.**

Two lists of spans, negative ones among them or not, show the same text exactly if they are of
one length and have the same whole seconds entry by entry, cut off toward zero.  The text of
a list is made of the texts of its spans.  Each of these is a clock, with two digits each for
minutes and seconds below sixty and no zero in front of the hours, that stands for the whole
seconds of the span, and it can be taken for no other clock.  So what a line shows of the
durations or the total of two attendees, be they of one report or of two, is the same exactly
if the durations or the totals are.
-/
theorem lengths_shown :
    (∀ ds ds' : List Span, (Value.spans ds).render = (Value.spans ds').render ↔
      List.Forall₂ (fun d d' => d.wholeSeconds = d'.wholeSeconds) ds ds') ∧
    (∀ ds : List Span, (Value.spans ds).render =
      "[" ++ ", ".intercalate (ds.map fun d => (Value.span d).render) ++ "]") ∧
    (∀ d : Span, ∃ k : Clock, (Value.span d).render.toList = k.text ∧ k.count = d.wholeSeconds ∧
      ∀ k' : Clock, (Value.span d).render.toList = k'.text → k' = k) ∧
    ∃ durations total : Template,
      Template.ofText "\x7bdurations\x7d" = .ok durations ∧
      Template.ofText "\x7btotal\x7d" = .ok total ∧
      ∀ text text' as as', attendees text = .ok as → attendees text' = .ok as' →
        ∀ a ∈ as, ∀ a' ∈ as',
          (durations.render a = durations.render a' ↔ a.durations = a'.durations) ∧
          (total.render a = total.render a' ↔ a.total = a'.total) := by
  have hlists : ∀ ds ds' : List Span, (Value.spans ds).render = (Value.spans ds').render ↔
      List.Forall₂ (fun d d' => d.wholeSeconds = d'.wholeSeconds) ds ds' := by
    intro ds ds'
    rw [← Span.listText_eq_iff]
    exact String.ofList_inj
  refine ⟨hlists, Span.renderList_eq, ?_, ⟨[.field .durations]⟩, ⟨[.field .total]⟩, by rfl, by rfl,
    ?_⟩
  · intro d
    have hshown : (Value.span d).render.toList = d.text := String.toList_ofList
    rw [hshown]
    exact d.exists_clock
  · intro text text' as as' h h' a ha a' ha'
    obtain ⟨hdurations, htotal⟩ := isWhole_lengths h ha
    obtain ⟨hdurations', htotal'⟩ := isWhole_lengths h' ha'
    rw [Template.render_field, Template.render_field, Template.render_field,
      Template.render_field]
    constructor
    · constructor
      · intro hshown
        exact Span.eq_of_forall₂_wholeSeconds ((hlists _ _).mp hshown) hdurations hdurations'
      · intro heq
        exact congrArg (fun ds => (Value.spans ds).render) heq
    · constructor
      · intro hshown
        exact htotal.eq_of_wholeSeconds_eq htotal'
          (Span.text_eq_text_iff.mp (String.ofList_inj.mp hshown))
      · intro heq
        exact congrArg (fun d => (Value.span d).render) heq

/-- Half an hour from a leap second on is shown as half an hour of any other day, so the two are
of one length. -/
theorem lengths_shown_half_hour :
    let text := "Full Name\tUser Action\tTimestamp\n" ++
      "Ann\tJoined\t2016-12-31 23:59:60\n" ++ "Ann\tLeft\t2017-01-01 00:30:00\n"
    let text' := "Full Name\tUser Action\tTimestamp\n" ++
      "Bob\tJoined\t2021-03-15 10:00:00\n" ++ "Bob\tLeft\t2021-03-15 10:30:00\n"
    ∃ as as' a a', attendees text = .ok as ∧ attendees text' = .ok as' ∧ a ∈ as ∧ a' ∈ as' ∧
      (Value.spans a.durations).render = "[0:30:00]" ∧ a.durations = a'.durations := by
  intro text text'
  let es : List Entry :=
    [⟨"Ann", .joined, ⟨1483228799, 1000000000, by decide⟩⟩,
      ⟨"Ann", .left, ⟨1483230600, 0, by decide⟩⟩]
  let es' : List Entry :=
    [⟨"Bob", .joined, ⟨1615802400, 0, by decide⟩⟩, ⟨"Bob", .left, ⟨1615804200, 0, by decide⟩⟩]
  have hes : entriesOfRows (rows text) = .ok es := by decide +kernel
  have hes' : entriesOfRows (rows text') = .ok es' := by decide +kernel
  have has : attendees text = .ok (attendeesOf es) := by
    rw [attendees, attendeesOfRows, hes]
    rfl
  have has' : attendees text' = .ok (attendeesOf es') := by
    rw [attendees, attendeesOfRows, hes']
    rfl
  let ann := attendeeOf es ⟨1483230600, 0, by decide⟩ "Ann"
  let bob := attendeeOf es' ⟨1615804200, 0, by decide⟩ "Bob"
  have hann : ann ∈ attendeesOf es := by decide
  have hbob : bob ∈ attendeesOf es' := by decide
  have hshown : (Value.spans ann.durations).render = "[0:30:00]" := by decide +kernel
  have hshown' : (Value.spans bob.durations).render = "[0:30:00]" := by decide +kernel
  obtain ⟨-, -, -, durations, total, hdurations, -, hexact⟩ := lengths_shown
  obtain rfl : (⟨[.field .durations]⟩ : Template) = durations :=
    Except.ok.inj (Eq.trans (by rfl) hdurations)
  refine ⟨_, _, ann, bob, has, has', hann, hbob, hshown, ?_⟩
  refine (hexact _ _ _ _ has has' ann hann bob hbob).1.mp ?_
  rw [Template.render_field, Template.render_field]
  exact hshown.trans hshown'.symm

end Report

end RollCall
