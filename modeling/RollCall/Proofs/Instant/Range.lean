/-
Spans that can be held.

A span is held as a count of milliseconds in 64 bits, with the fraction of one beside it, so
`InRange` bounds it by the greatest such count in either direction, and a sum is one only if
it is in range itself.  The instants are bounded too, by the years that the calendar runs to,
and these are few: a difference of two of them is far within the range.

To add differences up, a bound on each is not enough.  What adjoining stretches have in common
is the way from the first instant to the last.  A difference that runs forward is at most the
distance of the two ranks, which leaves room for the second that a leap second adds, because
each second of the calendar takes two in the ranks.  And it is not less than the seconds
counted back, for the fraction of an earlier leap second can outweigh one second, but only
where at least one is counted.
-/
import Mathlib.Algebra.Group.Int.Defs
import Mathlib.Data.List.Induction
import RollCall.Calendar.Lemmas
import RollCall.Proofs.Instant.Difference

namespace RollCall

namespace Span

/-! ### Sums of spans -/

/-- The nanoseconds of the longest span. -/
def longest : Int :=
  (2 ^ 63 - 1) * 1000000

/-- The span can be held. -/
def InRange (d : Span) : Prop :=
  -longest ≤ d.nanos ∧ d.nanos ≤ longest

instance (d : Span) : Decidable d.InRange :=
  inferInstanceAs (Decidable (-longest ≤ d.nanos ∧ d.nanos ≤ longest))

/-- The sum of two spans, if it can be held. -/
def add? (d e : Span) : Option Span :=
  if (d + e).InRange then some (d + e) else none

/-- The sum of some spans, added up from the first, if every sum on the way can be held. -/
def total? (ds : List Span) : Option Span :=
  ds.foldlM add? zero

theorem add?_eq_some_iff {d e s : Span} : add? d e = some s ↔ s.InRange ∧ d + e = s := by
  unfold add?
  by_cases h : (d + e).InRange
  · rw [if_pos h, Option.some.injEq]
    exact ⟨fun hs => ⟨hs ▸ h, hs⟩, fun hs => hs.2⟩
  · rw [if_neg h]
    refine ⟨fun hs => by simp at hs, fun hs => ?_⟩
    exact absurd (hs.2 ▸ hs.1) h

theorem total_concat (ds : List Span) (d : Span) : total (ds ++ [d]) = total ds + d := by
  simp [total]

theorem total?_concat (ds : List Span) (d : Span) :
    total? (ds ++ [d]) = (total? ds).bind fun s => add? s d := by
  simp [total?]

/-- **Adding up succeeds exactly if every running sum can be held.** -/
theorem total?_eq_some_iff (ds : List Span) :
    ∀ s, total? ds = some s ↔
      (∀ front, front <+: ds → (total front).InRange) ∧ total ds = s := by
  induction ds using List.reverseRecOn with
  | nil =>
      intro s
      have hzero : zero.InRange := by decide
      simp [total?, total, hzero]
  | append_singleton ds d ih =>
      intro s
      have hfronts : (∀ front, front <+: ds ++ [d] → (total front).InRange) ↔
          (∀ front, front <+: ds → (total front).InRange) ∧ (total (ds ++ [d])).InRange := by
        simp only [List.prefix_concat_iff]
        constructor
        · intro h
          exact ⟨fun front hfront => h front (.inr hfront), h _ (.inl rfl)⟩
        · intro h front hfront
          rcases hfront with rfl | hfront
          · exact h.2
          · exact h.1 front hfront
      rw [total?_concat, hfronts, Option.bind_eq_some_iff]
      constructor
      · intro h
        obtain ⟨before, hbefore, hadd⟩ := h
        obtain ⟨hrunning, rfl⟩ := (ih before).mp hbefore
        obtain ⟨hlast, rfl⟩ := add?_eq_some_iff.mp hadd
        rw [total_concat]
        exact ⟨⟨hrunning, hlast⟩, rfl⟩
      · intro h
        obtain ⟨⟨hrunning, hlast⟩, rfl⟩ := h
        refine ⟨total ds, (ih _).mpr ⟨hrunning, rfl⟩, ?_⟩
        rw [total_concat] at hlast ⊢
        exact add?_eq_some_iff.mpr ⟨hlast, rfl⟩

end Span

namespace Instant

/-! ### Instants of the calendar -/

/-- The instant is in one of the years that the calendar runs to. -/
def InCalendar (t : Instant) : Prop :=
  Date.firstYear ≤ t.date.year ∧ t.date.year ≤ Date.lastYear

instance (t : Instant) : Decidable t.InCalendar :=
  inferInstanceAs (Decidable (Date.firstYear ≤ t.date.year ∧ t.date.year ≤ Date.lastYear))

/-- A second begins with no nanosecond passed. -/
theorem zero_nanos_lt : 0 < 2000000000 := by
  decide

/-- The first instant of the calendar. -/
def earliest : Instant :=
  ⟨(daysBeforeYear Date.firstYear - daysBeforeEpoch) * day, 0, zero_nanos_lt⟩

/-- The last instant of the calendar, at the end of a leap second. -/
def latest : Instant :=
  ⟨(daysBeforeYear (Date.lastYear + 1) - daysBeforeEpoch) * day - 1, 1999999999, by decide⟩

theorem InCalendar.seconds_bounds {t : Instant} (h : t.InCalendar) :
    earliest.seconds ≤ t.seconds ∧ t.seconds ≤ latest.seconds := by
  obtain ⟨hfirst, hlast⟩ := h
  obtain ⟨hfrom, hto⟩ := Date.yearOf_bounds (t.seconds / day + daysBeforeEpoch)
  have hlow : daysBeforeYear Date.firstYear ≤ t.seconds / day + daysBeforeEpoch :=
    Int.le_trans (daysBeforeYear_mono hfirst) hfrom
  have hhigh : t.seconds / day + daysBeforeEpoch < daysBeforeYear (Date.lastYear + 1) :=
    Int.lt_of_lt_of_le hto (daysBeforeYear_mono (Int.add_le_add_right hlast 1))
  show (daysBeforeYear Date.firstYear - daysBeforeEpoch) * day ≤ t.seconds ∧
    t.seconds ≤ (daysBeforeYear (Date.lastYear + 1) - daysBeforeEpoch) * day - 1
  unfold day at *
  omega

theorem InCalendar.bounds {t : Instant} (h : t.InCalendar) : earliest ≤ t ∧ t ≤ latest := by
  have hseconds := h.seconds_bounds
  have hnanos := t.nanos_lt
  have hearliest : earliest.nanos = 0 := rfl
  have hlatest : latest.nanos = 1999999999 := rfl
  rw [le_iff, le_iff]
  omega

/-- All seconds of the calendar are not many. -/
theorem calendar_seconds :
    earliest.seconds = -8334601228800 ∧ latest.seconds = 8210266876799 := by
  decide

/-! ### Differences -/

theorem leapCorrection_le_one (a b : Instant) : leapCorrection a b ≤ 1 := by
  unfold leapCorrection
  split
  · exact Int.le_refl 1
  · split <;> decide

/-- **A difference that runs forward** is at most the distance of the ranks, and not less than the
seconds counted back. -/
theorem nanos_sub_bounds {a b : Instant} (h : b ≤ a) :
    -((a.seconds - b.seconds) * Span.second) ≤ (a - b).nanos ∧
      (a - b).nanos ≤ a.rank - b.rank := by
  have ha := a.nanos_lt
  have hb := b.nanos_lt
  rw [nanos_sub, Span.second, rank, rank]
  rcases le_iff.mp h with hlt | ⟨heq, hle⟩
  · have hlow := leapCorrection_cases a b
    have hhigh := leapCorrection_le_one a b
    omega
  · rw [leapCorrection_of_seconds_eq heq.symm]
    omega

/-- The fraction of a leap second before midnight outweighs the second that is counted. -/
example : (⟨86400, 0, by decide⟩ : Instant) - (⟨86399, 1999999999, by decide⟩ : Instant) =
    (⟨-999999999⟩ : Span) := by
  decide

/-- Two instants of the calendar differ by no more than all its seconds and three, forward or
back. -/
theorem InCalendar.sub_bounds {a b : Instant} (ha : a.InCalendar) (hb : b.InCalendar) :
    -((latest.seconds - earliest.seconds + 3) * Span.second) ≤ (a - b).nanos ∧
      (a - b).nanos ≤ (latest.seconds - earliest.seconds + 3) * Span.second := by
  have hseconds := ha.seconds_bounds
  have hseconds' := hb.seconds_bounds
  have hnanos := a.nanos_lt
  have hnanos' := b.nanos_lt
  have hlow := leapCorrection_cases a b
  have hhigh := leapCorrection_le_one a b
  rw [nanos_sub, Span.second]
  omega

end Instant

end RollCall
