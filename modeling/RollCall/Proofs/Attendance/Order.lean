/-
Events in the order of time.

`InTimeOrder es s` says that `s` is `es` in the order of time, and that events of one time
stand as they stood in `es`.  The second half is said of every time by itself: the events
of that time are the same list on both sides.  So it also says that nothing is lost and
nothing is added, and there is at most one such `s`.

Placing an event in front of all that are not earlier keeps both halves, and the events are
placed from the last to the first, so that one which came first ends up first among its
equals.
-/
import RollCall.Attendance

namespace RollCall

namespace Event

/-- The events of one time. -/
def atTime (t : Instant) (es : List Event) : List Event :=
  es.filter (·.time = t)

/-- The second list is the first one in the order of time, events of one time as they stood. -/
structure InTimeOrder (es s : List Event) : Prop where
  ordered : Ordered s
  stable : ∀ t, atTime t s = atTime t es

/-- Placing an event adds it in front of the events of its time and nowhere else. -/
theorem atTime_place (t : Instant) (e : Event) (es : List Event) :
    atTime t (place e es) = atTime t (e :: es) := by
  induction es with
  | nil => rfl
  | cons x xs ih =>
      unfold place
      by_cases hle : e.time ≤ x.time
      · rw [if_pos hle]
      · rw [if_neg hle]
        have hne : e.time ≠ x.time := by
          intro heq
          exact hle (heq ▸ Int.le_refl _)
        unfold atTime at ih ⊢
        by_cases hx : x.time = t
        · have he : e.time ≠ t := fun he => hne (he.trans hx.symm)
          simp only [List.filter_cons, hx, he, decide_true, decide_false, if_true] at ih ⊢
          rw [ih]
          simp
        · simpa [List.filter_cons, hx] using ih

theorem atTime_inTimeOrder (t : Instant) (es : List Event) :
    atTime t (inTimeOrder es) = atTime t es := by
  induction es with
  | nil => rfl
  | cons e es ih =>
      rw [inTimeOrder, atTime_place]
      unfold atTime at ih ⊢
      simp only [List.filter_cons, ih]

/-- The sort is one. -/
theorem inTimeOrder_spec (es : List Event) : InTimeOrder es (inTimeOrder es) :=
  ⟨ordered_inTimeOrder es, fun t => atTime_inTimeOrder t es⟩

namespace InTimeOrder

variable {es s s' : List Event}

/-- Nothing is lost and nothing is added. -/
theorem perm (h : InTimeOrder es s) : s.Perm es := by
  rw [List.perm_iff_count]
  intro e
  have hcount : ∀ l : List Event, (atTime e.time l).count e = l.count e := by
    intro l
    exact List.count_filter (by simp)
  rw [← hcount s, ← hcount es, h.stable]

theorem mem_iff (h : InTimeOrder es s) {e : Event} : e ∈ s ↔ e ∈ es :=
  h.perm.mem_iff

/-- The first event of a list in order is the first one of its time, and no time is earlier. -/
theorem head_eq {x y : Event} (h : InTimeOrder es (x :: s)) (h' : InTimeOrder es (y :: s')) :
    x = y := by
  have hx : x ∈ y :: s' := h'.mem_iff.mpr (h.mem_iff.mp (by simp))
  have hy : y ∈ x :: s := h.mem_iff.mpr (h'.mem_iff.mp (by simp))
  have hle : x.time ≤ y.time := by
    rcases List.mem_cons.mp hy with rfl | hy
    · exact Int.le_refl _
    · exact (List.pairwise_cons.mp h.ordered).1 y hy
  have hge : y.time ≤ x.time := by
    rcases List.mem_cons.mp hx with rfl | hx
    · exact Int.le_refl _
    · exact (List.pairwise_cons.mp h'.ordered).1 x hx
  have htime : x.time = y.time := Instant.rank_injective (Int.le_antisymm hle hge)
  have hfirst := (h.stable x.time).trans (h'.stable x.time).symm
  simp only [atTime, List.filter_cons, htime, decide_true, if_true, List.cons.injEq] at hfirst
  exact hfirst.1

end InTimeOrder

/-- There is only one way to put events in order. -/
theorem inTimeOrder_unique :
    ∀ (s s' : List Event) {es : List Event}, InTimeOrder es s → InTimeOrder es s' → s = s' := by
  intro s
  induction s with
  | nil =>
      intro s' es h h'
      exact (List.Perm.nil_eq (h.perm.trans h'.perm.symm))
  | cons x s ih =>
      intro s' es h h'
      cases s' with
      | nil => exact (List.Perm.eq_nil (h.perm.trans h'.perm.symm))
      | cons y s' =>
          obtain rfl := InTimeOrder.head_eq h h'
          have htail : ∀ t, atTime t s = atTime t s' := by
            intro t
            have ht := (h.stable t).trans (h'.stable t).symm
            unfold atTime at ht ⊢
            by_cases hx : x.time = t
            · simpa [List.filter_cons, hx] using ht
            · simpa [List.filter_cons, hx] using ht
          have hs : InTimeOrder s' s := ⟨(List.pairwise_cons.mp h.ordered).2, htail⟩
          have hs' : InTimeOrder s' s' := ⟨(List.pairwise_cons.mp h'.ordered).2, fun _ => rfl⟩
          rw [ih s' hs hs']

end Event

end RollCall
