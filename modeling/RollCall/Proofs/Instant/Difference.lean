/-
Differences of instants that were read.

A clock shows no fractions, so an instant that was read stands at the beginning of a second,
be it an ordinary one or a leap second; `IsWhole` says so of the fraction.  The difference of
two such instants is a number of whole seconds, and where the first is not earlier than the
second it is not negative.

Two things can make it shorter than the seconds counted between them: the fraction of an
earlier leap second, and the second that is taken off where the later instant is a leap
second at an earlier time of day.  Each takes one second, and never both do, for the later
instant then has that second in its own fraction.  So nothing negative comes out.  It may be
nothing, though, of two instants that differ: from 23:59:60 to the midnight that follows no
time passes.

Without leap seconds differences are exact, and those of adjoining stretches add up.
-/
import RollCall.Instant.Pattern

namespace RollCall

namespace Span

/-! ### Spans of whole seconds -/

/-- A count of whole seconds, so none that is negative. -/
def IsWhole (d : Span) : Prop :=
  ∃ n : Nat, d = ofSeconds n

theorem isWhole_zero : zero.IsWhole :=
  ⟨0, rfl⟩

theorem IsWhole.add {d e : Span} (hd : d.IsWhole) (he : e.IsWhole) : (d + e).IsWhole := by
  obtain ⟨m, rfl⟩ := hd
  obtain ⟨n, rfl⟩ := he
  refine ⟨m + n, ?_⟩
  show Span.mk (m * second + n * second) = Span.mk ((m + n : Nat) * second)
  rw [Int.natCast_add, Int.add_mul]

instance : Std.Associative fun d e : Span => d + e where
  assoc a b c := congrArg Span.mk (Int.add_assoc a.nanos b.nanos c.nanos)

/-- The first span may as well be added last. -/
theorem total_cons (d : Span) (ds : List Span) : total (d :: ds) = d + total ds := by
  have hzero : zero + d = d + zero := congrArg Span.mk (Int.add_comm _ _)
  show ds.foldl (· + ·) (zero + d) = d + ds.foldl (· + ·) zero
  rw [hzero]
  exact List.foldl_assoc

/-- Whole seconds add up to whole seconds. -/
theorem isWhole_total {ds : List Span} (h : ∀ d ∈ ds, d.IsWhole) : (total ds).IsWhole := by
  induction ds with
  | nil => exact isWhole_zero
  | cons d ds ih =>
      obtain ⟨hd, hds⟩ := List.forall_mem_cons.mp h
      rw [total_cons]
      exact hd.add (ih hds)

end Span

namespace Instant

/-! ### Instants at the beginning of a second -/

/-- The beginning of a second or of a leap second. -/
def IsWhole (t : Instant) : Prop :=
  t.nanos = 0 ∨ t.nanos = 1000000000

/-- Second 60 is the leap second, and no other one is. -/
theorem nanos_of_ofClock? {date : Date} {hour minute second : Nat} {t : Instant}
    (h : ofClock? date hour minute second = some t) :
    t.nanos = if second = 60 then 1000000000 else 0 := by
  unfold ofClock? at h
  split at h
  · by_cases hsecond : second = 60
    · rw [if_pos hsecond] at h ⊢
      obtain rfl := Option.some.inj h
      rfl
    · rw [if_neg hsecond] at h ⊢
      obtain rfl := Option.some.inj h
      rfl
  · cases h

theorem isWhole_of_ofClock? {date : Date} {hour minute second : Nat} {t : Instant}
    (h : ofClock? date hour minute second = some t) : t.IsWhole := by
  rw [IsWhole, nanos_of_ofClock? h]
  split
  · exact .inr rfl
  · exact .inl rfl

/-- The cells of a report name what a calendar and a clock show. -/
theorem exists_clock_of_ofReport? {cell : String} {t : Instant} (h : ofReport? cell = some t) :
    ∃ date hour minute second, ofClock? date hour minute second = some t := by
  obtain ⟨pattern, -, hread⟩ := List.exists_of_findSome?_eq_some h
  obtain ⟨r, -, hclock⟩ := Option.bind_eq_some_iff.mp hread
  exact ⟨_, _, _, _, hclock⟩

/-- **The cells of a report name whole seconds.** -/
theorem isWhole_of_ofReport? {cell : String} {t : Instant} (h : ofReport? cell = some t) :
    t.IsWhole := by
  obtain ⟨date, hour, minute, second, hclock⟩ := exists_clock_of_ofReport? h
  exact isWhole_of_ofClock? hclock

theorem IsWhole.nanos_eq_zero {t : Instant} (h : t.IsWhole) (hleap : t.isLeap = false) :
    t.nanos = 0 := by
  rcases h with h | h
  · exact h
  · simp [isLeap, h] at hleap

/-! ### Differences -/

theorem nanos_sub (a b : Instant) :
    (a - b).nanos =
      (a.seconds - b.seconds + leapCorrection a b) * Span.second + ((a.nanos : Int) - b.nanos) :=
  rfl

/-- A second is taken off only where the first instant has it in its own fraction. -/
theorem leapCorrection_cases (a b : Instant) :
    0 ≤ leapCorrection a b ∨ leapCorrection a b = -1 ∧ 1000000000 ≤ a.nanos := by
  unfold leapCorrection
  split
  · exact .inl (by decide)
  · split
    · rename_i hleap
      simp only [isLeap, Bool.and_eq_true, decide_eq_true_eq] at hleap
      exact .inr ⟨rfl, hleap.2⟩
    · exact .inl (by decide)

/-- Within one second nothing is corrected. -/
theorem leapCorrection_of_seconds_eq {a b : Instant} (h : a.seconds = b.seconds) :
    leapCorrection a b = 0 := by
  simp [leapCorrection, timeOfDay, h]

/-- **A difference that runs forward is a count of whole seconds.** -/
theorem isWhole_sub {a b : Instant} (ha : a.IsWhole) (hb : b.IsWhole) (h : b ≤ a) :
    (a - b).IsWhole := by
  have hcount : ∃ k : Int, 0 ≤ k ∧ (a - b).nanos = k * Span.second := by
    rw [nanos_sub, Span.second]
    unfold IsWhole at ha hb
    rcases le_iff.mp h with hlt | ⟨heq, hle⟩
    · have hcorrection := leapCorrection_cases a b
      refine ⟨a.seconds - b.seconds + leapCorrection a b +
        ((a.nanos : Int) - b.nanos) / 1000000000, ?_, ?_⟩ <;> omega
    · rw [leapCorrection_of_seconds_eq heq.symm]
      refine ⟨((a.nanos : Int) - b.nanos) / 1000000000, ?_, ?_⟩ <;> omega
  obtain ⟨k, hk, hnanos⟩ := hcount
  refine ⟨k.toNat, ?_⟩
  rw [Int.toNat_of_nonneg hk]
  exact congrArg Span.mk hnanos

/-- Without leap seconds a difference is that of the seconds counted. -/
theorem nanos_sub_of_nanos_eq_zero {a b : Instant} (ha : a.nanos = 0) (hb : b.nanos = 0) :
    (a - b).nanos = (a.seconds - b.seconds) * Span.second := by
  have hcorrection : leapCorrection a b = 0 := by
    simp [leapCorrection, isLeap, ha, hb]
  rw [nanos_sub, hcorrection, ha, hb, Int.add_zero, Int.sub_self, Int.add_zero]

/-- No time passes from a leap second before midnight to that midnight. -/
example : (⟨86400, 0, by decide⟩ : Instant) - (⟨86399, 1000000000, by decide⟩ : Instant) =
    Span.zero := by
  decide

end Instant

end RollCall
