/-
Results that may be errors.

Whatever is done to the value of a result leaves its error alone, and the other way round.
So a result that has been changed is taken apart into the one before: its value comes from
a value and its error from an error.
-/
namespace RollCall.Result

variable {ε ε' α β : Type} {r : Except ε α}

theorem map_eq_ok {f : α → β} {b : β} : r.map f = .ok b ↔ ∃ a, r = .ok a ∧ f a = b := by
  cases r <;> simp [Except.map]

theorem map_eq_error {f : α → β} {e : ε} : r.map f = .error e ↔ r = .error e := by
  cases r <;> simp [Except.map]

theorem mapError_eq_ok {f : ε → ε'} {a : α} : r.mapError f = .ok a ↔ r = .ok a := by
  cases r with
  | error e =>
      show (.error (f e) : Except ε' α) = .ok a ↔ (.error e : Except ε α) = .ok a
      simp
  | ok b =>
      show (.ok b : Except ε' α) = .ok a ↔ (.ok b : Except ε α) = .ok a
      simp

theorem mapError_eq_error {f : ε → ε'} {e' : ε'} :
    r.mapError f = .error e' ↔ ∃ e, r = .error e ∧ f e = e' := by
  cases r with
  | error e =>
      show (.error (f e) : Except ε' α) = .error e' ↔ _
      simp
  | ok b =>
      show (.ok b : Except ε' α) = .error e' ↔ _
      simp

end RollCall.Result
