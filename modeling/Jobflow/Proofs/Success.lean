import Jobflow.Json.Read

/-!
Computations that may fail, taken apart at their steps: a computation succeeds
exactly when each of its steps does, and fails as the first step does that fails.
-/

namespace Jobflow

variable {ε ε' α β : Type}

@[simp] theorem bind_eq_ok_iff {first : Except ε α} {next : α → Except ε β} {b : β} :
    (first >>= next) = .ok b ↔ ∃ a, first = .ok a ∧ next a = .ok b := by
  cases first with
  | error e => simp [bind, Except.bind]
  | ok a => simp [bind, Except.bind]

@[simp] theorem pure_eq_ok_iff {a b : α} : (pure a : Except ε α) = .ok b ↔ a = b := by
  simp [pure, Except.pure]

@[simp] theorem map_eq_ok_iff {f : α → β} {x : Except ε α} {b : β} :
    x.map f = .ok b ↔ ∃ a, x = .ok a ∧ f a = b := by
  cases x with
  | error e => simp [Except.map]
  | ok a => simp [Except.map]

theorem ok_bind (a : α) (next : α → Except ε β) : (.ok a >>= next) = next a := rfl

theorem error_bind (e : ε) (next : α → Except ε β) : (.error e >>= next) = .error e := rfl

theorem bind_eq_error_iff {first : Except ε α} {next : α → Except ε β} {e : ε} :
    (first >>= next) = .error e ↔ first = .error e ∨ ∃ a, first = .ok a ∧ next a = .error e := by
  cases first with
  | error e' => simp [bind, Except.bind]
  | ok a => simp [bind, Except.bind]

/-- A computation that goes on after a guard. -/
theorem eq_ok_of_guard {p : Prop} [Decidable p] {e : ε} {next : PUnit → Except ε β} {b : β}
    (h : (if p then (Except.error e >>= next) else next ⟨⟩) = .ok b) : ¬ p ∧ next ⟨⟩ = .ok b := by
  split at h
  · cases h
  · next hp => exact ⟨hp, h⟩

@[simp] theorem mapError_ok (f : ε → ε') (a : α) :
    (.ok a : Except ε α).mapError f = .ok a := rfl

@[simp] theorem mapError_error (f : ε → ε') (e : ε) :
    (.error e : Except ε α).mapError f = .error (f e) := rfl

theorem mapError_eq_ok_iff {f : ε → ε'} {x : Except ε α} {a : α} :
    x.mapError f = .ok a ↔ x = .ok a := by
  cases x <;> simp

theorem mapError_eq_error_iff {f : ε → ε'} {x : Except ε α} {e : ε'} :
    x.mapError f = .error e ↔ ∃ cause, x = .error cause ∧ f cause = e := by
  cases x <;> simp

theorem mapError_bind (f : ε → ε') (first : Except ε α) (next : α → Except ε β) :
    (first >>= next).mapError f = first.mapError f >>= fun a => (next a).mapError f := by
  cases first with
  | error e => rfl
  | ok a => rfl

@[simp] theorem Json.malformed_eq_ok_iff {x : Except Json.SyntaxError α} {a : α} :
    Json.malformed x = .ok a ↔ x = .ok a := by
  cases x <;> simp [Json.malformed]

end Jobflow
