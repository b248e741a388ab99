import Mathlib

/-! Taking apart computations that can fail. -/

namespace Outcome

variable {ε α β : Type} {x : Except ε α} {f : α → Except ε β} {b : β}

theorem of_bind (run : (x >>= f) = .ok b) : ∃ a, x = .ok a ∧ f a = .ok b := by
  cases x with
  | error e => cases run
  | ok a => exact ⟨a, rfl, run⟩

theorem error_of_bind {e : ε} (run : (x >>= f) = .error e) : x = .error e ∨ ∃ a, x = .ok a ∧ f a = .error e := by
  cases x with
  | error e' =>
    cases run
    exact .inl rfl
  | ok a => exact .inr ⟨a, rfl, run⟩

theorem of_map {g : α → β} (run : x.map g = .ok b) : ∃ a, x = .ok a ∧ g a = b := by
  cases x with
  | error e => cases run
  | ok a =>
    cases run
    exact ⟨a, rfl, rfl⟩

theorem of_mapError {ε' : Type} {g : ε → ε'} {a : α} (run : x.mapError g = .ok a) : x = .ok a := by
  cases x with
  | error e => cases run
  | ok a' =>
    cases run
    rfl

theorem bind_ok {a : α} (done : x = .ok a) : (x >>= f) = f a := by
  rw [done]
  rfl

/-- Two computations that go along with each other step by step. -/
theorem bind_along {α' β' : Type} {y : Except ε α'} {g : α' → Except ε β'} {h : α → α'} {k : β → β'}
    (first : y = x.map h) (rest : ∀ a, x = .ok a → g (h a) = (f a).map k) : (y >>= g) = (x >>= f).map k := by
  rw [first]
  cases x with
  | error e => rfl
  | ok a => exact rest a rfl

end Outcome
