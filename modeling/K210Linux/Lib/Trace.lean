import Mathlib

/-! Runs that go on as long as a property of the states holds, and what a falling measure says of their events. -/

namespace K210Linux.Lib

variable {ε σ : Type} {step : ε → σ → Option σ} {I J : σ → Prop} {s s' : σ} {events : List ε}

/-- The events lead from one state to another one, and `I` holds of every state on the way. -/
inductive Trace (step : ε → σ → Option σ) (I : σ → Prop) : σ → List ε → σ → Prop
  | stop {s : σ} (here : I s) : Trace step I s [] s
  | step {s s₁ s' : σ} {e : ε} {events : List ε} (here : I s) (stepped : step e s = some s₁)
      (rest : Trace step I s₁ events s') : Trace step I s (e :: events) s'

theorem Trace.first (trace : Trace step I s events s') : I s := by
  cases trace with
  | stop here => exact here
  | step here _ _ => exact here

/-- What the events of a trace cost comes out of the measure of its first state. -/
theorem Trace.cost_le {cost : ε → Nat} {measure : σ → Nat} (start : J s)
    (lowers : ∀ e s s', I s → J s → step e s = some s' → I s' → J s' ∧ measure s' + cost e ≤ measure s)
    (trace : Trace step I s events s') : (events.map cost).sum ≤ measure s := by
  induction trace with
  | stop here => exact Nat.zero_le _
  | step here stepped rest ih =>
    rcases lowers _ _ _ here start stepped rest.first with ⟨kept, lower⟩
    have later := ih kept
    rw [List.map_cons, List.sum_cons]
    omega

end K210Linux.Lib
