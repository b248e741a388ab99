namespace K210Linux.Lib

variable {ε σ : Type} {step : ε → σ → Option σ} {ok : ε → σ → Prop} {start s : σ}

/-- The states that steps lead to from `start`, where `ok` allows each event in the state before it. -/
inductive Run (step : ε → σ → Option σ) (ok : ε → σ → Prop) (start : σ) : σ → Prop
  | start : Run step ok start start
  | next {s s' : σ} {e : ε} : Run step ok start s → ok e s → step e s = some s' → Run step ok start s'

theorem Run.invariant {I : σ → Prop} (first : I start)
    (kept : ∀ e s s', I s → ok e s → step e s = some s' → I s') (run : Run step ok start s) : I s := by
  induction run with
  | start => exact first
  | next _ allowed stepped ih => exact kept _ _ _ ih allowed stepped

/-- A list of events, done one after the other as far as they are allowed. -/
def runEvents (step : ε → σ → Option σ) (ok : ε → σ → Prop) [∀ e s, Decidable (ok e s)] : List ε → σ → Option σ
  | [], s => some s
  | e :: events, s => if ok e s then (step e s).bind (runEvents step ok events) else none

theorem Run.events [∀ e s, Decidable (ok e s)] {events : List ε} {s' : σ} (run : Run step ok start s)
    (ran : runEvents step ok events s = some s') : Run step ok start s' := by
  induction events generalizing s with
  | nil =>
    cases ran
    exact run
  | cons e events ih =>
    rw [runEvents] at ran
    split at ran
    · rename_i allowed
      rcases Option.bind_eq_some_iff.1 ran with ⟨s₁, stepped, rest⟩
      exact ih (run.next allowed stepped) rest
    · cases ran

/-- A run that a test of its last state was computed for. -/
theorem Run.of_test [∀ e s, Decidable (ok e s)] {events : List ε} {test : σ → Bool}
    (passed : (runEvents step ok events start).any test = true) : ∃ s, Run step ok start s ∧ test s = true := by
  cases ran : runEvents step ok events start with
  | none =>
    rw [ran] at passed
    cases passed
  | some s =>
    rw [ran] at passed
    exact ⟨s, Run.start.events ran, passed⟩

end K210Linux.Lib
