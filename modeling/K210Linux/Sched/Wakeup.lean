import K210Linux.Sched.Schedule

/-! Which sleepers the first loop of `schedule` wakes. -/

namespace K210Linux.Sched

open K210Linux.Kernel

variable {task : Nat → Option SchedTask} {jiffies : Int} {p : SchedTask}

/-- The first loop of `schedule`. -/
def checkTasks (task : Nat → Option SchedTask) (jiffies : Int) : Nat → Option SchedTask :=
  eachTask task fun p => wakeSignalled (checkAlarm jiffies p)

/-- A pending signal that is not blocked, or that cannot be: `SIGKILL` or `SIGSTOP`. -/
def Deliverable (p : SchedTask) (b : Nat) : Prop :=
  p.signal.getLsbD b = true ∧ (p.blocked.getLsbD b = false ∨ b = 8 ∨ b = 18)

/-- The sleepers with a signal for them are running after the loop, and no other task has another state. -/
structure WakesExactly (task : Nat → Option SchedTask) (jiffies : Int) : Prop where
  sleepers : ∀ slot p p', 0 < slot → slot < nrTasks → task slot = some p → p.state = .interruptible →
    checkTasks task jiffies slot = some p' →
      (p'.state = .running ↔ ∃ b, b < 64 ∧ Deliverable (checkAlarm jiffies p) b)
  others : ∀ slot p, task slot = some p → ¬ (0 < slot ∧ slot < nrTasks ∧ p.state = .interruptible) →
    ∃ p', checkTasks task jiffies slot = some p' ∧ p'.state = p.state
  slots : ∀ slot, checkTasks task jiffies slot = none ↔ task slot = none

theorem checkAlarm_state (jiffies : Int) (p : SchedTask) : (checkAlarm jiffies p).state = p.state := by
  unfold checkAlarm
  split <;> rfl

theorem checkAlarm_blocked (jiffies : Int) (p : SchedTask) : (checkAlarm jiffies p).blocked = p.blocked := by
  unfold checkAlarm
  split <;> rfl

theorem and_not_eq_zero_iff (v w : BitVec 64) : v &&& ~~~ w = 0 ↔ ∀ b < 64, v.getLsbD b = true → w.getLsbD b = true := by
  constructor
  · intro none b bound set
    have bit := congrArg (fun v : BitVec 64 => v.getLsbD b) none
    simpa [set, bound] using bit
  · intro inside
    apply BitVec.eq_of_getLsbD_eq
    intro b bound
    have isIn := inside b bound
    cases set : v.getLsbD b
    · simp [set]
    · simp [set, isIn set, bound]

theorem blockable_bit {b : Nat} (bound : b < 64) : blockable.getLsbD b = decide (b ≠ 8 ∧ b ≠ 18) := by
  have all : ∀ b < 64, blockable.getLsbD b = decide (b ≠ 8 ∧ b ≠ 18) := by decide
  exact all b bound

/-- What the test is meant to be. -/
theorem deliverable_iff (p : SchedTask) :
    (∃ b, b < 64 ∧ Deliverable p b) ↔ ¬ p.signal &&& ~~~ (blockable &&& p.blocked) = 0 := by
  rw [and_not_eq_zero_iff, not_forall]
  refine exists_congr fun b => ?_
  rw [Classical.not_imp, Classical.not_imp]
  refine and_congr_right fun bound => and_congr_right fun _ => ?_
  rw [BitVec.getLsbD_and, blockable_bit bound]
  cases p.blocked.getLsbD b
  · simp
  · simp
    tauto

theorem wakeSignalled_running (sleeps : p.state = .interruptible) :
    (wakeSignalled p).state = .running ↔ ¬ p.signal &&& ~~~ (blockable * p.blocked) = 0 := by
  unfold wakeSignalled
  by_cases awake : p.signal &&& ~~~ (blockable * p.blocked) ≠ 0
  · rw [if_pos ⟨awake, sleeps⟩]
    exact iff_of_true rfl awake
  · rw [if_neg fun both => awake both.1, sleeps]
    exact iff_of_false nofun awake

theorem wakeSignalled_other (sleeps : p.state ≠ .interruptible) : wakeSignalled p = p :=
  if_neg fun both => sleeps both.2

/-- The sleepers are woken as they should be exactly where the product of `_BLOCKABLE` and the mask decides as their
    conjunction would. -/
theorem wakes_exactly_iff (task : Nat → Option SchedTask) (jiffies : Int) : WakesExactly task jiffies ↔
    ∀ slot p, 0 < slot → slot < nrTasks → task slot = some p → p.state = .interruptible →
      ((checkAlarm jiffies p).signal &&& ~~~ (blockable * p.blocked) = 0 ↔
        (checkAlarm jiffies p).signal &&& ~~~ (blockable &&& p.blocked) = 0) := by
  have slot_eq : ∀ slot p, 0 < slot → slot < nrTasks → task slot = some p →
      checkTasks task jiffies slot = some (wakeSignalled (checkAlarm jiffies p)) := by
    intro slot p positive bound there
    unfold checkTasks eachTask
    rw [if_pos ⟨positive, bound⟩, there]
    rfl
  constructor
  · intro exact slot p positive bound there sleeps
    have wakes := exact.sleepers slot p _ positive bound there sleeps (slot_eq slot p positive bound there)
    rw [wakeSignalled_running ((checkAlarm_state jiffies p).trans sleeps), deliverable_iff, checkAlarm_blocked] at wakes
    exact not_iff_not.mp wakes
  · intro agrees
    constructor
    · intro slot p p' positive bound there sleeps there'
      rw [slot_eq slot p positive bound there] at there'
      cases there'
      rw [wakeSignalled_running ((checkAlarm_state jiffies p).trans sleeps), deliverable_iff, checkAlarm_blocked]
      exact not_iff_not.mpr (agrees slot p positive bound there sleeps)
    · intro slot p there other
      by_cases inside : 0 < slot ∧ slot < nrTasks
      · refine ⟨_, slot_eq slot p inside.1 inside.2 there, ?_⟩
        have awake : (checkAlarm jiffies p).state ≠ .interruptible := by
          rw [checkAlarm_state]
          exact fun sleeps => other ⟨inside.1, inside.2, sleeps⟩
        rw [wakeSignalled_other awake, checkAlarm_state]
      · refine ⟨p, ?_, rfl⟩
        unfold checkTasks eachTask
        rw [if_neg inside, there]
    · intro slot
      unfold checkTasks eachTask
      split
      · exact Option.map_eq_none_iff
      · rfl

/-- A task that sleeps, with signals and a mask. -/
def sleeper (signal blocked : BitVec 64) : SchedTask := ⟨.interruptible, 15, 15, 0, signal, blocked⟩

def oneSleeper (signal blocked : BitVec 64) : Nat → Option SchedTask := fun slot =>
  if slot = 1 then some (sleeper signal blocked) else none

/-- `SIGTERM` wakes a task that blocks nothing. -/
theorem terminate_wakes : WakesExactly (oneSleeper 0x4000 0) 0 := by
  refine (wakes_exactly_iff _ _).mpr ?_
  intro slot p _ _ there _
  unfold oneSleeper at there
  split at there
  · cases there
    decide
  · cases there

/-- A task that blocks `SIGINT` sleeps on when `SIGTERM` arrives. -/
theorem terminate_missed : ¬ WakesExactly (oneSleeper 0x4000 2) 0 := by
  intro exact
  have running := (exact.sleepers 1 _ _ (by decide) (by decide) rfl rfl rfl).mpr ⟨14, by decide, by decide, .inl (by decide)⟩
  exact absurd running (by decide)

end K210Linux.Sched
