import K210Linux.Lib.Run
import K210Linux.Sched.Wakeup

/-! Which task `schedule` chooses. -/

namespace K210Linux.Sched

open K210Linux.Kernel K210Linux.Lib

section Loop

variable {task task' : Nat → Option SchedTask} {i next : Nat} {c : Int}

/-- The counters of the running tasks fit into the `int` that the loop keeps the largest in. -/
def CountersFit (task : Nat → Option SchedTask) : Prop :=
  ∀ slot p, task slot = some p → 0 ≤ p.counter ∧ p.counter < 2 ^ 31

theorem toInt32_of_fits {value : Int} (low : 0 ≤ value) (high : value < 2 ^ 31) : toInt32 value = value := by
  unfold toInt32
  rw [BitVec.toInt_ofInt, Int.bmod_def]
  split <;> omega

/-- The largest counter of the running tasks in the slots up to `i`, or what it was before. -/
structure Largest (task : Nat → Option SchedTask) (i : Nat) (c : Int) (next : Nat) (result : Int × Nat) : Prop where
  grown : c ≤ result.1
  largest : ∀ j p, 0 < j → j ≤ i → task j = some p → p.state = .running → p.counter ≤ result.1
  chosen : result = (c, next) ∨ ∃ p, 0 < result.2 ∧ result.2 ≤ i ∧ task result.2 = some p ∧ p.state = .running ∧
    p.counter = result.1

theorem Largest.skip {result : Int × Nat} (largest : Largest task i c next result)
    (other : ∀ p, task (i + 1) = some p → p.state = .running → p.counter ≤ c) :
    Largest task (i + 1) c next result := by
  refine ⟨largest.grown, ?_, ?_⟩
  · intro j p positive bound there running
    rcases Nat.lt_or_eq_of_le bound with before | rfl
    · exact largest.largest j p positive (by omega) there running
    · exact (other p there running).trans largest.grown
  · rcases largest.chosen with same | ⟨p, positive, bound, there⟩
    · exact .inl same
    · exact .inr ⟨p, positive, by omega, there⟩

theorem Largest.take {result : Int × Nat} {p : SchedTask} (there : task (i + 1) = some p) (running : p.state = .running)
    (better : c < p.counter) (largest : Largest task i p.counter (i + 1) result) : Largest task (i + 1) c next result := by
  refine ⟨(Int.le_of_lt better).trans largest.grown, ?_, .inr ?_⟩
  · intro j q positive bound thereQ runningQ
    rcases Nat.lt_or_eq_of_le bound with before | rfl
    · exact largest.largest j q positive (by omega) thereQ runningQ
    · rw [there] at thereQ
      cases thereQ
      exact largest.grown
  · rcases largest.chosen with same | ⟨q, positive, bound, thereQ⟩
    · rw [same]
      exact ⟨p, by omega, le_refl _, there, running, rfl⟩
    · exact ⟨q, positive, by omega, thereQ⟩

theorem pickFrom_largest (fits : CountersFit task) (i : Nat) (c : Int) (next : Nat) :
    Largest task i c next (pickFrom task i c next) := by
  induction i generalizing c next with
  | zero => exact ⟨le_refl _, fun j p positive bound => by omega, .inl rfl⟩
  | succ i ih =>
    unfold pickFrom
    cases there : task (i + 1) with
    | none =>
      refine (ih c next).skip ?_
      intro p thereP
      rw [there] at thereP
      cases thereP
    | some p =>
      dsimp only
      rcases fits (i + 1) p there with ⟨low, high⟩
      split
      · rename_i better
        rw [toInt32_of_fits low high]
        exact (ih p.counter (i + 1)).take there better.1 better.2
      · rename_i worse
        refine (ih c next).skip ?_
        intro q thereQ running
        rw [there] at thereQ
        cases thereQ
        exact not_lt.mp fun better => worse ⟨running, better⟩

/-- The running tasks among those that the loop looks at. -/
def Runnable (task : Nat → Option SchedTask) (slot : Nat) (p : SchedTask) : Prop :=
  0 < slot ∧ slot < nrTasks ∧ task slot = some p ∧ p.state = .running

/-- What is said of the choice between the tasks of a table, with the counters as they are afterwards. -/
structure RightPick (task task' : Nat → Option SchedTask) (next : Nat) : Prop where
  idle : next = 0 ↔ ∀ slot p, ¬ Runnable task slot p
  chosen : next ≠ 0 → ∃ p, Runnable task' next p ∧ 0 < p.counter ∧ ∀ slot q, Runnable task' slot q → q.counter ≤ p.counter
  counters : task' = task ∨ (task' = eachTask task refill ∧ ∀ slot p, Runnable task slot p → p.counter = 0)

/-- The scheduler proper comes to an end, with the right choice. -/
def PicksRight (s : RunQueue) : Prop :=
  ∃ fuel task' next, pickNext (checkTasks s.task s.jiffies) fuel = some (task', next) ∧
    RightPick (checkTasks s.task s.jiffies) task' next

theorem Runnable.refill_iff {slot : Nat} {p' : SchedTask} : Runnable (eachTask task refill) slot p' ↔
    ∃ p, Runnable task slot p ∧ p' = refill p := by
  unfold Runnable eachTask
  constructor
  · rintro ⟨positive, bound, there, running⟩
    rw [if_pos ⟨positive, bound⟩] at there
    rcases Option.map_eq_some_iff.mp there with ⟨p, before, rfl⟩
    exact ⟨p, ⟨positive, bound, before, running⟩, rfl⟩
  · rintro ⟨p, ⟨positive, bound, there, running⟩, rfl⟩
    refine ⟨positive, bound, ?_, running⟩
    rw [if_pos ⟨positive, bound⟩, there]
    rfl

/-- The loop over the slots ends with a counter that is not 0. -/
theorem Largest.picks (largest : Largest task (nrTasks - 1) (-1) 0 (c, next)) (fits : CountersFit task) (other : c ≠ 0) :
    (next = 0 ↔ ∀ slot p, ¬ Runnable task slot p) ∧
      (next ≠ 0 → ∃ p, Runnable task next p ∧ 0 < p.counter ∧ ∀ slot q, Runnable task slot q → q.counter ≤ p.counter) := by
  rcases largest.chosen with none | ⟨p, positive, bound, there, running, counter⟩
  · cases none
    refine ⟨iff_of_true rfl ?_, fun some => absurd rfl some⟩
    rintro slot p ⟨positive, bound, there, running⟩
    have most := largest.largest slot p positive (by omega) there running
    have low := (fits slot p there).1
    simp only at most
    omega
  · have runnable : Runnable task next p := ⟨positive, by simp only [nrTasks] at *; omega, there, running⟩
    refine ⟨iff_of_false (by simp only at positive; omega) fun none => none next p runnable, fun _ => ?_⟩
    have low := (fits next p there).1
    refine ⟨p, runnable, by simp only at counter; omega, ?_⟩
    rintro slot q ⟨positiveQ, boundQ, thereQ, runningQ⟩
    rw [counter]
    exact largest.largest slot q positiveQ (by omega) thereQ runningQ

/-- A task runs with counter 0, and so do all others, when the counters are refilled. -/
theorem Largest.exhausted (largest : Largest task (nrTasks - 1) (-1) 0 (0, next)) (fits : CountersFit task) :
    (∃ p, Runnable task next p) ∧ ∀ slot p, Runnable task slot p → p.counter = 0 := by
  constructor
  · rcases largest.chosen with none | ⟨p, positive, bound, there, running, -⟩
    · cases (Prod.mk.inj none).1
    · exact ⟨p, positive, by simp only [nrTasks] at *; omega, there, running⟩
  · rintro slot p ⟨positive, bound, there, running⟩
    have most := largest.largest slot p positive (by omega) there running
    have low := (fits slot p there).1
    simp only at most
    omega

theorem pickNext_right (fits : CountersFit task) (refilled : CountersFit (eachTask task refill))
    (priorities : ∀ slot p, task slot = some p → 0 < p.priority) :
    ∃ fuel task' next, pickNext task fuel = some (task', next) ∧ RightPick task task' next := by
  have largest := pickFrom_largest fits (nrTasks - 1) (-1) 0
  generalize first : pickFrom task (nrTasks - 1) (-1) 0 = r at largest
  rcases r with ⟨c, next⟩
  by_cases done : c ≠ 0
  · refine ⟨1, task, next, ?_, ?_⟩
    · simp only [pickNext, first]
      rw [if_pos done]
    · rcases largest.picks fits done with ⟨idle, chosen⟩
      exact ⟨idle, chosen, .inl rfl⟩
  · rw [not_not] at done
    subst done
    rcases largest.exhausted fits with ⟨⟨p, runnable⟩, zeros⟩
    have largest₂ := pickFrom_largest refilled (nrTasks - 1) (-1) 0
    generalize second : pickFrom (eachTask task refill) (nrTasks - 1) (-1) 0 = r₂ at largest₂
    rcases r₂ with ⟨c₂, next₂⟩
    -- the task with counter 0 now has its priority
    have positive : c₂ ≠ 0 := by
      rcases Runnable.refill_iff.mpr ⟨p, runnable, rfl⟩ with ⟨low, bound, there, running⟩
      have most := largest₂.largest next (refill p) low (by omega) there running
      have priority := priorities next p runnable.2.2.1
      have zero := zeros next p runnable
      simp only [refill, zero] at most
      omega
    refine ⟨2, eachTask task refill, next₂, ?_, ?_⟩
    · simp only [pickNext, first, second]
      rw [if_neg (not_not.mpr rfl), if_pos positive]
    · rcases largest₂.picks refilled positive with ⟨idle, chosen⟩
      refine ⟨?_, chosen, .inr ⟨rfl, zeros⟩⟩
      rw [idle]
      constructor
      · intro none slot q runnableQ
        exact none slot _ (Runnable.refill_iff.mpr ⟨q, runnableQ, rfl⟩)
      · intro none slot q runnableQ
        rcases Runnable.refill_iff.mp runnableQ with ⟨q₀, before, -⟩
        exact none slot q₀ before

end Loop

section Run

/-- What happens to the table: `copy_process` into a slot, `sys_nice`, the part of `do_timer` on the counter, a change of
    anything but counter and priority, `release`, `schedule`, and the time. -/
inductive SchedEvent
  | fork (slot : Nat) (state : TaskState)
  | nice (increment : BitVec 64)
  | tick
  | change (slot : Nat) (state : TaskState) (alarm : Int) (signal blocked : BitVec 64)
  | release (slot : Nat)
  | schedule (fuel : Nat)
  | elapse (jiffies : Int)

/-- `sys_nice`. -/
def nice (p : SchedTask) (increment : BitVec 64) : SchedTask :=
  let priority := (BitVec.ofInt 64 p.priority - increment).toInt
  if priority > 0 then { p with priority := priority } else p

/-- What `do_timer` does to the counter of the current task. -/
def tick (p : SchedTask) : SchedTask := { p with counter := if p.counter - 1 > 0 then p.counter - 1 else 0 }

def RunQueue.setTask (s : RunQueue) (slot : Nat) (p : Option SchedTask) : RunQueue :=
  { s with task := Function.update s.task slot p }

def SchedEvent.step (e : SchedEvent) (s : RunQueue) : Option RunQueue :=
  match e with
  | fork slot state => (s.task s.current).map fun p =>
      s.setTask slot (some { p with state := state, counter := p.priority, signal := 0, alarm := 0 })
  | nice increment => (s.task s.current).map fun p => s.setTask s.current (some (Sched.nice p increment))
  | tick => (s.task s.current).map fun p => s.setTask s.current (some (Sched.tick p))
  | change slot state alarm signal blocked => (s.task slot).map fun p =>
      s.setTask slot (some { p with state := state, alarm := alarm, signal := signal, blocked := blocked })
  | release slot => some (s.setTask slot none)
  | schedule fuel => (Sched.schedule s fuel).map Prod.fst
  | elapse jiffies => some { s with jiffies := jiffies }

/-- `sys_nice` gives no priority above 2^30. -/
def SchedEvent.Modest (e : SchedEvent) (s : RunQueue) : Prop :=
  match e with
  | nice increment => ∀ p, s.task s.current = some p → (BitVec.ofInt 64 p.priority - increment).toInt ≤ 2 ^ 30
  | _ => True

/-- The counter stays below twice the largest priority. -/
structure ModestTask (p : SchedTask) : Prop where
  low : 0 ≤ p.counter
  high : p.counter < 2 ^ 31
  priority : 0 < p.priority
  bound : p.priority ≤ 2 ^ 30

def ModestTable (task : Nat → Option SchedTask) : Prop := ∀ slot p, task slot = some p → ModestTask p

variable {task task' : Nat → Option SchedTask} {p p' : SchedTask} {s s' start : RunQueue}

theorem ModestTask.refill (modest : ModestTask p) : ModestTask (refill p) := by
  rcases modest with ⟨low, high, priority, bound⟩
  refine ⟨?_, ?_, priority, bound⟩
  · simp only [Sched.refill]
    omega
  · simp only [Sched.refill]
    omega

theorem ModestTask.same (modest : ModestTask p) (counter : p'.counter = p.counter) (priority : p'.priority = p.priority) :
    ModestTask p' := by
  rcases modest with ⟨low, high, positive, bound⟩
  rw [← counter] at low high
  rw [← priority] at positive bound
  exact ⟨low, high, positive, bound⟩

theorem ModestTable.each (modest : ModestTable task) {f : SchedTask → SchedTask} (kept : ∀ p, ModestTask p → ModestTask (f p)) :
    ModestTable (eachTask task f) := by
  intro slot p there
  unfold eachTask at there
  split at there
  · rcases Option.map_eq_some_iff.mp there with ⟨q, before, rfl⟩
    exact kept q (modest slot q before)
  · exact modest slot p there

theorem ModestTable.check (modest : ModestTable task) (jiffies : Int) : ModestTable (checkTasks task jiffies) := by
  apply modest.each
  intro p before
  apply before.same
  · unfold wakeSignalled checkAlarm
    split_ifs <;> rfl
  · unfold wakeSignalled checkAlarm
    split_ifs <;> rfl

theorem ModestTable.fits (modest : ModestTable task) : CountersFit task := fun slot p there =>
  ⟨(modest slot p there).low, (modest slot p there).high⟩

theorem ModestTable.picksRight (modest : ModestTable s.task) : PicksRight s := by
  have checked := modest.check s.jiffies
  exact pickNext_right checked.fits (checked.each fun _ => ModestTask.refill).fits fun slot p there => (checked slot p there).priority

theorem ModestTask.nice (modest : ModestTask p) (increment : BitVec 64)
    (bound : (BitVec.ofInt 64 p.priority - increment).toInt ≤ 2 ^ 30) : ModestTask (nice p increment) := by
  unfold Sched.nice
  dsimp only
  split
  · rename_i positive
    exact ⟨modest.low, modest.high, positive, bound⟩
  · exact modest

theorem ModestTask.tick (modest : ModestTask p) : ModestTask (tick p) := by
  rcases modest with ⟨low, high, priority, bound⟩
  refine ⟨?_, ?_, priority, bound⟩
  · simp only [Sched.tick]
    split <;> omega
  · simp only [Sched.tick]
    split <;> omega

theorem ModestTask.fork (modest : ModestTask p) (counter : p'.counter = p.priority) (priority : p'.priority = p.priority) :
    ModestTask p' := by
  rcases modest with ⟨-, -, positive, bound⟩
  refine ⟨?_, ?_, ?_, ?_⟩
  · rw [counter]
    omega
  · rw [counter]
    omega
  · rwa [priority]
  · rwa [priority]

theorem ModestTable.set (modest : ModestTable s.task) (slot : Nat) {q : Option SchedTask}
    (new : ∀ p, q = some p → ModestTask p) : ModestTable (s.setTask slot q).task := by
  intro j p there
  simp only [RunQueue.setTask, Function.update_apply] at there
  split at there
  · exact new p there
  · exact modest j p there

theorem pickNext_modest {fuel next : Nat} (modest : ModestTable task) (picks : pickNext task fuel = some (task', next)) :
    ModestTable task' := by
  induction fuel generalizing task with
  | zero => cases picks
  | succ fuel ih =>
    simp only [pickNext] at picks
    split at picks
    · cases picks
      exact modest
    · exact ih (modest.each fun _ => ModestTask.refill) picks

theorem ModestTable.step {e : SchedEvent} (modest : ModestTable s.task) (ok : e.Modest s) (stepped : e.step s = some s') :
    ModestTable s'.task := by
  cases e with
  | fork slot state =>
    rcases Option.map_eq_some_iff.mp stepped with ⟨p, here, rfl⟩
    refine modest.set slot ?_
    intro q new
    cases new
    exact (modest _ p here).fork rfl rfl
  | nice increment =>
    rcases Option.map_eq_some_iff.mp stepped with ⟨p, here, rfl⟩
    refine modest.set s.current ?_
    intro q new
    cases new
    exact (modest _ p here).nice increment (ok p here)
  | tick =>
    rcases Option.map_eq_some_iff.mp stepped with ⟨p, here, rfl⟩
    refine modest.set s.current ?_
    intro q new
    cases new
    exact (modest _ p here).tick
  | change slot state alarm signal blocked =>
    rcases Option.map_eq_some_iff.mp stepped with ⟨p, here, rfl⟩
    refine modest.set slot ?_
    intro q new
    cases new
    exact (modest _ p here).same rfl rfl
  | release slot =>
    cases stepped
    exact modest.set slot nofun
  | schedule fuel =>
    rcases Option.map_eq_some_iff.mp stepped with ⟨⟨s₁, value⟩, scheduled, rfl⟩
    simp only [Sched.schedule, Option.bind_eq_bind, Option.bind_eq_some_iff] at scheduled
    rcases scheduled with ⟨⟨task, next⟩, picks, result⟩
    cases result
    exact pickNext_modest (modest.check s.jiffies) picks
  | elapse jiffies =>
    cases stepped
    exact modest

/-- As long as `sys_nice` gives no priority above 2^30, `schedule` always comes to the right choice. -/
theorem schedule_picks_right (first : ModestTable start.task) (run : Run SchedEvent.step SchedEvent.Modest start s) :
    PicksRight s := by
  have modest : ModestTable s.task := by
    refine run.invariant (I := fun s => ModestTable s.task) first ?_
    intro e s s' before ok stepped
    exact before.step ok stepped
  exact modest.picksRight

/-- The table as `sched_init` leaves it. -/
def bootQueue : RunQueue where
  task := fun slot => if slot = 0 then some ⟨.running, 15, 15, 0, 0, 0⟩ else none
  current := 0
  jiffies := 0

theorem bootQueue_modest : ModestTable bootQueue.task := by
  intro slot p there
  simp only [bootQueue] at there
  split at there
  · cases there
    exact ⟨by decide, by decide, by decide, by decide⟩
  · cases there

/-- A child that runs, and a tick. -/
theorem first_child_picked : ∃ s, Run SchedEvent.step SchedEvent.Modest bootQueue s ∧ PicksRight s := by
  have forked : Run SchedEvent.step SchedEvent.Modest bootQueue (bootQueue.setTask 1 (some ⟨.running, 15, 15, 0, 0, 0⟩)) :=
    Run.start.next (e := .fork 1 .running) trivial rfl
  have modest : SchedEvent.tick.Modest (bootQueue.setTask 1 (some ⟨.running, 15, 15, 0, 0, 0⟩)) := trivial
  have ticked := forked.next modest rfl
  exact ⟨_, ticked, schedule_picks_right bootQueue_modest ticked⟩

/-- Task 1 raises its priority to 2^32 + 1 and forks. -/
def raises : List SchedEvent := [.fork 1 .running, .schedule 1, .nice (-4294967282), .fork 2 .running]

/-- The counter of the child is compared as 1, so `schedule` chooses its parent, which has 15. -/
theorem wide_counter_missed : ∃ s, Run SchedEvent.step (fun _ _ => True) bootQueue s ∧ ¬ PicksRight s := by
  let test : RunQueue → Bool := fun s => pickFrom (checkTasks s.task s.jiffies) (nrTasks - 1) (-1) 0 = (15, 1) ∧
    ((checkTasks s.task s.jiffies 1).any fun p => p.counter = 15) ∧
    (checkTasks s.task s.jiffies 2).any fun p => p.state = .running ∧ p.counter = 4294967297
  have passed : (runEvents SchedEvent.step (fun _ _ => True) raises bootQueue).any test = true := by decide +kernel
  rcases Run.of_test passed with ⟨s, run, facts⟩
  simp only [test, decide_eq_true_eq, Option.any_eq_true] at facts
  rcases facts with ⟨picks, ⟨p₁, there₁, counter₁⟩, p₂, there₂, running₂, counter₂⟩
  refine ⟨s, run, ?_⟩
  rintro ⟨fuel, task', next, picked, right⟩
  have result : task' = checkTasks s.task s.jiffies ∧ next = 1 := by
    cases fuel with
    | zero => cases picked
    | succ fuel =>
      simp only [pickNext, picks] at picked
      rw [if_pos (by decide)] at picked
      cases picked
      exact ⟨rfl, rfl⟩
  rcases result with ⟨rfl, rfl⟩
  rcases right.chosen (by decide) with ⟨p, runnable, -, largest⟩
  have same := runnable.2.2.1
  rw [there₁] at same
  cases same
  have le := largest 2 p₂ ⟨by decide, by decide, there₂, running₂⟩
  omega

end Run

end K210Linux.Sched
