import K210Linux.Sched.PickTask

/-! When an alarm expires: the deadline is compared with `jiffies`, and nothing counts `jiffies`. -/

namespace K210Linux.Sched

open K210Linux.Kernel K210Linux.Lib

/-- `HZ`. -/
def hz : Int := 100

/-- `sys_alarm`, with what it returns: `old` is an `int`. -/
def sysAlarm (s : RunQueue) (seconds : Int) : Option (RunQueue × Int) := do
  let p ← s.task s.current
  let old := toInt32 p.alarm
  let old := if old ≠ 0 then toInt32 ((old - s.jiffies).tdiv hz) else old
  let alarm := if seconds > 0 then (BitVec.ofInt 64 (s.jiffies + hz * seconds)).toInt else 0
  some (s.setTask s.current (some { p with alarm := alarm }), old)

/-- `timer_interrupt`: `do_timer` on the current task, and whether it goes on to call `schedule`. What the timer functions do are events
    of their own. -/
def timerInterrupt (s : RunQueue) (user : Bool) : Option (RunQueue × Bool) := do
  let p ← s.task s.current
  some (s.setTask s.current (some (tick p)), decide (p.counter - 1 ≤ 0) && user)

/-- What happens after a call of `sys_alarm`: `timer_interrupt`, `schedule`, other calls of `sys_alarm`, and any other
    change of a slot. -/
inductive AlarmEvent
  | interrupt (user : Bool)
  | schedule (fuel : Nat)
  | alarm (seconds : Int)
  | put (slot : Nat) (p : Option SchedTask)

/-- The queue, the number of timer interrupts so far, and how many of them came before the last `schedule`. -/
structure AlarmClock where
  queue : RunQueue
  interrupts : Nat
  seen : Nat

def AlarmEvent.step (e : AlarmEvent) (s : AlarmClock) : Option AlarmClock :=
  match e with
  | interrupt user => (timerInterrupt s.queue user).map fun r => ⟨r.1, s.interrupts + 1, s.seen⟩
  | schedule fuel => (Sched.schedule s.queue fuel).map fun r => ⟨r.1, s.interrupts, s.interrupts⟩
  | alarm seconds => (sysAlarm s.queue seconds).map fun r => { s with queue := r.1 }
  | put slot p => some { s with queue := s.queue.setTask slot p }

/-- The alarm of the task in `slot` is left to the scheduler. -/
def AlarmEvent.Leaves (slot : Nat) (e : AlarmEvent) (s : AlarmClock) : Prop :=
  match e with
  | alarm _ => s.queue.current ≠ slot
  | put slot' p => slot' = slot → p.map (·.alarm) = (s.queue.task slot).map (·.alarm)
  | _ => True

/-- The first loop of `schedule` clears the alarm of the task and sets `SIGALRM`. -/
def Expires (s : RunQueue) (slot : Nat) : Prop :=
  ∃ p p', s.task slot = some p ∧ checkTasks s.task s.jiffies slot = some p' ∧
    p.alarm ≠ 0 ∧ p'.alarm = 0 ∧ p'.signal.getLsbD 13 = true

/-- The alarm that the current task sets expires in the first `schedule` after more than `seconds * HZ` interrupts, and
    in none before as many. -/
structure AlarmOnTime (start : RunQueue) (seconds : Int) : Prop where
  expires : ∀ s₀ old s, sysAlarm start seconds = some (s₀, old) →
    Run AlarmEvent.step (AlarmEvent.Leaves start.current) ⟨s₀, 0, 0⟩ s →
      s.seen ≤ seconds * hz → seconds * hz < s.interrupts → Expires s.queue start.current
  early : ∀ s₀ old s, sysAlarm start seconds = some (s₀, old) →
    Run AlarmEvent.step (AlarmEvent.Leaves start.current) ⟨s₀, 0, 0⟩ s →
      s.interrupts < seconds * hz → ¬ Expires s.queue start.current

variable {task task' : Nat → Option SchedTask} {slot fuel next : Nat} {jiffies deadline seconds old : Int} {p : SchedTask}
  {s s' : AlarmClock} {start s₀ : RunQueue}

/-- The task in a slot waits for a deadline. -/
def AlarmAt (task : Nat → Option SchedTask) (slot : Nat) (deadline : Int) : Prop :=
  ∃ p, task slot = some p ∧ p.alarm = deadline

theorem AlarmAt.each (waits : AlarmAt task slot deadline) {f : SchedTask → SchedTask}
    (kept : ∀ p, p.alarm = deadline → (f p).alarm = deadline) : AlarmAt (eachTask task f) slot deadline := by
  rcases waits with ⟨p, there, alarm⟩
  unfold AlarmAt eachTask
  split
  · exact ⟨f p, by rw [there]; rfl, kept p alarm⟩
  · exact ⟨p, there, alarm⟩

theorem AlarmAt.update (waits : AlarmAt task slot deadline) {i : Nat} {q : Option SchedTask}
    (same : i = slot → q.map (·.alarm) = (task slot).map (·.alarm)) :
    AlarmAt (Function.update task i q) slot deadline := by
  rcases waits with ⟨p, there, alarm⟩
  by_cases hit : i = slot
  · have kept := same hit
    rw [there] at kept
    rcases Option.map_eq_some_iff.mp kept with ⟨p', new, alarm'⟩
    subst hit
    exact ⟨p', by rw [Function.update_self, new], alarm'.trans alarm⟩
  · exact ⟨p, by rw [Function.update_of_ne (Ne.symm hit), there], alarm⟩

theorem wakeSignalled_alarm (p : SchedTask) : (wakeSignalled p).alarm = p.alarm := by
  unfold wakeSignalled
  split <;> rfl

/-- A deadline that has not passed stays. -/
theorem AlarmAt.check (waits : AlarmAt task slot deadline) (ahead : jiffies ≤ deadline) :
    AlarmAt (checkTasks task jiffies) slot deadline := by
  refine waits.each ?_
  intro p alarm
  rw [wakeSignalled_alarm]
  unfold checkAlarm
  split
  · omega
  · exact alarm

theorem AlarmAt.pickNext (waits : AlarmAt task slot deadline) (picks : pickNext task fuel = some (task', next)) :
    AlarmAt task' slot deadline := by
  induction fuel generalizing task with
  | zero => cases picks
  | succ fuel ih =>
    simp only [Sched.pickNext] at picks
    split at picks
    · cases picks
      exact waits
    · have refilled : AlarmAt (eachTask task refill) slot deadline := waits.each fun _ alarm => alarm
      exact ih refilled picks

/-- The deadline is set and the time is still before it. -/
structure Ahead (slot : Nat) (jiffies deadline : Int) (s : AlarmClock) : Prop where
  time : s.queue.jiffies = jiffies
  waits : AlarmAt s.queue.task slot deadline

theorem timerInterrupt_eq {user due : Bool} {q : RunQueue} (done : timerInterrupt start user = some (q, due)) :
    ∃ p, start.task start.current = some p ∧ q = start.setTask start.current (some (tick p)) := by
  rcases Option.bind_eq_some_iff.mp done with ⟨p, here, rest⟩
  cases rest
  exact ⟨p, here, rfl⟩

theorem Ahead.step {e : AlarmEvent} (before : Ahead slot jiffies deadline s) (ahead : jiffies ≤ deadline)
    (leaves : e.Leaves slot s) (stepped : e.step s = some s') : Ahead slot jiffies deadline s' := by
  rcases before with ⟨time, waits⟩
  cases e with
  | interrupt user =>
    rcases Option.map_eq_some_iff.mp stepped with ⟨⟨q, due⟩, done, rfl⟩
    rcases timerInterrupt_eq done with ⟨p, here, rfl⟩
    refine ⟨time, waits.update ?_⟩
    intro hit
    rw [← hit, here]
    rfl
  | schedule fuel =>
    rcases Option.map_eq_some_iff.mp stepped with ⟨⟨q, value⟩, scheduled, rfl⟩
    simp only [Sched.schedule, Option.bind_eq_bind, Option.bind_eq_some_iff] at scheduled
    rcases scheduled with ⟨⟨task, next⟩, picks, result⟩
    cases result
    refine ⟨time, AlarmAt.pickNext ?_ picks⟩
    exact waits.check (by omega)
  | alarm seconds =>
    rcases Option.map_eq_some_iff.mp stepped with ⟨⟨q, old⟩, set, rfl⟩
    rcases Option.bind_eq_some_iff.mp set with ⟨p, here, rest⟩
    cases rest
    exact ⟨time, waits.update fun hit => absurd hit leaves⟩
  | put i q =>
    cases stepped
    exact ⟨time, waits.update leaves⟩

/-- The clock does not advance, so a deadline ahead of it never passes. -/
theorem Ahead.run (first : Ahead slot jiffies deadline s) (ahead : jiffies ≤ deadline)
    (run : Run AlarmEvent.step (AlarmEvent.Leaves slot) s s') : Ahead slot jiffies deadline s' :=
  run.invariant (I := Ahead slot jiffies deadline) first fun _ _ _ before leaves stepped => before.step ahead leaves stepped

theorem Ahead.not_expires (here : Ahead slot jiffies deadline s) (ahead : jiffies ≤ deadline) : ¬ Expires s.queue slot := by
  rintro ⟨p, p', there, checked, set, cleared, -⟩
  rcases here with ⟨time, waits⟩
  have alarm : p.alarm = deadline := by
    rcases waits with ⟨q, thereQ, alarm⟩
    rw [there] at thereQ
    cases thereQ
    exact alarm
  rcases waits.check ahead with ⟨q, thereQ, alarmQ⟩
  rw [time, thereQ] at checked
  cases checked
  omega

/-- `sys_alarm` sets a deadline ahead of the clock. -/
theorem sysAlarm_ahead (positive : 1 ≤ seconds) (low : -2 ^ 63 ≤ start.jiffies) (high : start.jiffies + hz * seconds < 2 ^ 63)
    (set : sysAlarm start seconds = some (s₀, old)) :
    Ahead start.current start.jiffies (start.jiffies + hz * seconds) ⟨s₀, 0, 0⟩ := by
  rcases Option.bind_eq_some_iff.mp set with ⟨p, here, rest⟩
  cases rest
  refine ⟨rfl, _, Function.update_self _ _ _, ?_⟩
  dsimp only
  unfold hz at *
  rw [if_pos (by omega), BitVec.toInt_ofInt, Int.bmod_def]
  split <;> omega

/-- Any number of timer interrupts can be taken while the task is in the kernel. -/
theorem interrupts_taken (slot : Nat) (here : start.task start.current ≠ none) (n : Nat) :
    ∃ s, Run AlarmEvent.step (AlarmEvent.Leaves slot) ⟨start, 0, 0⟩ s ∧ s.interrupts = n ∧ s.seen = 0 ∧
      s.queue.task s.queue.current ≠ none := by
  induction n with
  | zero => exact ⟨_, .start, rfl, rfl, here⟩
  | succ n ih =>
    rcases ih with ⟨s, run, interrupts, seen, there⟩
    rcases Option.ne_none_iff_exists'.mp there with ⟨p, there⟩
    have taken : ∃ q due, timerInterrupt s.queue false = some (q, due) := by
      simp only [timerInterrupt, there, Option.bind_eq_bind, Option.bind_some]
      exact ⟨_, _, rfl⟩
    rcases taken with ⟨q, due, taken⟩
    have stepped : (AlarmEvent.interrupt false).step s = some ⟨q, s.interrupts + 1, s.seen⟩ := by
      simp only [AlarmEvent.step, taken, Option.map_some]
    have allowed : (AlarmEvent.interrupt false).Leaves slot s := trivial
    refine ⟨_, run.next allowed stepped, by rw [interrupts], seen, ?_⟩
    rcases timerInterrupt_eq taken with ⟨p, -, rfl⟩
    simp [RunQueue.setTask]

/-- No alarm is on time: `jiffies` stands still, so the deadline stays ahead of it whatever the number of interrupts. -/
theorem alarm_never_on_time (start : RunQueue) (seconds : Int) (here : start.task start.current ≠ none) (positive : 1 ≤ seconds)
    (low : -2 ^ 63 ≤ start.jiffies) (high : start.jiffies + hz * seconds < 2 ^ 63) : ¬ AlarmOnTime start seconds := by
  intro onTime
  have set : ∃ s₀ old, sysAlarm start seconds = some (s₀, old) ∧ s₀.task s₀.current ≠ none := by
    rcases Option.ne_none_iff_exists'.mp here with ⟨p, here⟩
    simp only [sysAlarm, here, Option.bind_eq_bind, Option.bind_some]
    exact ⟨_, _, rfl, by simp [RunQueue.setTask]⟩
  rcases set with ⟨s₀, old, set, there⟩
  rcases interrupts_taken start.current there ((seconds * hz).toNat + 1) with ⟨s, run, interrupts, seen, -⟩
  have ahead : start.jiffies ≤ start.jiffies + hz * seconds := by
    unfold hz
    omega
  have waits := (sysAlarm_ahead positive low high set).run ahead run
  refine waits.not_expires ahead (onTime.expires s₀ old s set run ?_ ?_)
  · unfold hz
    omega
  · unfold hz at *
    omega

/-- One task that runs, at time 0. -/
def alone : RunQueue where
  task := fun slot => if slot = 1 then some ⟨.running, 15, 15, 0, 0, 0⟩ else none
  current := 1
  jiffies := 0

/-- An alarm of one second. -/
theorem second_never_passes : ¬ AlarmOnTime alone 1 :=
  alarm_never_on_time alone 1 (by decide) (by decide) (by decide) (by decide)

/-- After 101 interrupts an alarm of one second has not expired. -/
theorem second_too_late : ∃ s₀ old s, sysAlarm alone 1 = some (s₀, old) ∧
    Run AlarmEvent.step (AlarmEvent.Leaves 1) ⟨s₀, 0, 0⟩ s ∧ s.seen = 0 ∧ s.interrupts = 101 ∧ ¬ Expires s.queue 1 := by
  have set : ∃ s₀ old, sysAlarm alone 1 = some (s₀, old) ∧ s₀.task s₀.current ≠ none := ⟨_, _, rfl, by decide⟩
  rcases set with ⟨s₀, old, set, here⟩
  rcases interrupts_taken 1 here 101 with ⟨s, run, interrupts, seen, -⟩
  have first := sysAlarm_ahead (by decide) (by decide) (by decide) set
  have waits := first.run (by decide) run
  exact ⟨s₀, old, s, set, run, seen, interrupts, waits.not_expires (by decide)⟩

end K210Linux.Sched
