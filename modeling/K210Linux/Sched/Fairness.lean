import K210Linux.Lib.Members
import K210Linux.Lib.Trace
import K210Linux.Sched.PickTask

/-! A task that can run does not wait for ever. -/

namespace K210Linux.Sched

open K210Linux.Kernel K210Linux.Lib

/-- What `do_timer` does with the counter of the current task, at a tick in user mode or not. -/
def RunQueue.doTimer (s : RunQueue) (user : Bool) (fuel : Nat) : Option RunQueue := do
  let s ← SchedEvent.tick.step s
  let p ← s.task s.current
  if p.counter = 0 ∧ user then (SchedEvent.schedule fuel).step s else some s

/-- A timer interrupt, a call of `schedule` by a task that sleeps or by the return from a system call, a change of
    anything but counter and priority, `release`, and the time. -/
inductive ClockEvent
  | timer (user : Bool) (fuel : Nat)
  | schedule (fuel : Nat)
  | change (slot : Nat) (state : TaskState) (alarm : Int) (signal blocked : BitVec 64)
  | release (slot : Nat)
  | elapse (jiffies : Int)

def ClockEvent.step (e : ClockEvent) (s : RunQueue) : Option RunQueue :=
  match e with
  | timer user fuel => s.doTimer user fuel
  | schedule fuel => (SchedEvent.schedule fuel).step s
  | change slot state alarm signal blocked => (SchedEvent.change slot state alarm signal blocked).step s
  | release slot => (SchedEvent.release slot).step s
  | elapse jiffies => (SchedEvent.elapse jiffies).step s

/-- The ticks in user mode. -/
def ClockEvent.userTick : ClockEvent → Nat
  | timer true _ => 1
  | _ => 0

/-- The task in slot `k` can run and another one is current. -/
def Waiting (k : Nat) (s : RunQueue) : Prop := s.current ≠ k ∧ ∃ p, s.task k = some p ∧ p.state = .running

/-- What of a task the sharing of time is about. -/
def time (p : SchedTask) : Int × Int := (p.counter, p.priority)

/-- A number of a task, 0 in an empty slot. -/
def amount (f : SchedTask → Int) (p : Option SchedTask) : Nat := p.elim 0 fun p => (f p).toNat

/-- The sum of a number over all tasks but the one in slot `k`. -/
def others (k : Nat) (f : SchedTask → Int) (task : Nat → Option SchedTask) : Nat :=
  ∑ i ∈ (Finset.range nrTasks).erase k, amount f (task i)

/-- The current task has used up its time. -/
def spent (s : RunQueue) : Nat := if ∃ p, s.task s.current = some p ∧ p.counter = 0 then 1 else 0

/-- What is left of the time of the others: their counters, and until the task in slot `k` has time of its own also what
    a refill gives to them. -/
def debt (k : Nat) (task : Nat → Option SchedTask) : Nat :=
  2 * others k SchedTask.counter task +
    if ∃ p, task k = some p ∧ p.counter = 0 then 2 * others k (fun p => p.counter + p.priority) task + 1 else 0

/-- The user ticks that the task in slot `k` still has to wait for. -/
def patience (k : Nat) (s : RunQueue) : Nat := debt k s.task + spent s

section Choice

variable {task task' : Nat → Option SchedTask} {fuel fuel' next k : Nat} {s s' : RunQueue} {f g : SchedTask → Int}

theorem pickNext_agree {r r' : (Nat → Option SchedTask) × Nat} (one : pickNext task fuel = some r)
    (two : pickNext task fuel' = some r') : r = r' := by
  induction fuel generalizing task fuel' with
  | zero => cases one
  | succ fuel ih =>
    cases fuel' with
    | zero => cases two
    | succ fuel' =>
      simp only [pickNext] at one two
      split at one
      · rename_i done
        rw [if_pos done] at two
        cases one
        cases two
        rfl
      · rename_i again
        rw [if_neg again] at two
        exact ih one two

theorem pickNext_rightPick (modest : ModestTable task) (picks : pickNext task fuel = some (task', next)) :
    RightPick task task' next := by
  rcases pickNext_right modest.fits (modest.each fun _ => ModestTask.refill).fits
    (fun slot p there => (modest slot p there).priority) with ⟨fuel', task'', next', picks', right⟩
  cases pickNext_agree picks picks'
  exact right

theorem others_le (le : ∀ i, amount f (task' i) ≤ amount g (task i)) : others k f task' ≤ others k g task :=
  Finset.sum_le_sum fun i _ => le i

/-- The debt depends on the counters and the priorities only. -/
theorem others_congr (g : Int × Int → Int) (same : ∀ i, (task' i).map time = (task i).map time) :
    others k (fun p => g (time p)) task' = others k (fun p => g (time p)) task := by
  have through : ∀ q : Option SchedTask, amount (fun p => g (time p)) q = (q.map time).elim 0 fun t => (g t).toNat := by
    intro q
    cases q <;> rfl
  apply Finset.sum_congr rfl
  intro i _
  rw [through, through, same i]

theorem empty_iff (slot : Nat) : (∃ p, task slot = some p ∧ p.counter = 0) ↔ ∃ t, (task slot).map time = some t ∧ t.1 = 0 := by
  cases task slot <;> simp [time]

theorem debt_congr (same : ∀ i, (task' i).map time = (task i).map time) : debt k task' = debt k task := by
  have counters : others k SchedTask.counter task' = others k SchedTask.counter task := others_congr Prod.fst same
  have both := others_congr (k := k) (fun t => t.1 + t.2) same
  simp only [time] at both
  unfold debt
  rw [counters, both]
  simp only [empty_iff, same]

theorem spent_congr (current : s'.current = s.current) (same : ∀ i, (s'.task i).map time = (s.task i).map time) :
    spent s' = spent s := by
  unfold spent
  simp only [empty_iff, same, current]

theorem check_kept (jiffies : Int) (p : SchedTask) : time (wakeSignalled (checkAlarm jiffies p)) = time p := by
  unfold wakeSignalled checkAlarm time
  split_ifs <;> rfl

theorem check_running {jiffies : Int} {p : SchedTask} (running : p.state = .running) :
    (wakeSignalled (checkAlarm jiffies p)).state = .running := by
  have checked : (checkAlarm jiffies p).state = .running := (checkAlarm_state jiffies p).trans running
  rw [wakeSignalled_other (by simp [checked]), checked]

/-- The check of alarms and signals leaves counters and priorities alone. -/
theorem checkTasks_time (jiffies : Int) (slot : Nat) :
    (checkTasks task jiffies slot).map time = (task slot).map time := by
  unfold checkTasks eachTask
  split
  · rw [Option.map_map]
    exact congrFun (congrArg Option.map (funext fun p => check_kept jiffies p)) (task slot)
  · rfl

theorem checkTasks_running (jiffies : Int) {slot : Nat} {p : SchedTask} (there : task slot = some p)
    (running : p.state = .running) : ∃ q, checkTasks task jiffies slot = some q ∧ q.state = .running := by
  unfold checkTasks eachTask
  rw [there]
  split
  · exact ⟨_, rfl, check_running running⟩
  · exact ⟨p, rfl, running⟩

/-- A refill when the task in slot `k` has no time left is paid for. -/
theorem debt_refill {p : SchedTask} (modest : ModestTable task) (inside : 0 < k ∧ k < nrTasks) (there : task k = some p)
    (zero : p.counter = 0) : debt k (eachTask task refill) ≤ debt k task := by
  have given : others k SchedTask.counter (eachTask task refill) ≤ others k (fun p => p.counter + p.priority) task := by
    apply others_le
    intro i
    unfold eachTask
    cases here : task i with
    | none => split <;> exact le_refl _
    | some q =>
      rcases modest i q here with ⟨low, -, priority, -⟩
      split
      · simp only [amount, Option.map_some, Option.elim_some, refill]
        omega
      · simp only [amount, Option.elim_some]
        omega
  have refilled : ¬ ∃ q, eachTask task refill k = some q ∧ q.counter = 0 := by
    rintro ⟨q, here, none⟩
    unfold eachTask at here
    rw [if_pos inside, there] at here
    cases here
    have priority := (modest k p there).priority
    simp only [refill, zero] at none
    omega
  unfold debt
  rw [if_neg refilled, if_pos ⟨p, there, zero⟩]
  omega

/-- `schedule` adds nothing to what is left of the time of the others, and the task that it chooses has time. -/
theorem schedule_lowers {p : SchedTask} (modest : ModestTable s.task) (inside : 0 < k ∧ k < nrTasks)
    (there : s.task k = some p) (running : p.state = .running) (scheduled : (SchedEvent.schedule fuel).step s = some s') :
    debt k s'.task ≤ debt k s.task ∧ spent s' = 0 ∧ s'.current < nrTasks := by
  rcases Option.map_eq_some_iff.mp scheduled with ⟨⟨s₁, value⟩, done, rfl⟩
  simp only [Sched.schedule, Option.bind_eq_bind, Option.bind_eq_some_iff] at done
  rcases done with ⟨⟨task', next⟩, picks, result⟩
  cases result
  have checked := modest.check s.jiffies
  have right := pickNext_rightPick checked picks
  rcases checkTasks_running s.jiffies there running with ⟨q, found, stays⟩
  have runnable : Runnable (checkTasks s.task s.jiffies) k q := ⟨inside.1, inside.2, found, stays⟩
  have other : next ≠ 0 := fun idle => right.idle.mp idle k q runnable
  rcases right.chosen other with ⟨r, ⟨-, bound, chosen, -⟩, positive, -⟩
  refine ⟨?_, ?_, bound⟩
  · have lowered : debt k task' ≤ debt k (checkTasks s.task s.jiffies) := by
      rcases right.counters with same | ⟨refilled, zeros⟩
      · rw [same]
      · rw [refilled]
        exact debt_refill checked inside found (zeros k q runnable)
    rwa [debt_congr (checkTasks_time s.jiffies)] at lowered
  · unfold spent
    apply if_neg
    rintro ⟨r', here, zero⟩
    have same : some r = some r' := chosen.symm.trans here
    cases same
    rw [zero] at positive
    exact lt_irrefl 0 positive

end Choice

section Clock

variable {fuel k : Nat} {s s' : RunQueue} {f : SchedTask → Int} {user : Bool} {e : ClockEvent}
  {events : List ClockEvent}

/-- One other task changes. -/
theorem others_set {slot : Nat} (q : Option SchedTask) (inside : slot < nrTasks) (other : slot ≠ k) :
    others k f (s.setTask slot q).task + amount f (s.task slot) = others k f s.task + amount f q := by
  have member : slot ∈ (Finset.range nrTasks).erase k := Finset.mem_erase.mpr ⟨other, Finset.mem_range.mpr inside⟩
  have new : (s.setTask slot q).task slot = q := Function.update_self ..
  have same : ∀ i, i ≠ slot → amount f ((s.setTask slot q).task i) = amount f (s.task i) :=
    fun i away => congrArg (amount f) (Function.update_of_ne away ..)
  have exchanged := Members.sum_exchange member same
  rwa [new] at exchanged

theorem setTask_other {slot : Nat} (q : Option SchedTask) (other : slot ≠ k) : (s.setTask slot q).task k = s.task k :=
  Function.update_of_ne (Ne.symm other) ..

theorem others_set_le {slot : Nat} {q : Option SchedTask} (less : amount f q ≤ amount f (s.task slot)) :
    others k f (s.setTask slot q).task ≤ others k f s.task := by
  apply others_le
  intro i
  simp only [RunQueue.setTask, Function.update_apply]
  split
  · rename_i same
    rw [same]
    exact less
  · exact le_refl _

/-- A task other than the one in slot `k` gets no more time. -/
theorem debt_set_le {slot : Nat} {q : Option SchedTask} (other : slot ≠ k)
    (counter : amount SchedTask.counter q ≤ amount SchedTask.counter (s.task slot))
    (both : amount (fun p => p.counter + p.priority) q ≤ amount (fun p => p.counter + p.priority) (s.task slot)) :
    debt k (s.setTask slot q).task ≤ debt k s.task := by
  have counters := others_set_le (k := k) counter
  have all := others_set_le (k := k) both
  unfold debt
  rw [setTask_other q other]
  split <;> omega

/-- The current task pays for a tick, unless it has used up its time. -/
theorem debt_tick {p : SchedTask} (modest : ModestTask p) (inside : s.current < nrTasks) (other : s.current ≠ k)
    (here : s.task s.current = some p) :
    debt k (s.setTask s.current (some (tick p))).task + 2 * (if p.counter = 0 then 0 else 1) ≤ debt k s.task := by
  rcases modest with ⟨low, -, priority, -⟩
  have counters := others_set (s := s) (f := SchedTask.counter) (some (tick p)) inside other
  have all : others k (fun p => p.counter + p.priority) (s.setTask s.current (some (tick p))).task ≤
      others k (fun p => p.counter + p.priority) s.task := by
    apply others_set_le
    rw [here]
    simp only [amount, Option.elim_some, tick]
    split <;> omega
  rw [here] at counters
  simp only [amount, Option.elim_some, tick] at counters
  have paid : others k SchedTask.counter (s.setTask s.current (some (tick p))).task + (if p.counter = 0 then 0 else 1) ≤
      others k SchedTask.counter s.task := by
    simp only [tick]
    split_ifs at counters ⊢ <;> omega
  unfold debt
  rw [setTask_other _ other]
  split <;> omega

theorem spent_tick (s : RunQueue) (p : SchedTask) :
    spent (s.setTask s.current (some (tick p))) = if p.counter - 1 > 0 then 0 else 1 := by
  have new : (s.setTask s.current (some (tick p))).task s.current = some (tick p) := Function.update_self ..
  unfold spent
  change (if ∃ q, (s.setTask s.current (some (tick p))).task s.current = some q ∧ q.counter = 0 then 1 else 0) = _
  rw [new]
  simp only [Option.some.injEq, exists_eq_left', tick]
  split_ifs <;> omega

theorem spent_current {p : SchedTask} (here : s.task s.current = some p) :
    spent s = if p.counter = 0 then 1 else 0 := by
  unfold spent
  simp [here]

/-- A tick in user mode brings the task in slot `k` closer to its turn; one in the kernel takes nothing from it. -/
theorem timer_lowers (modest : ModestTable s.task) (inside : s.current < nrTasks) (bound : 0 < k ∧ k < nrTasks)
    (waits : Waiting k s) (ticks : s.doTimer user fuel = some s') :
    (ModestTable s'.task ∧ s'.current < nrTasks) ∧ patience k s' + (if user then 1 else 0) ≤ patience k s := by
  rcases waits with ⟨other, q, there, running⟩
  simp only [RunQueue.doTimer, Option.bind_eq_bind, Option.bind_eq_some_iff] at ticks
  rcases ticks with ⟨s₁, ticked, p₁, now, rest⟩
  have modest₁ : ModestTable s₁.task := modest.step (e := .tick) trivial ticked
  rcases Option.map_eq_some_iff.mp ticked with ⟨p, here, rfl⟩
  have owes := debt_tick (modest _ p here) inside other here
  have before := spent_current here
  have after := spent_tick s p
  have low := (modest _ p here).low
  have same : p₁ = tick p := (Option.some.inj (now.symm.trans (Function.update_self ..)))
  subst same
  split at rest
  · -- the time of the current task is over, and `schedule` chooses another one
    rcases schedule_lowers modest₁ bound ((setTask_other _ other).trans there) running rest with ⟨lowered, fresh, inside'⟩
    refine ⟨⟨modest₁.step (e := .schedule fuel) trivial rest, inside'⟩, ?_⟩
    unfold patience
    rw [fresh, before]
    split_ifs at owes ⊢ <;> omega
  · rename_i goesOn
    cases rest
    refine ⟨⟨modest₁, inside⟩, ?_⟩
    unfold patience
    rw [before, after]
    cases user with
    | true =>
      have left : 1 < p.counter := by
        by_contra few
        have none : ¬ p.counter - 1 > 0 := by omega
        exact goesOn ⟨if_neg none, rfl⟩
      split_ifs at owes ⊢ <;> omega
    | false =>
      rw [if_neg Bool.false_ne_true]
      split_ifs at owes ⊢ <;> omega

/-- What is not about the current task's time gives none to the others. -/
theorem ClockEvent.step_lowers (bound : 0 < k ∧ k < nrTasks) (waits : Waiting k s)
    (before : ModestTable s.task ∧ s.current < nrTasks) (stepped : e.step s = some s') (still : Waiting k s') :
    (ModestTable s'.task ∧ s'.current < nrTasks) ∧ patience k s' + e.userTick ≤ patience k s := by
  rcases before with ⟨modest, inside⟩
  cases e with
  | timer user fuel =>
    have lowered := timer_lowers modest inside bound waits stepped
    cases user <;> exact lowered
  | schedule fuel =>
    rcases waits with ⟨-, p, there, running⟩
    rcases schedule_lowers modest bound there running stepped with ⟨lowered, fresh, inside'⟩
    refine ⟨⟨modest.step (e := .schedule fuel) trivial stepped, inside'⟩, ?_⟩
    simp only [patience, fresh, userTick]
    omega
  | change slot state alarm signal blocked =>
    refine ⟨⟨modest.step (e := .change slot state alarm signal blocked) trivial stepped, ?_⟩, ?_⟩
    · rcases Option.map_eq_some_iff.mp stepped with ⟨p, here, rfl⟩
      exact inside
    · rcases Option.map_eq_some_iff.mp stepped with ⟨p, here, rfl⟩
      have same : ∀ i, (Function.update s.task slot (some { p with state, alarm, signal, blocked }) i).map time =
          (s.task i).map time := by
        intro i
        by_cases hit : i = slot
        · simp [hit, here, time]
        · simp [hit]
      have spentSame : spent (s.setTask slot (some { p with state, alarm, signal, blocked })) = spent s :=
        spent_congr rfl same
      exact (congrArg₂ (· + ·) (debt_congr same) spentSame).le
  | release slot =>
    refine ⟨⟨modest.step (e := .release slot) trivial stepped, ?_⟩, ?_⟩
    · cases stepped
      exact inside
    · cases stepped
      have other : slot ≠ k := by
        rintro rfl
        rcases still with ⟨-, p, there, -⟩
        simp [RunQueue.setTask] at there
      have lowered := debt_set_le (s := s) (q := none) other (Nat.zero_le _) (Nat.zero_le _)
      have fewer : spent (s.setTask slot none) ≤ spent s := by
        by_cases hit : slot = s.current
        · simp [spent, RunQueue.setTask, hit]
        · exact (if_congr (by simp [RunQueue.setTask, Function.update_of_ne (Ne.symm hit)]) rfl rfl).le
      simp only [patience, userTick]
      omega
  | elapse jiffies =>
    cases stepped
    exact ⟨⟨modest, inside⟩, le_refl _⟩

/-- How long a task that can run waits at most, in ticks in user mode, as long as there is no new task and no other
    priority. -/
theorem no_starvation (bound : 0 < k ∧ k < nrTasks) (modest : ModestTable s.task) (inside : s.current < nrTasks)
    (waiting : Trace ClockEvent.step (Waiting k) s events s') :
    (events.map ClockEvent.userTick).sum ≤
      2 + 4 * others k SchedTask.counter s.task + 2 * others k SchedTask.priority s.task := by
  have ticks : (events.map ClockEvent.userTick).sum ≤ patience k s :=
    waiting.cost_le (J := fun s => ModestTable s.task ∧ s.current < nrTasks) ⟨modest, inside⟩ fun e s s' waits before stepped still => ClockEvent.step_lowers bound waits before stepped still
  apply ticks.trans
  have both : others k (fun p => p.counter + p.priority) s.task ≤
      others k SchedTask.counter s.task + others k SchedTask.priority s.task := by
    unfold others
    rw [← Finset.sum_add_distrib]
    apply Finset.sum_le_sum
    intro i _
    cases s.task i with
    | none => exact le_refl _
    | some p =>
      simp only [amount, Option.elim_some]
      omega
  have last : spent s ≤ 1 := by
    unfold spent
    split <;> omega
  unfold patience debt
  split <;> omega

/-- Task 1 has two ticks left, and task 2 waits. -/
def twoTasks : RunQueue where
  task := fun slot =>
    if slot = 1 then some ⟨.running, 2, 15, 0, 0, 0⟩ else if slot = 2 then some ⟨.running, 1, 15, 0, 0, 0⟩ else none
  current := 1
  jiffies := 0

theorem twoTasks_modest : ModestTable twoTasks.task := by
  intro slot p there
  simp only [twoTasks] at there
  split at there
  · cases there
    exact ⟨by decide, by decide, by decide, by decide⟩
  · split at there
    · cases there
      exact ⟨by decide, by decide, by decide, by decide⟩
    · cases there

/-- After a tick task 2 still waits. -/
theorem second_waits : ∃ s', Trace ClockEvent.step (Waiting 2) twoTasks [.timer true 1] s' ∧
    1 ≤ 2 + 4 * others 2 SchedTask.counter twoTasks.task + 2 * others 2 SchedTask.priority twoTasks.task := by
  have ticked : (ClockEvent.timer true 1).step twoTasks = some (twoTasks.setTask 1 (some ⟨.running, 1, 15, 0, 0, 0⟩)) := rfl
  have first : Waiting 2 twoTasks := ⟨by decide, ⟨.running, 1, 15, 0, 0, 0⟩, rfl, rfl⟩
  have later : Waiting 2 (twoTasks.setTask 1 (some ⟨.running, 1, 15, 0, 0, 0⟩)) :=
    ⟨by decide, ⟨.running, 1, 15, 0, 0, 0⟩, rfl, rfl⟩
  have trace := Trace.step first ticked (.stop later)
  exact ⟨_, trace, no_starvation (by decide) twoTasks_modest (by decide) trace⟩

end Clock

end K210Linux.Sched
