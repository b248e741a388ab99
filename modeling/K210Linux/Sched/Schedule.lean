import K210Linux.Kernel.Process

namespace K210Linux.Sched

open K210Linux.Kernel

/-- The fields of `task_struct` that the scheduler uses. -/
structure SchedTask where
  state : TaskState
  counter : Int
  priority : Int
  alarm : Int
  signal : BitVec 64
  blocked : BitVec 64

/-- The slots of `task`, the slot of `current`, and the time. -/
structure RunQueue where
  task : Nat → Option SchedTask
  current : Nat
  jiffies : Int

/-- `1 << (SIGALRM - 1)`. -/
def sigalrmBit : BitVec 64 := BitVec.twoPow 64 13

/-- `_BLOCKABLE`. -/
def blockable : BitVec 64 := ~~~ (BitVec.twoPow 64 8 ||| BitVec.twoPow 64 18)

def checkAlarm (jiffies : Int) (p : SchedTask) : SchedTask :=
  if p.alarm ≠ 0 ∧ p.alarm < jiffies then { p with signal := p.signal ||| sigalrmBit, alarm := 0 } else p

/-- The mask is a product and not a conjunction. -/
def wakeSignalled (p : SchedTask) : SchedTask :=
  if p.signal &&& ~~~ (blockable * p.blocked) ≠ 0 ∧ p.state = .interruptible then { p with state := .running } else p

/-- A loop over all slots but the first. -/
def eachTask (task : Nat → Option SchedTask) (f : SchedTask → SchedTask) (i : Nat) : Option SchedTask :=
  if 0 < i ∧ i < nrTasks then (task i).map f else task i

/-- A value of 64 bits that is stored in an `int`. -/
def toInt32 (value : Int) : Int := (BitVec.ofInt 32 value).toInt

/-- The loop that looks for the largest counter, over the slots from `i` down to 1. The largest so far is an `int`. -/
def pickFrom (task : Nat → Option SchedTask) : Nat → Int → Nat → Int × Nat
  | 0, c, next => (c, next)
  | i + 1, c, next =>
    match task (i + 1) with
    | none => pickFrom task i c next
    | some p =>
      if p.state = .running ∧ p.counter > c then pickFrom task i (toInt32 p.counter) (i + 1) else pickFrom task i c next

def refill (p : SchedTask) : SchedTask := { p with counter := p.counter / 2 + p.priority }

/-- The scheduler proper, and the slot it chooses; `none` when it is not done after `fuel` rounds. -/
def pickNext (task : Nat → Option SchedTask) : Nat → Option ((Nat → Option SchedTask) × Nat)
  | 0 => none
  | fuel + 1 =>
    let (c, next) := pickFrom task (nrTasks - 1) (-1) 0
    if c ≠ 0 then some (task, next) else pickNext (eachTask task refill) fuel

/-- The value that `switch_to` returns to the task that calls it, when that task runs again: after a switch
    it comes back behind `switch_to_tss`. -/
def switchTo {T : Type} [DecidableEq T] (current next : T) : Bool := if current ≠ next then false else true

/-- `schedule`, with the value that it returns to the task that calls it. -/
def schedule (s : RunQueue) (fuel : Nat) : Option (RunQueue × Bool) := do
  let task := eachTask s.task fun p => wakeSignalled (checkAlarm s.jiffies p)
  let (task, next) ← pickNext task fuel
  some ({ s with task := task, current := next }, switchTo s.current next)

/-- The states a task can be switched to: it is running, or it is the idle task. -/
def Picked {T : Type} (state : T → TaskState) (idle next : T) : Prop := next = idle ∨ state next = .running

end K210Linux.Sched
