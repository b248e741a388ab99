import K210Linux.Sched.Schedule
import K210Linux.Lib.Chain
import Mathlib.Logic.Relation
import Mathlib.Data.List.Basic

namespace K210Linux.Sched

open K210Linux.Kernel K210Linux.Lib

/-- A call of `sleep_on` or `interruptible_sleep_on` that is inside `schedule`: its variable `tmp`, and the
    task it switched to, if it did. -/
structure Sleep (T : Type) where
  tmp : Option T
  next : Option T

/-- A wait queue `*p` over the tasks `T`, with their states and the calls that sleep on the queue. -/
structure WaitQueue (T : Type) where
  head : Option T
  state : T → TaskState
  asleep : T → Option (Sleep T)

variable {T : Type} [DecidableEq T]

namespace WaitQueue

variable (s : WaitQueue T)

def setState (t : T) (state : TaskState) : WaitQueue T := { s with state := Function.update s.state t state }

/-- `wake_up`, and the wake of `tmp`: the task a pointer is to is made running. -/
def wake : Option T → WaitQueue T
  | none => s
  | some t => s.setState t .running

def wakeUp : WaitQueue T := s.wake s.head

/-- `tmp = *p; *p = current; current -> state = ...`, and the call of `schedule`. -/
def enter (current : T) (state : TaskState) : WaitQueue T :=
  { s.setState current state with
    head := some current
    asleep := Function.update s.asleep current (some ⟨s.head, none⟩) }

/-- `schedule` lets `current` switch to `next`. -/
def switch (current next : T) : WaitQueue T :=
  { s with asleep := Function.update s.asleep current ((s.asleep current).map fun call => { call with next := some next }) }

def leave (t : T) : WaitQueue T := { s with asleep := Function.update s.asleep t none }

/-- `sleep_on` from its start to the switch to another task. -/
def sleepOn (current next : T) : WaitQueue T := (s.enter current .uninterruptible).switch current next

/-- The rest of `sleep_on`, after `schedule` returned `value`. -/
def finishSleepOn (current : T) (tmp : Option T) (value : Bool) : WaitQueue T :=
  if value then (s.leave current).wake tmp else s.leave current

/-- The rest of `interruptible_sleep_on`, after `schedule` returned `value`, up to its end or to the next call
    of `schedule`. -/
def finishInterruptible (current : T) (tmp : Option T) (value : Bool) : WaitQueue T :=
  if value ∧ s.head ≠ none ∧ s.head ≠ some current then
    { (s.wake s.head).setState current .interruptible with
      asleep := Function.update s.asleep current (some ⟨tmp, none⟩) }
  else { s.leave current with head := tmp }.wake tmp

end WaitQueue

section SleepOn

variable (idle : T)

/-- The tasks of a list call `sleep_on` one after the other, and each switches away inside `schedule`. -/
inductive Sleeps (s : WaitQueue T) : List T → WaitQueue T → Prop
  | nil : Sleeps s [] s
  | snoc {ts : List T} {s' : WaitQueue T} (t next : T) (before : Sleeps s ts s') (awake : s'.asleep t = none)
      (notIdle : t ≠ idle) (picked : Picked (s'.sleepOn t next).state idle next) :
      Sleeps s (ts ++ [t]) (s'.sleepOn t next)

/-- The scheduler resumes a running task, which does the rest of its `sleep_on`. -/
inductive Resume (s : WaitQueue T) : WaitQueue T → Prop
  | mk {t next : T} {tmp : Option T} (inside : s.asleep t = some ⟨tmp, some next⟩) (running : s.state t = .running) :
      Resume s (s.finishSleepOn t tmp (switchTo t next))

end SleepOn

/-- What happens around `interruptible_sleep_on`: a task calls it, `schedule` makes a task with a signal
    running or switches to a task, a task goes on, the queue is woken, or a task outside does something
    else. -/
inductive QueueEvent (T : Type) where
  | sleep (t : T)
  | signal (t : T)
  | switch (t next : T)
  | resume (t : T)
  | wakeUp
  | elsewhere (t : T) (state : TaskState)

inductive QueueStep (idle : T) (s : WaitQueue T) : QueueEvent T → WaitQueue T → Prop
  | sleep {t : T} (awake : s.asleep t = none) (notIdle : t ≠ idle) :
      QueueStep idle s (.sleep t) (s.enter t .interruptible)
  | signal {t : T} (waits : s.state t = .interruptible) : QueueStep idle s (.signal t) (s.setState t .running)
  | switch {t next : T} {tmp : Option T} (inside : s.asleep t = some ⟨tmp, none⟩)
      (picked : Picked s.state idle next) : QueueStep idle s (.switch t next) (s.switch t next)
  | resume {t next : T} {tmp : Option T} (inside : s.asleep t = some ⟨tmp, some next⟩)
      (running : s.state t = .running) :
      QueueStep idle s (.resume t) (s.finishInterruptible t tmp (switchTo t next))
  | wakeUp : QueueStep idle s .wakeUp s.wakeUp
  | elsewhere {t : T} (awake : s.asleep t = none) (state : TaskState) :
      QueueStep idle s (.elsewhere t state) (s.setState t state)

/-- A run of steps that all meet `allowed`. -/
inductive QueueRun (idle : T) (allowed : WaitQueue T → QueueEvent T → Prop) (s : WaitQueue T) : WaitQueue T → Prop
  | refl : QueueRun idle allowed s s
  | tail {t u : WaitQueue T} {event : QueueEvent T} (before : QueueRun idle allowed s t)
      (step : QueueStep idle t event u) (meets : allowed t event) : QueueRun idle allowed s u

/-- The queue holds no task, and none sleeps on it. -/
def WaitQueue.empty (state : T → TaskState) : WaitQueue T := ⟨none, state, fun _ => none⟩

/-- A task that goes on after another one ran is at the head of the queue, unless the queue is empty. -/
def AtHead (s : WaitQueue T) : QueueEvent T → Prop
  | .resume t => ∀ tmp next, s.asleep t = some ⟨tmp, some next⟩ → next ≠ t → s.head = none ∨ s.head = some t
  | _ => True

/-- A task that a later wake-up comes to: the queue points to it, or a task that is reachable or already
    running again has it in its `tmp`. -/
inductive WaitQueue.Reachable (s : WaitQueue T) : T → Prop
  | head {t : T} (first : s.head = some t) : Reachable s t
  | saved {t u : T} {call : Sleep T} (before : Reachable s u) (inside : s.asleep u = some call)
      (link : call.tmp = some t) : Reachable s t
  | woken {t u : T} {call : Sleep T} (running : s.state u = .running) (inside : s.asleep u = some call)
      (link : call.tmp = some t) : Reachable s t

/-- Every task that still sleeps on the queue is reachable. -/
def WaitQueue.NoneDropped (s : WaitQueue T) : Prop :=
  ∀ t, s.asleep t ≠ none → s.state t = .interruptible → s.Reachable t

end K210Linux.Sched
