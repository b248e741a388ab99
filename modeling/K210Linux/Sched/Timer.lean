import K210Linux.Lib.Chain
import Mathlib.Logic.Function.Basic
import Mathlib.Data.List.Perm.Basic
import Mathlib.Tactic

namespace K210Linux.Sched

open K210Linux.Lib

def timeRequests : Nat := 64

/-- `struct timer_list`, over the callbacks `F`. -/
structure Timer (F : Type) where
  jiffies : Int
  fn : Option F
  next : Option Nat

/-- The array `timer_list` and the head `next_timer`; pointers are indices into the array. -/
structure Timers (F : Type) where
  slot : Nat → Timer F
  nextTimer : Option Nat

variable {F : Type}

/-- `timer_list` and `next_timer` as they are initialised. -/
def Timers.empty : Timers F where
  slot := fun _ => ⟨0, none, none⟩
  nextTimer := none

def Timers.set (t : Timers F) (p : Nat) (timer : Timer F) : Timers F :=
  { t with slot := Function.update t.slot p timer }

/-- The first loop over the list in `add_timer`, which moves the new timer behind the ones that are due
    before it, and the timer where it stops. `none` when the list does not end within `fuel` nodes. -/
def moveBehind (t : Timers F) (p : Nat) : Nat → Option (Timers F × Nat)
  | 0 => none
  | fuel + 1 =>
    match (t.slot p).next with
    | none => some (t, p)
    | some q =>
      if (t.slot q).jiffies < (t.slot p).jiffies then
        let jiffies := (t.slot p).jiffies - (t.slot q).jiffies
        let fn := (t.slot p).fn
        let t' := t.set p { t.slot p with jiffies := (t.slot q).jiffies }
        moveBehind (t'.set q { t.slot q with jiffies := jiffies, fn := fn }) q fuel
      else some (t, p)

/-- The second loop of `add_timer`, which takes `jiffies` off every timer behind `p`. -/
def lowerFollowing (t : Timers F) (p : Nat) (jiffies : Int) : Nat → Option (Timers F)
  | 0 => none
  | fuel + 1 =>
    match (t.slot p).next with
    | none => some t
    | some q => lowerFollowing (t.set q { t.slot q with jiffies := (t.slot q).jiffies - jiffies }) q jiffies fuel

/-- `add_timer` from `p -> fn = fn` on, for the free slot `p`. -/
def insertTimer (t : Timers F) (jiffies : Int) (fn : F) (p : Nat) : Option (Timers F) := do
  let t := { t.set p ⟨jiffies, some fn, t.nextTimer⟩ with nextTimer := some p }
  let (t, p) ← moveBehind t p (timeRequests + 1)
  lowerFollowing t p (t.slot p).jiffies (timeRequests + 1)

/-- `add_timer`, with the callbacks it calls itself; `none` is its panic. -/
def addTimer (t : Timers F) (jiffies : Int) (fn : Option F) : Option (Timers F × List F) :=
  match fn with
  | none => some (t, [])
  | some fn =>
    if jiffies ≤ 0 then some (t, [fn])
    else
      match (List.range timeRequests).find? fun p => (t.slot p).fn.isNone with
      | none => none
      | some p => (insertTimer t jiffies fn p).map (·, [])

/-- The loop of `do_timer`, with the callbacks it calls in their order; `none` when it calls NULL. -/
def fireTimers (t : Timers F) : Nat → Option (Timers F × List F)
  | 0 => none
  | fuel + 1 =>
    match t.nextTimer with
    | none => some (t, [])
    | some p =>
      if (t.slot p).jiffies ≤ 0 then do
        let fn ← (t.slot p).fn
        let (t, calls) ← fireTimers
          { t.set p { t.slot p with fn := none } with nextTimer := (t.slot p).next } fuel
        some (t, fn :: calls)
      else some (t, [])

/-- The part of `do_timer` that is about timers. -/
def tickTimers (t : Timers F) : Option (Timers F × List F) :=
  match t.nextTimer with
  | none => some (t, [])
  | some p => fireTimers (t.set p { t.slot p with jiffies := (t.slot p).jiffies - 1 }) (timeRequests + 1)

/-- What `do_timer` changes in the current task. -/
structure Clock where
  utime : Int
  stime : Int
  counter : Int

def Clock.charge (c : Clock) (user : Bool) : Clock :=
  if user then { c with utime := c.utime + 1 } else { c with stime := c.stime + 1 }

/-- `do_timer`, where `user` says whether the tick interrupted user mode. The last component says whether
    it calls `schedule`. -/
def doTimer (t : Timers F) (current : Clock) (user : Bool) : Option (Timers F × List F × Clock × Bool) := do
  let current := current.charge user
  let (t, calls) ← tickTimers t
  if current.counter - 1 > 0 then
    some (t, calls, { current with counter := current.counter - 1 }, false)
  else some (t, calls, { current with counter := 0 }, user)

/-- A call of `add_timer` with a callback, or a call of `do_timer`. -/
inductive TimerCall (F : Type) where
  | addTimer (jiffies : Int) (fn : F)
  | doTimer (current : Clock) (user : Bool)

def TimerCall.run (t : Timers F) : TimerCall F → Option (Timers F × List F)
  | .addTimer jiffies fn => Sched.addTimer t jiffies (some fn)
  | .doTimer current user => (Sched.doTimer t current user).map fun r => (r.1, r.2.1)

/-- A sequence of calls, with the callbacks called during each of them. -/
def runCalls (t : Timers F) : List (TimerCall F) → Option (Timers F × List (List F))
  | [] => some (t, [])
  | call :: calls => do
    let (t, fired) ← call.run t
    let (t, log) ← runCalls t calls
    some (t, fired :: log)

/-- The number of ticks in a sequence of calls. -/
def ticks : List (TimerCall F) → Nat
  | [] => 0
  | .addTimer _ _ :: calls => ticks calls
  | .doTimer _ _ :: calls => ticks calls + 1

/-- The timers that are pending after a sequence of calls, with the ticks they still have to wait. -/
def pending : List (TimerCall F) → List (Int × F)
  | [] => []
  | .addTimer jiffies fn :: calls =>
    if ticks calls < jiffies then (jiffies - ticks calls, fn) :: pending calls else pending calls
  | .doTimer _ _ :: calls => pending calls

/-- The callbacks that a call has to make after a sequence of earlier calls: at a tick, those of the
    timers that waited for the number of ticks they were added with. -/
def due (before : List (TimerCall F)) : TimerCall F → List F
  | .addTimer _ _ => []
  | .doTimer _ _ => ((pending before).filter fun x => x.1 = 1).map Prod.snd

end K210Linux.Sched
