import K210Linux.Kernel.UserAccess
import K210Linux.Lib.Run
import Mathlib.Tactic

namespace K210Linux.Kernel

open K210Linux.Lib K210Linux.Mm

structure SigAction where
  handler : BitVec 64
  mask : BitVec 32
  flags : BitVec 32
  restorer : BitVec 64

/-- The fields of `task_struct` that signals depend on. The entries of `sigaction` from 32 on stand for the
    memory behind the table. -/
structure SignalTask where
  pid : BitVec 64
  pgrp : BitVec 64
  session : BitVec 64
  euid : BitVec 16
  alarm : BitVec 64
  signal : BitVec 64
  blocked : BitVec 64
  sigaction : Nat → SigAction

def sigHup : Nat := 1
def sigInt : Nat := 2
def sigQuit : Nat := 3
def sigKill : Nat := 9
def sigPipe : Nat := 13
def sigAlrm : Nat := 14
def sigChld : Nat := 17

def saNoMask : BitVec 32 := 0x40000000
def saOneShot : BitVec 32 := 0x80000000

/-- `1 << (sig - 1)`, an `int`. -/
def sigBit (sig : Nat) : BitVec 32 := (1 : BitVec 32) <<< (sig - 1)

/-- An `int` mask in a 64-bit set of signals. -/
def widened (mask : BitVec 32) : BitVec 64 := mask.signExtend 64

namespace SignalTask

variable (p : SignalTask)

def raise (mask : BitVec 32) : SignalTask := { p with signal := p.signal ||| widened mask }

/-- The test of `send_sig` for the permission of a task with the effective user id `euid`. -/
def mayReceive (euid : BitVec 16) (priv : Bool) : Bool := priv || euid == p.euid || euid == 0

/-- `send_sig` by a task with the effective user id `euid`, to a task that exists. -/
def sendSig (sig : Int) (euid : BitVec 16) (priv : Bool) : Int × SignalTask :=
  if sig < 1 ∨ 32 < sig then (-einval, p)
  else if p.mayReceive euid priv then (0, p.raise (sigBit sig.toNat))
  else (-1, p)

/-- `sys_ssetmask`. -/
def ssetmask (newmask : BitVec 32) : SignalTask :=
  { p with blocked := widened (newmask &&& ~~~ sigBit sigKill) }

/-- Whether `sys_signal` and `sys_sigaction` refuse a signal. -/
def refused (signum : Int) : Bool := signum < 1 || 32 < signum || signum == sigKill

/-- `sys_signal`. -/
def setSignal (signum : Int) (handler restorer : BitVec 64) : SignalTask :=
  if refused signum then p
  else { p with
    sigaction := Function.update p.sigaction (signum.toNat - 1) ⟨handler, 0, saOneShot ||| saNoMask, restorer⟩ }

def setEntry (i : Nat) (sa : SigAction) : SignalTask := { p with sigaction := Function.update p.sigaction i sa }

/-- `get_new`. `mem_copy_to_kernel` does not advance its pointers, so one byte of the user's structure comes in. -/
def getNew (i : Nat) (byte : Byte) : SignalTask :=
  p.setEntry i { p.sigaction i with handler := setByte (p.sigaction i).handler 0 byte }

/-- The end of `sys_sigaction`, on the flags and the mask that the entry has. -/
def adjustMask (i : Nat) : SignalTask :=
  let sa := p.sigaction i
  p.setEntry i { sa with mask := if sa.flags &&& saNoMask ≠ 0 then 0 else sa.mask ||| sigBit (i + 1) }

/-- `sys_sigaction` with the byte that `get_new` finds, and without `save_old`. -/
def setAction (signum : Int) (byte : Byte) : SignalTask :=
  if refused signum then p else (p.getNew (signum.toNat - 1) byte).adjustMask (signum.toNat - 1)

end SignalTask

/-- The loop of `bitscan`. -/
def bitscanFrom (v : BitVec 64) (i : Nat) : Nat → Option Nat
  | 0 => none
  | left + 1 => if v.getLsbD 0 then some i else bitscanFrom (v >>> 1) (i + 1) left

/-- `bitscan`; -1 is `none`. -/
def bitscan (v : BitVec 64) : Option Nat := bitscanFrom v 0 64

namespace SignalTask

variable (p : SignalTask)

/-- The number that `ret_from_sys_call` passes to `do_signal`. -/
def pending : Option Nat := (bitscan (p.signal &&& ~~~ p.blocked)).map (· + 1)

/-- Whether `do_signal` enters a handler of the user. -/
def handled (signr : Nat) : Bool := (p.sigaction (signr - 1)).handler ≠ 0 && (p.sigaction (signr - 1)).handler ≠ 1

/-- `SA_ONESHOT`. -/
def oneShot (signr : Nat) : SignalTask :=
  let sa := p.sigaction (signr - 1)
  if sa.flags &&& saOneShot ≠ 0 then p.setEntry (signr - 1) { sa with handler := 0 } else p

/-- The end of `do_signal`. -/
def blockMask (signr : Nat) : SignalTask :=
  { p with blocked := p.blocked ||| (p.sigaction (signr - 1)).mask.setWidth 64 }

/-- `do_signal`, unless it ends in `do_exit`; what it does to the stack and the registers is left out. -/
def doSignal (signr : Nat) : SignalTask := if p.handled signr then (p.oneShot signr).blockMask signr else p

/-- The signals without those that are blocked and without `signr`. -/
def takeSignal (signr : Nat) : SignalTask :=
  { p with signal := (p.signal &&& ~~~ p.blocked) &&& ~~~ ((1 : BitVec 64) <<< (signr - 1)) }

/-- The part of `ret_from_sys_call` on signals, for a task other than task 0 and a call that does not come from the
    kernel: its tests of `task[0]` and of `syscall_from_kernel` are left out. -/
def deliver : SignalTask :=
  match p.pending with
  | none => p
  | some signr => (p.takeSignal signr).doSignal signr

end SignalTask

/-- The table of tasks and the slot of the one that runs. -/
structure SignalTable where
  task : Nat → Option SignalTask
  current : Nat

/-- Which tasks a call reaches, as a test on slots and tasks. -/
abbrev Selection := Nat → SignalTask → Bool

namespace SignalTable

/-- The tasks that `sys_kill` sends to: slot 0 is never among them. -/
def killed (pid : BitVec 32) (current : SignalTask) : Selection := fun slot p =>
  0 < slot && slot < nrTasks &&
    if pid = 0 then p.pgrp == current.pid
    else if 0 < pid.toInt then p.pid == widened pid
    else if pid = -1 then true
    else p.pgrp == widened (-pid)

/-- What `sys_kill` gets back from `send_sig` for a slot; an empty slot is asked only for a pid of -1. -/
def killError (s : SignalTable) (pid : BitVec 32) (sig : Int) (current : SignalTask) (slot : Nat) : Int :=
  match s.task slot with
  | some p => if killed pid current slot p then (p.sendSig sig current.euid (pid = 0)).1 else 0
  | none => if pid = -1 then -einval else 0

/-- `sys_kill`, with its result: the error of the lowest slot that has one. -/
def kill (s : SignalTable) (pid : BitVec 32) (sig : Int) (current : SignalTask) : Int × SignalTable :=
  (((List.range nrTasks).tail.map (s.killError pid sig current)).find? (· ≠ 0) |>.getD 0,
    { s with task := fun slot => (s.task slot).map fun p =>
        if killed pid current slot p then (p.sendSig sig current.euid (pid = 0)).2 else p })

/-- A signal for all tasks of a selection, without a test of permissions. -/
def raiseAll (s : SignalTable) (selection : Selection) (sig : Nat) : SignalTable :=
  { s with task := fun slot => (s.task slot).map fun p => if selection slot p then p.raise (sigBit sig) else p }

/-- `kill_session`. -/
def killSession (s : SignalTable) (current : SignalTask) : SignalTable :=
  s.raiseAll (fun slot p => 0 < slot && slot < nrTasks && p.session == current.session) sigHup

/-- `tty_intr`, for the interrupt or the quit character. -/
def ttyIntr (s : SignalTable) (pgrp : BitVec 32) (quit : Bool) : SignalTable :=
  if pgrp.toInt ≤ 0 then s
  else s.raiseAll (fun slot p => slot < nrTasks && p.pgrp == widened pgrp) (if quit then sigQuit else sigInt)

/-- The slot of the first task with a process id. -/
def slotOf (s : SignalTable) (pid : BitVec 64) : Option Nat :=
  (List.range nrTasks).find? fun slot => match s.task slot with
    | some p => p.pid == pid
    | none => false

/-- `tell_father`, which releases the task itself when there is no father. -/
def tellFather (s : SignalTable) (pid : BitVec 64) : SignalTable :=
  match if pid = 0 then none else s.slotOf pid with
  | some father => s.raiseAll (fun slot _ => slot == father) sigChld
  | none => { s with task := Function.update s.task s.current none }

/-- The alarms at the start of `schedule`. -/
def alarms (s : SignalTable) (jiffies : BitVec 64) : SignalTable :=
  { s with task := fun slot => (s.task slot).map fun p =>
      if 0 < slot ∧ slot < nrTasks ∧ p.alarm ≠ 0 ∧ p.alarm.toInt < jiffies.toInt then
        { p.raise (sigBit sigAlrm) with alarm := 0 }
      else p }

/-- A change of the task that runs. -/
def onCurrent (s : SignalTable) (f : SignalTask → SignalTask) : SignalTable :=
  { s with task := Function.update s.task s.current ((s.task s.current).map f) }

/-- `copy_process`, as far as signals are concerned. -/
def fork (s : SignalTable) (nr : Nat) (pid : BitVec 64) (current : SignalTask) : SignalTable :=
  { s with task := Function.update s.task nr (some { current with pid := pid, signal := 0, alarm := 0 }) }

end SignalTable

/-- What happens to the signals of the tasks. `drop` stands for the places that take signals back (`tty_read` and
    `sys_waitpid`), `assign` for the calls that change the other fields of a task, and `broken` for `write_pipe`
    without a reader. -/
inductive SignalEvent where
  | kill (pid : BitVec 32) (sig : BitVec 32)
  | ttyIntr (pgrp : BitVec 32) (quit : Bool)
  | killSession
  | tellFather (pid : BitVec 64)
  | alarms (jiffies : BitVec 64)
  | broken
  | drop (mask : BitVec 32)
  | deliver
  | ssetmask (newmask : BitVec 32)
  | setSignal (signum : BitVec 32) (handler restorer : BitVec 64)
  | setAction (signum : BitVec 32) (byte : Byte)
  | fork (nr : Nat) (pid : BitVec 64)
  | release (slot : Nat)
  | assign (slot : Nat) (pgrp session : BitVec 64) (euid : BitVec 16) (alarm : BitVec 64)
  | switch (slot : Nat)

def SignalTable.step (e : SignalEvent) (s : SignalTable) : Option SignalTable :=
  (s.task s.current).map fun current =>
    match e with
    | .kill pid sig => (s.kill pid sig.toInt current).2
    | .ttyIntr pgrp quit => s.ttyIntr pgrp quit
    | .killSession => s.killSession current
    | .tellFather pid => s.tellFather pid
    | .alarms jiffies => s.alarms jiffies
    | .broken => s.onCurrent fun p => p.raise (sigBit sigPipe)
    | .drop mask => s.onCurrent fun p => { p with signal := p.signal &&& widened (~~~ mask) }
    | .deliver => s.onCurrent SignalTask.deliver
    | .ssetmask newmask => s.onCurrent fun p => p.ssetmask newmask
    | .setSignal signum handler restorer => s.onCurrent fun p => p.setSignal signum.toInt handler restorer
    | .setAction signum byte => s.onCurrent fun p => p.setAction signum.toInt byte
    | .fork nr pid => s.fork nr pid current
    | .release slot => { s with task := Function.update s.task slot none }
    | .assign slot pgrp session euid alarm =>
      { s with task := Function.update s.task slot ((s.task slot).map fun p => { p with pgrp, session, euid, alarm }) }
    | .switch slot => { s with current := slot }

/-- A fact about every task. -/
def AllTasks (holds : SignalTask → Prop) (s : SignalTable) : Prop := ∀ slot p, s.task slot = some p → holds p

/-- The signals that the kernel sends itself. -/
def kernelSignals : List Nat := [sigHup, sigInt, sigQuit, sigPipe, sigAlrm, sigChld]

/-- What an event can do to the signals of a task. -/
inductive SignalChange (s : SignalTable) (e : SignalEvent) (p p' : SignalTask) : Prop
  | kept : p'.signal = p.signal → p'.blocked = p.blocked → p'.sigaction = p.sigaction → SignalChange s e p p'
  | raised (sig : Nat) : sig ∈ kernelSignals → p'.signal = p.signal ||| widened (sigBit sig) →
      p'.blocked = p.blocked → p'.sigaction = p.sigaction → SignalChange s e p p'
  | sent (pid sig : BitVec 32) (slot : Nat) (current : SignalTask) : e = .kill pid sig →
      s.task s.current = some current → s.task slot = some p → SignalTable.killed pid current slot p = true →
      p' = (p.sendSig sig.toInt current.euid (pid = 0)).2 → SignalChange s e p p'
  | dropped (mask : BitVec 64) : p'.signal = p.signal &&& mask → p'.blocked = p.blocked →
      p'.sigaction = p.sigaction → SignalChange s e p p'
  | delivered : e = .deliver → p' = p.deliver → SignalChange s e p p'
  | masked (newmask : BitVec 32) : p' = p.ssetmask newmask → SignalChange s e p p'
  | handled (signum : Int) (handler restorer : BitVec 64) : p' = p.setSignal signum handler restorer → SignalChange s e p p'
  | acted (signum : BitVec 32) (byte : Byte) : e = .setAction signum byte →
      p' = p.setAction signum.toInt byte → SignalChange s e p p'

section

variable {s s' : SignalTable} {e : SignalEvent} {slot : Nat} {p' : SignalTask}

theorem raiseAll_change {selection : Selection} {sig : Nat} (known : sig ∈ kernelSignals)
    (there : (s.raiseAll selection sig).task slot = some p') :
    ∃ p, s.task slot = some p ∧ SignalChange s e p p' := by
  rcases Option.map_eq_some_iff.1 there with ⟨p, before, after⟩
  refine ⟨p, before, ?_⟩
  split at after
  · subst p'
    exact .raised sig known rfl rfl rfl
  · subst p'
    exact .kept rfl rfl rfl

theorem onCurrent_change {f : SignalTask → SignalTask} (change : ∀ p, SignalChange s e p (f p))
    (there : (s.onCurrent f).task slot = some p') : ∃ p i, s.task i = some p ∧ SignalChange s e p p' := by
  simp only [SignalTable.onCurrent, Function.update_apply] at there
  split at there
  · rcases Option.map_eq_some_iff.1 there with ⟨p, before, rfl⟩
    exact ⟨p, s.current, before, change p⟩
  · exact ⟨p', slot, there, .kept rfl rfl rfl⟩

/-- Every task comes from one before the event. -/
theorem step_change (stepped : SignalTable.step e s = some s') (there : s'.task slot = some p') :
    ∃ p i, s.task i = some p ∧ SignalChange s e p p' := by
  rcases Option.map_eq_some_iff.1 stepped with ⟨current, running, rfl⟩
  have same (there : s.task slot = some p') : ∃ p i, s.task i = some p ∧ SignalChange s e p p' :=
    ⟨p', slot, there, .kept rfl rfl rfl⟩
  have all {selection : Selection} {sig : Nat} (known : sig ∈ kernelSignals)
      (there : (s.raiseAll selection sig).task slot = some p') : ∃ p i, s.task i = some p ∧ SignalChange s e p p' := by
    rcases raiseAll_change known there with ⟨p, before, change⟩
    exact ⟨p, slot, before, change⟩
  have without {i : Nat} (there : Function.update s.task i none slot = some p') :
      ∃ p i, s.task i = some p ∧ SignalChange s e p p' := by
    rw [Function.update_apply] at there
    split at there
    · cases there
    · exact same there
  cases e with
  | kill pid sig =>
    rcases Option.map_eq_some_iff.1 there with ⟨p, before, after⟩
    refine ⟨p, slot, before, ?_⟩
    split at after
    · rename_i reached
      exact .sent pid sig slot current rfl running before reached after.symm
    · subst p'
      exact .kept rfl rfl rfl
  | ttyIntr pgrp quit =>
    simp only [SignalTable.ttyIntr] at there
    split at there
    · exact same there
    · cases quit
      · exact all (by decide) there
      · exact all (by decide) there
  | killSession => exact all (by decide) there
  | tellFather pid =>
    simp only [SignalTable.tellFather] at there
    split at there
    · exact all (by decide) there
    · exact without there
  | alarms jiffies =>
    rcases Option.map_eq_some_iff.1 there with ⟨p, before, after⟩
    refine ⟨p, slot, before, ?_⟩
    split at after
    · subst p'
      exact .raised sigAlrm (by decide) rfl rfl rfl
    · subst p'
      exact .kept rfl rfl rfl
  | broken =>
    refine onCurrent_change ?_ there
    exact fun p => .raised sigPipe (by decide) rfl rfl rfl
  | drop mask =>
    refine onCurrent_change ?_ there
    exact fun p => .dropped _ rfl rfl rfl
  | deliver =>
    refine onCurrent_change ?_ there
    exact fun p => .delivered rfl rfl
  | ssetmask newmask =>
    refine onCurrent_change ?_ there
    exact fun p => .masked newmask rfl
  | setSignal signum handler restorer =>
    refine onCurrent_change ?_ there
    exact fun p => .handled _ handler restorer rfl
  | setAction signum byte =>
    refine onCurrent_change ?_ there
    exact fun p => .acted signum byte rfl rfl
  | fork nr pid =>
    simp only [SignalTable.fork, Function.update_apply] at there
    split at there
    · cases there
      exact ⟨current, s.current, running, .dropped 0 (by simp) rfl rfl⟩
    · exact same there
  | release i => exact without there
  | assign i pgrp session euid alarm =>
    simp only [Function.update_apply] at there
    split at there
    · rcases Option.map_eq_some_iff.1 there with ⟨p, before, rfl⟩
      exact ⟨p, i, before, .kept rfl rfl rfl⟩
    · exact same there
  | switch i => exact same there

/-- A fact about the signals of each task that every change keeps, in a state the event is allowed in. -/
theorem allTasks_step {holds : SignalTask → Prop} (all : AllTasks holds s)
    (kept : ∀ p p' i, s.task i = some p → holds p → SignalChange s e p p' → holds p')
    (stepped : SignalTable.step e s = some s') : AllTasks holds s' := by
  intro slot p' there
  rcases step_change stepped there with ⟨p, i, before, change⟩
  exact kept p p' i before (all i p before) change

end

end K210Linux.Kernel
