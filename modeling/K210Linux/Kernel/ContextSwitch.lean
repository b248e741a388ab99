import K210Linux.Kernel.Process
import K210Linux.Kernel.SwitchCode

/-! `switch_to`, and tasks as threads that have registers of their own. -/

namespace K210Linux.Kernel.Switching

open K210Linux.Lib.Riscv
open K210Linux.Mm (userStartAddr)

/-- `trap_info_t`. -/
structure TrapInfoT where
  epc : Word
  newepc : Word
  regs : Word
  fregs : Word
  intNum : BitVec 32
  intThreshold : BitVec 32

/-- What `switch_to` uses of a task: where its `tss` is, the end of its kernel stack, and its page directory. -/
structure Thread where
  tss : Word
  kernelStack : Word
  pageDirTable : Word

structure SwitchSymbols where
  oldKernelStack : Word
  curKernelStack : Word
  forkProcessExit : Word
  aligned : Aligned oldKernelStack
  different : oldKernelStack ≠ curKernelStack

/-- The processor in a task of the kernel. `userKernel` is the user bit of `page_root_table[2]`. A task that waits in
    `switch_to` has the copy of `trap_info` that it made there. -/
structure Processor where
  pc : Word
  machine : FloatMachine
  trapInfo : TrapInfoT
  pageDirTable : Word
  userKernel : Bool
  current : Nat
  task : Nat → Option Thread
  oldtrapinfo : Nat → Option TrapInfoT

/-- The place of `epc` in `tss_struct`. -/
def epcSlot : Nat := 64

/-- The call of `switch_to_tss`. -/
def calling (sym : SwitchSymbols) (s : Processor) (old new : Thread) : FloatMachine :=
  let m := s.machine.write (slot old.tss epcSlot) s.trapInfo.newepc
  let m := m.write sym.oldKernelStack (m.mem sym.curKernelStack)
  let m := m.write sym.curKernelStack new.kernelStack
  (m.set .a0 old.tss).set .a1 new.tss

/-- `switch_to`, up to where the other task goes on. -/
def switchTo (sym : SwitchSymbols) (s : Processor) (taskid fuel : Nat) : Option Processor := do
  let old ← s.task s.current
  let new ← s.task taskid
  if s.current = taskid then some s
  else
    let (pc, m) ← runCode (switchToTss sym.oldKernelStack) fuel 0 (calling sym s old new)
    let waiting := Function.update s.oldtrapinfo s.current (some s.trapInfo)
    -- a new task goes to `fork_process_exit` and has no copy of `trap_info`
    let trapInfo := (s.oldtrapinfo taskid).getD s.trapInfo
    let userKernel := if (s.oldtrapinfo taskid).isSome then decide (trapInfo.newepc < userStartAddr) else s.userKernel
    some { s with
      pc := pc, machine := m, trapInfo := trapInfo, pageDirTable := new.pageDirTable, userKernel := userKernel,
      current := taskid, oldtrapinfo := Function.update waiting taskid none }

/-- `memcpy` of doublewords. -/
def copyDoublewords (mem : Word → Word) (dst src : Word) : Nat → Word → Word
  | 0 => mem
  | n + 1 =>
    let mem := copyDoublewords mem dst src n
    Function.update mem (slot dst n) (mem (slot src n))

/-- What `copy_process` stores for the first switch to the child: the structure of its parent, and a frame from the
    trap of its parent. -/
def childMemory (sym : SwitchSymbols) (s : Processor) (parent child : Thread) : Word → Word :=
  let sp := child.kernelStack - 8 * 32 - 8 * 32
  let mem := copyDoublewords s.machine.mem child.tss parent.tss (epcSlot + 1)
  let mem := Function.update mem (slot child.tss regSp) sp
  let mem := copyDoublewords mem sp s.trapInfo.regs 32
  let mem := copyDoublewords mem (slot sp 32) s.trapInfo.fregs 32
  let mem := Function.update mem (slot child.tss epcSlot) (s.trapInfo.epc + 4)
  let mem := Function.update mem (slot sp regA0) 0
  let mem := Function.update mem (slot sp regRa) sym.forkProcessExit
  Function.update mem (sp + -regBytes) (mem (slot s.trapInfo.regs regRa))

def copyProcess (sym : SwitchSymbols) (s : Processor) (nr : Nat) (child : Thread) : Option Processor := do
  let parent ← s.task s.current
  let machine := { s.machine with mem := childMemory sym s parent child }
  some { s with
    machine := machine, task := Function.update s.task nr (some child),
    oldtrapinfo := Function.update s.oldtrapinfo nr none }

/-- What the current task does between two switches, a new task, `release` and `switch_to`. -/
inductive SwitchEvent
  | work (pc : Word) (machine : FloatMachine) (trapInfo : TrapInfoT) (userKernel : Bool)
  | fork (nr : Nat) (child : Thread)
  | release (nr : Nat)
  | switch (taskid fuel : Nat)

def SwitchEvent.step (sym : SwitchSymbols) (e : SwitchEvent) (s : Processor) : Option Processor :=
  match e with
  | work pc machine trapInfo userKernel => some { s with pc, machine, trapInfo, userKernel }
  | fork nr child => copyProcess sym s nr child
  | release nr => some { s with task := Function.update s.task nr none }
  | switch taskid fuel => switchTo sym s taskid fuel

/-- An address in a range that begins at `base`. -/
def InRange (base : Word) (length : Nat) (a : Word) : Prop := (a - base).toNat < length

def Thread.stackBottom (t : Thread) : Word := t.kernelStack - kernelStackSize

def Thread.Stack (t : Thread) (a : Word) : Prop := InRange t.stackBottom kernelStackSize.toNat a

def Thread.Tss (t : Thread) (a : Word) : Prop := InRange t.tss (8 * (epcSlot + 1)) a

def Thread.Owns (t : Thread) (a : Word) : Prop := t.Stack a ∨ t.Tss a

/-- A stack pointer in the kernel stack, with room for the registers below it. -/
structure OnStack (t : Thread) (sp : Word) : Prop where
  aligned : Aligned sp
  low : 8 * 65 ≤ (sp - t.stackBottom).toNat
  high : (sp - t.stackBottom).toNat ≤ kernelStackSize.toNat

/-- The pages that `get_free_pages` gives are apart. -/
structure Layout (sym : SwitchSymbols) (task : Nat → Option Thread) : Prop where
  aligned : ∀ i t, task i = some t → Aligned t.tss ∧ Aligned t.kernelStack
  own : ∀ i t, task i = some t → ∀ a, t.Stack a → ¬ t.Tss a
  apart : ∀ i j t u, i ≠ j → task i = some t → task j = some u → ∀ a, t.Owns a → ¬ u.Owns a
  symbols : ∀ i t, task i = some t → ¬ t.Owns sym.oldKernelStack ∧ ¬ t.Owns sym.curKernelStack

/-- A task leaves the stacks and the structures of the others alone, a new one gets memory of its own, and `switch_to`
    is called on the kernel stack. -/
def SwitchEvent.Allowed (sym : SwitchSymbols) (e : SwitchEvent) (s : Processor) : Prop :=
  match e with
  | work _ machine _ _ =>
    (∀ i u, i ≠ s.current → s.task i = some u → ∀ a, u.Owns a → machine.mem a = s.machine.mem a) ∧
      machine.mem sym.curKernelStack = s.machine.mem sym.curKernelStack
  | fork nr child => s.task nr = none ∧ Layout sym (Function.update s.task nr (some child)) ∧
      ∀ t, s.task s.current = some t → ∀ i < 32, t.Stack (slot s.trapInfo.regs i) ∧ t.Stack (slot s.trapInfo.fregs i)
  | release nr => nr ≠ s.current
  | switch _ _ => ∀ t, s.task s.current = some t → OnStack t (s.machine.reg .sp)

/-- What a thread has of its own; the copy of `trap_info` is unknown until it has made a trap. -/
structure Context where
  pc : Word
  reg : Reg → Word
  freg : Fin 32 → BitVec 32
  trapInfo : Option TrapInfoT

/-- Threads, each with its own registers. -/
structure Threads where
  context : Nat → Option Context
  current : Nat

inductive ThreadEvent
  | work (c : Context)
  | fork (nr : Nat) (c : Context)
  | release (nr : Nat)
  | switch (next : Nat) (oldtss newtss : Word)

/-- A thread calls `switch_to_tss` with two arguments, and goes on behind the call. -/
def Context.calls (c : Context) (oldtss newtss : Word) : Context :=
  { c with pc := jumpTarget (c.reg .ra), reg := Function.update (Function.update c.reg .a0 oldtss) .a1 newtss }

/-- Only the current thread changes its own registers, and a switch changes none. -/
def ThreadEvent.step (e : ThreadEvent) (t : Threads) : Option Threads :=
  match e with
  | work c => some { t with context := Function.update t.context t.current (some c) }
  | fork nr c => some { t with context := Function.update t.context nr (some c) }
  | release nr => some { t with context := Function.update t.context nr none }
  | switch next oldtss newtss => do
    let c ← t.context t.current
    let _ ← t.context next
    if t.current = next then some t
    else some { context := Function.update t.context t.current (some (c.calls oldtss newtss)), current := next }

/-- A child begins at `fork_process_exit` with the registers of its parent's trap, but for `a0`, `ra` and `sp`. -/
def childContext (sym : SwitchSymbols) (s : Processor) (child : Thread) : Context where
  pc := jumpTarget sym.forkProcessExit
  reg := fun r => if r = .sp then child.kernelStack else if r = .ra then sym.forkProcessExit else if r = .a0 then 0
    else s.machine.mem (slot s.trapInfo.regs r.number)
  freg := fun j => lowHalf (s.machine.mem (slot s.trapInfo.fregs j))
  trapInfo := none

/-- The same event for the threads. -/
def SwitchEvent.thread (sym : SwitchSymbols) (e : SwitchEvent) (s : Processor) : ThreadEvent :=
  match e with
  | work pc machine trapInfo _ => .work ⟨pc, machine.reg, machine.freg, some trapInfo⟩
  | fork nr child => .fork nr (childContext sym s child)
  | release nr => .release nr
  | switch taskid _ =>
    .switch taskid ((s.task s.current).elim 0 (·.tss)) ((s.task taskid).elim 0 (·.tss))

/-- A run of the processor, with its events for the threads. -/
inductive SwitchRun (sym : SwitchSymbols) : Processor → List ThreadEvent → Processor → Prop
  | start {s : Processor} : SwitchRun sym s [] s
  | next {s s₁ s₂ : Processor} {e : SwitchEvent} {events : List ThreadEvent} (run : SwitchRun sym s events s₁)
      (allowed : e.Allowed sym s₁) (stepped : e.step sym s₁ = some s₂) :
      SwitchRun sym s (events ++ [e.thread sym s₁]) s₂

def threadRun (t : Threads) (events : List ThreadEvent) : Option Threads := events.foldlM (fun t e => e.step t) t

/-- A thread that does not run has its registers on its kernel stack. -/
structure Parked (s : Processor) (i : Nat) (t : Thread) (c : Context) : Prop where
  tss : s.machine.mem (slot t.tss 2) = c.reg .sp + -registerFrame
  saved : SavedAt s.machine.mem (c.reg .sp + -registerFrame) c.reg c.freg
  pc : c.pc = jumpTarget (c.reg .ra)
  stack : OnStack t (c.reg .sp)
  trapInfo : ∀ info, c.trapInfo = some info → s.oldtrapinfo i = some info

/-- The processor does what the current thread does. -/
structure Shows (s : Processor) (c : Context) : Prop where
  pc : c.pc = s.pc
  reg : c.reg = s.machine.reg
  freg : c.freg = s.machine.freg
  trapInfo : ∀ info, c.trapInfo = some info → s.trapInfo = info

/-- The processor in the place of the threads. -/
structure Realises (sym : SwitchSymbols) (s : Processor) (t : Threads) : Prop where
  layout : Layout sym s.task
  current : s.current = t.current
  slots : ∀ i, t.context i = none ↔ s.task i = none
  running : ∃ c, t.context t.current = some c ∧ Shows s c
  parked : ∀ i u c, i ≠ s.current → s.task i = some u → t.context i = some c → Parked s i u c
  directory : ∀ u, s.task s.current = some u → s.pageDirTable = u.pageDirTable
  kernelStack : ∀ u, s.task s.current = some u → s.machine.mem sym.curKernelStack = u.kernelStack

end K210Linux.Kernel.Switching
