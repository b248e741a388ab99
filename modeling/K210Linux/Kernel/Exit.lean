import K210Linux.Kernel.UserAccess

namespace K210Linux.Kernel

open K210Linux.Mm

def sighup : Nat := 1
def sigchld : Nat := 17

/-- `signal |= 1 << (sig - 1)` on the task at `p`. -/
def raiseSignal (k : Process) (p : Word) (sig : Nat) : Process :=
  k.setStruct p { k.structs p with signal := (k.structs p).signal ||| BitVec.twoPow 64 (sig - 1) }

/-- `switch_to`, as far as the process table and the page tables are concerned. -/
def switchTo (k : Process) (taskid : Nat) : Process :=
  if k.current = k.task taskid then k
  else { k with
    current := k.task taskid
    memory := setPageDir k.memory (k.structs (k.task taskid)).pageDirTable }

/-- The loop of `release`, over the slots from `i` on. -/
def releaseFrom (k : Process) (p : Word) (i : Nat) : Nat → Except (Stop Memory) Process
  | 0 => .error (.panic "trying to release non-existent task")
  | left + 1 =>
    if k.task i = p then do
      let k := k.setTask i 0
      let m ← freePages k.memory p 5
      let m ← freePages m (k.kernelStackbottom i) (kernelStackSize >>> 12).toNat
      .ok { k with
        memory := m
        kernelStackbottom := Function.update k.kernelStackbottom i 0
        kernelStack := Function.update k.kernelStack i 0 }
    else releaseFrom k p (i + 1) left

/-- `release`, up to its call of `schedule`. -/
def release (k : Process) (p : Word) : Except (Stop Memory) Process :=
  if p = 0 then .ok k else releaseFrom k p 1 (nrTasks - 1)

/-- The children of the current task among the first `n` slots go to task 1. -/
def reparent (k : Process) : Nat → Process
  | 0 => k
  | n + 1 =>
    let k := reparent k n
    let p := k.task n
    if p ≠ 0 ∧ (k.structs p).father = (k.structs k.current).pid then
      let k := k.setStruct p { k.structs p with father := 1 }
      if (k.structs p).state = .zombie ∧ k.task 1 ≠ 0 then raiseSignal k (k.task 1) sigchld else k
    else k

section Files

-- The part of `iput` that drops the last reference.
variable (iputLast : Process → Nat → Except (Stop Memory) Process)

def iput (k : Process) : Option Nat → Except (Stop Memory) Process
  | none => .ok k
  | some i =>
    if k.iCount i = 0 then .error (.panic "iput: trying to free free inode")
    else if 1 < k.iCount i then .ok { k with iCount := Function.update k.iCount i (k.iCount i - 1) }
    else iputLast k i

def sysClose (k : Process) (fd : Nat) : Except (Stop Memory) Process :=
  let task := k.structs k.current
  match task.filp fd with
  | none => .ok k
  | some f =>
    let k := k.setStruct k.current { task with filp := Function.update task.filp fd none }
    if k.fCount f = 0 then .error (.panic "Close: file count is 0")
    else
      let k := { k with fCount := Function.update k.fCount f (k.fCount f - 1) }
      if k.fCount f ≠ 0 then .ok k else iput iputLast k (k.fInode f)

/-- The first `n` descriptors of the current task are closed. -/
def closeFiles (k : Process) : Nat → Except (Stop Memory) Process
  | 0 => .ok k
  | n + 1 => do
    let k ← closeFiles k n
    sysClose iputLast k n

def dropInodes (k : Process) : Except (Stop Memory) Process := do
  let k ← iput iputLast k (k.structs k.current).pwd
  let k := k.setStruct k.current { k.structs k.current with pwd := none }
  let k ← iput iputLast k (k.structs k.current).root
  let k := k.setStruct k.current { k.structs k.current with root := none }
  let k ← iput iputLast k (k.structs k.current).executable
  .ok (k.setStruct k.current { k.structs k.current with executable := none })

end Files

/-- The loop of `kill_session`, over the slots 1 to `n`. -/
def killSession (k : Process) : Nat → Process
  | 0 => k
  | n + 1 =>
    let k := killSession k n
    let p := k.task (n + 1)
    if p ≠ 0 ∧ (k.structs p).session = (k.structs k.current).session then raiseSignal k p sighup else k

/-- The slot of the task with number `pid`, from slot `i` on. -/
def findPid (k : Process) (pid : Int) (i : Nat) : Nat → Option Nat
  | 0 => none
  | left + 1 =>
    if k.task i ≠ 0 ∧ (k.structs (k.task i)).pid = pid then some i else findPid k pid (i + 1) left

def tellFather (k : Process) (pid : Int) : Except (Stop Memory) Process :=
  match (if pid = 0 then none else findPid k pid 0 nrTasks) with
  | some i => .ok (raiseSignal k (k.task i) sigchld)
  | none => release k k.current

/-- The call of `free_page_tables` in `do_exit`. -/
def exitMemory (k : Process) : Except (Stop Memory) Memory :=
  let dir := (k.structs k.current).pageDirTable
  if dir ≠ 0 then freePageTables k.memory dir dir (BitVec.ofNat 64 pageDirTableNum) else .ok k.memory

/-- `do_exit`, up to its call of `schedule`. -/
def doExit (iputLast : Process → Nat → Except (Stop Memory) Process) (k : Process) (code : BitVec 32) :
    Except (Stop Memory) Process := do
  let m ← exitMemory k
  let k := reparent (k.setMemory m) nrTasks
  let k ← closeFiles iputLast k nrOpen
  let k ← dropInodes iputLast k
  let k := if (k.structs k.current).leader then killSession k (nrTasks - 1) else k
  let k := k.setStruct k.current { k.structs k.current with state := .zombie, exitCode := code }
  tellFather k (k.structs k.current).father

def waitMatches (k : Process) (p : Word) (pid : Int) : Bool :=
  (k.structs p).father = (k.structs k.current).pid ∧
    (if 0 < pid then (k.structs p).pid = pid
     else if pid = 0 then (k.structs p).pgrp = (k.structs k.current).pgrp
     else pid = -1 ∨ (k.structs p).pgrp = -pid)

/-- The loop of `sys_waitpid`, over the slots below `n` and above 0: a child to report, or whether one
    is still running. -/
def waitScan (k : Process) (pid : Int) (untraced : Bool) : Nat → Bool → Option Word × Bool
  | 0, flag => (none, flag)
  | n + 1, flag =>
    if n = 0 then (none, flag)
    else if k.task n = 0 ∨ k.task n = k.current ∨ ¬ waitMatches k (k.task n) pid then
      waitScan k pid untraced n flag
    else
      match (k.structs (k.task n)).state with
      | .stopped => if untraced then (some (k.task n), flag) else waitScan k pid untraced n flag
      | .zombie => (some (k.task n), flag)
      | _ => waitScan k pid untraced n true

inductive Waited where
  | returned (value : Int)
  | sleeps
  deriving DecidableEq, Repr

/-- The times of a dead child are added to those of its parent. -/
def addChildTimes (k : Process) (p : Word) : Process :=
  let parent := k.structs k.current
  k.setStruct k.current { parent with
    cutime := parent.cutime + (k.structs p).utime
    cstime := parent.cstime + (k.structs p).stime }

/-- The case `TASK_ZOMBIE` of `sys_waitpid`. -/
def reap (k : Process) (image : Word → Nat → Word) (p statAddr : Word) :
    Except (Stop Memory) (Waited × Process) := do
  let child := k.structs p
  let k ← release (addChildTimes k p) p
  let m ← putFsLong k image k.memory child.exitCode statAddr
  .ok (.returned child.pid, k.setMemory m)

/-- The case `TASK_STOPPED` of `sys_waitpid`. -/
def reportStopped (k : Process) (image : Word → Nat → Word) (p statAddr : Word) :
    Except (Stop Memory) (Waited × Process) := do
  let m ← putFsLong k image k.memory 0x7f statAddr
  .ok (.returned (k.structs p).pid, k.setMemory m)

def waitFor (k : Process) (image : Word → Nat → Word) (pid : Int) (statAddr : Word) (options : BitVec 32) :
    Except (Stop Memory) (Waited × Process) :=
  match waitScan k pid (options.getLsbD 1) nrTasks false with
  | (some p, _) =>
    if (k.structs p).state = .stopped then reportStopped k image p statAddr else reap k image p statAddr
  | (none, true) =>
    if options.getLsbD 0 then .ok (.returned 0, k)
    else .ok (.sleeps, k.setStruct k.current { k.structs k.current with state := .interruptible })
  | (none, false) => .ok (.returned (-echild), k)

/-- `sys_waitpid` up to the first time it has to sleep. -/
def sysWaitpid (k : Process) (image : Word → Nat → Word) (pid : Int) (statAddr : Word) (options : BitVec 32) :
    Except (Stop Memory) (Waited × Process) := do
  let m ← verifyArea k.memory statAddr 4
  waitFor (k.setMemory m) image pid statAddr options

end K210Linux.Kernel
