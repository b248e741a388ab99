import K210Linux.Headers
import K210Linux.Mm.Tables

namespace K210Linux.Kernel

open K210Linux.Mm

def kernelStackSize : Word := 32768
def regRa : Nat := 1
def regSp : Nat := 2
def regA0 : Nat := 10

inductive TaskState where
  | running
  | interruptible
  | uninterruptible
  | zombie
  | stopped
  deriving DecidableEq, Repr

structure TssStruct where
  regs : Nat → Word
  fregs : Nat → Word
  epc : Word

structure TrapInfo where
  regs : Nat → Word
  fregs : Nat → Word
  epc : Word

/-- The fields of `task_struct` that the process functions use. Open files and inodes are named by
    their index in `file_table` and `inode_table`. -/
structure Task where
  state : TaskState
  counter : Int
  priority : Int
  signal : Word
  exitCode : BitVec 32
  startCode : Word
  endData : Word
  pid : Int
  father : Int
  pgrp : Int
  session : Int
  leader : Bool
  alarm : Int
  utime : Int
  stime : Int
  cutime : Int
  cstime : Int
  startTime : Int
  pwd : Option Nat
  root : Option Nat
  executable : Option Nat
  filp : Nat → Option Nat
  pageDirTable : Word
  codeBase : Word
  dataBase : Word
  codeLimit : Word
  dataLimit : Word
  tss : TssStruct

/-- The process table. `task` holds pointers, 0 for a free slot; the structures are kept by address,
    apart from the page they lie in. -/
structure Process where
  memory : Memory
  structs : Word → Task
  task : Nat → Word
  current : Word
  kernelStack : Nat → Word
  kernelStackbottom : Nat → Word
  lastPid : Int
  jiffies : Int
  trapInfo : TrapInfo
  forkProcessExit : Word
  fsIsKernel : Bool
  fCount : Nat → BitVec 16
  fInode : Nat → Option Nat
  iCount : Nat → BitVec 16

namespace Process

def setMemory (k : Process) (m : Memory) : Process := { k with memory := m }

def setTask (k : Process) (nr : Nat) (p : Word) : Process := { k with task := Function.update k.task nr p }

def setStruct (k : Process) (p : Word) (t : Task) : Process := { k with structs := Function.update k.structs p t }

end Process

/-- A store of one word at a physical address. -/
def storeWord (m : Memory) (addr w : Word) : Memory :=
  m.setEntry (pageOf addr) ((addr &&& 0xFFF) >>> 3).toNat w

/-- `memcpy` of `n` words from an array to a physical address. -/
def storeWords (m : Memory) (addr : Word) (words : Nat → Word) : Nat → Memory
  | 0 => m
  | n + 1 => storeWord (storeWords m addr words n) (addr + 8 * BitVec.ofNat 64 n) (words n)

/-- `pte_common_init` on a directory. -/
def clearDir (m : Memory) (dir : Word) : Memory :=
  { m with dirs := Function.update m.dirs dir (fun i => if i < pageDirTableNum then 0 else m.dirs dir i) }

/-- The register image that `copy_process` leaves on the kernel stack of the child. -/
def storeTrapFrame (m : Memory) (trap : TrapInfo) (sp forkProcessExit : Word) : Memory :=
  let m := storeWords m sp trap.regs 32
  let m := storeWords m (sp + 8 * 32) trap.fregs 32
  let m := storeWord m (sp + 8 * BitVec.ofNat 64 regA0) 0
  let m := storeWord m (sp + 8 * BitVec.ofNat 64 regRa) forkProcessExit
  storeWord m (sp - 8) (trap.regs regRa)

def setStartCode (k : Process) (p start : Word) : Process :=
  k.setStruct p { k.structs p with startCode := start }

def copyMem (k : Process) (p : Word) : Except (Stop Memory) (Int × Process) := do
  let oldDataBase := (k.structs p).dataBase
  let dataLimit := (k.structs p).dataLimit
  let dir := (k.structs p).pageDirTable
  let newDataBase := userStartAddr
  let k := setStartCode k p newDataBase
  let (r, m) ← copyPageTables k.memory oldDataBase newDataBase dir (dataLimit / pageSize)
  if r ≠ 0 then
    let m ← freePageTables m newDataBase dir dataLimit
    .ok (-enomem, k.setMemory m)
  else .ok (0, k.setMemory m)

/-- The loop over `p -> filp`. -/
def countFiles (filp : Nat → Option Nat) (fCount : Nat → BitVec 16) : Nat → Nat → BitVec 16
  | 0 => fCount
  | n + 1 =>
    let fCount := countFiles filp fCount n
    match filp n with
    | some f => Function.update fCount f (fCount f + 1)
    | none => fCount

def countInode (inode : Option Nat) (iCount : Nat → BitVec 16) : Nat → BitVec 16 :=
  match inode with
  | some i => Function.update iCount i (iCount i + 1)
  | none => iCount

/-- `*p = *current` and the assignments after it. -/
def childOf (k : Process) : Task :=
  let parent := k.structs k.current
  { parent with
    state := .uninterruptible
    pid := k.lastPid
    father := parent.pid
    counter := parent.priority
    signal := 0
    alarm := 0
    leader := false
    utime := 0
    stime := 0
    cutime := 0
    cstime := 0
    startTime := k.jiffies }

/-- `task[nr] = p`, and the structure of the child at `p`. -/
def placeTask (k : Process) (nr : Nat) (p : Word) : Process :=
  (k.setTask nr p).setStruct p (childOf k)

def placeStack (k : Process) (nr : Nat) (stack : Word) : Process :=
  { k with
    kernelStack := Function.update k.kernelStack nr stack
    kernelStackbottom := Function.update k.kernelStackbottom nr stack }

/-- From `kernel_stack[nr] += KERNEL_STACK_SIZE` to the cleared directory of the child. -/
def setUpStack (k : Process) (nr : Nat) (p stack : Word) : Process :=
  let sp := stack + kernelStackSize - 8 * 32 - 8 * 32
  let child := k.structs p
  { k with
    memory := clearDir (storeTrapFrame k.memory k.trapInfo sp k.forkProcessExit) (p + pageSize)
    kernelStack := Function.update k.kernelStack nr (stack + kernelStackSize)
    structs := Function.update k.structs p { child with
      tss := { child.tss with regs := Function.update child.tss.regs regSp sp, epc := k.trapInfo.epc + 4 }
      pageDirTable := p + pageSize } }

/-- What `copy_process` does when `copy_mem` failed. -/
def abandonChild (k : Process) (nr : Nat) (p : Word) : Except (Stop Memory) (Int × Process) := do
  let k := k.setTask nr 0
  let m ← freePages k.memory (k.kernelStack nr - kernelStackSize) (kernelStackSize >>> 12).toNat
  let m ← freePages m p 5
  .ok (-eagain, k.setMemory m)

/-- What `copy_process` does when `copy_mem` succeeded. -/
def startChild (k : Process) (p : Word) : Int × Process :=
  let parent := k.structs k.current
  let k := { k with
    fCount := countFiles (k.structs p).filp k.fCount nrOpen
    iCount := countInode parent.executable (countInode parent.root (countInode parent.pwd k.iCount)) }
  (k.lastPid, k.setStruct p { k.structs p with state := .running })

def copyProcess (k : Process) (nr : Nat) : Except (Stop Memory) (Int × Process) :=
  let (p, m) := getFreePages k.memory 5
  if p = 0 then .ok (-eagain, k.setMemory m)
  else
    let k := placeTask (k.setMemory m) nr p
    let (stack, m) := getFreePages k.memory (kernelStackSize >>> 12).toNat
    let k := placeStack (k.setMemory m) nr stack
    if stack = 0 then do
      let m ← freePages k.memory p 5
      .ok (-eagain, k.setMemory m)
    else do
      let (r, k) ← copyMem (setUpStack k nr p stack) p
      if r ≠ 0 then abandonChild k nr p else .ok (startChild k p)

end K210Linux.Kernel
