import K210Linux.Kernel.Exit

namespace K210Linux.Kernel

open K210Linux.Mm

/-- `sizeof(struct stat)`. -/
def statSize : Nat := 48

/-- What the system calls below take from the rest of the kernel: the pages of the executable, the bytes
    that `read_pipe`, `rw_char`, `block_read` or `file_read` hand out for a file, the inode that
    `get_empty_inode` finds, the bytes of a path that `namei` looks at and the inode it finds, the
    contents of `struct stat` for an inode, and the time. -/
structure Environment where
  image : Word → Nat → Word
  deliver : Process → Nat → BitVec 32 → Int × List Byte
  getEmptyInode : Process → Option Nat
  namei : Process → Word → List Word × Option Nat
  stat : Process → Nat → List Byte
  currentTime : BitVec 32
  deliver_length : ∀ k f count, (deliver k f count).2.length ≤ count.toNat
  stat_length : ∀ k i, (stat k i).length = statSize

section Calls

variable (env : Environment)

def sysRead (k : Process) (fd : Nat) (buf : Word) (count : BitVec 32) : Except (Stop Memory) (Int × Process) :=
  if nrOpen ≤ fd ∨ count.msb then .ok (-einval, k)
  else
    match (k.structs k.current).filp fd with
    | none => .ok (-einval, k)
    | some f =>
      if count = 0 then .ok (0, k)
      else do
        let m ← verifyArea k.memory buf count
        let k := k.setMemory m
        let (value, bytes) := env.deliver k f count
        let m ← putFsBytes k env.image k.memory buf bytes
        .ok (value, k.setMemory m)

/-- The page for the data of a pipe goes to the kernel. -/
def getPipeInode (k : Process) : Option Nat × Process :=
  match env.getEmptyInode k with
  | none => (none, k)
  | some i =>
    let (page, m) := getFreePage k.memory
    if page = 0 then (none, { k.setMemory m with iCount := Function.update k.iCount i 0 })
    else (some i, { k.setMemory m with iCount := Function.update k.iCount i 2 })

/-- Both ends of a pipe, at two free files and two free descriptors. -/
def openPipe (k : Process) (f₀ f₁ fd₀ fd₁ : Nat) : Process :=
  let task := k.structs k.current
  let k := k.setStruct k.current { task with
    filp := Function.update (Function.update task.filp fd₀ (some f₀)) fd₁ (some f₁) }
  { k with fCount := Function.update (Function.update k.fCount f₀ 1) f₁ 1 }

def setPipeFiles (k : Process) (f₀ f₁ : Nat) (inode : Option Nat) : Process :=
  { k with fInode := Function.update (Function.update k.fInode f₀ inode) f₁ inode }

/-- `sys_pipe`. The pointer is to words of 8 bytes, but 4 bytes are stored at each. -/
def sysPipe (k : Process) (fildes : Word) : Except (Stop Memory) (Int × Process) :=
  match (List.range nrFile).filter (fun f => k.fCount f = 0),
      (List.range nrOpen).filter (fun fd => (k.structs k.current).filp fd = none) with
  | f₀ :: f₁ :: _, fd₀ :: fd₁ :: _ =>
    match getPipeInode env (openPipe k f₀ f₁ fd₀ fd₁) with
    | (none, k') => .ok (-1, { k' with structs := k.structs, fCount := k.fCount })
    | (some inode, k') => do
      let k' := setPipeFiles k' f₀ f₁ (some inode)
      let m ← putFsLong k' env.image k'.memory (BitVec.ofNat 32 fd₀) fildes
      let m ← putFsLong k' env.image m (BitVec.ofNat 32 fd₁) (fildes + 8)
      .ok (0, k'.setMemory m)
  | _, _ => .ok (-1, k)

def cpStat (k : Process) (inode : Nat) (statbuf : Word) : Except (Stop Memory) Process := do
  let m ← verifyArea k.memory statbuf (BitVec.ofNat 32 statSize)
  let k := k.setMemory m
  let m ← putFsBytes k env.image k.memory statbuf (env.stat k inode)
  .ok (k.setMemory m)

/-- The `get_fs_byte` calls of a path walk bring in the pages of the path. -/
def getFsBytes (k : Process) (m : Memory) : List Word → Except (Stop Memory) Memory
  | [] => .ok m
  | addr :: addrs => do
    let (_, m) ← if k.fsIsKernel then .ok (addr, m) else userAddrToKernel k env.image m addr
    getFsBytes k m addrs

def sysStat (k : Process) (filename statbuf : Word) : Except (Stop Memory) (Int × Process) := do
  let (addrs, inode) := env.namei k filename
  let m ← getFsBytes env k k.memory addrs
  let k := k.setMemory m
  match inode with
  | none => .ok (-enoent, k)
  | some i => do
    let k ← cpStat env k i statbuf
    .ok (0, k)

def sysFstat (k : Process) (fd : Nat) (statbuf : Word) : Except (Stop Memory) (Int × Process) :=
  if nrOpen ≤ fd then .ok (-ebadf, k)
  else
    match ((k.structs k.current).filp fd).bind k.fInode with
    | none => .ok (-ebadf, k)
    | some i => do
      let k ← cpStat env k i statbuf
      .ok (0, k)

def sysTime (k : Process) (tloc : Word) : Except (Stop Memory) (Int × Process) :=
  if tloc = 0 then .ok (env.currentTime.toInt, k)
  else do
    let m ← verifyArea k.memory tloc 8
    let k := k.setMemory m
    let m ← putFsLong k env.image k.memory env.currentTime tloc
    .ok (env.currentTime.toInt, k.setMemory m)

end Calls

/-- The system calls that hand results to user memory, with their arguments. -/
inductive UserCall where
  | read (fd : Nat) (buf : Word) (count : BitVec 32)
  | pipe (fildes : Word)
  | waitpid (pid : Int) (statAddr : Word) (options : BitVec 32)
  | stat (filename statbuf : Word)
  | fstat (fd : Nat) (statbuf : Word)
  | time (tloc : Word)

namespace UserCall

def run (env : Environment) (k : Process) : UserCall → Except (Stop Memory) Process
  | read fd buf count => (sysRead env k fd buf count).map Prod.snd
  | pipe fildes => (sysPipe env k fildes).map Prod.snd
  | waitpid pid statAddr options => (sysWaitpid k env.image pid statAddr options).map Prod.snd
  | stat filename statbuf => (sysStat env k filename statbuf).map Prod.snd
  | fstat fd statbuf => (sysFstat env k fd statbuf).map Prod.snd
  | time tloc => (sysTime env k tloc).map Prod.snd

/-- The address that the call stores to. -/
def buffer : UserCall → Word
  | read _ buf _ => buf
  | pipe fildes => fildes
  | waitpid _ statAddr _ => statAddr
  | stat _ statbuf => statbuf
  | fstat _ statbuf => statbuf
  | time tloc => tloc

end UserCall

end K210Linux.Kernel
