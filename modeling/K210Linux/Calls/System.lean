import K210Linux.Exec.ExecCall
import K210Linux.Fs.FileCalls
import K210Linux.Fs.FileCounts
import K210Linux.Fs.ReadWrite
import K210Linux.Lib.Run

/-! The system calls of all tasks, as far as they take and give back inodes, with the root device as the only one. -/

namespace K210Linux.Calls

open K210Linux.Fs
open K210Linux.Buffer (Halt)
open K210Linux.Exec (ExecCall ExecState ExecResult ExecFault)
open K210Linux.Mm (Word)

/-- The inodes that a task holds besides those of its files. -/
structure TaskInodes where
  root : Option Nat
  pwd : Option Nat
  executable : Option Nat

def TaskInodes.nothing : TaskInodes := ⟨none, none, none⟩

structure System where
  volume : Volume
  files : Files
  inodes : Nat → TaskInodes

namespace System

def onVolume (s : System) (volume : Volume) : System := { s with volume }

def onFiles (s : System) (files : Files) : System := { s with files }

/-- The inodes of the current task. -/
def here (s : System) : TaskInodes := s.inodes s.files.current

def setHere (s : System) (t : TaskInodes) : System :=
  { s with inodes := Function.update s.inodes s.files.current t }

def walker (s : System) (caller : Caller) : Walker := ⟨caller, s.here.root, s.here.pwd⟩

section Calls

variable (fuel : Nat)

/-- `iput`, which does nothing with NULL. -/
def put (inode : Option Nat) (time : BitVec 32) (s : System) : Except Halt System :=
  match inode with
  | none => .ok s
  | some k => do
    let volume ← s.volume.iput fuel k time
    .ok (s.onVolume volume)

/-- The end of a call on files. -/
def reply (r : Reply) (time : BitVec 32) (s : System) : Except Halt (Int × System) := do
  let s ← put fuel r.put time (s.onFiles r.files)
  .ok (r.value, s)

/-- What `open_namei` gives to `sys_open`. -/
def opened (volume : Volume) (value : Int) (inode : Option Nat) : Except Int Opened :=
  match inode with
  | none => .error value
  | some k => .ok ⟨k, (volume.inode k).mode, (volume.inode k).zone 0⟩

/-- `sys_open`. Only with a descriptor and a file does it come to `open_namei`. -/
def sysOpen (caller : Caller) (path : List Byte) (flag : BitVec 32) (mode : BitVec 16) (t : FileTask) (s : System) :
    Except Halt (Int × System) :=
  if freeFd t 0 = none ∨ freeFile s.files = none then
    reply fuel (Fs.sysOpen s.files t (flag.setWidth 16) (.error 0)) caller.time s
  else do
    let ((value, inode), volume) ← s.volume.openNamei fuel (s.walker caller) path flag mode
    reply fuel (Fs.sysOpen s.files t (flag.setWidth 16) (opened volume value inode)) caller.time (s.onVolume volume)

/-- `sys_creat`. -/
def sysCreat (caller : Caller) (path : List Byte) (mode : BitVec 16) (t : FileTask) (s : System) :
    Except Halt (Int × System) := sysOpen fuel caller path (oCreat ||| oTrunc) mode t s

/-- `sys_close`. -/
def sysClose (time : BitVec 32) (t : FileTask) (fd : Nat) (s : System) : Except Halt (Int × System) :=
  match Fs.sysClose s.files t fd with
  | none => .error (.panic "Close: file count is 0")
  | some r => reply fuel r time s

/-- `sys_dup2`. -/
def sysDup2 (time : BitVec 32) (t : FileTask) (oldfd newfd : Nat) (s : System) : Except Halt (Int × System) :=
  match Fs.sysDup2 s.files t oldfd newfd with
  | none => .error (.panic "Close: file count is 0")
  | some r => reply fuel r time s

/-- `sys_pipe`, as far as the descriptors; `get_pipe_inode` is called with two files and two descriptors only. -/
def sysPipe (t : FileTask) (s : System) : Except Halt (Int × System) :=
  if (Fs.sysPipe s.files t (some 0)).2 = none then .ok (-1, s)
  else do
    let (inode, volume) ← s.volume.getPipeInode fuel
    let r := (Fs.sysPipe s.files t inode).1
    .ok (r.value, { s with volume, files := r.files })

/-- `sys_chdir` and `sys_chroot`: the inode goes to the place of `old`. -/
def enter (caller : Caller) (path : List Byte) (old : TaskInodes → Option Nat)
    (set : TaskInodes → Option Nat → TaskInodes) (s : System) : Except Halt (Int × System) := do
  let (inode, volume) ← s.volume.namei fuel (s.walker caller) path
  let s := s.onVolume volume
  match inode with
  | none => .ok (-enoent, s)
  | some k =>
    if ¬ isDir (volume.inode k).mode then do
      let s ← put fuel (some k) caller.time s
      .ok (-enotdir, s)
    else do
      let s ← put fuel (old s.here) caller.time s
      .ok (0, s.setHere (set s.here (some k)))

def sysChdir (caller : Caller) (path : List Byte) (s : System) : Except Halt (Int × System) :=
  enter fuel caller path TaskInodes.pwd (fun t k => { t with pwd := k }) s

def sysChroot (caller : Caller) (path : List Byte) (s : System) : Except Halt (Int × System) :=
  enter fuel caller path TaskInodes.root (fun t k => { t with root := k }) s

/-- The file and the inode that `sys_read` and `sys_write` go on to, if it is none of a pipe or a device. -/
def onFile (t : FileTask) (fd : Nat) (s : System) : Option (Nat × Nat) := do
  let f ← if fd < nrOpen then t.filp fd else none
  let k ← (s.files.file f).inode
  let inode := s.volume.inode k
  if inode.pipe ∨ isChr inode.mode ∨ isBlk inode.mode then none else some (f, k)

/-- `sys_read` on a file or directory. -/
def sysRead (f k : Nat) (count : Int) (time : BitVec 32) (s : System) : Except Halt ((List Byte × Int) × System) :=
  let file := s.files.file f
  let inode := s.volume.inode k
  if count < 0 then .ok (([], -einval), s)
  else if count = 0 then .ok (([], 0), s)
  else if isDir inode.mode ∨ isReg inode.mode then do
    let ((bytes, value, pos), volume) ← s.volume.fileRead fuel k file.pos.toNat (readCount inode.size file.pos count) time
    .ok ((bytes, value), { s with volume, files := s.files.setFile f { file with pos := pos } })
  else .ok (([], -einval), s)

/-- `sys_write` on a file. -/
def sysWrite (f k : Nat) (buf : Nat → Byte) (count : Int) (time : BitVec 32) (s : System) : Except Halt (Int × System) :=
  let file := s.files.file f
  if count < 0 then .ok (-einval, s)
  else if count = 0 then .ok (0, s)
  else if isReg (s.volume.inode k).mode then do
    let ((value, pos), volume) ← s.volume.fileWrite fuel k ⟨file.appends, file.pos.toNat⟩ buf count time
    .ok (value, { s with volume, files := s.files.setFile f { file with pos := pos } })
  else .ok (-einval, s)

/-- The loops that close the descriptors below `n` that `closes` picks. -/
def closeEach (closes : FileTask → Nat → Bool) (time : BitVec 32) : Nat → System → Except Halt System
  | 0, s => .ok s
  | n + 1, s => do
    let s ← closeEach closes time n s
    match s.files.task s.files.current with
    | none => .ok s
    | some t =>
      if closes t n then do
        let (_, s) ← sysClose fuel time t n s
        .ok s
      else .ok s

/-- `do_exit`, as far as files and inodes. -/
def doExit (time : BitVec 32) (s : System) : Except Halt System := do
  let s ← closeEach fuel (fun t i => (t.filp i).isSome) time nrOpen s
  let s ← put fuel s.here.pwd time s
  let s := s.setHere { s.here with pwd := none }
  let s ← put fuel s.here.root time s
  let s := s.setHere { s.here with root := none }
  let s ← put fuel s.here.executable time s
  let s := s.setHere { s.here with executable := none }
  match s.files.task s.files.current with
  | none => .ok s
  | some t => .ok (s.onFiles (s.files.setTask { t with exited := true }))

/-- `i_count++`, if there is an inode. -/
def holdSome (inode : Option Nat) (v : Volume) : Volume :=
  match inode with
  | none => v
  | some k => v.hold k

/-- What a successful `copy_process` into slot `nr` does with files and inodes. -/
def copyProcess (t : FileTask) (nr : Nat) (s : System) : System where
  volume := holdSome s.here.executable (holdSome s.here.root (holdSome s.here.pwd s.volume))
  files := Fs.copyProcess s.files t nr
  inodes := Function.update s.inodes nr s.here

/-- The caller of `do_execve`. -/
def execState (caller : Caller) (handler : Nat → Word) (fsIsKernel : Bool) (s : System) : ExecState where
  volume := s.volume
  task := ⟨s.here.root, s.here.pwd, s.here.executable, caller.umask, caller.euid, caller.egid, handler⟩
  files := s.files
  fsIsKernel := fsIsKernel

/-- What `do_execve` leaves of files and inodes. -/
def afterExec (s : System) (e : ExecState) : System :=
  { (s.setHere ⟨e.task.root, e.task.pwd, e.task.executable⟩) with volume := e.volume, files := e.files }

/-- `do_execve`; a program that is entered has `close_on_exec` cleared. -/
def sysExecve (caller : Caller) (c : ExecCall) (handler : Nat → Word) (fsIsKernel : Bool) (s : System) :
    Except ExecFault (Int × System) := do
  match ← (s.execState caller handler fsIsKernel).doExecve fuel c with
  | .failed value e => .ok (value, s.afterExec e)
  | .running entered =>
    let s := s.afterExec entered.state
    match s.files.task s.files.current with
    | none => .ok (entered.argc, s)
    | some t => .ok (entered.argc, s.onFiles (s.files.setTask { t with closeOnExec := 0 }))

end Calls

end System

/-- The calls that take or give back inodes, and the transfers of `sys_read` and `sys_write` from and to files. A fork
    that fails (`forkFails`) has given back all that it took. -/
inductive SystemCall where
  | sysOpen (path : List Byte) (flag : BitVec 32) (mode : BitVec 16)
  | sysCreat (path : List Byte) (mode : BitVec 16)
  | sysClose (fd : Nat)
  | sysDup (fd : Nat)
  | sysDup2 (oldfd newfd : Nat)
  | sysFcntl (fd cmd : Nat) (arg : BitVec 64)
  | sysPipe
  | sysChdir (path : List Byte)
  | sysChroot (path : List Byte)
  | sysChmod (path : List Byte) (mode : BitVec 16)
  | sysChown (path : List Byte) (uid : BitVec 16) (gid : Byte)
  | sysUtime (path : List Byte) (times : Option (BitVec 32 × BitVec 32))
  | sysAccess (ids : Ids) (path : List Byte) (mode : BitVec 32)
  | sysStat (path : List Byte)
  | sysMknod (path : List Byte) (mode dev : BitVec 16)
  | sysMkdir (path : List Byte) (mode : BitVec 16)
  | sysRmdir (path : List Byte)
  | sysUnlink (path : List Byte)
  | sysLink (oldname newname : List Byte)
  | sysRead (fd : Nat) (count : Int)
  | sysWrite (fd : Nat) (buf : Nat → Byte) (count : Int)
  | sysSync
  | sysFork (nr : Nat)
  | forkFails
  | sysExecve (c : ExecCall) (handler : Nat → Word) (fsIsKernel : Bool)
  | sysExit

/-- A call by the current task, a switch to another one, or the release of a dead one. -/
inductive Event where
  | call (caller : Caller) (c : SystemCall)
  | switch (nr : Nat)
  | release (nr : Nat)

namespace System

section Step

variable (fuel : Nat)

/-- A call of the volume alone. -/
def inVolume {α : Type} (s : System) (result : Except Halt (α × Volume)) : Option System :=
  (result.toOption).map fun r => s.onVolume r.2

/-- The state that a call leaves, if it returns. -/
def call (caller : Caller) (t : FileTask) (s : System) : SystemCall → Option System
  | .sysOpen path flag mode => (sysOpen fuel caller path flag mode t s).toOption.map Prod.snd
  | .sysCreat path mode => (sysCreat fuel caller path mode t s).toOption.map Prod.snd
  | .sysClose fd => (sysClose fuel caller.time t fd s).toOption.map Prod.snd
  | .sysDup fd => some (s.onFiles (sysDup s.files t fd).files)
  | .sysDup2 oldfd newfd => (sysDup2 fuel caller.time t oldfd newfd s).toOption.map Prod.snd
  | .sysFcntl fd cmd arg => some (s.onFiles (sysFcntl s.files t fd cmd arg).files)
  | .sysPipe => (sysPipe fuel t s).toOption.map Prod.snd
  | .sysChdir path => (sysChdir fuel caller path s).toOption.map Prod.snd
  | .sysChroot path => (sysChroot fuel caller path s).toOption.map Prod.snd
  | .sysChmod path mode => s.inVolume (s.volume.sysChmod fuel (s.walker caller) path mode)
  | .sysChown path uid gid => s.inVolume (s.volume.sysChown fuel (s.walker caller) path uid gid)
  | .sysUtime path times => s.inVolume (s.volume.sysUtime fuel (s.walker caller) path times)
  | .sysAccess ids path mode => s.inVolume (sysAccess fuel (s.walker caller) ids path mode s.volume)
  | .sysStat path => s.inVolume (s.volume.sysStat fuel (s.walker caller) path)
  | .sysMknod path mode dev => s.inVolume (s.volume.sysMknod fuel (s.walker caller) path mode dev)
  | .sysMkdir path mode => s.inVolume (s.volume.sysMkdir fuel (s.walker caller) path mode)
  | .sysRmdir path => s.inVolume (s.volume.sysRmdir fuel (s.walker caller) path)
  | .sysUnlink path => s.inVolume (s.volume.sysUnlink fuel (s.walker caller) path)
  | .sysLink oldname newname => s.inVolume (s.volume.sysLink fuel (s.walker caller) oldname newname)
  | .sysRead fd count =>
    (s.onFile t fd).bind fun (f, k) => (sysRead fuel f k count caller.time s).toOption.map Prod.snd
  | .sysWrite fd buf count =>
    (s.onFile t fd).bind fun (f, k) => (sysWrite fuel f k buf count caller.time s).toOption.map Prod.snd
  | .sysSync => (s.volume.sysSync fuel).toOption.map s.onVolume
  | .sysFork nr => if nr < nrTasks ∧ (s.files.task nr).isNone then some (s.copyProcess t nr) else none
  | .forkFails => some s
  | .sysExecve c handler fsIsKernel => (sysExecve fuel caller c handler fsIsKernel s).toOption.map Prod.snd
  | .sysExit => (doExit fuel caller.time s).toOption

/-- Only tasks that did not exit run. -/
def step (e : Event) (s : System) : Option System :=
  match e with
  | .call caller c => do
    let t ← s.files.task s.files.current
    if t.exited then none else s.call fuel caller t c
  | .switch nr =>
    if (s.files.task nr).any fun t => !t.exited then some (s.onFiles { s.files with current := nr }) else none
  | .release nr =>
    if (s.files.task nr).any FileTask.exited then
      some (s.onFiles { s.files with task := Function.update s.files.task nr none })
    else none

/-- The directory that a call of `rmdir` hands to `empty_dir`, and the volume then. -/
def emptied (e : Event) (s : System) : Option (Nat × Volume) :=
  match e with
  | .call caller (.sysRmdir path) => (Volume.PathCall.rmdir path).emptied fuel (s.walker caller) s.volume
  | _ => none

/-- `empty_dir` gets no directory that has a hole or does not start with `.` and `..`. -/
def Clean (e : Event) (s : System) : Prop :=
  ∀ k u, s.emptied fuel e = some (k, u) → u.meetsHole fuel k = false ∧ u.startsBadly fuel k = false

instance (e : Event) (s : System) : Decidable (s.Clean fuel e) :=
  decidable_of_iff ((s.emptied fuel e).all (fun p => !p.2.meetsHole fuel p.1 && !p.2.startsBadly fuel p.1) = true) (by
    unfold Clean
    cases s.emptied fuel e with
    | none => simp
    | some p => cases p; simp)

end Step

end System

end K210Linux.Calls
