import K210Linux.Exec.FlaggedCopy
import K210Linux.Fs.Volume

/-! `do_execve` up to `current -> close_on_exec = 0`, with the inodes, buffers and pages that it takes. -/

namespace K210Linux.Exec

open K210Linux.Mm K210Linux.Kernel CStrings Outcome
open K210Linux.Fs (Volume Walker Files MInode Block)
open K210Linux.Buffer (Halt)

structure ExecTask where
  root : Option Nat
  pwd : Option Nat
  executable : Option Nat
  umask : BitVec 16
  euid : BitVec 16
  egid : BitVec 16
  handler : Nat → Word

structure ExecState where
  volume : Volume
  task : ExecTask
  files : Files
  fsIsKernel : Bool

/-- The arguments of `do_execve`, the memory it reads, the addresses of its variables, and the time. -/
structure ExecCall where
  filename : Word
  argv : Word
  envp : Word
  user : Space
  kernel : Space
  filenameAt : Word
  iArgAt : Word
  iNameAt : Word
  buf : Word
  time : BitVec 32

inductive ExecFault where
  | copying (stop : ExecStop)
  | files (halt : Halt)

/-- `page` and `p`. -/
structure Args where
  page : Nat → Word
  p : Word

/-- A program past the point of no return. -/
structure Entered where
  ino : Nat
  ex : Header
  argc : Int
  envc : Int
  args : Args
  state : ExecState

inductive ExecResult where
  | failed (value : Int) (state : ExecState)
  | running (entered : Entered)

/-- What the call returns. A program that is entered gets its `argc`. -/
def ExecResult.value : ExecResult → Int
  | .failed value _ => value
  | .running entered => entered.argc

/-- Where the path of the interpreter is in `buf`, behind the blanks. -/
def ExecCall.interp (c : ExecCall) (block : Block) : Word :=
  offset c.buf ((scriptBuffer block).takeWhile isBlank).length

/-- The kernel's memory with `buf` and the variables of `do_execve` as the parsed line leaves them. -/
def ExecCall.locals (c : ExecCall) (script : Script) (block : Block) : Space :=
  let interp := c.interp block
  let text := script.interp ++ 0 :: (match script.iArg with | none => [] | some iArg => iArg ++ [0])
  let buf : Space := fun x => if (x - interp).toNat < text.length then text.getD (x - interp).toNat 0 else c.kernel x
  store64 (store64 (store64 buf c.filenameAt c.filename)
    c.iArgAt (offset interp (script.interp.length + 1)))
    c.iNameAt (offset interp (script.interp.length - script.iName.length))

namespace ExecState

def onVolume (s : ExecState) (volume : Volume) : ExecState := { s with volume }
def onMemory (s : ExecState) (memory : Memory) : ExecState := { s with volume := { s.volume with memory } }

def walker (s : ExecState) (time : BitVec 32) : Walker :=
  ⟨⟨s.task.euid, s.task.egid, s.task.umask, 0, time⟩, s.task.root, s.task.pwd⟩

def brelse (i : Nat) (s : ExecState) : Except ExecFault ExecState := do
  let volume ← (s.volume.brelse i).mapError .files
  .ok (s.onVolume volume)

/-- `copy_strings` on the array of the call. -/
def copy (kmem : FromKmem) (m : Spaces) (argc : Int) (argv : Word) (g : Args) (s : ExecState) :
    Except ExecFault (Args × ExecState) := do
  let (p, a, fs) ← (copyStringsFs kmem m argc argv ⟨s.volume.memory, g.page⟩ g.p s.fsIsKernel).mapError .copying
  .ok (⟨a.page, p⟩, { s.onMemory a.memory with fsIsKernel := fs })

/-- The label `exec_error1`. -/
def execError1 (g : Args) (value : Int) (s : ExecState) : Except ExecFault ExecResult := do
  let memory ← (freeArgPages ⟨s.volume.memory, g.page⟩ 0 maxArgPages).mapError .copying
  .ok (.failed value (s.onMemory memory))

section Calls

variable (fuel : Nat) (c : ExecCall)

def iput (k : Nat) (s : ExecState) : Except ExecFault ExecState := do
  let volume ← (s.volume.iput fuel k c.time).mapError .files
  .ok (s.onVolume volume)

/-- `namei` of the path at an address. -/
def namei (mem : Space) (path : Word) (s : ExecState) : Except ExecFault (Option Nat × ExecState) :=
  match readString mem path intMax with
  | none => .error (.copying .endless)
  | some bytes => do
    let (inode, volume) ← (s.volume.namei fuel (s.walker c.time) bytes).mapError .files
    .ok (inode, s.onVolume volume)

/-- The label `exec_error2`. -/
def execError2 (ino : Nat) (g : Args) (value : Int) (s : ExecState) : Except ExecFault ExecResult := do
  let s ← s.iput fuel c ino
  execError1 g value s

/-- From `restart_interp` to `bread`: the buffer of the first block, or the value to fail with. -/
def openFile (ino : Nat) (s : ExecState) : Except ExecFault (Except Int Nat × ExecState) :=
  let inode := s.volume.inode ino
  if !isReg inode.mode then .ok (.error (-eacces), s)
  else if !mayExecute inode ⟨s.task.euid, s.task.egid⟩ then .ok (.error (-enoexec), s)
  else do
    let (bh, volume) ← (s.volume.bread fuel inode.dev (inode.zone 0).toNat).mapError .files
    match bh with
    | none => .ok (.error (-eacces), s.onVolume volume)
    | some i => .ok (.ok i, s.onVolume volume)

/-- The loop over the first `n` descriptors that closes the marked ones. -/
def closeMarked : Nat → ExecState → Except ExecFault ExecState
  | 0, s => .ok s
  | n + 1, s => do
    let s ← closeMarked n s
    match s.files.task s.files.current with
    | none => .ok s
    | some t =>
      if t.closeOnExec.getLsbD n then
        match Fs.sysClose s.files t n with
        | none => .error (.files (.panic "Close: file count is 0"))
        | some reply =>
          match reply.put with
          | none => .ok { s with files := reply.files }
          | some k => iput fuel c k { s with files := reply.files }
      else .ok s

def putExecutable (s : ExecState) : Except ExecFault ExecState :=
  match s.task.executable with
  | none => .ok s
  | some k => s.iput fuel c k

/-- From the point of no return on, with `e_uid` and `e_gid` as the mode of the file asks for them. -/
def commit (ino : Nat) (ex : Header) (argc envc : Int) (g : Args) (s : ExecState) : Except ExecFault ExecResult := do
  let inode := s.volume.inode ino
  let euid := if inode.mode &&& 0o4000 ≠ 0 then inode.uid else s.task.euid
  let egid := if inode.mode &&& 0o2000 ≠ 0 then inode.gid.setWidth 16 else s.task.egid
  let s ← putExecutable fuel c s
  let s := { s with task := { s.task with
    executable := some ino, handler := fun i => if i < 32 then 0 else s.task.handler i } }
  let s ← closeMarked fuel c nrOpen s
  .ok (.running ⟨ino, ex, argc, envc, g, { s with task := { s.task with euid := euid, egid := egid } }⟩)

/-- The tests of the header. -/
def refused (ino : Nat) (ex : Header) (s : ExecState) : Bool :=
  badHeader ex (s.volume.inode ino).size || decide (nTxtoff ex ≠ 1024)

/-- The second pass over `restart_interp`. -/
def runInterpreter (ino : Nat) (argc envc : Int) (g : Args) (s : ExecState) : Except ExecFault ExecResult := do
  let (bh, s) ← s.openFile fuel ino
  match bh with
  | .error value => execError2 fuel c ino g value s
  | .ok i => do
    let ex := headerOf (s.volume.data i)
    let s ← s.brelse i
    if s.refused ino ex then execError2 fuel c ino g (-enoexec) s else commit fuel c ino ex argc envc g s

/-- `i_arg`, if there is one. -/
def copyArg (script : Script) (m : Spaces) (argc : Int) (g : Args) (s : ExecState) :
    Except ExecFault (Int × Args × ExecState) :=
  match script.iArg with
  | none => .ok (argc, g, s)
  | some _ => do
    let (g, s) ← s.copy .strings m 1 c.iArgAt g
    .ok (argc + 1, g, s)

/-- The strings that the `#!` branch copies. -/
def copyScript (script : Script) (block : Block) (argc envc : Int) (g : Args) (s : ExecState) :
    Except ExecFault (Int × Args × ExecState) := do
  let m : Spaces := ⟨c.user, c.locals script block⟩
  let (g, s) ← s.copy .user m envc c.envp g
  let argc := argc - 1
  let (g, s) ← s.copy .user m argc (c.argv + 8) g
  let (g, s) ← s.copy .pointer m 1 c.filenameAt g
  let argc := argc + 1
  let (argc, g, s) ← s.copyArg c script m argc g
  let (g, s) ← s.copy .strings m 1 c.iNameAt g
  .ok (argc + 1, g, s)

/-- The `#!` branch, from the parsed line on. -/
def interpret (script : Script) (block : Block) (argc envc : Int) (g : Args) (s : ExecState) :
    Except ExecFault ExecResult := do
  let (argc, g, s) ← s.copyScript c script block argc envc g
  if g.p = 0 then execError1 g (-enomem) s
  else
    let oldFs := s.fsIsKernel
    let (inode, s) ← { s with fsIsKernel := true }.namei fuel c (c.locals script block) (c.interp block)
    match inode with
    | none => execError1 g (-enoent) { s with fsIsKernel := oldFs }
    | some ino => runInterpreter fuel c ino argc envc g { s with fsIsKernel := oldFs }

/-- A file that is no script, from `brelse` on. -/
def runProgram (ino : Nat) (ex : Header) (argc envc : Int) (g : Args) (s : ExecState) : Except ExecFault ExecResult :=
  if s.refused ino ex then execError2 fuel c ino g (-enoexec) s
  else do
    let m : Spaces := ⟨c.user, c.kernel⟩
    let (g, s) ← s.copy .user m envc c.envp g
    let (g, s) ← s.copy .user m argc c.argv g
    if g.p = 0 then execError2 fuel c ino g (-enomem) s else commit fuel c ino ex argc envc g s

/-- The first pass, with the inode of the file. -/
def runFile (ino : Nat) (argc envc : Int) (g : Args) (s : ExecState) : Except ExecFault ExecResult := do
  let (bh, s) ← s.openFile fuel ino
  match bh with
  | .error value => execError2 fuel c ino g value s
  | .ok i =>
    let block := s.volume.data i
    if block 0 = 0x23 ∧ block 1 = 0x21 then do
      let s ← s.brelse i
      let s ← s.iput fuel c ino
      match parseScript block with
      | none => execError1 g (-enoexec) s
      | some script => interpret fuel c script block argc envc g s
    else do
      let s ← s.brelse i
      runProgram fuel c ino (headerOf block) argc envc g s

/-- `do_execve`. -/
def doExecve (s : ExecState) : Except ExecFault ExecResult := do
  let mem := (Spaces.mk c.user c.kernel).read s.fsIsKernel
  let (inode, s) ← s.namei fuel c mem c.filename
  match inode with
  | none => .ok (.failed (-enoent) s)
  | some ino =>
    match count mem c.argv, count mem c.envp with
    | some argc, some envc => runFile fuel c ino argc envc ⟨fun _ => 0, argTop⟩ s
    | _, _ => .error (.copying .endless)

end Calls

end ExecState

end K210Linux.Exec
