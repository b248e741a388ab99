import K210Linux.Headers
import K210Linux.Lib.RefCount
import K210Linux.Fs.Inode

namespace K210Linux.Fs

def oAppend : BitVec 16 := 0o2000
def oNonblock : BitVec 16 := 0o4000

structure File where
  mode : BitVec 16
  flags : BitVec 16
  count : BitVec 16
  inode : Option Nat
  pos : Int

/-- The fields of `task_struct` that the calls on files use. Files are named by their index in
    `file_table`; `exited` says that the task went through `do_exit`. -/
structure FileTask where
  filp : Nat → Option Nat
  closeOnExec : BitVec 64
  tty : Int
  leader : Bool
  pgrp : Int
  exited : Bool

structure Files where
  file : Nat → File
  task : Nat → Option FileTask
  current : Nat
  ttyPgrp : Int → Int

/-- What a call returns, and the inode it gives to `iput`, if any. -/
structure Reply where
  value : Int
  put : Option Nat
  files : Files

namespace Files

def setTask (s : Files) (t : FileTask) : Files := { s with task := Function.update s.task s.current (some t) }

def setFile (s : Files) (f : Nat) (file : File) : Files := { s with file := Function.update s.file f file }

def setCount (s : Files) (f : Nat) (count : BitVec 16) : Files := s.setFile f { s.file f with count := count }

end Files

def FileTask.setFilp (t : FileTask) (fd : Nat) (f : Option Nat) : FileTask :=
  { t with filp := Function.update t.filp fd f }

/-- `close_on_exec &= ~(1 << fd)`. -/
def FileTask.keepOnExec (t : FileTask) (fd : Nat) : FileTask :=
  { t with closeOnExec := t.closeOnExec &&& ~~~ BitVec.twoPow 64 fd }

/-- The first free descriptor from `fd` on. -/
def freeFd (t : FileTask) (fd : Nat) : Option Nat :=
  (List.range nrOpen).find? fun i => fd ≤ i ∧ t.filp i = none

def freeFile (s : Files) : Option Nat := (List.range nrFile).find? fun f => (s.file f).count = 0

/-- The inode that `open_namei` found. -/
structure Opened where
  inode : Nat
  mode : BitVec 16
  zone : BitVec 16

def isChr (mode : BitVec 16) : Bool := mode &&& 0o170000 = 0o020000
def major (zone : BitVec 16) : BitVec 16 := zone >>> 8
def minor (zone : BitVec 16) : Int := (zone &&& 0xff).toNat

/-- `sys_open` from the call of `open_namei` on, with the descriptor and the file that it set aside. -/
def openFile (s : Files) (t : FileTask) (fd f : Nat) (flag : BitVec 16) : Except Int Opened → Reply
  | .error e => ⟨e, none, (s.setTask (t.setFilp fd none)).setCount f 0⟩
  | .ok inode =>
    if isChr inode.mode ∧ major inode.zone = 5 ∧ t.tty < 0 then
      ⟨-eperm, some inode.inode, (s.setTask (t.setFilp fd none)).setCount f 0⟩
    else
      let leads := isChr inode.mode ∧ major inode.zone = 4 ∧ t.leader ∧ t.tty < 0
      let s := if leads then
          { s.setTask { t with tty := minor inode.zone } with
            ttyPgrp := Function.update s.ttyPgrp (minor inode.zone) t.pgrp }
        else s
      ⟨fd, none, s.setFile f ⟨inode.mode, flag, 1, some inode.inode, 0⟩⟩

/-- `sys_open` by the current task `t`; `found` is what `open_namei` returns. -/
def sysOpen (s : Files) (t : FileTask) (flag : BitVec 16) (found : Except Int Opened) : Reply :=
  match freeFd t 0 with
  | none => ⟨-einval, none, s⟩
  | some fd =>
    let t := t.keepOnExec fd
    let s := s.setTask t
    match freeFile s with
    | none => ⟨-einval, none, s⟩
    | some f =>
      let t := t.setFilp fd (some f)
      openFile ((s.setTask t).setCount f ((s.file f).count + 1)) t fd f flag found

/-- `sys_close` by the current task `t`; `none` is its panic. -/
def sysClose (s : Files) (t : FileTask) (fd : Nat) : Option Reply :=
  if nrOpen ≤ fd then some ⟨-einval, none, s⟩
  else
    let t := t.keepOnExec fd
    match t.filp fd with
    | none => some ⟨-einval, none, s.setTask t⟩
    | some f =>
      let s := s.setTask (t.setFilp fd none)
      if (s.file f).count = 0 then none
      else
        let s := s.setCount f ((s.file f).count - 1)
        some ⟨0, if (s.file f).count ≠ 0 then none else (s.file f).inode, s⟩

def dupfd (s : Files) (t : FileTask) (fd arg : Nat) : Reply :=
  if nrOpen ≤ fd then ⟨-ebadf, none, s⟩
  else
    match t.filp fd with
    | none => ⟨-ebadf, none, s⟩
    | some f =>
      if nrOpen ≤ arg then ⟨-einval, none, s⟩
      else
        match freeFd t arg with
        | none => ⟨-emfile, none, s⟩
        | some new => ⟨new, none, (s.setTask ((t.keepOnExec new).setFilp new (some f))).setCount f
            ((s.file f).count + 1)⟩

def sysDup (s : Files) (t : FileTask) (fd : Nat) : Reply := dupfd s t fd 0

/-- `sys_dup2`; the second call sees the task as the first one left it. -/
def sysDup2 (s : Files) (t : FileTask) (oldfd newfd : Nat) : Option Reply := do
  let closed ← sysClose s t newfd
  let t ← closed.files.task closed.files.current
  let reply := dupfd closed.files t oldfd newfd
  some { reply with put := closed.put }

def sysFcntl (s : Files) (t : FileTask) (fd cmd : Nat) (arg : BitVec 64) : Reply :=
  if nrOpen ≤ fd then ⟨-ebadf, none, s⟩
  else
    match t.filp fd with
    | none => ⟨-ebadf, none, s⟩
    | some f =>
      match cmd with
      | 0 => dupfd s t fd (arg.setWidth 32).toNat
      | 1 => ⟨if t.closeOnExec.getLsbD fd then 1 else 0, none, s⟩
      | 2 =>
        if arg.getLsbD 0 then
          ⟨0, none, s.setTask { t with closeOnExec := t.closeOnExec ||| BitVec.twoPow 64 fd }⟩
        else ⟨0, none, s.setTask (t.keepOnExec fd)⟩
      | 3 => ⟨(s.file f).flags.toNat, none, s⟩
      | 4 =>
        let flags := (s.file f).flags &&& ~~~ (oAppend ||| oNonblock) |||
          (arg.setWidth 16 &&& (oAppend ||| oNonblock))
        ⟨0, none, s.setFile f { s.file f with flags := flags }⟩
      | _ => ⟨-1, none, s⟩

/-- `sys_pipe`, where `inode` is what `get_pipe_inode` returns; the numbers of the two descriptors go to the
    user. -/
def sysPipe (s : Files) (t : FileTask) (inode : Option Nat) : Reply × Option (Nat × Nat) :=
  match (List.range nrFile).filter (fun f => (s.file f).count = 0),
      (List.range nrOpen).filter (fun fd => t.filp fd = none), inode with
  | f₀ :: f₁ :: _, fd₀ :: fd₁ :: _, some i =>
    let s := s.setTask ((t.setFilp fd₀ (some f₀)).setFilp fd₁ (some f₁))
    let s := s.setFile f₀ { s.file f₀ with mode := 1, count := 1, inode := some i, pos := 0 }
    (⟨0, none, s.setFile f₁ { s.file f₁ with mode := 2, count := 1, inode := some i, pos := 0 }⟩, some (fd₀, fd₁))
  | _, _, _ => (⟨-1, none, s⟩, none)

/-- The loop of `copy_process` over the descriptors of the child. -/
def countChild (s : Files) (filp : Nat → Option Nat) : Nat → Files
  | 0 => s
  | n + 1 =>
    let s := countChild s filp n
    match filp n with
    | some f => s.setCount f ((s.file f).count + 1)
    | none => s

/-- A successful `copy_process` into the slot `nr`. -/
def copyProcess (s : Files) (t : FileTask) (nr : Nat) : Files :=
  countChild { s with task := Function.update s.task nr (some { t with leader := false }) } t.filp nrOpen

/-- The loops of `do_execve` and `do_exit` over the first `n` descriptors: those that `closes` picks are
    closed. -/
def closeEach (closes : FileTask → Nat → Bool) (s : Files) : Nat → Option Files
  | 0 => some s
  | n + 1 => do
    let s ← closeEach closes s n
    let t ← s.task s.current
    if closes t n then (sysClose s t n).map Reply.files else some s

/-- The close-on-exec loop of `do_execve`. -/
def closeOnExec (s : Files) : Option Files := do
  let s ← closeEach (fun t i => t.closeOnExec.getLsbD i) s nrOpen
  let t ← s.task s.current
  some (s.setTask { t with closeOnExec := 0 })

/-- What `do_exit` does to the files of the current task. -/
def doExit (s : Files) : Option Files := do
  let s ← closeEach (fun t i => (t.filp i).isSome) s nrOpen
  let t ← s.task s.current
  some (s.setTask { t with exited := true })

end K210Linux.Fs
