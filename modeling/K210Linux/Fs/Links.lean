import K210Linux.Fs.Directory
import K210Linux.Fs.Truncate

namespace K210Linux.Fs

open Outcome

def mayWrite : BitVec 16 := 2

def oAccMode : BitVec 32 := 3
def oWrOnly : BitVec 32 := 1
def oCreat : BitVec 32 := 0o100
def oExcl : BitVec 32 := 0o200
def oTrunc : BitVec 32 := 0o1000

/-- What the calls take from the current task and the clock; `root` is the number of its root inode. -/
structure Caller where
  euid : BitVec 16
  egid : BitVec 16
  umask : BitVec 16
  root : BitVec 16
  time : BitVec 32

/-- The file system, and the inodes that `iput` truncated and freed so far, each with the file system that it
    found then. -/
structure Mount where
  fs : FileSystem
  freed : List (FileSystem × Nat)

/-- `permission`. -/
def permission (inode : MInode) (caller : Caller) (mask : BitVec 16) : Bool :=
  if inode.dev ≠ 0 ∧ inode.nlinks = 0 then false
  else
    let mode := if caller.euid = inode.uid then inode.mode >>> 6
      else if caller.egid = inode.gid.setWidth 16 then inode.mode >>> 3 else inode.mode
    decide (mode &&& mask &&& 7 = mask) || decide (caller.euid = 0)

/-- `ACC_MODE`. -/
def accMode (flag : BitVec 32) : BitVec 16 :=
  if flag &&& oAccMode = 0 then 4 else if flag &&& oAccMode = 1 then 2 else if flag &&& oAccMode = 2 then 6 else 255

def Mount.setInode (m : Mount) (ino : Nat) (inode : MInode) : Mount := { m with fs := m.fs.setInode ino inode }

/-- `iget` on the device, with no other one mounted. -/
def iget (m : Mount) (nr : BitVec 16) : Mount :=
  let inode := m.fs.inode nr.toNat
  m.setInode nr.toNat { inode with count := inode.count + 1, dev := m.fs.sb.dev, num := nr }

/-- `iput`. The buffers that `sync_dev` and `write_inode` write are the ones the calls see anyway, and the page
    of a pipe is no part of the device. -/
def iput (m : Mount) (stale : Nat → Block) (time : BitVec 32) (ino : Nat) : Except String Mount :=
  let inode := m.fs.inode ino
  if inode.count = 0 then .error "iput: trying to free free inode"
  else if inode.pipe then
    if inode.count = 1 then .ok (m.setInode ino { inode with count := 0, dirt := false, pipe := false })
    else .ok (m.setInode ino { inode with count := inode.count - 1 })
  else if 1 < inode.count then .ok (m.setInode ino { inode with count := inode.count - 1 })
  else if inode.nlinks = 0 then do
    let fs ← truncate m.fs stale ino time
    let (inode, sb) ← freeInode fs.sb (fs.inode ino)
    .ok ⟨{ fs.setInode ino inode with sb := sb }, (m.fs, ino) :: m.freed⟩
  else .ok (m.setInode ino { inode with count := 0, dirt := false })

/-- The end of a call that puts an inode and returns. -/
def putAnd {α : Type} (m : Mount) (stale : Nat → Block) (time : BitVec 32) (ino : BitVec 16) (value : α) :
    Except String (α × Mount) := do
  let m ← iput m stale time ino.toNat
  .ok (value, m)

/-- The same with two inodes, in this order. -/
def putBothAnd {α : Type} (m : Mount) (stale : Nat → Block) (time : BitVec 32) (ino ino' : BitVec 16) (value : α) :
    Except String (α × Mount) := do
  let m ← iput m stale time ino.toNat
  putAnd m stale time ino' value

/-- The inode of the entry at a place. -/
def Mount.entry (m : Mount) (place : Nat × Nat) : BitVec 16 := entryInode (m.fs.disk place.1) place.2

/-- `new_inode`, which then has its slot. -/
def Mount.create (m : Mount) (caller : Caller) (init : MInode → MInode) : Except String (Option (BitVec 16) × Mount) := do
  let (inode, sb) ← newInode m.fs.sb ⟨caller.euid, caller.egid.setWidth 8, caller.time⟩
  match inode with
  | none => .ok (none, { m with fs.sb := sb })
  | some inode => .ok (some inode.num, { m with
      fs := FileSystem.setInode { m.fs with sb := sb } inode.num.toNat (init inode) })

/-- `open_namei` for a name that is not there: the value and the inode. -/
def openNew (m : Mount) (stale : Nat → Block) (caller : Caller) (dir : BitVec 16) (name : List Byte)
    (flag : BitVec 32) (mode : BitVec 16) : Except String ((Int × Option (BitVec 16)) × Mount) :=
  if flag &&& oCreat = 0 then putAnd m stale caller.time dir (-enoent, none)
  else if ¬ permission (m.fs.inode dir.toNat) caller mayWrite then putAnd m stale caller.time dir (-eacces, none)
  else do
    let (new, m) ← m.create caller fun inode => { inode with uid := caller.euid, mode := mode, dirt := true }
    match new with
    | none => putAnd m stale caller.time dir (-enospc, none)
    | some inr => do
      let (place, fs) ← addEntry m.fs dir.toNat name caller.time
      let m := { m with fs := fs }
      match place with
      | none =>
        let inode := m.fs.inode inr.toNat
        putBothAnd (m.setInode inr.toNat { inode with nlinks := inode.nlinks - 1 }) stale caller.time inr dir
          (-enospc, none)
      | some place => putAnd { m with fs := storeEntry m.fs place inr } stale caller.time dir (0, some inr)

/-- `open_namei` for an entry that is there. -/
def openOld (m : Mount) (stale : Nat → Block) (caller : Caller) (dir : BitVec 16) (place : Nat × Nat)
    (flag : BitVec 32) : Except String ((Int × Option (BitVec 16)) × Mount) := do
  let inr := m.entry place
  let m ← iput m stale caller.time dir.toNat
  if flag &&& oExcl ≠ 0 then .ok ((-eexist, none), m)
  else
    let m := iget m inr
    let inode := m.fs.inode inr.toNat
    if isDir inode.mode ∧ flag &&& oAccMode ≠ 0 ∨ ¬ permission inode caller (accMode flag) then
      putAnd m stale caller.time inr (-eperm, none)
    else
      let m := m.setInode inr.toNat { inode with atime := caller.time }
      if flag &&& oTrunc ≠ 0 then do
        let fs ← truncate m.fs stale inr.toNat caller.time
        .ok ((0, some inr), { m with fs := fs })
      else .ok ((0, some inr), m)

/-- `open_namei`, behind the `dir_namei` that gave it the directory and the rest of the path. -/
def openNamei (m : Mount) (stale : Nat → Block) (caller : Caller) (dir : BitVec 16) (name : List Byte)
    (flag : BitVec 32) (mode : BitVec 16) : Except String ((Int × Option (BitVec 16)) × Mount) := do
  let flag := if flag &&& oTrunc ≠ 0 ∧ flag &&& oAccMode = 0 then flag ||| oWrOnly else flag
  let mode := mode &&& 0o777 &&& ~~~ caller.umask ||| 0o100000
  let m := iget m dir
  if name = [] then
    if flag &&& (oAccMode ||| oCreat ||| oTrunc) = 0 then .ok ((0, some dir), m)
    else putAnd m stale caller.time dir (-eisdir, none)
  else
    match ← findEntry m.fs dir.toNat (dir = caller.root) name with
    | none => openNew m stale caller dir name flag mode
    | some place => openOld m stale caller dir place flag

/-- `sys_mknod` for a name that is not there. -/
def mknodNew (m : Mount) (stale : Nat → Block) (caller : Caller) (dir : BitVec 16) (name : List Byte)
    (mode dev : BitVec 16) : Except String (Int × Mount) := do
  let (new, m) ← m.create caller fun inode => { inode with
    mode := mode
    zone := if isBlk mode ∨ isChr mode then Function.update inode.zone 0 dev else inode.zone
    mtime := caller.time, atime := caller.time, dirt := true }
  match new with
  | none => putAnd m stale caller.time dir (-enospc)
  | some inr => do
    let (place, fs) ← addEntry m.fs dir.toNat name caller.time
    let m := { m with fs := fs }
    match place with
    | none => do
      let m ← iput m stale caller.time dir.toNat
      putAnd (m.setInode inr.toNat { m.fs.inode inr.toNat with nlinks := 0 }) stale caller.time inr (-enospc)
    | some place => putBothAnd { m with fs := storeEntry m.fs place inr } stale caller.time dir inr 0

/-- `sys_mknod`. -/
def sysMknod (m : Mount) (stale : Nat → Block) (caller : Caller) (dir : BitVec 16) (name : List Byte)
    (mode dev : BitVec 16) : Except String (Int × Mount) :=
  if caller.euid ≠ 0 then .ok (-eperm, m)
  else
    let m := iget m dir
    if name = [] then putAnd m stale caller.time dir (-enoent)
    else if ¬ permission (m.fs.inode dir.toNat) caller mayWrite then putAnd m stale caller.time dir (-eperm)
    else do
      match ← findEntry m.fs dir.toNat (dir = caller.root) name with
      | some _ => putAnd m stale caller.time dir (-eexist)
      | none => mknodNew m stale caller dir name mode dev

/-- `sys_unlink` for an entry that is there. -/
def unlinkEntry (m : Mount) (stale : Nat → Block) (caller : Caller) (dir : BitVec 16) (place : Nat × Nat) :
    Except String (Int × Mount) :=
  let inr := m.entry place
  let m := iget m inr
  let inode := m.fs.inode inr.toNat
  let owner := m.fs.inode dir.toNat
  if owner.mode &&& 0o1000 ≠ 0 ∧ caller.euid ≠ 0 ∧ caller.euid ≠ inode.uid ∧ caller.euid ≠ owner.uid then
    putBothAnd m stale caller.time dir inr (-eperm)
  else if isDir inode.mode then putBothAnd m stale caller.time inr dir (-eperm)
  else
    let nlinks := if inode.nlinks = 0 then 1 else inode.nlinks
    let m := { m with fs := storeEntry m.fs place 0 }
    putBothAnd (m.setInode inr.toNat { inode with nlinks := nlinks - 1, dirt := true, ctime := caller.time })
      stale caller.time inr dir 0

/-- `sys_unlink`. -/
def sysUnlink (m : Mount) (stale : Nat → Block) (caller : Caller) (dir : BitVec 16) (name : List Byte) :
    Except String (Int × Mount) :=
  let m := iget m dir
  if name = [] then putAnd m stale caller.time dir (-enoent)
  else if ¬ permission (m.fs.inode dir.toNat) caller mayWrite then putAnd m stale caller.time dir (-eperm)
  else do
    match ← findEntry m.fs dir.toNat (dir = caller.root) name with
    | none => putAnd m stale caller.time dir (-enoent)
    | some place => unlinkEntry m stale caller dir place

/-- `namei`. -/
def namei (m : Mount) (stale : Nat → Block) (caller : Caller) (dir : BitVec 16) (name : List Byte) :
    Except String (Option (BitVec 16) × Mount) :=
  let m := iget m dir
  if name = [] then .ok (some dir, m)
  else do
    match ← findEntry m.fs dir.toNat (dir = caller.root) name with
    | none => putAnd m stale caller.time dir none
    | some place => do
      let inr := m.entry place
      let m ← iput m stale caller.time dir.toNat
      let m := iget m inr
      .ok (some inr, m.setInode inr.toNat { m.fs.inode inr.toNat with atime := caller.time, dirt := true })

/-- `sys_link` with the old inode and a directory where the new name is not there. -/
def linkNew (m : Mount) (stale : Nat → Block) (caller : Caller) (old dir : BitVec 16) (name : List Byte) :
    Except String (Int × Mount) := do
  let (place, fs) ← addEntry m.fs dir.toNat name caller.time
  let m := { m with fs := fs }
  match place with
  | none => putBothAnd m stale caller.time dir old (-enospc)
  | some place => do
    let m ← iput { m with fs := storeEntry m.fs place (m.fs.inode old.toNat).num } stale caller.time dir.toNat
    let inode := m.fs.inode old.toNat
    putAnd (m.setInode old.toNat { inode with nlinks := inode.nlinks + 1, ctime := caller.time, dirt := true })
      stale caller.time old 0

/-- `sys_link`. -/
def sysLink (m : Mount) (stale : Nat → Block) (caller : Caller) (oldDir : BitVec 16) (oldName : List Byte)
    (dir : BitVec 16) (name : List Byte) : Except String (Int × Mount) := do
  let (old, m) ← namei m stale caller oldDir oldName
  match old with
  | none => .ok (-enoent, m)
  | some old =>
    if isDir (m.fs.inode old.toNat).mode then putAnd m stale caller.time old (-eperm)
    else
      let m := iget m dir
      if name = [] then putBothAnd m stale caller.time old dir (-eperm)
      else if (m.fs.inode dir.toNat).dev ≠ (m.fs.inode old.toNat).dev then
        putBothAnd m stale caller.time dir old (-exdev)
      else if ¬ permission (m.fs.inode dir.toNat) caller mayWrite then
        putBothAnd m stale caller.time dir old (-eacces)
      else do
        match ← findEntry m.fs dir.toNat (dir = caller.root) name with
        | some _ => putBothAnd m stale caller.time dir old (-eexist)
        | none => linkNew m stale caller old dir name

end K210Linux.Fs
