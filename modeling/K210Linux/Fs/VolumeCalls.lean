import K210Linux.Fs.Volume
import K210Linux.Fs.RemoveDir

/-! `open_namei`, `sys_mknod`, `sys_mkdir`, `sys_rmdir`, `sys_unlink` and `sys_link` over the buffers of the root device. -/

namespace K210Linux.Fs

open K210Linux.Buffer (Halt ramdisk Drive Device)

/-- `ERROR`. -/
def error : Int := 99

/-- `strcpy(de -> name,text)`. -/
def strcpyEntry (block : Block) (j : Nat) (text : List Byte) : Block := fun i =>
  if 16 * j + 2 ≤ i ∧ i ≤ 16 * j + 2 + text.length then text.getD (i - (16 * j + 2)) 0 else block i

/-- `strcmp` and the numbers of the first two entries, as `empty_dir` wants them. -/
def startsRight (num : BitVec 16) (block : Block) : Bool :=
  decide (entryInode block 0 = num) && decide (entryInode block 1 ≠ 0) && sameString [dot] (entryName block 0) &&
    sameString [dot, dot] (entryName block 1)

namespace Volume

def setHead (v : Volume) (i : Nat) (head : Buffer.BufferHead) : Volume := v.onDrive (v.drive.setHead i head)

/-- New contents of a buffer, with `b_dirt` set. -/
def store (v : Volume) (i : Nat) (data : Block) : Volume := v.setHead i { v.drive.cache.head i with data, dirt := true }

section Calls

variable (fuel : Nat)

/-- `new_block`. -/
def newBlock (dev : BitVec 16) (v : Volume) : Except Halt (Nat × Volume) :=
  if dev ≠ ramdisk then .error (.panic "trying to get new block from nonexistent device")
  else do
    let (z, device) ← v.device.newBlock fuel
    .ok (z, { v with device })

/-- A slot of `i_zone`, as `_bmap` fills it with `create` set. -/
def createZone (k slot : Nat) (time : BitVec 32) (v : Volume) : Except Halt Volume :=
  if (v.inode k).zone slot ≠ 0 then .ok v
  else do
    let (z, v) ← newBlock fuel (v.inode k).dev v
    let inode := { v.inode k with zone := Function.update (v.inode k).zone slot (BitVec.ofNat 16 z) }
    .ok (v.setInode k (if z = 0 then inode else { inode with ctime := time, dirt := true }))

/-- An entry of an index block, as `_bmap` fills it with `create` set. -/
def createEntry (dev : BitVec 16) (block k : Nat) (v : Volume) : Except Halt (Nat × Volume) := do
  let (bh, v) ← bread fuel dev block v
  match bh with
  | none => .ok (0, v)
  | some i =>
    if entryAt (v.data i) k ≠ 0 then do
      let z := entryAt (v.data i) k
      let v ← v.brelse i
      .ok (z, v)
    else do
      let (z, v) ← newBlock fuel dev v
      let v ← (if z = 0 then v else v.store i (setEntryAt (v.data i) k z)).brelse i
      .ok (z, v)

/-- `create_block`. -/
def createBlock (k block : Nat) (time : BitVec 32) (v : Volume) : Except Halt (Nat × Volume) :=
  if 7 + 512 + 512 * 512 ≤ block then .error (.panic "_bmap: block > big")
  else if block < 7 then do
    let v ← createZone fuel k block time v
    .ok (((v.inode k).zone block).toNat, v)
  else if block < 7 + 512 then do
    let v ← createZone fuel k 7 time v
    if (v.inode k).zone 7 = 0 then .ok (0, v)
    else createEntry fuel (v.inode k).dev ((v.inode k).zone 7).toNat (block - 7) v
  else do
    let v ← createZone fuel k 8 time v
    if (v.inode k).zone 8 = 0 then .ok (0, v)
    else do
      let (z, v) ← createEntry fuel (v.inode k).dev ((v.inode k).zone 8).toNat ((block - (7 + 512)) / 512) v
      if z = 0 then .ok (0, v) else createEntry fuel (v.inode k).dev z ((block - (7 + 512)) % 512) v

/-- A round of the loop of `add_entry` at index `i`, which is entry `j` of buffer `bh`: whether the entry is free, and the
    volume with the name in it then. -/
def tryEntry (k : Nat) (name : List Byte) (time : BitVec 32) (i j bh : Nat) (v : Volume) : Bool × Volume :=
  let inode := growDirectory (v.inode k) i time
  let block := if (v.inode k).size.toNat ≤ i * 16 then setEntryInode (v.data bh) j 0 else v.data bh
  if entryInode block j = 0 then
    (true, (v.setInode k { inode with mtime := time }).store bh (setEntryName block j name))
  else (false, v)

/-- The loop of `add_entry`. A block that can not be read leaves `bh` NULL for the next round. -/
def addLoop (k : Nat) (name : List Byte) (time : BitVec 32) :
    Nat → Nat → Nat → Nat → Volume → Except Halt (Option (Nat × Nat) × Volume)
  | 0, _, _, _, _ => .error .asleep
  | left + 1, i, j, bh, v =>
    if dirEntriesPerBlock ≤ j then do
      let v ← v.brelse bh
      let (z, v) ← createBlock fuel k (i / dirEntriesPerBlock) time v
      if z = 0 then .ok (none, v)
      else do
        let (bh, v) ← bread fuel (v.inode k).dev z v
        match bh with
        | none => .error (.panic "bh is NULL")
        | some bh =>
          let (found, v) := tryEntry k name time i 0 bh v
          if found then .ok (some (bh, 0), v) else addLoop k name time left (i + 1) 1 bh v
    else
      let (found, v) := tryEntry k name time i j bh v
      if found then .ok (some (bh, j), v) else addLoop k name time left (i + 1) (j + 1) bh v

/-- `add_entry`: the buffer and the index of the entry. -/
def addEntry (k : Nat) (name : List Byte) (time : BitVec 32) (v : Volume) :
    Except Halt (Option (Nat × Nat) × Volume) :=
  if name.take nameLen = [] ∨ (v.inode k).zone 0 = 0 then .ok (none, v)
  else do
    let (bh, v) ← bread fuel (v.inode k).dev ((v.inode k).zone 0).toNat v
    match bh with
    | none => .ok (none, v)
    | some bh => addLoop fuel k (name.take nameLen) time ((v.inode k).size.toNat / 16 + 2) 0 0 bh v

/-- `new_inode`. -/
def newInode (w : Walker) (dev : BitVec 16) (v : Volume) : Except Halt (Option Nat × Volume) := do
  let (k, last, drive) ← Drive.getEmptyInode fuel v.last v.drive
  let v := { v.onDrive drive with last }
  if dev ≠ ramdisk then .error (.panic "new_inode with unknown device")
  else do
    let creator : Creator := ⟨w.caller.euid, w.caller.egid.setWidth 8, w.caller.time⟩
    let (inode, sb) ← (Fs.newInode v.device.sb creator).mapError .panic
    let v := { v with device.sb := sb }
    match inode with
    | none => do
      let v ← iput fuel k w.caller.time v
      .ok (none, v)
    | some inode => .ok (some k, v.setInode k { inode with dev })

/-- `dir_namei`: the directory and the name in it. -/
def dirNamei (w : Walker) (path : List Byte) (v : Volume) : Except Halt (Option (Nat × List Byte) × Volume) := do
  let (dir, v) ← getDir fuel w path v
  let (name, namelen) := scanBase path path 0
  .ok (dir.map fun k => (k, name.take namelen), v)

/-- The end of a call that puts an inode and returns. -/
def putAnd {α : Type} (w : Walker) (k : Nat) (value : α) (v : Volume) : Except Halt (α × Volume) := do
  let v ← iput fuel k w.caller.time v
  .ok (value, v)

/-- The same with two inodes, in this order. -/
def putBothAnd {α : Type} (w : Walker) (k k' : Nat) (value : α) (v : Volume) : Except Halt (α × Volume) := do
  let v ← iput fuel k w.caller.time v
  putAnd fuel w k' value v

/-- The same with a buffer that is released at the end. -/
def putBothReleaseAnd {α : Type} (w : Walker) (k k' bh : Nat) (value : α) (v : Volume) : Except Halt (α × Volume) := do
  let (value, v) ← putBothAnd fuel w k k' value v
  let v ← v.brelse bh
  .ok (value, v)

/-- The number of an inode goes into a new entry. -/
def enter (v : Volume) (bh j : Nat) (num : BitVec 16) : Volume := v.store bh (setEntryInode (v.data bh) j num)

/-- `open_namei` for a name that is not there: the value and the inode. -/
def openNew (w : Walker) (dir : Nat) (name : List Byte) (flag : BitVec 32) (mode : BitVec 16) (v : Volume) :
    Except Halt ((Int × Option Nat) × Volume) :=
  if flag &&& oCreat = 0 then putAnd fuel w dir (-enoent, none) v
  else if ¬ permission (v.inode dir) w.caller mayWrite then putAnd fuel w dir (-eacces, none) v
  else do
    let (new, v) ← newInode fuel w (v.inode dir).dev v
    match new with
    | none => putAnd fuel w dir (-enospc, none) v
    | some k => do
      let v := v.setInode k { v.inode k with uid := w.caller.euid, mode := mode, dirt := true }
      let (place, v) ← addEntry fuel dir name w.caller.time v
      match place with
      | none =>
        let v := v.setInode k { v.inode k with nlinks := (v.inode k).nlinks - 1 }
        putBothAnd fuel w k dir (-enospc, none) v
      | some (bh, j) => do
        let v ← (v.enter bh j (v.inode k).num).brelse bh
        putAnd fuel w dir (0, some k) v

/-- `open_namei` for an entry that is there. -/
def openOld (w : Walker) (dir bh j : Nat) (flag : BitVec 32) (v : Volume) : Except Halt ((Int × Option Nat) × Volume) := do
  let inr := entryInode (v.data bh) j
  let dev := (v.inode dir).dev
  let v ← v.brelse bh
  let v ← iput fuel dir w.caller.time v
  if flag &&& oExcl ≠ 0 then .ok ((-eexist, none), v)
  else do
    let (k, v) ← iget fuel dev inr v
    if isDir (v.inode k).mode ∧ flag &&& oAccMode ≠ 0 ∨ ¬ permission (v.inode k) w.caller (accMode flag) then
      putAnd fuel w k (-eperm, none) v
    else do
      let v := v.setInode k { v.inode k with atime := w.caller.time }
      let v ← if flag &&& oTrunc ≠ 0 then truncate fuel k w.caller.time v else .ok v
      .ok ((0, some k), v)

/-- `open_namei`. -/
def openNamei (w : Walker) (path : List Byte) (flag : BitVec 32) (mode : BitVec 16) (v : Volume) :
    Except Halt ((Int × Option Nat) × Volume) := do
  let flag := if flag &&& oTrunc ≠ 0 ∧ flag &&& oAccMode = 0 then flag ||| oWrOnly else flag
  let mode := mode &&& 0o777 &&& ~~~ w.caller.umask ||| 0o100000
  let (dir, v) ← dirNamei fuel w path v
  match dir with
  | none => .ok ((-enoent, none), v)
  | some (dir, name) =>
    if name = [] then
      if flag &&& (oAccMode ||| oCreat ||| oTrunc) = 0 then .ok ((0, some dir), v)
      else putAnd fuel w dir (-eisdir, none) v
    else do
      let (found, dir, v) ← findEntry fuel w dir name v
      match found with
      | none => openNew fuel w dir name flag mode v
      | some (bh, j) => openOld fuel w dir bh j flag v

/-- How `sys_mknod` and `sys_mkdir` begin: the directory and the name in it, or the value of the call. -/
def newName (w : Walker) (path : List Byte) (v : Volume) : Except Halt ((Int ⊕ Nat × List Byte) × Volume) :=
  if w.caller.euid ≠ 0 then .ok (.inl (-eperm), v)
  else do
    let (dir, v) ← dirNamei fuel w path v
    match dir with
    | none => .ok (.inl (-enoent), v)
    | some (dir, name) =>
      if name = [] then putAnd fuel w dir (.inl (-enoent)) v
      else if ¬ permission (v.inode dir) w.caller mayWrite then putAnd fuel w dir (.inl (-eperm)) v
      else do
        let (found, dir, v) ← findEntry fuel w dir name v
        match found with
        | some (bh, _) => do
          let v ← v.brelse bh
          putAnd fuel w dir (.inl (-eexist)) v
        | none => .ok (.inr (dir, name), v)

/-- `sys_mknod` in a directory without the name. -/
def mknodIn (w : Walker) (dir : Nat) (name : List Byte) (mode dev : BitVec 16) (v : Volume) : Except Halt (Int × Volume) := do
  let (new, v) ← newInode fuel w (v.inode dir).dev v
  match new with
  | none => putAnd fuel w dir (-enospc) v
  | some k => do
    let inode := v.inode k
    let v := v.setInode k { inode with
      mode := mode
      zone := if isBlk mode ∨ isChr mode then Function.update inode.zone 0 dev else inode.zone
      mtime := w.caller.time, atime := w.caller.time, dirt := true }
    let (place, v) ← addEntry fuel dir name w.caller.time v
    match place with
    | none => do
      let v ← iput fuel dir w.caller.time v
      putAnd fuel w k (-enospc) (v.setInode k { v.inode k with nlinks := 0 })
    | some (bh, j) => putBothReleaseAnd fuel w dir k bh 0 (v.enter bh j (v.inode k).num)

/-- `sys_mknod`. -/
def sysMknod (w : Walker) (path : List Byte) (mode dev : BitVec 16) (v : Volume) : Except Halt (Int × Volume) := do
  let (start, v) ← newName fuel w path v
  match start with
  | .inl value => .ok (value, v)
  | .inr (dir, name) => mknodIn fuel w dir name mode dev v

/-- The block of a new directory. -/
def dotEntries (block : Block) (num parent : BitVec 16) : Block :=
  let block := strcpyEntry (setEntryInode block 0 num) 0 [dot]
  strcpyEntry (setEntryInode block 1 parent) 1 [dot, dot]

/-- The end of `sys_mkdir`, with the block of the new directory. -/
def mkdirEntry (w : Walker) (dir k : Nat) (name : List Byte) (v : Volume) : Except Halt (Int × Volume) := do
  let (place, v) ← addEntry fuel dir name w.caller.time v
  match place with
  | none => do
    let v ← iput fuel dir w.caller.time v
    let v ← freeBlock (v.inode k).dev ((v.inode k).zone 0).toNat v
    putAnd fuel w k (-enospc) (v.setInode k { v.inode k with nlinks := 0 })
  | some (bh, j) =>
    let v := v.enter bh j (v.inode k).num
    let v := v.setInode dir { v.inode dir with nlinks := (v.inode dir).nlinks + 1, dirt := true }
    putBothReleaseAnd fuel w dir k bh 0 v

/-- `sys_mkdir` in a directory without the name. -/
def mkdirIn (w : Walker) (dir : Nat) (name : List Byte) (mode : BitVec 16) (v : Volume) : Except Halt (Int × Volume) := do
  let (new, v) ← newInode fuel w (v.inode dir).dev v
  match new with
  | none => putAnd fuel w dir (-enospc) v
  | some k => do
    let v := v.setInode k { v.inode k with size := 32, dirt := true, mtime := w.caller.time, atime := w.caller.time }
    let (z, v) ← newBlock fuel (v.inode k).dev v
    let v := v.setInode k { v.inode k with zone := Function.update (v.inode k).zone 0 (BitVec.ofNat 16 z) }
    if (v.inode k).zone 0 = 0 then do
      let v ← iput fuel dir w.caller.time v
      putAnd fuel w k (-enospc) (v.setInode k { v.inode k with nlinks := (v.inode k).nlinks - 1 })
    else do
      let v := v.setInode k { v.inode k with dirt := true }
      let (block, v) ← bread fuel (v.inode k).dev ((v.inode k).zone 0).toNat v
      match block with
      | none => do
        let v ← iput fuel dir w.caller.time v
        let v ← freeBlock (v.inode k).dev ((v.inode k).zone 0).toNat v
        putAnd fuel w k (-error) (v.setInode k { v.inode k with nlinks := (v.inode k).nlinks - 1 })
      | some block => do
        let v := v.store block (dotEntries (v.data block) (v.inode k).num (v.inode dir).num)
        let v := v.setInode k { v.inode k with nlinks := 2 }
        let v ← v.brelse block
        let v := v.setInode k { v.inode k with
          mode := 0o040000 ||| (mode &&& 0o777 &&& ~~~ w.caller.umask), dirt := true }
        mkdirEntry fuel w dir k name v

/-- `sys_mkdir`. -/
def sysMkdir (w : Walker) (path : List Byte) (mode : BitVec 16) (v : Volume) : Except Halt (Int × Volume) := do
  let (start, v) ← newName fuel w path v
  match start with
  | .inl value => .ok (value, v)
  | .inr (dir, name) => mkdirIn fuel w dir name mode v

/-- The loop of `empty_dir` at index `nr`, which is entry `j` of buffer `bh`. At a missing block the loop goes on with
    the buffer that it has just released. -/
def emptyLoop (k len : Nat) : Nat → Nat → Nat → Nat → Volume → Except Halt (Bool × Volume)
  | 0, _, _, _, _ => .error .asleep
  | left + 1, nr, j, bh, v =>
    if len ≤ nr then do
      let v ← v.brelse bh
      .ok (true, v)
    else if dirEntriesPerBlock ≤ j then do
      let v ← v.brelse bh
      let (z, v) ← bmap fuel k (nr / dirEntriesPerBlock) v
      if z = 0 then emptyLoop k len left (nr + dirEntriesPerBlock) j bh v
      else do
        let (block, v) ← bread fuel (v.inode k).dev z v
        match block with
        | none => .ok (false, v)
        | some bh =>
          if entryInode (v.data bh) 0 ≠ 0 then do
            let v ← v.brelse bh
            .ok (false, v)
          else emptyLoop k len left (nr + 1) 1 bh v
    else if entryInode (v.data bh) j ≠ 0 then do
      let v ← v.brelse bh
      .ok (false, v)
    else emptyLoop k len left (nr + 1) (j + 1) bh v

/-- `empty_dir`. It keeps the buffer of a block that does not start with `.` and `..`. -/
def emptyDir (k : Nat) (v : Volume) : Except Halt (Bool × Volume) := do
  let len := (v.inode k).size.toNat / 16
  if len < 2 ∨ (v.inode k).zone 0 = 0 then .ok (false, v)
  else do
    let (block, v) ← bread fuel (v.inode k).dev ((v.inode k).zone 0).toNat v
    match block with
    | none => .ok (false, v)
    | some bh =>
      if startsRight (v.inode k).num (v.data bh) then emptyLoop fuel k len (len + 1) 2 2 bh v else .ok (false, v)

/-- Whether the loop of `empty_dir` comes to a block that is missing. -/
def loopMeetsHole (k len : Nat) : Nat → Nat → Nat → Nat → Volume → Bool
  | 0, _, _, _, _ => false
  | left + 1, nr, j, bh, v =>
    if len ≤ nr then false
    else if dirEntriesPerBlock ≤ j then
      match v.brelse bh >>= bmap fuel k (nr / dirEntriesPerBlock) with
      | .error _ => false
      | .ok (z, v) =>
        decide (z = 0) ||
          match bread fuel (v.inode k).dev z v with
          | .ok (some bh, v) => decide (entryInode (v.data bh) 0 = 0) && loopMeetsHole k len left (nr + 1) 1 bh v
          | _ => false
    else decide (entryInode (v.data bh) j = 0) && loopMeetsHole k len left (nr + 1) (j + 1) bh v

/-- The buffer of the first block of a directory, as `empty_dir` reads it. -/
def firstBlock (k : Nat) (v : Volume) : Option (Nat × Volume) :=
  if (v.inode k).size.toNat / 16 < 2 ∨ (v.inode k).zone 0 = 0 then none
  else
    match bread fuel (v.inode k).dev ((v.inode k).zone 0).toNat v with
    | .ok (some bh, v) => some (bh, v)
    | _ => none

/-- `empty_dir` comes to a block that is missing. -/
def meetsHole (k : Nat) (v : Volume) : Bool :=
  (firstBlock fuel k v).any fun (bh, u) =>
    startsRight (u.inode k).num (u.data bh) &&
      loopMeetsHole fuel k ((v.inode k).size.toNat / 16) ((v.inode k).size.toNat / 16 + 1) 2 2 bh u

/-- `empty_dir` finds a block that does not start with `.` and `..`. -/
def startsBadly (k : Nat) (v : Volume) : Bool :=
  (firstBlock fuel k v).any fun (bh, u) => !startsRight (u.inode k).num (u.data bh)

/-- How `sys_rmdir` and `sys_unlink` begin: the directory, the buffer and the index of the entry, or the value of the
    call. -/
def oldName (w : Walker) (path : List Byte) (v : Volume) : Except Halt ((Int ⊕ Nat × Nat × Nat) × Volume) := do
  let (dir, v) ← dirNamei fuel w path v
  match dir with
  | none => .ok (.inl (-enoent), v)
  | some (dir, name) =>
    if name = [] then putAnd fuel w dir (.inl (-enoent)) v
    else if ¬ permission (v.inode dir) w.caller mayWrite then putAnd fuel w dir (.inl (-eperm)) v
    else do
      let (found, dir, v) ← findEntry fuel w dir name v
      match found with
      | none => putAnd fuel w dir (.inl (-enoent)) v
      | some (bh, j) => .ok (.inr (dir, bh, j), v)

/-- `sys_rmdir` up to `empty_dir`: the directory, the buffer and the index of the entry, and the inode to be removed, or
    the value of the call. -/
def rmdirStart (w : Walker) (path : List Byte) (v : Volume) : Except Halt ((Int ⊕ Nat × Nat × Nat × Nat) × Volume) :=
  if w.caller.euid ≠ 0 then .ok (.inl (-eperm), v)
  else do
    let (start, v) ← oldName fuel w path v
    match start with
    | .inl value => .ok (.inl value, v)
    | .inr (dir, bh, j) => do
      let (k, v) ← iget fuel (v.inode dir).dev (entryInode (v.data bh) j) v
      let inode := v.inode k
      let owner := v.inode dir
      if owner.mode &&& 0o1000 ≠ 0 ∧ w.caller.euid ≠ 0 ∧ inode.uid ≠ w.caller.euid then
        putBothReleaseAnd fuel w dir k bh (.inl (-eperm)) v
      else if inode.dev ≠ owner.dev ∨ 1 < inode.count then putBothReleaseAnd fuel w dir k bh (.inl (-eperm)) v
      else if k = dir then putBothReleaseAnd fuel w k dir bh (.inl (-eperm)) v
      else if ¬ isDir inode.mode then putBothReleaseAnd fuel w k dir bh (.inl (-enotdir)) v
      else .ok (.inr (dir, bh, j, k), v)

/-- `sys_rmdir`. -/
def sysRmdir (w : Walker) (path : List Byte) (v : Volume) : Except Halt (Int × Volume) := do
  let (start, v) ← rmdirStart fuel w path v
  match start with
  | .inl value => .ok (value, v)
  | .inr (dir, bh, j, k) => do
    let (empty, v) ← emptyDir fuel k v
    if ¬ empty then putBothReleaseAnd fuel w k dir bh (-enotempty) v
    else do
      let v ← (v.enter bh j 0).brelse bh
      let v := v.setInode k { v.inode k with nlinks := 0, dirt := true }
      let v := v.setInode dir { v.inode dir with
        nlinks := (v.inode dir).nlinks - 1, ctime := w.caller.time, mtime := w.caller.time, dirt := true }
      putBothAnd fuel w dir k 0 v

/-- `sys_unlink`. -/
def sysUnlink (w : Walker) (path : List Byte) (v : Volume) : Except Halt (Int × Volume) := do
  let (start, v) ← oldName fuel w path v
  match start with
  | .inl value => .ok (value, v)
  | .inr (dir, bh, j) => do
    let (k, v) ← iget fuel (v.inode dir).dev (entryInode (v.data bh) j) v
    let inode := v.inode k
    let owner := v.inode dir
    if owner.mode &&& 0o1000 ≠ 0 ∧ w.caller.euid ≠ 0 ∧ w.caller.euid ≠ inode.uid ∧ w.caller.euid ≠ owner.uid then
      putBothReleaseAnd fuel w dir k bh (-eperm) v
    else if isDir inode.mode then putBothReleaseAnd fuel w k dir bh (-eperm) v
    else do
      let nlinks := if inode.nlinks = 0 then 1 else inode.nlinks
      let v ← ((v.setInode k { inode with nlinks }).enter bh j 0).brelse bh
      let v := v.setInode k { v.inode k with nlinks := nlinks - 1, dirt := true, ctime := w.caller.time }
      putBothAnd fuel w k dir 0 v

/-- `sys_link` with the inode of the old name. -/
def linkTo (w : Walker) (old : Nat) (path : List Byte) (v : Volume) : Except Halt (Int × Volume) := do
  let (dir, v) ← dirNamei fuel w path v
  match dir with
  | none => putAnd fuel w old (-eacces) v
  | some (dir, name) =>
    if name = [] then putBothAnd fuel w old dir (-eperm) v
    else if (v.inode dir).dev ≠ (v.inode old).dev then putBothAnd fuel w dir old (-exdev) v
    else if ¬ permission (v.inode dir) w.caller mayWrite then putBothAnd fuel w dir old (-eacces) v
    else do
      let (found, dir, v) ← findEntry fuel w dir name v
      match found with
      | some (bh, _) => do
        let v ← v.brelse bh
        putBothAnd fuel w dir old (-eexist) v
      | none => do
        let (place, v) ← addEntry fuel dir name w.caller.time v
        match place with
        | none => putBothAnd fuel w dir old (-enospc) v
        | some (bh, j) => do
          let v ← (v.enter bh j (v.inode old).num).brelse bh
          let v ← iput fuel dir w.caller.time v
          putAnd fuel w old 0 (v.setInode old { v.inode old with
            nlinks := (v.inode old).nlinks + 1, ctime := w.caller.time, dirt := true })

/-- `sys_link`. -/
def sysLink (w : Walker) (oldname newname : List Byte) (v : Volume) : Except Halt (Int × Volume) := do
  let (old, v) ← namei fuel w oldname v
  match old with
  | none => .ok (-enoent, v)
  | some old => if isDir (v.inode old).mode then putAnd fuel w old (-eperm) v else linkTo fuel w old newname v

end Calls

/-- The calls that work on paths. -/
inductive PathCall where
  | namei (path : List Byte)
  | openNamei (path : List Byte) (flag : BitVec 32) (mode : BitVec 16)
  | mknod (path : List Byte) (mode dev : BitVec 16)
  | mkdir (path : List Byte) (mode : BitVec 16)
  | rmdir (path : List Byte)
  | unlink (path : List Byte)
  | link (oldname newname : List Byte)

/-- The inode that a call returns, if it returns one, and the volume then. -/
def PathCall.run (fuel : Nat) (w : Walker) (v : Volume) : PathCall → Except Halt (Option Nat × Volume)
  | .namei path => Volume.namei fuel w path v
  | .openNamei path flag mode => (Volume.openNamei fuel w path flag mode v).map fun r => (r.1.2, r.2)
  | .mknod path mode dev => (sysMknod fuel w path mode dev v).map fun r => (none, r.2)
  | .mkdir path mode => (sysMkdir fuel w path mode v).map fun r => (none, r.2)
  | .rmdir path => (sysRmdir fuel w path v).map fun r => (none, r.2)
  | .unlink path => (sysUnlink fuel w path v).map fun r => (none, r.2)
  | .link oldname newname => (sysLink fuel w oldname newname v).map fun r => (none, r.2)

/-- The directory that a call hands to `empty_dir`, and the volume then. -/
def PathCall.emptied (fuel : Nat) (w : Walker) (v : Volume) : PathCall → Option (Nat × Volume)
  | .rmdir path =>
    match rmdirStart fuel w path v with
    | .ok (.inr (_, _, _, k), v) => some (k, v)
    | _ => none
  | _ => none

end Volume

end K210Linux.Fs
