import K210Linux.Buffer.ZoneMap
import K210Linux.Fs.MountCall
import K210Linux.Mm.State

/-! `namei` and `iput` over the buffers of the root device, each with the references that it takes and gives back. -/

namespace K210Linux.Fs

open K210Linux.Buffer (Halt ramdisk Drive Device)
open K210Linux.Mm (Memory Stop freePage)

/-- The root device, which is the only mounted one, with `s_imount` and `last_inode`, and the memory that the pages of
    pipes go back to. -/
structure Volume where
  device : Device
  imount : Option Nat
  last : Nat
  memory : Memory

/-- The current task, as far as a path is walked for it. -/
structure Walker where
  caller : Caller
  root : Option Nat
  pwd : Option Nat

def Walker.mayEnter (w : Walker) (inode : MInode) : Bool := isDir inode.mode && permission inode w.caller mayExec

def haltOf : Stop Memory → Halt
  | .panic text => .panic text
  | .oom _ => .panic "out of memory"

namespace Volume

abbrev drive (v : Volume) : Drive := v.device.drive

def inode (v : Volume) (k : Nat) : MInode := v.drive.inode k

/-- `b_data` of a buffer. -/
def data (v : Volume) (i : Nat) : Block := (v.drive.cache.head i).data

def onDrive (v : Volume) (drive : Drive) : Volume := { v with device := { v.device with drive } }

def setInode (v : Volume) (k : Nat) (inode : MInode) : Volume := v.onDrive (v.drive.setInode k inode)

/-- `inode->i_count++`. -/
def hold (v : Volume) (k : Nat) : Volume := v.setInode k { v.inode k with count := (v.inode k).count + 1 }

def brelse (v : Volume) (i : Nat) : Except Halt Volume := do
  let drive ← v.drive.brelse i
  .ok (v.onDrive drive)

section Calls

variable (fuel : Nat)

def bread (dev : BitVec 16) (block : Nat) (v : Volume) : Except Halt (Option Nat × Volume) := do
  let (bh, drive) ← Drive.bread fuel dev (BitVec.ofNat 64 block) v.drive
  .ok (bh, v.onDrive drive)

/-- `free_block`. -/
def freeBlock (dev : BitVec 16) (block : Nat) (v : Volume) : Except Halt Volume :=
  if dev ≠ ramdisk then .error (.panic "trying to free block on nonexistent device")
  else do
    let device ← v.device.freeBlock block
    .ok { v with device }

/-- The loop of `free_ind` over the entries of buffer `i` from `k` on. -/
def freeEntries (dev : BitVec 16) (i k : Nat) : Nat → Volume → Except Halt Volume
  | 0, v => .ok v
  | left + 1, v =>
    if entryAt (v.data i) k = 0 then freeEntries dev i (k + 1) left v
    else do
      let v ← freeBlock dev (entryAt (v.data i) k) v
      freeEntries dev i (k + 1) left v

/-- `free_ind`. -/
def freeInd (dev : BitVec 16) (block : Nat) (v : Volume) : Except Halt Volume :=
  if block = 0 then .ok v
  else do
    let (bh, v) ← bread fuel dev block v
    match bh with
    | none => freeBlock dev block v
    | some i => do
      let v ← freeEntries dev i 0 512 v
      let v ← v.brelse i
      freeBlock dev block v

/-- The loop of `truncate` over `i_zone` from slot `i` on. -/
def freeDirect (k i : Nat) : Nat → Volume → Except Halt Volume
  | 0, v => .ok v
  | left + 1, v =>
    if (v.inode k).zone i = 0 then freeDirect k (i + 1) left v
    else do
      let v ← freeBlock (v.inode k).dev ((v.inode k).zone i).toNat v
      freeDirect k (i + 1) left (v.setInode k { v.inode k with zone := Function.update (v.inode k).zone i 0 })

/-- `truncate`. -/
def truncate (k : Nat) (time : BitVec 32) (v : Volume) : Except Halt Volume :=
  if ¬ isReg (v.inode k).mode ∨ isDir (v.inode k).mode then .ok v
  else do
    let v ← freeDirect k 0 7 v
    let v ← freeInd fuel (v.inode k).dev ((v.inode k).zone 7).toNat v
    let v ← freeInd fuel (v.inode k).dev ((v.inode k).zone 8).toNat v
    .ok (v.setInode k { v.inode k with
      zone := Function.update (Function.update (v.inode k).zone 8 0) 7 0, size := 0, dirt := true, mtime := time, ctime := time })

/-- What `iput` does with an inode that has no links. -/
def release (k : Nat) (time : BitVec 32) (v : Volume) : Except Halt Volume := do
  let v ← truncate fuel k time v
  let (inode, sb) ← (freeInode v.device.sb (v.inode k)).mapError .panic
  .ok ({ v with device := { v.device with sb } }.setInode k inode)

/-- The end of `iput`, behind the label `repeat`. -/
def dropLast (k : Nat) (time : BitVec 32) : Nat → Volume → Except Halt Volume
  | 0, _ => .error .asleep
  | left + 1, v =>
    let inode := v.inode k
    if 1 < inode.count then .ok (v.setInode k { inode with count := inode.count - 1 })
    else if inode.nlinks = 0 then release fuel k time v
    else if inode.dirt then do
      let drive ← Drive.writeInode fuel k v.drive
      dropLast k time left (v.onDrive drive)
    else .ok (v.setInode k { inode with count := inode.count - 1 })

/-- What `iput` does first with a block special file. -/
def syncBlk (k : Nat) (v : Volume) : Except Halt Volume :=
  if isBlk (v.inode k).mode then do
    let drive ← Drive.syncDev fuel ((v.inode k).zone 0) v.drive
    .ok (v.onDrive drive)
  else .ok v

/-- `iput`. -/
def iput (k : Nat) (time : BitVec 32) (v : Volume) : Except Halt Volume :=
  let inode := v.inode k
  if inode.count = 0 then .error (.panic "iput: trying to free free inode")
  else if inode.pipe then
    if inode.count - 1 ≠ 0 then .ok (v.setInode k { inode with count := inode.count - 1 })
    else do
      let memory ← (freePage v.memory (inode.size.setWidth 64)).mapError haltOf
      .ok ({ v with memory }.setInode k { inode with count := 0, dirt := false, pipe := false })
  else do
    let v ← syncBlk fuel k v
    dropLast fuel k time fuel v

/-- `iget` on the root device. -/
def iget (dev num : BitVec 16) (v : Volume) : Except Halt (Nat × Volume) :=
  if dev = 0 then .error (.panic "iget with dev == 0")
  else do
    let (k, last, drive) ← Drive.iget fuel v.last num v.drive
    .ok (k, { v.onDrive drive with last })

/-- An entry of an index block, as `_bmap` reads it. -/
def readEntry (dev : BitVec 16) (block k : Nat) (v : Volume) : Except Halt (Nat × Volume) := do
  let (bh, v) ← bread fuel dev block v
  match bh with
  | none => .ok (0, v)
  | some i => do
    let z := entryAt (v.data i) k
    let v ← v.brelse i
    .ok (z, v)

/-- `bmap`. -/
def bmap (k block : Nat) (v : Volume) : Except Halt (Nat × Volume) :=
  let inode := v.inode k
  if 7 + 512 + 512 * 512 ≤ block then .error (.panic "_bmap: block > big")
  else if block < 7 then .ok ((inode.zone block).toNat, v)
  else if block < 7 + 512 then
    if inode.zone 7 = 0 then .ok (0, v) else readEntry fuel inode.dev (inode.zone 7).toNat (block - 7) v
  else if inode.zone 8 = 0 then .ok (0, v)
  else do
    let (i, v) ← readEntry fuel inode.dev (inode.zone 8).toNat ((block - (7 + 512)) / 512) v
    if i = 0 then .ok (0, v) else readEntry fuel inode.dev i ((block - (7 + 512)) % 512) v

/-- The loop of `find_entry` at index `i`: `de` is entry `j` of buffer `bh`. Entry 64 is still looked for behind the
    64 entries of the block. -/
def findLoop (k entries : Nat) (name : List Byte) :
    Nat → Nat → Nat → Option Nat → Volume → Except Halt (Option (Nat × Nat) × Volume)
  | 0, _, _, _, _ => .error .asleep
  | _ + 1, i, _, none, v =>
    if entries ≤ i then .ok (none, v) else .error (.panic "bh is NULL")
  | left + 1, i, j, some bh, v =>
    if entries ≤ i then do
      let v ← v.brelse bh
      .ok (none, v)
    else if 64 < j then do
      let v ← v.brelse bh
      let (z, v) ← bmap fuel k (i / dirEntriesPerBlock) v
      if z = 0 then findLoop k entries name left (i + dirEntriesPerBlock) j none v
      else do
        let (bh, v) ← bread fuel (v.inode k).dev z v
        match bh with
        | none => findLoop k entries name left (i + dirEntriesPerBlock) j none v
        | some bh =>
          if matchEntry name (v.data bh) 0 then .ok (some (bh, 0), v)
          else findLoop k entries name left (i + 1) 1 (some bh) v
    else if matchEntry name (v.data bh) j then .ok (some (bh, j), v)
    else findLoop k entries name left (i + 1) (j + 1) (some bh) v

/-- The start of `find_entry` with `..`: in a pseudo-root it is `.`, and in the root of the device the search goes on
    in the inode that the device is mounted on. -/
def dotDot (w : Walker) (k : Nat) (name : List Byte) (v : Volume) : Except Halt (List Byte × Nat × Volume) :=
  if name ≠ [dot, dot] then .ok (name, k, v)
  else if w.root = some k then .ok ([dot], k, v)
  else if (v.inode k).num ≠ rootIno then .ok (name, k, v)
  else
    match v.imount with
    | none => .ok (name, k, v)
    | some m => do
      let v ← iput fuel k w.caller.time v
      .ok (name, m, v.hold m)

/-- `find_entry`: the buffer and the index of the entry, and the directory that it is in. -/
def findEntry (w : Walker) (k : Nat) (name : List Byte) (v : Volume) :
    Except Halt (Option (Nat × Nat) × Nat × Volume) := do
  let entries := (v.inode k).size.toNat / 16
  if name.take nameLen = [] then .ok (none, k, v)
  else
    let (name, k, v) ← dotDot fuel w k (name.take nameLen) v
    if (v.inode k).zone 0 = 0 then .ok (none, k, v)
    else
      let (bh, v) ← bread fuel (v.inode k).dev ((v.inode k).zone 0).toNat v
      match bh with
      | none => .ok (none, k, v)
      | some bh => do
        let (found, v) ← findLoop fuel k entries name (entries + 1) 0 0 (some bh) v
        .ok (found, k, v)

/-- The end of a call that puts the directory and returns `NULL`. -/
def putNone (w : Walker) (k : Nat) (v : Volume) : Except Halt (Option Nat × Volume) := do
  let v ← iput fuel k w.caller.time v
  .ok (none, v)

/-- `get_dir` and `namei` once `find_entry` has found an entry: buffer and directory are given back, and the inode of
    the entry is got. -/
def follow (w : Walker) (k bh j : Nat) (v : Volume) : Except Halt (Nat × Volume) := do
  let inr := entryInode (v.data bh) j
  let dev := (v.inode k).dev
  let v ← v.brelse bh
  let v ← iput fuel k w.caller.time v
  iget fuel dev inr v

/-- The loop of `get_dir`. -/
def getDirFrom (w : Walker) : Nat → Nat → List Byte → Volume → Except Halt (Option Nat × Volume)
  | 0, _, _, _ => .error .asleep
  | left + 1, k, path, v =>
    if w.mayEnter (v.inode k) = false then putNone fuel w k v
    else
      match scanName path with
      | (_, none) => .ok (some k, v)
      | (namelen, some rest) => do
        let (found, k, v) ← findEntry fuel w k (path.take namelen) v
        match found with
        | none => putNone fuel w k v
        | some (bh, j) => do
          let (k, v) ← follow fuel w k bh j v
          getDirFrom w left k rest v

/-- `get_dir`. -/
def getDir (w : Walker) (path : List Byte) (v : Volume) : Except Halt (Option Nat × Volume) :=
  match w.root, w.pwd with
  | some root, some pwd =>
    if (v.inode root).count = 0 then .error (.panic "No root inode")
    else if (v.inode pwd).count = 0 then .error (.panic "No cwd inode")
    else
      match path with
      | [] => .ok (none, v)
      | c :: rest =>
        if c = slash then getDirFrom fuel w (path.length + 1) root rest (v.hold root)
        else if c ≠ 0 then getDirFrom fuel w (path.length + 1) pwd path (v.hold pwd)
        else .ok (none, v)
  | none, _ => .error (.panic "No root inode")
  | _, none => .error (.panic "No cwd inode")

/-- `namei`, with `dir_namei` as its start. -/
def namei (w : Walker) (path : List Byte) (v : Volume) : Except Halt (Option Nat × Volume) := do
  let (dir, v) ← getDir fuel w path v
  match dir with
  | none => .ok (none, v)
  | some k =>
    let (name, namelen) := scanBase path path 0
    if namelen = 0 then .ok (some k, v)
    else do
      let (found, k, v) ← findEntry fuel w k (name.take namelen) v
      match found with
      | none => putNone fuel w k v
      | some (bh, j) => do
        let (k, v) ← follow fuel w k bh j v
        .ok (some k, v.setInode k { v.inode k with atime := w.caller.time, dirt := true })

end Calls

end Volume

end K210Linux.Fs
