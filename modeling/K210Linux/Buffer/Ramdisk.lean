import K210Linux.Buffer.Queues

namespace K210Linux.Buffer

open K210Linux.Fs (Block Byte MInode)

/-- Why a call does not return: a panic, an exception in which `machine_exception_handler` loops, or a wait that nobody
    ends. -/
inductive Halt where
  | panic (message : String)
  | exception (message : String)
  | asleep
deriving DecidableEq

/-- The root device. -/
def ramdisk : BitVec 16 := 0x0101

/-- The buffers over the ramdisk, the memory from `rd_start` on in pieces of a block, `rd_start` and `rd_length`,
    the inode table, and the sizes in the super block of the ramdisk, the only mounted device. Tasks run one at
    a time, and a request is done when `ll_rw_block` returns, so no buffer and no inode is ever found locked. -/
structure Drive where
  cache : Cache
  disk : Nat → Block
  start : BitVec 64
  length : BitVec 64
  inode : Nat → MInode
  imapBlocks : BitVec 16
  zmapBlocks : BitVec 16

/-- How far from `rd_start` a request for a block goes, `sector << 9`. -/
def offset (block : BitVec 64) : BitVec 64 := (block <<< 1) <<< 9

/-- The piece of memory there. -/
def place (block : BitVec 64) : Nat := block.toNat % 2 ^ 54

namespace Drive

variable (s : Drive)

def setHead (i : Nat) (head : BufferHead) : Drive := { s with cache := s.cache.setHead i head }

/-- The test of `do_rd_request`, on 64-bit addresses. -/
def refuses (bh : BufferHead) : Bool :=
  bh.dev.toNat % 256 ≠ 1 || s.start + s.length < s.start + offset bh.blocknr + 1024

/-- `ll_rw_block` with the requests it makes, which `do_rd_request` and `end_request` finish at once. -/
def llRwBlock (write : Bool) (i : Nat) : Drive :=
  let bh := s.cache.head i
  if bh.dev.toNat / 256 ≠ 1 then s
  else if (write && !bh.dirt) || (!write && bh.uptodate) then s
  else if s.refuses bh then
    s.setHead i { bh with dirt := false, uptodate := false }
  else if write then
    { s.setHead i { bh with dirt := false, uptodate := true } with
      disk := Function.update s.disk (place bh.blocknr) bh.data }
  else s.setHead i { bh with dirt := false, uptodate := true, data := s.disk (place bh.blocknr) }

/-- A turn of the loops over the buffers in `sys_sync` and `sync_dev`. -/
def writeBack (which : BufferHead → Bool) (i : Nat) : Drive :=
  if which (s.cache.head i) && (s.cache.head i).dirt then s.llRwBlock true i else s

def sweep (which : BufferHead → Bool) : Drive :=
  (List.range s.cache.nrBuffers).foldl (fun s i => s.writeBack which i) s

def brelse (i : Nat) : Except Halt Drive :=
  if (s.cache.head i).count = 0 then .error (.panic "Trying to free free buffer")
  else .ok (s.setHead i { s.cache.head i with count := (s.cache.head i).count - 1 })

variable (sync : BitVec 16 → Drive → Except Halt Drive)

/-- The loop of `getblk` that cleans the chosen buffer, and whether it goes to `repeat`. -/
def clean (i : Nat) : Nat → Drive → Except Halt (Bool × Drive)
  | 0, _ => .error .asleep
  | fuel + 1, s =>
    if (s.cache.head i).dirt then do
      let s ← sync (s.cache.head i).dev s
      if (s.cache.head i).count ≠ 0 then .ok (true, s) else clean i fuel s
    else .ok (false, s)

/-- `getblk` with what it calls for `sync_dev`. -/
def getblkWith (dev : BitVec 16) (block : BitVec 64) : Nat → Drive → Except Halt (Nat × Drive)
  | 0, _ => .error .asleep
  | fuel + 1, s =>
    match s.cache.findBuffer dev block with
    | some i => .ok (i, s.setHead i { s.cache.head i with count := (s.cache.head i).count + 1 })
    | none =>
      match s.cache.pick with
      | none => .error .asleep
      | some i => do
        let (again, s) ← clean sync i fuel s
        if again ∨ (s.cache.findBuffer dev block).isSome then getblkWith dev block fuel s
        else
          match s.cache.assign i dev block with
          | none => .error (.panic "Free block list corrupted")
          | some cache => .ok (i, { s with cache })

/-- `bread` with what it calls for `sync_dev`. -/
def breadWith (dev : BitVec 16) (block : BitVec 64) (fuel : Nat) (s : Drive) : Except Halt (Option Nat × Drive) := do
  let (i, s) ← getblkWith sync dev block fuel s
  if (s.cache.head i).uptodate then .ok (some i, s)
  else
    let s := s.llRwBlock false i
    if (s.cache.head i).uptodate then .ok (some i, s)
    else
      let s ← s.brelse i
      .ok (none, s)

end Drive

/-- The bytes of `struct d_inode`. -/
def inodeByte (inode : MInode) (k : Nat) : Byte :=
  if k < 2 then (inode.mode >>> (8 * k)).setWidth 8
  else if k < 4 then (inode.uid >>> (8 * (k - 2))).setWidth 8
  else if k < 8 then (inode.size >>> (8 * (k - 4))).setWidth 8
  else if k < 12 then (inode.mtime >>> (8 * (k - 8))).setWidth 8
  else if k = 12 then inode.gid
  else if k = 13 then inode.nlinks
  else (inode.zone ((k - 14) / 2) >>> (8 * ((k - 14) % 2))).setWidth 8

/-- The 32 bytes of an inode stored in place `n` of a block of the inode table. -/
def storeInode (block : Block) (n : Nat) (inode : MInode) : Block :=
  fun j => if 32 * n ≤ j ∧ j < 32 * n + 32 then inodeByte inode (j - 32 * n) else block j

namespace Drive

variable (s : Drive)

/-- The block of the inode table that holds inode `num`. -/
def inodeBlock (num : Nat) : Nat := 2 + s.imapBlocks.toNat + s.zmapBlocks.toNat + (num - 1) / 32

/-- `sync_dev` called while an inode is locked: `sync_inodes` waits for the inode, and it is never unlocked. -/
def stuck : BitVec 16 → Drive → Except Halt Drive := fun _ _ => .error .asleep

/-- `write_inode`. -/
def writeInode (fuel k : Nat) (s : Drive) : Except Halt Drive :=
  let inode := s.inode k
  if inode.dirt = false ∨ inode.dev = 0 then .ok s
  else if inode.dev ≠ ramdisk then .error (.panic "trying to write inode without device")
  else do
    let (bh, s) ← breadWith stuck inode.dev (BitVec.ofNat 64 (s.inodeBlock inode.num.toNat)) fuel s
    match bh with
    | none => .error (.panic "unable to read i-node block")
    | some i =>
      let head := s.cache.head i
      let s := s.setHead i { head with
        data := storeInode head.data ((inode.num.toNat - 1) % 32) inode, dirt := true }
      let s := { s with inode := Function.update s.inode k { inode with dirt := false } }
      s.brelse i

/-- A turn of the loop of `sync_inodes`. -/
def syncInode (fuel k : Nat) (s : Drive) : Except Halt Drive :=
  if (s.inode k).dirt && !(s.inode k).pipe then writeInode fuel k s else .ok s

/-- The loop of `sync_inodes` over the inodes from `k` on. -/
def syncInodesFrom (fuel k : Nat) : Nat → Drive → Except Halt Drive
  | 0, s => .ok s
  | left + 1, s => do
    let s ← syncInode fuel k s
    syncInodesFrom fuel (k + 1) left s

def nrInode : Nat := 32

def syncInodes (fuel : Nat) : Drive → Except Halt Drive := syncInodesFrom fuel 0 nrInode

/-- `sync_dev`. -/
def syncDev (fuel : Nat) (dev : BitVec 16) (s : Drive) : Except Halt Drive := do
  let s ← syncInodes fuel (s.sweep fun bh => bh.dev = dev)
  .ok (s.sweep fun bh => bh.dev = dev)

/-- `sys_sync`. -/
def sysSync (fuel : Nat) (s : Drive) : Except Halt Drive := do
  let s ← syncInodes fuel s
  .ok (s.sweep fun _ => true)

/-- `getblk` and `bread` outside the inode code. -/
def getblk (fuel : Nat) (dev : BitVec 16) (block : BitVec 64) : Drive → Except Halt (Nat × Drive) :=
  getblkWith (syncDev fuel) dev block fuel

def bread (fuel : Nat) (dev : BitVec 16) (block : BitVec 64) : Drive → Except Halt (Option Nat × Drive) :=
  breadWith (syncDev fuel) dev block fuel

end Drive

end K210Linux.Buffer
