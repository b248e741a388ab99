import K210Linux.Fs.Bitmap

namespace K210Linux.Fs

def blockSize : Nat := 1024

/-- A mounted device as the calls on files see it: its super block with the bitmaps, its blocks as the
    buffers hold them, and its inodes. -/
structure FileSystem where
  sb : SuperBlock
  disk : Nat → Block
  inode : Nat → MInode

namespace FileSystem

def setBlock (fs : FileSystem) (b : Nat) (block : Block) : FileSystem :=
  { fs with disk := Function.update fs.disk b block }

def setInode (fs : FileSystem) (ino : Nat) (inode : MInode) : FileSystem :=
  { fs with inode := Function.update fs.inode ino inode }

theorem setBlock_self (fs : FileSystem) (b : Nat) (block : Block) : (fs.setBlock b block).disk b = block :=
  Function.update_self ..

theorem setBlock_of_ne (fs : FileSystem) {b b' : Nat} (block : Block) (other : b' ≠ b) :
    (fs.setBlock b block).disk b' = fs.disk b' :=
  Function.update_of_ne other ..

end FileSystem

/-- `((uint16_t *)bh -> b_data)[k]`. -/
def entryAt (block : Block) (k : Nat) : Nat := (block (2 * k)).toNat + 256 * (block (2 * k + 1)).toNat

def setEntryAt (block : Block) (k z : Nat) : Block :=
  Function.update (Function.update block (2 * k) (BitVec.ofNat 8 z)) (2 * k + 1) (BitVec.ofNat 8 (z / 256))

def clearBlock (block : Block) : Block := fun i => if i < blockSize then 0 else block i

/-- `new_block`. A bit behind the last zone is set as well, but then no zone is returned. -/
def newBlock (fs : FileSystem) : Except String (Nat × FileSystem) :=
  match searchMap fs.sb.zmap 0 bitsPerBlock none mapSlots with
  | (_, _, none) => .ok (0, fs)
  | (i, j, some bh) =>
    if mapSlots ≤ i ∨ bitsPerBlock ≤ j then .ok (0, fs)
    else do
      let (old, data) ← setBit j bh.data
      if old then .error "new_block: bit already set"
      else
        let fs := { fs with sb.zmap := Function.update fs.sb.zmap i (some ⟨data, true⟩) }
        let z := j + i * bitsPerBlock + fs.sb.firstdatazone.toNat - 1
        if fs.sb.nzones.toNat ≤ z then .ok (0, fs) else .ok (z, fs.setBlock z (clearBlock (fs.disk z)))

/-- `i_zone[slot]` in `_bmap`, allocated if it is missing and wanted. -/
def inodeZone (fs : FileSystem) (ino slot : Nat) (create : Bool) (time : BitVec 32) :
    Except String (Nat × FileSystem) :=
  let z := ((fs.inode ino).zone slot).toNat
  if create ∧ z = 0 then do
    let (z, fs) ← newBlock fs
    if z = 0 then .ok (0, fs)
    else
      let inode := fs.inode ino
      .ok (z, fs.setInode ino { inode with
        zone := Function.update inode.zone slot (BitVec.ofNat 16 z), ctime := time, dirt := true })
  else .ok (z, fs)

/-- Entry `k` of the index block `b` in `_bmap`, allocated if it is missing and wanted. -/
def blockEntry (fs : FileSystem) (b k : Nat) (create : Bool) : Except String (Nat × FileSystem) :=
  let z := entryAt (fs.disk b) k
  if create ∧ z = 0 then do
    let (z, fs) ← newBlock fs
    if z = 0 then .ok (0, fs) else .ok (z, fs.setBlock b (setEntryAt (fs.disk b) k z))
  else .ok (z, fs)

/-- `_bmap`. -/
def bmapWith (fs : FileSystem) (ino block : Nat) (create : Bool) (time : BitVec 32) :
    Except String (Nat × FileSystem) :=
  if 7 + 512 + 512 * 512 ≤ block then .error "_bmap: block > big"
  else if block < 7 then inodeZone fs ino block create time
  else if block - 7 < 512 then do
    let (z, fs) ← inodeZone fs ino 7 create time
    if z = 0 then .ok (0, fs) else blockEntry fs z (block - 7) create
  else do
    let (z, fs) ← inodeZone fs ino 8 create time
    if z = 0 then .ok (0, fs)
    else
      let (i, fs) ← blockEntry fs z ((block - 7 - 512) / 512) create
      if i = 0 then .ok (0, fs) else blockEntry fs i ((block - 7 - 512) % 512) create

def bmap (fs : FileSystem) (ino block : Nat) : Except String Nat :=
  (bmapWith fs ino block false 0).map Prod.fst

def createBlock (fs : FileSystem) (ino block : Nat) (time : BitVec 32) : Except String (Nat × FileSystem) :=
  bmapWith fs ino block true time

/-- The fields of `struct file` that `file_read` and `file_write` use. -/
structure OpenFile where
  append : Bool
  pos : Nat

/-- The loop of `file_read`, with the bytes that go to the user. -/
def readLoop (fs : FileSystem) (ino pos left : Nat) : Nat → Except String (List Byte)
  | 0 => .error "no end"
  | fuel + 1 =>
    if left = 0 then .ok []
    else do
      let z ← bmap fs ino (pos / blockSize)
      let nr := pos % blockSize
      let chars := min (blockSize - nr) left
      let bytes := (List.range chars).map fun i => if z = 0 then 0 else fs.disk z (nr + i)
      let rest ← readLoop fs ino (pos + chars) (left - chars) fuel
      .ok (bytes ++ rest)

/-- `file_read`: the bytes for the user, the returned value, the file and the file system. -/
def fileRead (fs : FileSystem) (ino : Nat) (file : OpenFile) (count : Int) (time : BitVec 32) :
    Except String (List Byte × Int × OpenFile × FileSystem) :=
  if count ≤ 0 then .ok ([], 0, file, fs)
  else do
    let bytes ← readLoop fs ino file.pos count.toNat (count.toNat + 1)
    .ok (bytes, count, { file with pos := file.pos + count.toNat },
      fs.setInode ino { fs.inode ino with atime := time })

/-- The bytes of the user from `first` on go into a block. -/
def storeUser (block : Block) (offset c : Nat) (buf : Nat → Byte) (first : Nat) : Block :=
  fun i => if offset ≤ i ∧ i < offset + c then buf (first + (i - offset)) else block i

/-- The loop of `file_write`: `i` bytes are written, and `pos` is the next position. -/
def writeLoop (fs : FileSystem) (ino pos i count : Nat) (buf : Nat → Byte) (time : BitVec 32) :
    Nat → Except String (Nat × Nat × FileSystem)
  | 0 => .error "no end"
  | fuel + 1 =>
    if count ≤ i then .ok (i, pos, fs)
    else do
      let (z, fs) ← createBlock fs ino (pos / blockSize) time
      if z = 0 then .ok (i, pos, fs)
      else
        let offset := pos % blockSize
        let c := min (blockSize - offset) (count - i)
        let inode := fs.inode ino
        let fs := if inode.size.toNat < pos + c then
            fs.setInode ino { inode with size := BitVec.ofNat 32 (pos + c), dirt := true } else fs
        let fs := fs.setBlock z (storeUser (fs.disk z) offset c buf i)
        writeLoop fs ino (pos + c) (i + c) count buf time fuel

/-- `file_write`, with the returned value. -/
def fileWrite (fs : FileSystem) (ino : Nat) (file : OpenFile) (buf : Nat → Byte) (count : Int)
    (time : BitVec 32) : Except String (Int × OpenFile × FileSystem) := do
  let start := if file.append then (fs.inode ino).size.toNat else file.pos
  let (i, pos, fs) ← writeLoop fs ino start 0 count.toNat buf time (count.toNat + 1)
  let inode := { fs.inode ino with mtime := time }
  let value : Int := if i = 0 then -1 else i
  if file.append then .ok (value, file, fs.setInode ino inode)
  else .ok (value, { file with pos := pos }, fs.setInode ino { inode with ctime := time })

end K210Linux.Fs
