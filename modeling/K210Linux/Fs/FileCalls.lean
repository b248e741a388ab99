import K210Linux.Fs.Access
import K210Linux.Fs.PathBalance
import K210Linux.Fs.Zones

/-! The calls of `open.c`, `stat.c`, `file_dev.c` and `pipe.c` on the inodes of the root device, and what they add to the
    counts of inodes and buffers. -/

namespace K210Linux.Fs

open Outcome
open K210Linux.Buffer (Halt Counts Drive)
open K210Linux.Mm (getFreePage)

/-- `struct stat`, as `cp_stat` fills it. -/
structure Stat where
  dev : BitVec 16
  ino : BitVec 16
  mode : BitVec 16
  nlink : Byte
  uid : BitVec 16
  gid : Byte
  rdev : BitVec 16
  size : BitVec 32
  atime : BitVec 32
  mtime : BitVec 32
  ctime : BitVec 32

def cpStat (inode : MInode) : Stat where
  dev := inode.dev
  ino := inode.num
  mode := inode.mode
  nlink := inode.nlinks
  uid := inode.uid
  gid := inode.gid
  rdev := inode.zone 0
  size := inode.size
  atime := inode.atime
  mtime := inode.mtime
  ctime := inode.ctime

/-- The argument of `bmap` for a position, which is an `int`. -/
def blockNumber (pos : Nat) : Except Halt Nat :=
  let block := pos / blockSize % 2 ^ 32
  if 2 ^ 31 ≤ block then .error (.panic "_bmap: block < 0") else .ok block

namespace Volume

section Calls

variable (fuel : Nat)

/-- A call that looks a path up and changes its inode, unless `refuses` has an error for the caller. -/
def changeInode (w : Walker) (path : List Byte) (refuses : MInode → Option Int) (change : MInode → MInode) (v : Volume) :
    Except Halt (Int × Volume) := do
  let (inode, v) ← namei fuel w path v
  match inode with
  | none => .ok (-enoent, v)
  | some k =>
    match refuses (v.inode k) with
    | some value => putAnd fuel w k value v
    | none => putAnd fuel w k 0 (v.setInode k (change (v.inode k)))

def sysChmod (w : Walker) (path : List Byte) (mode : BitVec 16) (v : Volume) : Except Halt (Int × Volume) :=
  changeInode fuel w path
    (fun inode => if w.caller.euid ≠ inode.uid ∧ w.caller.euid ≠ 0 then some (-eacces) else none)
    (fun inode => { inode with mode := mode &&& 0o7777 ||| inode.mode &&& ~~~ 0o7777, dirt := true }) v

def sysChown (w : Walker) (path : List Byte) (uid : BitVec 16) (gid : Byte) (v : Volume) : Except Halt (Int × Volume) :=
  changeInode fuel w path (fun _ => if w.caller.euid ≠ 0 then some (-eacces) else none)
    (fun inode => { inode with uid, gid, dirt := true }) v

/-- `sys_utime`, with the two times that the user gives. -/
def sysUtime (w : Walker) (path : List Byte) (times : Option (BitVec 32 × BitVec 32)) (v : Volume) :
    Except Halt (Int × Volume) :=
  let times := times.getD (w.caller.time, w.caller.time)
  changeInode fuel w path (fun _ => none)
    (fun inode => { inode with atime := times.1, mtime := times.2, dirt := true }) v

def sysStat (w : Walker) (path : List Byte) (v : Volume) : Except Halt ((Int × Option Stat) × Volume) := do
  let (inode, v) ← namei fuel w path v
  match inode with
  | none => .ok ((-enoent, none), v)
  | some k => putAnd fuel w k (0, some (cpStat (v.inode k))) v

/-- `get_pipe_inode`. -/
def getPipeInode (v : Volume) : Except Halt (Option Nat × Volume) := do
  let (k, last, drive) ← Drive.getEmptyInode fuel v.last v.drive
  let v := { v.onDrive drive with last }
  let (page, memory) := getFreePage v.memory
  let inode : MInode := { v.inode k with size := page.setWidth 32 }
  let v := { v with memory }
  if inode.size = 0 then .ok (none, v.setInode k { inode with count := 0 })
  else .ok (some k, v.setInode k { inode with
    count := 2, zone := Function.update (Function.update inode.zone 1 0) 0 0, pipe := true })

/-- The loop of `file_read`: the bytes for the user, and how many are left. -/
def readLoop (k pos left : Nat) : Nat → Volume → Except Halt ((List Byte × Nat) × Volume)
  | 0, _ => .error .asleep
  | rounds + 1, v =>
    if left = 0 then .ok (([], 0), v)
    else do
      let block ← blockNumber pos
      let (z, v) ← bmap fuel k block v
      let chars := min (blockSize - pos % blockSize) left
      if z = 0 then do
        let ((bytes, rest), v) ← readLoop k (pos + chars) (left - chars) rounds v
        .ok ((List.replicate chars 0 ++ bytes, rest), v)
      else do
        let (bh, v) ← bread fuel (v.inode k).dev z v
        match bh with
        | none => .ok (([], left), v)
        | some i => do
          let first := (List.range chars).map fun c => v.data i (pos % blockSize + c)
          let v ← v.brelse i
          let ((bytes, rest), v) ← readLoop k (pos + chars) (left - chars) rounds v
          .ok ((first ++ bytes, rest), v)

/-- `file_read`: the bytes for the user, the value and the position of the file. -/
def fileRead (k pos : Nat) (count : Int) (time : BitVec 32) (v : Volume) :
    Except Halt ((List Byte × Int × Nat) × Volume) :=
  if count ≤ 0 then .ok (([], 0, pos), v)
  else do
    let ((bytes, left), v) ← readLoop fuel k pos count.toNat (count.toNat + 1) v
    let done := count.toNat - left
    .ok ((bytes, if done = 0 then -error else done, pos + done), v.setInode k { v.inode k with atime := time })

/-- The loop of `file_write`: `i` bytes are written, and `pos` is the next position. -/
def writeLoop (k : Nat) (buf : Nat → Byte) (count : Nat) (time : BitVec 32) (pos i : Nat) :
    Nat → Volume → Except Halt ((Nat × Nat) × Volume)
  | 0, _ => .error .asleep
  | rounds + 1, v =>
    if count ≤ i then .ok ((i, pos), v)
    else do
      let block ← blockNumber pos
      let (z, v) ← createBlock fuel k block time v
      if z = 0 then .ok ((i, pos), v)
      else do
        let (bh, v) ← bread fuel (v.inode k).dev z v
        match bh with
        | none => .ok ((i, pos), v)
        | some bh => do
          let c := min (blockSize - pos % blockSize) (count - i)
          let inode := v.inode k
          let v := if inode.size.toNat < pos + c then
              v.setInode k { inode with size := BitVec.ofNat 32 (pos + c), dirt := true } else v
          let v ← (v.store bh (storeUser (v.data bh) (pos % blockSize) c buf i)).brelse bh
          writeLoop k buf count time (pos + c) (i + c) rounds v

/-- `file_write`: the value and the position of the file. -/
def fileWrite (k : Nat) (file : OpenFile) (buf : Nat → Byte) (count : Int) (time : BitVec 32) (v : Volume) :
    Except Halt ((Int × Nat) × Volume) := do
  let start := if file.append then (v.inode k).size.toNat else file.pos
  let ((i, pos), v) ← writeLoop fuel k buf count.toNat time start 0 (count.toNat + 1) v
  let inode := { v.inode k with mtime := time }
  let value : Int := if i = 0 then -1 else i
  if file.append then .ok ((value, file.pos), v.setInode k inode)
  else .ok ((value, pos), v.setInode k { inode with ctime := time })

/-- `sys_sync`. -/
def sysSync (v : Volume) : Except Halt Volume := do
  let drive ← Drive.sysSync fuel v.drive
  .ok (v.onDrive drive)

end Calls

variable {v v' : Volume} {k fuel : Nat} {w : Walker} {path : List Byte} {value : Int} {time : BitVec 32}

theorem changeInode_counts {refuses : MInode → Option Int} {change : MInode → MInode}
    (keeps : ∀ inode, (change inode).count = inode.count)
    (run : v.changeInode fuel w path refuses change = .ok (value, v')) : v'.counts = v.counts := by
  rcases of_bind run with ⟨⟨found, v₁⟩, walked, rest⟩
  have one := namei_counts walked
  cases found with
  | none =>
    cases rest
    exact one.trans (add_zero _)
  | some k =>
    have back : v₁.counts - .inode k = v.counts := sub_eq_of_eq_add one
    dsimp only at rest
    split at rest
    · rw [(putAnd_counts rest).1, back]
    · rw [(putAnd_counts rest).1, setInode_counts (keeps _), back]

theorem sysStat_counts {answer : Int × Option Stat} (run : v.sysStat fuel w path = .ok (answer, v')) :
    v'.counts = v.counts := by
  rcases of_bind run with ⟨⟨found, v₁⟩, walked, rest⟩
  have one := namei_counts walked
  cases found with
  | none =>
    cases rest
    exact one.trans (add_zero _)
  | some k =>
    rw [(putAnd_counts rest).1, one]
    exact add_sub_cancel_right ..

theorem sysAccess_counts {ids : Ids} {mode : BitVec 32} (run : sysAccess fuel w ids path mode v = .ok (value, v')) :
    v'.counts = v.counts := by
  rcases of_bind run with ⟨⟨found, v₁⟩, walked, rest⟩
  have one := namei_counts walked
  cases found with
  | none =>
    cases rest
    exact one.trans (add_zero _)
  | some k =>
    rcases of_bind rest with ⟨v₂, put, rest⟩
    cases rest
    rw [iput_counts put, one]
    exact add_sub_cancel_right ..

/-- The two users of a new pipe are its two files. -/
theorem getPipeInode_counts {inode : Option Nat} (run : v.getPipeInode fuel = .ok (inode, v')) :
    v'.counts = v.counts + inodeUser inode + inodeUser inode := by
  rcases of_bind run with ⟨⟨k, last, drive⟩, got, rest⟩
  rcases Buffer.getEmptyInode_counts got with ⟨more, fresh⟩
  have one : drive.counts = v.counts + .inode k := more
  have here : (drive.inode k).count = 1 := congrArg MInode.count fresh
  dsimp only at rest
  split at rest
  · cases rest
    have none : (drive.setInode k { drive.inode k with size := (getFreePage v.memory).1.setWidth 32, count := 0 }).counts =
        drive.counts - .inode k := Buffer.setInode_less (by rw [here]; rfl)
    rw [one, add_sub_cancel_right] at none
    exact none.trans (by simp [inodeUser])
  · cases rest
    have two : (drive.setInode k { drive.inode k with
        size := (getFreePage v.memory).1.setWidth 32, count := 2
        zone := Function.update (Function.update (drive.inode k).zone 1 0) 0 0, pipe := true }).counts =
        drive.counts + .inode k := Buffer.setInode_more (by rw [here]; rfl)
    rw [one] at two
    exact two

theorem readLoop_counts {pos left rounds : Nat} {done : List Byte × Nat}
    (run : v.readLoop fuel k pos left rounds = .ok (done, v')) : v'.counts = v.counts := by
  induction rounds generalizing pos left v done with
  | zero => cases run
  | succ rounds ih =>
    unfold readLoop at run
    split at run
    · cases run
      rfl
    · rcases of_bind run with ⟨block, -, rest⟩
      rcases of_bind rest with ⟨⟨z, v₁⟩, mapped, rest⟩
      have one := bmap_counts mapped
      dsimp only at rest
      split at rest
      · rcases of_bind rest with ⟨⟨⟨bytes, left'⟩, v₂⟩, more, rest⟩
        cases rest
        exact (ih more).trans one
      · rcases of_bind rest with ⟨⟨bh, v₂⟩, read, rest⟩
        cases bh with
        | none =>
          cases rest
          exact (bread_none read).trans one
        | some i =>
          have two := bread_some read
          rcases of_bind rest with ⟨v₃, released, rest⟩
          rcases of_bind rest with ⟨⟨⟨bytes, left'⟩, v₄⟩, more, rest⟩
          cases rest
          rw [ih more, brelse_counts released, two, one]
          exact add_sub_cancel_right ..

theorem fileRead_counts {pos : Nat} {count : Int} {done : List Byte × Int × Nat}
    (run : v.fileRead fuel k pos count time = .ok (done, v')) : v'.counts = v.counts := by
  unfold fileRead at run
  split at run
  · cases run
    rfl
  · rcases of_bind run with ⟨⟨⟨bytes, left⟩, v₁⟩, loop, rest⟩
    cases rest
    rw [setInode_counts, readLoop_counts loop]
    rfl

theorem writeLoop_counts {buf : Nat → Byte} {count pos i rounds : Nat} {done : Nat × Nat}
    (run : v.writeLoop fuel k buf count time pos i rounds = .ok (done, v')) : v'.counts = v.counts := by
  induction rounds generalizing pos i v with
  | zero => cases run
  | succ rounds ih =>
    unfold writeLoop at run
    split at run
    · cases run
      rfl
    · rcases of_bind run with ⟨block, -, rest⟩
      rcases of_bind rest with ⟨⟨z, v₁⟩, made, rest⟩
      have one := createBlock_counts made
      dsimp only at rest
      split at rest
      · cases rest
        exact one
      · rcases of_bind rest with ⟨⟨bh, v₂⟩, read, rest⟩
        cases bh with
        | none =>
          cases rest
          exact (bread_none read).trans one
        | some bh =>
          rcases of_bind rest with ⟨v₃, released, rest⟩
          have sized (size : BitVec 32) :
              (v₂.setInode k { v₂.inode k with size, dirt := true }).counts = v₂.counts := setInode_counts rfl
          have two := bread_some read
          rw [ih rest, brelse_counts released, store_counts]
          split
          · rw [sized, two, one]
            exact add_sub_cancel_right ..
          · rw [two, one]
            exact add_sub_cancel_right ..

theorem fileWrite_counts {file : OpenFile} {buf : Nat → Byte} {count : Int} {done : Int × Nat}
    (run : v.fileWrite fuel k file buf count time = .ok (done, v')) : v'.counts = v.counts := by
  rcases of_bind run with ⟨⟨⟨i, pos⟩, v₁⟩, loop, rest⟩
  have one := writeLoop_counts loop
  dsimp only at rest
  split at rest
  · cases rest
    rw [setInode_counts, one]
    rfl
  · cases rest
    rw [setInode_counts, one]
    rfl

theorem sysSync_counts (run : v.sysSync fuel = .ok v') : v'.counts = v.counts := by
  rcases of_bind run with ⟨drive, synced, rest⟩
  cases rest
  rcases of_bind synced with ⟨s, inodes, rest⟩
  cases rest
  exact (Buffer.sweep_counts ..).trans (Buffer.syncInodesFrom_counts inodes)

end Volume

end K210Linux.Fs
