import K210Linux.Fs.OpenMode
import K210Linux.Fs.ZoneRoom

/-! Where `sys_read` and `sys_write` on a regular file come to the panics of `_bmap`. -/

namespace K210Linux.Fs

open Outcome

variable {fs fs' fs₁ : FileSystem} {ino : Nat} {time : BitVec 32}

theorem readLoop_big {pos left fuel : Nat} (some : 0 < left) (enough : left < fuel)
    (large : bigBlock * blockSize < pos + left) :
    readLoop fs ino pos left fuel = .error "_bmap: block > big" := by
  induction fuel generalizing pos left with
  | zero => omega
  | succ fuel ih =>
    unfold readLoop
    rw [if_neg (by omega)]
    by_cases bound : pos / blockSize < bigBlock
    · rw [bind_ok (bmap_eq fs ino bound)]
      dsimp only
      generalize chunk : min (blockSize - pos % blockSize) left = c
      rcases next_block bound large chunk.symm with ⟨positive, short, -, -⟩
      rw [ih (by omega) (by omega) (by omega)]
      rfl
    · rw [bmap_big fs ino (not_lt.mp bound)]
      rfl

section Call

variable {file : File} {buf : Nat → Byte}

/-- A write of so many bytes comes to no bit of the bitmap that is not aligned, and it stays below the limit of a file, or
    the device is full before that. -/
def WriteFits (fs : FileSystem) (file : File) (ino : Nat) (count : Int) : Prop :=
  AlignedFor fs.sb (missingZones fs ino (writeStart fs file ino) count.toNat) ∧
    (writeStart fs file ino + count ≤ bigBlock * blockSize ∨ ¬ Lasts fs ino (writeStart fs file ino / blockSize))

theorem fileWriteAt_returns_iff {count : Nat} (wf : fs.Wf) (some : 0 < count) :
    (∃ done, fileWriteAt fs ino file buf count time = .ok done) ↔ WriteFits fs file ino count := by
  let positioned : OpenFile := ⟨file.appends, file.pos.toNat % positions⟩
  have position : writeStart fs file ino = if positioned.append then (fs.inode ino).size.toNat else positioned.pos :=
    writeStart_eq fs file ino
  have inside : (writeStart fs file ino : Int) + count ≤ bigBlock * blockSize ↔
      writeStart fs file ino + count ≤ bigBlock * blockSize := by exact_mod_cast Iff.rfl
  unfold WriteFits missingZones
  rw [inside, Int.toNat_natCast, if_neg (by omega)]
  by_cases wrapped : 2 ^ 41 ≤ writeStart fs file ino
  · refine iff_of_false ?_ ?_
    · rintro ⟨done, transfer⟩
      exact (of_fileWriteAt transfer).1 wrapped
    · rintro ⟨-, below | ends⟩
      · rw [bigBlock, blockSize] at below
        omega
      · apply ends
        apply lasts_of_big
        rw [bigBlock, blockSize]
        omega
  · have loop : (∃ r, writeLoop fs ino (writeStart fs file ino) 0 count buf time (count + 1) = .ok r) ↔ _ :=
      writeLoop_returns_iff _ wf some (Nat.lt_succ_self count) buf time
    rw [Nat.sub_zero] at loop
    rw [← loop, ← Int.toNat_natCast count, ← fileWrite_returns_loop position, Int.toNat_natCast]
    constructor
    · rintro ⟨done, transfer⟩
      rcases of_fileWriteAt transfer with ⟨-, value, file', fs', written⟩
      exact ⟨_, written⟩
    · rintro ⟨⟨value, file', fs'⟩, written⟩
      rcases fileWriteAt_ok wrapped written with ⟨done, transfer, -⟩
      exact ⟨done, transfer⟩

/-- What `file_write` gives, if it returns. -/
theorem fileWriteAt_keeps {count : Int} (wf : fs.Wf) (some : 0 < count) {done : Transferred}
    (transfer : fileWriteAt fs ino file buf count time = .ok done) :
    done.value ≤ count ∧ done.fs.Wf ∧ file.pos ≤ done.pos ∧
      (done.pos = file.pos ∨ file.pos.toNat % positions < 2 ^ 41 ∧ done.pos ≤ file.pos + count) := by
  rcases of_fileWriteAt transfer with ⟨start, value, file', fs', written⟩
  rcases fileWriteAt_ok start written with ⟨done', transfer', tree, -, result, pos⟩
  obtain rfl := Except.ok.inj (transfer.symm.trans transfer')
  rcases fileWrite_spec wf rfl written with ⟨n, returned, -, short, wrote⟩
  have bounded : value ≤ count := by
    rw [returned]
    split <;> omega
  refine ⟨by rwa [result], tree.wf wrote.wf, ?_, ?_⟩
  · rw [pos]
    split <;> omega
  · rw [writeStart_eq] at start
    rw [pos]
    split
    · exact .inl rfl
    · rename_i append
      rw [if_neg append] at start
      exact .inr ⟨not_le.mp start, by omega⟩

/-- Behind the last block of a file `file_write` stops at once. -/
theorem fileWriteAt_big {count : Int} (some : 0 < count) (start : ¬ 2 ^ 41 ≤ writeStart fs file ino)
    (large : bigBlock ≤ writeStart fs file ino / blockSize) :
    fileWriteAt fs ino file buf count time = .error "_bmap: block > big" := by
  have stops : createBlock fs ino (writeStart fs file ino / blockSize) time = .error "_bmap: block > big" := if_pos large
  have loop : writeLoop fs ino (writeStart fs file ino) 0 count.toNat buf time (count.toNat + 1) = .error "_bmap: block > big" := by
    unfold writeLoop
    rw [if_neg (by omega), stops]
    rfl
  have written : fileWrite fs ino ⟨file.appends, file.pos.toNat % positions⟩ buf count time = .error "_bmap: block > big" := by
    unfold fileWrite
    rw [← writeStart_eq]
    dsimp only
    rw [loop]
    rfl
  unfold writeStart at start
  unfold fileWriteAt
  rw [written]
  dsimp only
  rw [if_neg start]
  rfl

theorem fileReadAt_fits (fs : FileSystem) (ino : Nat) (file : File) {count : Nat} (some : 0 < count) (inside : file.pos.toNat % positions + count ≤ bigBlock * blockSize)
    (time : BitVec 32) : ∃ done, fileReadAt fs ino file count time = .ok done ∧ done.value = count ∧
      done.pos = file.pos + count ∧ (fs.Wf → done.fs.Wf) := by
  have start : ¬ 2 ^ 41 ≤ file.pos.toNat % positions := by
    rw [bigBlock, blockSize] at inside
    omega
  have bound : (file.pos.toNat % positions + count - 1) / 1024 < 7 + 512 + 512 * 512 := by
    rw [bigBlock, blockSize] at inside
    omega
  have read := fileRead_spec fs ino ⟨file.appends, file.pos.toNat % positions⟩ count time bound
  unfold fileReadAt
  dsimp only
  rw [if_neg start, bind_ok read]
  refine ⟨_, rfl, rfl, rfl, ?_⟩
  · intro wf
    dsimp only
    rw [if_neg (by omega)]
    have tree : SameTree fs (fs.setInode ino { fs.inode ino with atime := time }) := SameTree.setInode rfl
    exact tree.wf wf

/-- The panic of `_bmap` that a read from a block position comes to. -/
def limitPanic (start : Nat) : String := if 2 ^ 41 ≤ start then "_bmap: block < 0" else "_bmap: block > big"

theorem fileReadAt_stops {count : Nat} (some : 0 < count) (large : ¬ file.pos.toNat % positions + count ≤ bigBlock * blockSize)
    (time : BitVec 32) : fileReadAt fs ino file count time = .error (limitPanic (file.pos.toNat % positions)) := by
  unfold fileReadAt limitPanic
  dsimp only
  by_cases wrapped : 2 ^ 41 ≤ file.pos.toNat % positions
  · rw [if_pos wrapped, if_pos wrapped]
  · have stops : readLoop fs ino (file.pos.toNat % positions) count (count + 1) = .error "_bmap: block > big" :=
      readLoop_big some (Nat.lt_succ_self _) (not_le.mp large)
    unfold fileRead
    rw [if_neg wrapped, if_neg wrapped, if_neg (by omega), Int.toNat_natCast, stops]
    rfl

/-- `file_read` gives all the bytes, or it stops. -/
theorem of_fileReadAt {count : Int} (some : 0 < count) {done : Transferred}
    (transfer : fileReadAt fs ino file count time = .ok done) :
    file.pos.toNat % positions + count ≤ bigBlock * blockSize ∧ done.value = count ∧ done.pos = file.pos + count ∧
      (fs.Wf → done.fs.Wf) := by
  lift count to Nat using Int.le_of_lt some
  have some : 0 < count := by omega
  by_cases inside : file.pos.toNat % positions + count ≤ bigBlock * blockSize
  · rcases fileReadAt_fits fs ino _ some inside time with ⟨done', transfer', facts⟩
    obtain rfl := Except.ok.inj (transfer.symm.trans transfer')
    exact ⟨by exact_mod_cast inside, facts⟩
  · rw [fileReadAt_stops some inside] at transfer
    cases transfer

/-- In front of the end of the file the count of `sys_read` is cut as it should be. -/
theorem readCount_before (size : BitVec 32) {pos : Int} (start : 0 ≤ pos) {count : BitVec 32} (positive : 0 < count.toInt)
    (before : pos < size.toNat) : readCount size pos count.toInt = min count.toInt (size.toNat - pos) := by
  have int := BitVec.toInt_lt (x := count)
  have large := size.isLt
  have off : IsOff pos := (isOff_iff pos).mpr (by omega)
  unfold readCount
  by_cases reaches : (size.toNat : Int) < toOff (count.toInt + pos)
  · rw [if_pos reaches]
    rw [lt_toOff_iff size off positive] at reaches
    rw [min_eq_right (by omega)]
    unfold toInt32
    rw [BitVec.toInt_ofInt, Int.bmod_def]
    split <;> omega
  · rw [if_neg reaches]
    rw [lt_toOff_iff size off positive] at reaches
    rw [min_eq_left (by omega)]

end Call

section Safe

variable {special : Desk → Special → Nat → Nat → Except String Transferred} {d d' : Desk} {u : FileTask} {fd f : Nat}

/-- `sys_read` does not stop in a panic, and it returns 0 at the end of the file and behind it, and else no more than
    what is left of the file. -/
def ReadSafe (special : Desk → Special → Nat → Nat → Except String Transferred) (d : Desk) (u : FileTask) (fd f ino : Nat)
    (count time : BitVec 32) : Prop :=
  ∃ bytes value d', sysRead special d u fd count.toInt time = .ok (bytes, value, d') ∧
    if (d.fs.inode ino).size.toNat ≤ (d.files.file f).pos then value = 0
    else 0 ≤ value ∧ value ≤ (d.fs.inode ino).size.toNat - (d.files.file f).pos

/-- Whatever the bytes are, `sys_write` does not stop in a panic, and it returns a count or an error, which is below 0. -/
def WriteSafe (special : Desk → Special → Nat → Nat → Except String Transferred) (d : Desk) (u : FileTask) (fd : Nat)
    (count time : BitVec 32) : Prop :=
  ∀ buf, ∃ bytes value d', sysWrite special d u fd buf count.toInt time = .ok (bytes, value, d') ∧ value ≤ count.toInt

/-- The position is not so far behind the end of the file that the count becomes positive again, and no byte in front of
    the end is at the limit or behind it. -/
def ReadFits (fs : FileSystem) (file : File) (ino : Nat) (count : Int) : Prop :=
  (PastEnd fs file ino ∧ count + file.pos < 2 ^ 63) ∨ (file.pos < (fs.inode ino).size.toNat ∧
    min (file.pos + count) (fs.inode ino).size.toNat ≤ bigBlock * blockSize)

theorem Regular.calls_zero (regular : Regular d u fd f ino) : readRoute d u fd 0 = .returns 0 ∧ writeRoute d u fd 0 = .returns 0 := by
  have bound := regular.bound
  constructor
  · unfold readRoute
    rw [if_neg (by omega), regular.slot]
    rfl
  · unfold writeRoute
    rw [if_neg (by omega), regular.slot]
    rfl

theorem Regular.writeSafe_iff (regular : Regular d u fd f ino) (wf : d.fs.Wf) {count : BitVec 32} (valid : 0 ≤ count.toInt)
    (time : BitVec 32) : WriteSafe special d u fd count time ↔
      count.toInt = 0 ∨ WriteFits d.fs (d.files.file f) ino count.toInt := by
  by_cases none : count.toInt = 0
  · refine iff_of_true ?_ (.inl none)
    intro buf
    unfold sysWrite
    rw [none, regular.calls_zero.2]
    exact ⟨[], 0, d, rfl, le_refl 0⟩
  · have positive : 0 < count.toInt := by omega
    rw [or_iff_right none]
    unfold WriteSafe
    simp only [regular.sysWrite_eq positive]
    generalize count.toInt = n at *
    lift n to Nat using valid
    constructor
    · intro safe
      rcases safe fun _ => 0 with ⟨bytes, value, d', run, -⟩
      rcases of_map run with ⟨done, transfer, -⟩
      exact (fileWriteAt_returns_iff wf (by omega)).mp ⟨done, transfer⟩
    · intro fits buf
      rcases (fileWriteAt_returns_iff wf (by omega)).mpr fits with ⟨done, transfer⟩
      rw [transfer]
      exact ⟨_, _, _, rfl, (fileWriteAt_keeps wf (by omega) transfer).1⟩

theorem Regular.sysRead_eq {count : Int} (regular : Regular d u fd f ino) (positive : 0 < count) (time : BitVec 32) :
    sysRead special d u fd count time =
      if readCount (d.fs.inode ino).size (d.files.file f).pos count ≤ 0 then .ok ([], 0, d)
      else (fileReadAt d.fs ino (d.files.file f)
        (readCount (d.fs.inode ino).size (d.files.file f).pos count) time).map (d.moved f) := by
  unfold sysRead
  rw [regular.readRoute_eq positive]
  by_cases none : readCount (d.fs.inode ino).size (d.files.file f).pos count ≤ 0
  · rw [if_pos none, if_pos none]
  · rw [if_neg none, if_neg none]

theorem Regular.readSafe_iff (regular : Regular d u fd f ino) (start : 0 ≤ (d.files.file f).pos)
    (off : IsOff (d.files.file f).pos) {count : BitVec 32} (valid : 0 ≤ count.toInt) (time : BitVec 32) : ReadSafe special d u fd f ino count time ↔
      count.toInt = 0 ∨ ReadFits d.fs (d.files.file f) ino count.toInt := by
  by_cases none : count.toInt = 0
  · refine iff_of_true ?_ (.inl none)
    unfold ReadSafe sysRead
    rw [none, regular.calls_zero.1]
    refine ⟨[], 0, d, rfl, ?_⟩
    split
    · rfl
    · omega
  · have positive : 0 < count.toInt := by omega
    have past := readCount_iff (d.fs.inode ino).size off positive
    rw [or_iff_right none]
    unfold ReadSafe
    rw [regular.sysRead_eq positive]
    by_cases behind : PastEnd d.fs (d.files.file f) ino ∧ count.toInt + (d.files.file f).pos < 2 ^ 63
    · rw [if_pos (past.mpr behind)]
      refine iff_of_true ⟨[], 0, d, rfl, ?_⟩ (.inl behind)
      rw [if_pos behind.1.1]
    · have some : ¬ readCount (d.fs.inode ino).size (d.files.file f).pos count.toInt ≤ 0 := fun le => behind (past.mp le)
      unfold ReadFits
      rw [or_iff_right behind, if_neg some]
      by_cases before : (d.files.file f).pos < (d.fs.inode ino).size.toNat
      · simp only [if_neg (not_le.mpr before)]
        rw [readCount_before _ start positive before]
        have size := (d.fs.inode ino).size.isLt
        have here : ((d.files.file f).pos.toNat : Int) % positions = (d.files.file f).pos := by
          rw [positions]
          omega
        constructor
        · rintro ⟨bytes, value, d', run, -⟩
          rcases of_map run with ⟨done, transfer, -⟩
          have inside := (of_fileReadAt (by omega) transfer).1
          rw [here] at inside
          exact ⟨before, by omega⟩
        · rintro ⟨-, inside⟩
          generalize amount : min count.toInt ((d.fs.inode ino).size.toNat - (d.files.file f).pos) = n
          lift n to Nat using by omega
          rcases fileReadAt_fits d.fs ino (d.files.file f) (by omega : 0 < n) (by omega) time with
            ⟨done, transfer, value, -⟩
          rw [transfer]
          refine ⟨_, _, _, rfl, ?_⟩
          rw [value]
          omega
      · -- there are no bytes left, but some are read
        simp only [if_pos (not_lt.mp before)]
        refine iff_of_false ?_ fun fits => before fits.1
        rintro ⟨bytes, value, d', run, zero⟩
        rcases of_map run with ⟨done, transfer, moved⟩
        have value := (of_fileReadAt (not_le.mp some) transfer).2.1
        cases moved
        omega

end Safe

theorem readCount_lt (size : BitVec 32) (pos : Int) (count : BitVec 32) : readCount size pos count.toInt < 2 ^ 31 := by
  unfold readCount
  split
  · exact BitVec.toInt_lt (x := BitVec.ofInt 32 _)
  · exact BitVec.toInt_lt (x := count)

section Use

variable {special : Desk → Special → Nat → Nat → Except String Transferred} {d d₀ d' : Desk} {f : Nat}

/-- A call on the regular file that the entry `f` stands for, by any task, or a step of the rest of the system, which
    keeps the device as it should be and the position of the entry. -/
inductive FileUse (special : Desk → Special → Nat → Nat → Except String Transferred) (f : Nat) (d : Desk) : Desk → Prop
  | seek {u : FileTask} {fd ino : Nat} (regular : Regular d u fd f ino) (offset : BitVec 64) (origin : Int) :
      FileUse special f d (sysLseek d u fd offset origin).2
  | read {u : FileTask} {fd ino : Nat} (regular : Regular d u fd f ino) (count time : BitVec 32) {bytes : List Byte}
      {value : Int} {d' : Desk} (call : sysRead special d u fd count.toInt time = .ok (bytes, value, d')) :
      FileUse special f d d'
  | write {u : FileTask} {fd ino : Nat} (regular : Regular d u fd f ino) (buf : Nat → Byte) (count time : BitVec 32)
      {bytes : List Byte} {value : Int} {d' : Desk}
      (call : sysWrite special d u fd buf count.toInt time = .ok (bytes, value, d')) : FileUse special f d d'
  | elsewhere {d' : Desk} (wf : d.fs.Wf → d'.fs.Wf) (kept : (d'.files.file f).pos = (d.files.file f).pos) :
      FileUse special f d d'

/-- The zones of the device are as they should be, and the position of the file is none below 0. -/
structure Usable (f : Nat) (d : Desk) : Prop where
  wf : d.fs.Wf
  start : 0 ≤ (d.files.file f).pos
  off : IsOff (d.files.file f).pos

theorem Usable.seek (usable : Usable f d) {pos : Int} (off : IsOff pos) : Usable f (d.seek f pos).2 := by
  unfold Desk.seek
  split
  · exact usable
  · refine ⟨usable.wf, ?_, ?_⟩
    · simp only [Files.setFile, Function.update_self]
      omega
    · simpa only [Files.setFile, Function.update_self] using off

/-- A transfer adds a count to the position, which was none of the last 2^41. -/
theorem Usable.moved (usable : Usable f d) {done : Transferred} (wf : done.fs.Wf) (later : (d.files.file f).pos ≤ done.pos)
    {count : Int} (int : count < 2 ^ 31) (reach : done.pos = (d.files.file f).pos ∨
      (d.files.file f).pos.toNat % positions < 2 ^ 41 ∧ done.pos ≤ (d.files.file f).pos + count) :
    Usable f (d.moved f done).2.2 := by
  have start := usable.start
  have off := (isOff_iff _).mp usable.off
  have same : toOff done.pos = done.pos := (isOff_iff _).mpr (by
    rw [positions] at reach
    omega)
  refine ⟨wf, ?_, ?_⟩
  · simp only [Desk.moved, Files.setFile, Function.update_self, same]
    exact start.trans later
  · simp only [Desk.moved, Files.setFile, Function.update_self]
    exact isOff_toOff _

theorem FileUse.usable (use : FileUse special f d d') (usable : Usable f d) : Usable f d' := by
  cases use with
  | seek regular offset origin =>
    unfold sysLseek
    simp only [regular.slot, regular.inode]
    split_ifs
    · exact usable
    · exact usable
    · exact usable.seek (isOff_toInt _)
    · exact usable.seek (isOff_toOff _)
    · exact usable.seek (isOff_toInt32 _)
    · exact usable
    · exact usable
  | read regular count time call =>
    by_cases none : count.toInt ≤ 0
    · rw [(sysRead_none none call).2]
      exact usable
    · rw [regular.sysRead_eq (not_le.mp none)] at call
      split at call
      · cases call
        exact usable
      · rename_i some
        rcases of_map call with ⟨done, transfer, moved⟩
        rcases of_fileReadAt (not_le.mp some) transfer with ⟨inside, -, pos, wf⟩
        cases moved
        refine usable.moved (wf usable.wf) (by omega) (readCount_lt ..) (.inr ⟨?_, le_of_eq pos⟩)
        rw [bigBlock, blockSize] at inside
        omega
  | write regular buf count time call =>
    by_cases none : count.toInt ≤ 0
    · rw [sysWrite_none none call]
      exact usable
    · rw [regular.sysWrite_eq (not_le.mp none)] at call
      rcases of_map call with ⟨done, transfer, moved⟩
      rcases fileWriteAt_keeps usable.wf (not_le.mp none) transfer with ⟨-, wf, later, reach⟩
      cases moved
      exact usable.moved wf later (BitVec.toInt_lt (x := count)) reach
  | elsewhere wf kept =>
    refine ⟨wf usable.wf, ?_, ?_⟩
    · rw [kept]
      exact usable.start
    · rw [kept]
      exact usable.off

theorem use_usable (run : Relation.ReflTransGen (FileUse special f) d₀ d) (usable : Usable f d₀) : Usable f d := by
  induction run with
  | refl => exact usable
  | tail _ use ih => exact use.usable ih

/-- Neither `sys_lseek` nor the clamp of `sys_read` nor `file_write` keeps a transfer below the limit of a file, where
    `_bmap` stops the system. -/
theorem file_io_safe_iff (special : Desk → Special → Nat → Nat → Except String Transferred) {d₀ d : Desk} {u : FileTask}
    {fd f ino : Nat} (wf : d₀.fs.Wf) (start : 0 ≤ (d₀.files.file f).pos) (off : (d₀.files.file f).pos < 2 ^ 63)
    (run : Relation.ReflTransGen (FileUse special f) d₀ d) (regular : Regular d u fd f ino) {count : BitVec 32}
    (valid : 0 ≤ count.toInt) (time : BitVec 32) :
    (ReadSafe special d u fd f ino count time ↔ count.toInt = 0 ∨ ReadFits d.fs (d.files.file f) ino count.toInt) ∧
    (WriteSafe special d u fd count time ↔ count.toInt = 0 ∨ WriteFits d.fs (d.files.file f) ino count.toInt) := by
  have usable := use_usable run ⟨wf, start, (isOff_iff _).mpr (by omega)⟩
  exact ⟨regular.readSafe_iff usable.start usable.off valid time, regular.writeSafe_iff usable.wf valid time⟩

/-- A task that has an empty file open. -/
def fileTask : FileTask := { bootTask with filp := fun fd => if fd = 0 then some 0 else none }

def fileDesk : Desk where
  files := { bootFiles with file := fun _ => ⟨0, 0, 1, some 1, 0⟩, task := fun nr => if nr = 0 then some fileTask else none }
  fs := { blankDevice with inode := fun _ => { MInode.zero with mode := 0o100644, dev := 0x301 } }
  caller := fun _ => ⟨0, 0, 0, 0, 0⟩

theorem fileDesk_wf : fileDesk.fs.Wf := by
  have tree : SameTree blankDevice fileDesk.fs := ⟨rfl, rfl, fun _ _ => rfl⟩
  exact tree.wf blankDevice_wf

/-- What `sys_lseek` makes of it. -/
def sought (offset : BitVec 64) : Desk := (sysLseek fileDesk fileTask 0 offset 0).2

theorem sought_regular {offset : BitVec 64} (valid : 0 ≤ offset.toInt) :
    FileUse noSpecial 0 fileDesk (sought offset) ∧ Regular (sought offset) fileTask 0 0 1 ∧
      ((sought offset).files.file 0).pos = offset.toInt := by
  have regular : Regular fileDesk fileTask 0 0 1 := ⟨by decide, rfl, rfl, by decide, rfl⟩
  have seek : sought offset = (fileDesk.seek 0 offset.toInt).2 := rfl
  have here : (fileDesk.seek 0 offset.toInt).2 =
      { fileDesk with files := fileDesk.files.setFile 0 { fileDesk.files.file 0 with pos := offset.toInt } } := by
    unfold Desk.seek
    rw [if_neg (not_lt.mpr valid)]
  refine ⟨.seek regular offset 0, ?_, ?_⟩
  · rw [seek, here]
    exact ⟨regular.bound, rfl, rfl, regular.reg, rfl⟩
  · rw [seek, here]
    rfl

/-- A byte at position 5 of the file. -/
theorem near_io_safe : ReadSafe noSpecial (sought 5) fileTask 0 0 1 1 0 ∧ WriteSafe noSpecial (sought 5) fileTask 0 1 0 := by
  rcases sought_regular (by decide : 0 ≤ (5 : BitVec 64).toInt) with ⟨seek, regular, pos⟩
  have both := file_io_safe_iff noSpecial fileDesk_wf (by decide) (by decide) (.single seek) regular
    (by decide : 0 ≤ (1 : BitVec 32).toInt) 0
  refine ⟨both.1.mpr (.inr (.inl ?_)), both.2.mpr (.inr ?_)⟩
  · unfold PastEnd
    rw [pos]
    decide
  · have wf : (sought 5).fs.Wf := fileDesk_wf
    have returns : (fileWriteAt (sought 5).fs 1 ((sought 5).files.file 0) (fun _ => 0) (1 : Nat) 0).map (·.value) = .ok 1 := by
      decide +kernel
    rcases of_map returns with ⟨done, transfer, -⟩
    exact (fileWriteAt_returns_iff wf (by decide)).mp ⟨done, transfer⟩

/-- At 2^31 + 1 `sys_read` takes the empty file for one of 2^31 - 1 more bytes, and at the limit there is no block for
    `sys_write`. -/
theorem distant_io_panics :
    FileUse noSpecial 0 fileDesk (sought 0x80000001) ∧ Regular (sought 0x80000001) fileTask 0 0 1 ∧
    sysRead noSpecial (sought 0x80000001) fileTask 0 1 0 = .error "_bmap: block > big" ∧
    FileUse noSpecial 0 fileDesk (sought 268966912) ∧ Regular (sought 268966912) fileTask 0 0 1 ∧
    ∀ buf, sysWrite noSpecial (sought 268966912) fileTask 0 buf 1 0 = .error "_bmap: block > big" := by
  rcases sought_regular (by decide : 0 ≤ (0x80000001 : BitVec 64).toInt) with ⟨seek, regular, pos⟩
  rcases sought_regular (by decide : 0 ≤ (268966912 : BitVec 64).toInt) with ⟨seek', regular', pos'⟩
  refine ⟨seek, regular, ?_, seek', regular', ?_⟩
  · have size : ((sought 0x80000001).fs.inode 1).size = 0 := rfl
    have count : readCount 0 0x80000001 1 = (0x7FFFFFFF : Nat) := by decide
    have value : (0x80000001 : BitVec 64).toInt = 0x80000001 := by decide
    rw [regular.sysRead_eq (by decide), size, pos, value, count, if_neg (by decide),
      fileReadAt_stops (by decide)]
    · rw [pos]
      rfl
    · rw [pos]
      decide
  · intro buf
    have start : writeStart (sought 268966912).fs ((sought 268966912).files.file 0) 1 = 268966912 := by decide
    rw [regular'.sysWrite_eq (by decide), fileWriteAt_big (by decide)]
    · rfl
    · rw [start]
      decide
    · rw [start]
      decide

end Use

end K210Linux.Fs
