import K210Linux.Lib.Ring
import K210Linux.Fs.Inode

namespace K210Linux.Fs

open K210Linux.Lib

/-- A pipe: its inode, and the page at `i_size`. -/
structure Pipe where
  inode : MInode
  page : Nat → Byte

def pipeHead (inode : MInode) : BitVec 16 := inode.zone 0
def pipeTail (inode : MInode) : BitVec 16 := inode.zone 1

/-- `PIPE_SIZE`. -/
def pipeSize (inode : MInode) : BitVec 64 :=
  ((pipeHead inode).setWidth 64 - (pipeTail inode).setWidth 64) &&& 4095

/-- `get_pipe_inode`, on the empty inode it found and the page from `get_free_page`, which is cleared. -/
def getPipeInode (page : BitVec 32) : Option Pipe :=
  if page = 0 then none
  else some {
    inode := { MInode.zero with size := page, count := 2, zone := fun _ => 0, pipe := true }
    page := fun _ => 0 }

/-- The smallest of what is left before the end of the page, `count` and `size`. -/
def chunk (index : BitVec 16) (count : Int) (size : Int) : Int :=
  let chars : Int := 4096 - index.toNat
  let chars := if chars > count then count else chars
  if chars > size then size else chars

/-- `PIPE_TAIL += chars; PIPE_TAIL &= PAGE_SIZE - 1`, and the same for the head. -/
def advance (index : BitVec 16) (chars : Int) : BitVec 16 := (index + BitVec.ofInt 16 chars) &&& 4095

/-- A call of `read_pipe` or `write_pipe` between two passes of its outer loop: the next address of the
    user buffer, what is left of the count, and what was done so far. -/
structure PipeCall where
  buf : BitVec 64
  count : Int
  moved : Int

/-- How a pass of the outer loop of `read_pipe` or `write_pipe` ends. -/
inductive Pass where
  | returned (value : Int) (sigpipe : Bool)
  | asleep
  | moved (pipe : Pipe) (call : PipeCall) (bytes : List Byte)

def PipeCall.after (call : PipeCall) (chars : Int) : PipeCall where
  buf := call.buf + BitVec.ofInt 64 chars
  count := call.count - chars
  moved := call.moved + chars

/-- A pass of `read_pipe`; `bytes` go to `put_fs_byte` in their order. -/
def readPipe (p : Pipe) (call : PipeCall) : Pass :=
  if call.count > 0 then
    let size := pipeSize p.inode
    if size = 0 then
      if p.inode.count ≠ 2 then .returned call.moved false else .asleep
    else
      let tail := pipeTail p.inode
      let chars := chunk tail call.count size.toNat
      .moved { p with inode.zone := Function.update p.inode.zone 1 (advance tail chars) } (call.after chars)
        (segment p.page tail.toNat chars.toNat)
  else .returned call.moved false

/-- A pass of `write_pipe`; `user` is what `get_fs_byte` finds at an address. -/
def writePipe (p : Pipe) (user : BitVec 64 → Byte) (call : PipeCall) : Pass :=
  if call.count > 0 then
    let size := 4095 - pipeSize p.inode
    if size = 0 then
      if p.inode.count ≠ 2 then .returned (if call.moved ≠ 0 then call.moved else -1) true else .asleep
    else
      let head := pipeHead p.inode
      let chars := chunk head call.count size.toNat
      let bytes := segment (fun i => user (call.buf + BitVec.ofNat 64 i)) 0 chars.toNat
      .moved {
        inode := { p.inode with zone := Function.update p.inode.zone 0 (advance head chars) }
        page := overwrite p.page head.toNat bytes } (call.after chars) bytes
  else .returned call.moved false

/-- A pipe and the calls on it. -/
structure PipeSystem where
  pipe : Pipe
  readers : Nat → Option PipeCall
  writers : Nat → Option PipeCall

/-- One pass of one call, a call that starts, or a change of the number of references to the inode. The
    two lists are the bytes the step takes from a writer and hands to a reader. -/
inductive PipeStep (s : PipeSystem) : List Byte → List Byte → PipeSystem → Prop
  | readStart (i : Nat) (buf : BitVec 64) (count : Int) (idle : s.readers i = none) :
      PipeStep s [] [] { s with readers := Function.update s.readers i (some ⟨buf, count, 0⟩) }
  | read (i : Nat) {call call' : PipeCall} {p : Pipe} {bytes : List Byte} (reading : s.readers i = some call)
      (pass : readPipe s.pipe call = .moved p call' bytes) :
      PipeStep s [] bytes { s with pipe := p, readers := Function.update s.readers i (some call') }
  | readSleep (i : Nat) {call : PipeCall} (reading : s.readers i = some call)
      (pass : readPipe s.pipe call = .asleep) : PipeStep s [] [] s
  | readReturn (i : Nat) {call : PipeCall} {value : Int} {sigpipe : Bool} (reading : s.readers i = some call)
      (pass : readPipe s.pipe call = .returned value sigpipe) :
      PipeStep s [] [] { s with readers := Function.update s.readers i none }
  | writeStart (i : Nat) (buf : BitVec 64) (count : Int) (idle : s.writers i = none) :
      PipeStep s [] [] { s with writers := Function.update s.writers i (some ⟨buf, count, 0⟩) }
  | write (i : Nat) (user : BitVec 64 → Byte) {call call' : PipeCall} {p : Pipe} {bytes : List Byte}
      (writing : s.writers i = some call) (pass : writePipe s.pipe user call = .moved p call' bytes) :
      PipeStep s bytes [] { s with pipe := p, writers := Function.update s.writers i (some call') }
  | writeSleep (i : Nat) (user : BitVec 64 → Byte) {call : PipeCall} (writing : s.writers i = some call)
      (pass : writePipe s.pipe user call = .asleep) : PipeStep s [] [] s
  | writeReturn (i : Nat) (user : BitVec 64 → Byte) {call : PipeCall} {value : Int} {sigpipe : Bool}
      (writing : s.writers i = some call) (pass : writePipe s.pipe user call = .returned value sigpipe) :
      PipeStep s [] [] { s with writers := Function.update s.writers i none }
  | references (count : BitVec 16) : PipeStep s [] [] { s with pipe.inode.count := count }

/-- A run, with all bytes written and all bytes read in it. -/
inductive PipeRun (s : PipeSystem) : List Byte → List Byte → PipeSystem → Prop
  | refl : PipeRun s [] [] s
  | tail {t u : PipeSystem} {written read written' read' : List Byte} (before : PipeRun s written read t)
      (step : PipeStep t written' read' u) : PipeRun s (written ++ written') (read ++ read') u

theorem toNat_and_4095 {w : Nat} (wide : 12 ≤ w) (x : BitVec w) : (x &&& 4095).toNat = x.toNat % 4096 := by
  have mask : (4095 : BitVec w).toNat = 2 ^ 12 - 1 := by
    rw [BitVec.ofNat_eq_ofNat, BitVec.toNat_ofNat]
    exact Nat.mod_eq_of_lt (lt_of_lt_of_le (by decide) (Nat.pow_le_pow_right (by decide) wide))
  rw [BitVec.toNat_and, mask, Nat.and_two_pow_sub_one_eq_mod]

theorem toNat_pipeSize {inode : MInode} (tailInside : (pipeTail inode).toNat < 4096) :
    (pipeSize inode).toNat = ((pipeHead inode).toNat + 4096 - (pipeTail inode).toNat) % 4096 := by
  rw [pipeSize, toNat_and_4095 (by decide), BitVec.toNat_sub, BitVec.toNat_setWidth, BitVec.toNat_setWidth]
  have head := (pipeHead inode).isLt
  omega

theorem toNat_advance (index : BitVec 16) (chars : Nat) :
    (advance index chars).toNat = (index.toNat + chars) % 4096 := by
  rw [advance, toNat_and_4095 (by decide), BitVec.toNat_add, BitVec.ofInt_natCast, BitVec.toNat_ofNat]
  omega

/-- A chunk is positive, at most `count` and `size`, and does not go past the end of the page. -/
theorem chunk_spec {index : BitVec 16} {count : Int} {size : Nat} (inside : index.toNat < 4096)
    (wanted : 0 < count) (nonempty : 0 < size) :
    ∃ chars : Nat, chunk index count size = chars ∧ 0 < chars ∧ chars ≤ count ∧ chars ≤ size ∧
      index.toNat + chars ≤ 4096 := by
  refine ⟨(chunk index count size).toNat, ?_⟩
  simp only [chunk]
  split_ifs <;> omega

/-- The bytes `unread` lie between the tail and the head of the pipe. -/
structure Pipe.Holds (p : Pipe) (unread : List Byte) : Prop where
  tailInside : (pipeTail p.inode).toNat < 4096
  headInside : (pipeHead p.inode).toNat < 4096
  bytes : ring 4096 p.page (pipeTail p.inode).toNat (pipeSize p.inode).toNat = unread

namespace Pipe.Holds

variable {p p' : Pipe} {call call' : PipeCall} {unread bytes : List Byte}

theorem length_unread (holds : p.Holds unread) : unread.length = (pipeSize p.inode).toNat := by
  rw [← holds.bytes, length_ring]

theorem length_le (holds : p.Holds unread) : unread.length ≤ 4095 := by
  rw [holds.length_unread, toNat_pipeSize holds.tailInside]
  omega

theorem head_eq (holds : p.Holds unread) :
    (pipeHead p.inode).toNat = ((pipeTail p.inode).toNat + unread.length) % 4096 := by
  have headInside := holds.headInside
  have tailInside := holds.tailInside
  rw [holds.length_unread, toNat_pipeSize tailInside]
  omega

/-- `len` bytes from the tail on are unread when the head is `len` cells ahead. -/
theorem of_ring (len : Nat) (tailInside : (pipeTail p.inode).toNat < 4096) (short : len ≤ 4095)
    (head : (pipeHead p.inode).toNat = ((pipeTail p.inode).toNat + len) % 4096) :
    p.Holds (ring 4096 p.page (pipeTail p.inode).toNat len) := by
  have size : (pipeSize p.inode).toNat = len := by
    rw [toNat_pipeSize tailInside]
    omega
  refine ⟨tailInside, ?_, by rw [size]⟩
  rw [head]
  exact Nat.mod_lt _ (by decide)

theorem of_getPipeInode {page : BitVec 32} (fresh : getPipeInode page = some p) : p.Holds [] := by
  unfold getPipeInode at fresh
  split at fresh
  · cases fresh
  · cases fresh
    exact of_ring 0 (by simp [pipeTail]) (by decide) (by simp [pipeHead, pipeTail])

/-- A pass of `read_pipe` takes its bytes from the front. -/
theorem readPipe (holds : p.Holds unread) (pass : readPipe p call = .moved p' call' bytes) :
    ∃ rest, unread = bytes ++ rest ∧ p'.Holds rest := by
  unfold Fs.readPipe at pass
  split at pass
  case isFalse => cases pass
  case isTrue wanted =>
    simp only at pass
    split at pass
    case isTrue => split at pass <;> cases pass
    case isFalse nonempty =>
      have sizePos : 0 < (pipeSize p.inode).toNat := by
        rw [Nat.pos_iff_ne_zero]
        intro zero
        exact nonempty (BitVec.eq_of_toNat_eq zero)
      obtain ⟨chars, eq, -, -, le, fits⟩ := chunk_spec holds.tailInside wanted sizePos
      rw [eq, Int.toNat_natCast] at pass
      cases pass
      obtain ⟨left, split⟩ := Nat.exists_eq_add_of_le le
      have short := holds.length_le
      have head := holds.head_eq
      rw [holds.length_unread, split] at short head
      have front : unread = segment p.page (pipeTail p.inode).toNat chars ++
          ring 4096 p.page (((pipeTail p.inode).toNat + chars) % 4096) left := by
        rw [← holds.bytes, split, ring_append, ring_eq_segment fits]
      refine ⟨_, front, ?_⟩
      rw [← toNat_advance]
      apply of_ring
      · simp only [pipeTail, Function.update_self, toNat_advance]
        exact Nat.mod_lt _ (by decide)
      · omega
      · simp only [pipeHead, pipeTail, Function.update_self, toNat_advance] at head ⊢
        rw [Function.update_of_ne (by decide), head]
        omega

/-- A pass of `write_pipe` puts its bytes at the back. -/
theorem writePipe {user : BitVec 64 → Byte} (holds : p.Holds unread)
    (pass : writePipe p user call = .moved p' call' bytes) : p'.Holds (unread ++ bytes) := by
  unfold Fs.writePipe at pass
  split at pass
  case isFalse => cases pass
  case isTrue wanted =>
    simp only at pass
    split at pass
    case isTrue => split at pass <;> cases pass
    case isFalse room =>
      have short := holds.length_le
      have head := holds.head_eq
      rw [holds.length_unread] at short head
      have size : (4095 - pipeSize p.inode).toNat = 4095 - (pipeSize p.inode).toNat := by
        rw [BitVec.toNat_sub]
        simp only [BitVec.reduceToNat]
        omega
      have sizePos : 0 < (4095 - pipeSize p.inode).toNat := by
        rw [Nat.pos_iff_ne_zero]
        intro zero
        exact room (BitVec.eq_of_toNat_eq zero)
      obtain ⟨chars, eq, -, -, le, fits⟩ := chunk_spec holds.headInside wanted sizePos
      rw [size] at le
      rw [eq, Int.toNat_natCast] at pass
      cases pass
      have length := length_segment (fun i => user (call.buf + BitVec.ofNat 64 i)) 0 chars
      generalize segment (fun i => user (call.buf + BitVec.ofNat 64 i)) 0 chars = bytes at length
      subst length
      have back : unread ++ bytes = ring 4096 (overwrite p.page (pipeHead p.inode).toNat bytes)
          (pipeTail p.inode).toNat ((pipeSize p.inode).toNat + bytes.length) := by
        rw [ring_append, ← head, ring_eq_segment fits, segment_overwrite, head,
          ring_overwrite holds.tailInside (by omega), holds.bytes]
      rw [back]
      apply of_ring
      · exact holds.tailInside
      · omega
      · simp only [pipeHead, pipeTail, Function.update_self, toNat_advance] at head ⊢
        rw [Function.update_of_ne (by decide), head]
        omega

end Pipe.Holds

theorem PipeStep.holds {s t : PipeSystem} {written read unread : List Byte} (step : PipeStep s written read t)
    (holds : s.pipe.Holds unread) : ∃ rest, unread ++ written = read ++ rest ∧ t.pipe.Holds rest := by
  cases step with
  | read i reading pass =>
    rw [List.append_nil]
    exact holds.readPipe pass
  | write i user writing pass => exact ⟨_, rfl, holds.writePipe pass⟩
  | references count => exact ⟨unread, by simp, holds.tailInside, holds.headInside, holds.bytes⟩
  | readStart | readSleep | readReturn | writeStart | writeSleep | writeReturn =>
    exact ⟨unread, by simp, holds⟩

theorem PipeRun.holds {s t : PipeSystem} {written read : List Byte} (run : PipeRun s written read t)
    (empty : s.pipe.Holds []) : ∃ unread, written = read ++ unread ∧ t.pipe.Holds unread := by
  induction run with
  | refl => exact ⟨[], rfl, empty⟩
  | tail before step ih =>
    obtain ⟨unread, split, holds⟩ := ih
    obtain ⟨rest, moved, holds'⟩ := step.holds holds
    refine ⟨rest, ?_, holds'⟩
    rw [split, List.append_assoc, moved, List.append_assoc]

/-- A pipe is a first-in first-out queue of at most 4095 bytes. -/
theorem pipe_fifo {page : BitVec 32} {p : Pipe} (fresh : getPipeInode page = some p) {t : PipeSystem}
    {written read : List Byte} (run : PipeRun ⟨p, fun _ => none, fun _ => none⟩ written read t) :
    read <+: written ∧
    written.drop read.length =
      ring 4096 t.pipe.page (pipeTail t.pipe.inode).toNat (pipeSize t.pipe.inode).toNat ∧
    (pipeHead t.pipe.inode).toNat = ((pipeTail t.pipe.inode).toNat + (pipeSize t.pipe.inode).toNat) % 4096 ∧
    (written.drop read.length).length ≤ 4095 ∧
    (pipeHead t.pipe.inode).toNat < 4096 ∧ (pipeTail t.pipe.inode).toNat < 4096 := by
  obtain ⟨unread, split, holds⟩ := run.holds (.of_getPipeInode fresh)
  have dropped : written.drop read.length = unread := by rw [split, List.drop_left]
  rw [dropped]
  have head := holds.head_eq
  rw [holds.length_unread] at head
  exact ⟨⟨unread, split.symm⟩, holds.bytes.symm, head, holds.length_le, holds.headInside, holds.tailInside⟩

def samplePipe : Pipe where
  inode := { MInode.zero with size := 0x80100000, count := 2, zone := fun _ => 0, pipe := true }
  page := fun _ => 0

/-- The pipe after three bytes went in. -/
def filledPipe : Pipe where
  inode := { samplePipe.inode with zone := Function.update samplePipe.inode.zone 0 3 }
  page := overwrite samplePipe.page 0 [7, 8, 9]

theorem samplePipe_written : writePipe samplePipe (fun addr => addr.setWidth 8) ⟨0xC0001007, 3, 0⟩ =
    .moved filledPipe ⟨0xC000100A, 0, 3⟩ [7, 8, 9] := rfl

/-- Three bytes are written, and a reader with room for two takes the first two of them. -/
theorem samplePipe_run : ∃ t, PipeRun ⟨samplePipe, fun _ => none, fun _ => none⟩ [7, 8, 9] [7, 8] t := by
  have taken : readPipe filledPipe ⟨0xC0002000, 2, 0⟩ = .moved _ _ [7, 8] := rfl
  have started : PipeRun ⟨samplePipe, fun _ => none, fun _ => none⟩ [] [] _ :=
    .tail .refl (.writeStart 0 0xC0001007 3 rfl)
  have wrote := PipeRun.tail started (.write 0 (fun addr => addr.setWidth 8) rfl samplePipe_written)
  exact ⟨_, .tail (.tail wrote (.readStart 0 0xC0002000 2 rfl)) (.read 0 rfl taken)⟩

theorem samplePipe_fifo : ∃ t, PipeRun ⟨samplePipe, fun _ => none, fun _ => none⟩ [7, 8, 9] [7, 8] t ∧
    [9] = ring 4096 t.pipe.page (pipeTail t.pipe.inode).toNat (pipeSize t.pipe.inode).toNat := by
  obtain ⟨t, run⟩ := samplePipe_run
  have fresh : getPipeInode 0x80100000 = some samplePipe := rfl
  exact ⟨t, run, (pipe_fifo fresh run).2.1⟩

end K210Linux.Fs
