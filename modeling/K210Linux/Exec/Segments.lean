import K210Linux.Exec.Reach

namespace K210Linux.Exec

open K210Linux.Mm K210Linux.Kernel K210Linux.Fs Outcome

/-- `0xC0000000 + ex.a_text`, a sum of 32 bits. -/
def endCode (ex : Header) : Word := ((0xC0000000 : BitVec 32) + ex.text).setWidth 64

def brk (ex : Header) : Word := ex.bss.setWidth 64 + endData ex

/-- The segments of a started program are in order, within the limit, and covered by its file. -/
structure SaneSegments (task : Task) (ex : Header) (size : BitVec 32) : Prop where
  small : ex.text.toNat + ex.data.toNat + ex.bss.toNat ≤ 0x3000000
  covered : 1024 + ex.text.toNat + ex.data.toNat + ex.syms.toNat ≤ size.toNat
  text : task.startCode ≤ endCode ex
  data : endCode ex ≤ task.endData
  bss : task.endData ≤ brk ex
  limit : (brk ex).toNat ≤ task.startCode.toNat + 0x3000000

/-- Neither of the sums that `do_execve` compares wraps. -/
def SumsFit (ex : Header) : Prop :=
  ex.text.toNat + ex.data.toNat + ex.bss.toNat < 2 ^ 32 ∧ ex.text.toNat + ex.data.toNat + ex.syms.toNat < 2 ^ 32

section Header

variable {ex : Header} {size : BitVec 32}

/-- What the header checks say of the sums as they are computed. -/
theorem accepted_sums (accepted : badHeader ex size = false) :
    (ex.text.toNat + ex.data.toNat + ex.bss.toNat) % 2 ^ 32 ≤ 0x3000000 ∧
      (ex.text.toNat + ex.data.toNat + ex.syms.toNat) % 2 ^ 32 + 1024 ≤ size.toNat := by
  unfold badHeader at accepted
  simp only [Bool.or_eq_false_iff, decide_eq_false_iff_not, not_not] at accepted
  obtain ⟨⟨⟨⟨magic, _⟩, _⟩, sizes⟩, file⟩ := accepted
  have offset : nTxtoff ex = 1024 := if_pos magic
  rw [offset] at file
  simp only [BitVec.lt_def, BitVec.toNat_add, BitVec.toNat_setWidth, BitVec.ofNat_eq_ofNat, BitVec.toNat_ofNat]
    at sizes file
  omega

theorem toNat_endCode (fits : ex.text.toNat ≤ 0x3000000) : (endCode ex).toNat = 0xC0000000 + ex.text.toNat := by
  rw [endCode, BitVec.toNat_setWidth, BitVec.toNat_add]
  simp only [BitVec.ofNat_eq_ofNat, BitVec.toNat_ofNat]
  omega

theorem toNat_brk (fits : ex.text.toNat + ex.data.toNat + ex.bss.toNat ≤ 0x3000000) :
    (endData ex).toNat = 0xC0000000 + ex.text.toNat + ex.data.toNat ∧
      (brk ex).toNat = 0xC0000000 + ex.text.toNat + ex.data.toNat + ex.bss.toNat := by
  have data := toNat_endData ex
  have value : (endData ex).toNat = 0xC0000000 + ex.text.toNat + ex.data.toNat := by omega
  refine ⟨value, ?_⟩
  rw [brk, BitVec.toNat_add, BitVec.toNat_setWidth, value]
  omega

theorem opened_accepted {fs : FileSystem} {ino : Nat} {cred : Credentials}
    (opened : openProgram fs ino cred = .program ex) : badHeader ex (fs.inode ino).size = false := by
  unfold openProgram at opened
  dsimp only at opened
  split at opened
  · cases opened
  split at opened
  · cases opened
  split at opened
  · cases opened
  split at opened
  · cases opened
  next good =>
    split at opened
    · cases opened
    · cases opened
      exact Bool.eq_false_iff.mpr good

/-- Of the headers that `do_execve` accepts, those describe sane segments whose sums do not wrap. -/
theorem segments_sane_iff (fs : FileSystem) (ino : Nat) (cred : Credentials) (task : Task)
    (opened : openProgram fs ino cred = .program ex) :
    SaneSegments (startedTask task ino ex) ex (fs.inode ino).size ↔ SumsFit ex := by
  have accepted : badHeader ex (fs.inode ino).size = false := opened_accepted opened
  obtain ⟨sizes, file⟩ := accepted_sums accepted
  constructor
  · intro sane
    have small := sane.small
    have covered := sane.covered
    have bound := (fs.inode ino).size.isLt
    constructor <;> omega
  · rintro ⟨total, symbols⟩
    have fits : ex.text.toNat + ex.data.toNat + ex.bss.toNat ≤ 0x3000000 := by omega
    have code := toNat_endCode (show ex.text.toNat ≤ 0x3000000 by omega)
    obtain ⟨data, top⟩ := toNat_brk fits
    have start : (startedTask task ino ex).startCode.toNat = 0xC0000000 := rfl
    have fin : (startedTask task ino ex).endData = endData ex := rfl
    refine ⟨fits, by omega, ?_, ?_, ?_, ?_⟩
    · rw [BitVec.le_def]
      omega
    · rw [BitVec.le_def, fin]
      omega
    · rw [BitVec.le_def, fin]
      omega
    · omega

theorem small_segments : openProgram (programDevice smallHeader 5120) 1 ⟨0, 0⟩ = .program smallHeader ∧
    SaneSegments (startedTask (firstProcess.structs 0) 1 smallHeader) smallHeader 5120 := by
  have opened := programDevice_opens (show badHeader smallHeader 5120 = false by decide)
  exact ⟨opened, (segments_sane_iff _ 1 ⟨0, 0⟩ (firstProcess.structs 0) opened).mpr (by unfold SumsFit; decide)⟩

/-- With 0x90000000 bytes of data the program is larger than its file of 1024 bytes, and than the limit. -/
theorem wrapped_segments : openProgram (programDevice wrappedHeader 1024) 1 ⟨0, 0⟩ = .program wrappedHeader ∧
    ¬ SaneSegments (startedTask (firstProcess.structs 0) 1 wrappedHeader) wrappedHeader 1024 := by
  refine ⟨programDevice_opens (by decide), ?_⟩
  intro sane
  exact absurd sane.small (by decide)

end Header

end K210Linux.Exec
