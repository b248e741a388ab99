import K210Linux.Exec.DemandLoad

namespace K210Linux.Exec

open K210Linux.Mm K210Linux.Kernel K210Linux.Fs Outcome

/-- `AddLong` of `bin2aout`. -/
def addLong (list : List (BitVec 8)) (x : BitVec 32) : List (BitVec 8) :=
  list ++ [x.setWidth 8, (x >>> 8).setWidth 8, (x >>> 16).setWidth 8, (x >>> 24).setWidth 8]

/-- The loop of `Main` that fills the last page. -/
def padCode (code : List (BitVec 8)) : Nat → List (BitVec 8)
  | 0 => code
  | n + 1 => if code.length % 4096 ≠ 0 then padCode (code ++ [0]) n else code

/-- The file that `bin2aout` writes. The entry point comes from the listing. -/
def bin2aout (entryPoint : BitVec 32) (img : List (BitVec 8)) : List (BitVec 8) :=
  let code := padCode img 4096
  let r := addLong (addLong (addLong (addLong (addLong (addLong [] 0x10B) (BitVec.ofNat 32 code.length)) 0) 0) 0)
    entryPoint
  r ++ List.replicate (1024 - r.length) 0 ++ code

theorem padCode_eq {n : Nat} (code : List (BitVec 8)) (enough : (4096 - code.length % 4096) % 4096 ≤ n) :
    padCode code n = code ++ List.replicate ((4096 - code.length % 4096) % 4096) 0 := by
  induction n generalizing code with
  | zero =>
    rw [Nat.le_zero.mp enough, List.replicate_zero, List.append_nil]
    rfl
  | succ n ih =>
    unfold padCode
    by_cases full : code.length % 4096 = 0
    · rw [if_neg (not_not.mpr full), full]
      exact (List.append_nil _).symm
    · have length : (code ++ [0]).length = code.length + 1 := by simp
      have count : (4096 - code.length % 4096) % 4096 = (4096 - (code.length + 1) % 4096) % 4096 + 1 := by omega
      rw [if_pos full, ih _ (by rw [length]; omega), length, count, List.replicate_succ, List.append_assoc]
      rfl

theorem padCode_length (img : List (BitVec 8)) : (padCode img 4096).length = (img.length + 4095) / 4096 * 4096 := by
  rw [padCode_eq img (by omega), List.length_append, List.length_replicate]
  omega

theorem padCode_getD (img : List (BitVec 8)) (k : Nat) : (padCode img 4096).getD k 0 = img.getD k 0 := by
  rw [padCode_eq img (by omega)]
  by_cases inside : k < img.length
  · rw [List.getD_append _ _ _ _ inside]
  · rw [List.getD_append_right _ _ _ _ (not_lt.mp inside), List.getD_eq_default img _ (not_lt.mp inside)]
    by_cases filled : k - img.length < (4096 - img.length % 4096) % 4096
    · rw [List.getD_replicate _ filled]
    · rw [List.getD_eq_default _ _ (by rw [List.length_replicate]; exact not_lt.mp filled)]

/-- The header of the file, without the bytes that fill its block. -/
def packedHeader (entryPoint : BitVec 32) (img : List (BitVec 8)) : Header where
  magic := zmagic
  text := BitVec.ofNat 32 (padCode img 4096).length
  data := 0
  bss := 0
  syms := 0
  entry := entryPoint
  trsize := 0
  drsize := 0

theorem bin2aout_length (entryPoint : BitVec 32) (img : List (BitVec 8)) :
    (bin2aout entryPoint img).length = 1024 + (padCode img 4096).length := by
  simp only [bin2aout, addLong, List.length_append, List.length_replicate, List.length_cons, List.length_nil]

theorem bin2aout_code (entryPoint : BitVec 32) (img : List (BitVec 8)) (k : Nat) :
    (bin2aout entryPoint img).getD (1024 + k) 0 = img.getD k 0 := by
  have header : ∀ r code : List (BitVec 8), r.length = 24 →
      (r ++ List.replicate (1024 - r.length) 0 ++ code).getD (1024 + k) 0 = code.getD k 0 := by
    intro r code length
    rw [List.getD_append_right]
    · congr 1
      rw [List.length_append, List.length_replicate, length]
      omega
    · rw [List.length_append, List.length_replicate, length]
      omega
  exact (header _ _ rfl).trans (padCode_getD img k)

/-- Four bytes of a long, lowest first. -/
theorem longAt_of_bytes {block : Block} {i : Nat} {x : BitVec 32} (b₀ : block (4 * i) = x.setWidth 8)
    (b₁ : block (4 * i + 1) = (x >>> 8).setWidth 8) (b₂ : block (4 * i + 2) = (x >>> 16).setWidth 8)
    (b₃ : block (4 * i + 3) = (x >>> 24).setWidth 8) : longAt block i = x := by
  rw [longAt, b₀, b₁, b₂, b₃]
  apply BitVec.eq_of_getLsbD_eq
  intro b bound
  simp only [BitVec.getLsbD_append, BitVec.getLsbD_setWidth, BitVec.getLsbD_ushiftRight]
  split_ifs with low middle high
  · simp [low]
  · rw [show 8 + (b - 8) = b by omega]
    simp [middle]
  · rw [show 16 + (b - 8 - 8) = b by omega]
    simp [high]
  · rw [show 24 + (b - 8 - 8 - 8) = b by omega]
    simp [show b - 8 - 8 - 8 < 8 by omega]

/-- The bytes of a header, as the first ones of a block. -/
theorem headerOf_eq {block : Block} {ex : Header}
    (bytes : ∀ i, i < 32 → block i = ((([ex.magic, ex.text, ex.data, ex.bss, ex.syms, ex.entry, ex.trsize,
      ex.drsize].getD (i / 4) 0) >>> (8 * (i % 4))).setWidth 8 : BitVec 8)) : headerOf block = ex := by
  have long : ∀ i, i < 8 → longAt block i = [ex.magic, ex.text, ex.data, ex.bss, ex.syms, ex.entry, ex.trsize,
      ex.drsize].getD i 0 := by
    intro i bound
    have place : ∀ j, j < 4 → (4 * i + j) / 4 = i ∧ (4 * i + j) % 4 = j := by
      intro j small
      omega
    apply longAt_of_bytes
    · rw [bytes (4 * i) (by omega), Nat.mul_div_cancel_left i (by decide), Nat.mul_mod_right]
      rfl
    · rw [bytes (4 * i + 1) (by omega), (place 1 (by decide)).1, (place 1 (by decide)).2]
    · rw [bytes (4 * i + 2) (by omega), (place 2 (by decide)).1, (place 2 (by decide)).2]
    · rw [bytes (4 * i + 3) (by omega), (place 3 (by decide)).1, (place 3 (by decide)).2]
  unfold headerOf
  rw [long 0 (by decide), long 1 (by decide), long 2 (by decide), long 3 (by decide), long 4 (by decide),
    long 5 (by decide), long 6 (by decide), long 7 (by decide)]
  rfl

/-- An inode whose contents are these bytes. -/
structure HoldsFile (fs : FileSystem) (ino : Nat) (file : List (BitVec 8)) : Prop where
  size : (fs.inode ino).size.toNat = file.length
  bytes : ∀ k, k < file.length → content fs ino k = .ok (file.getD k 0)

theorem byte_of_zero (n : Nat) : ((0 : BitVec 32) >>> n).setWidth 8 = (0 : BitVec 8) := by
  simp

theorem bin2aout_header (entryPoint : BitVec 32) (img : List (BitVec 8)) {i : Nat} (bound : i < 32) :
    (bin2aout entryPoint img).getD i 0 = ((([(packedHeader entryPoint img).magic, (packedHeader entryPoint img).text,
      (packedHeader entryPoint img).data, (packedHeader entryPoint img).bss, (packedHeader entryPoint img).syms,
      (packedHeader entryPoint img).entry, (packedHeader entryPoint img).trsize,
      (packedHeader entryPoint img).drsize].getD (i / 4) 0) >>> (8 * (i % 4))).setWidth 8 : BitVec 8) := by
  unfold bin2aout packedHeader
  dsimp only
  generalize padCode img 4096 = code
  generalize BitVec.ofNat 32 code.length = text
  interval_cases i
  all_goals
    first
    | rfl
    | exact (byte_of_zero _).symm

theorem bin2aout_first (entryPoint : BitVec 32) (img : List (BitVec 8)) :
    (bin2aout entryPoint img).getD 0 0 = 0x0B := by
  refine (bin2aout_header entryPoint img (by decide : 0 < 32)).trans ?_
  change ((zmagic >>> 0).setWidth 8 : BitVec 8) = 0x0B
  decide

/-- The header that `do_execve` reads is the one that `bin2aout` wrote. -/
theorem HoldsFile.header {fs : FileSystem} {ino : Nat} {entryPoint : BitVec 32} {img : List (BitVec 8)}
    (holds : HoldsFile fs ino (bin2aout entryPoint img)) :
    headerOf (fs.disk ((fs.inode ino).zone 0).toNat) = packedHeader entryPoint img ∧
      fs.disk ((fs.inode ino).zone 0).toNat 0 = 0x0B := by
  have direct : ∀ k, k < 1024 → content fs ino k = .ok (if ((fs.inode ino).zone 0).toNat = 0 then 0 else
      fs.disk ((fs.inode ino).zone 0).toNat k) := by
    intro k small
    have block : k / blockSize = 0 ∧ k % blockSize = k := by
      rw [blockSize]
      omega
    rw [content_eq fs ino (by rw [block.1]; decide), byteOf, block.1, block.2]
    rfl
  have length : ∀ k, k < 1024 → k < (bin2aout entryPoint img).length := by
    intro k small
    rw [bin2aout_length]
    omega
  have first := (direct 0 (by decide)).symm.trans (holds.bytes 0 (length 0 (by decide)))
  rw [bin2aout_first] at first
  have some : ((fs.inode ino).zone 0).toNat ≠ 0 := by
    intro none
    rw [if_pos none] at first
    exact absurd (Except.ok.inj first) (by decide)
  have bytes : ∀ k, k < 1024 → fs.disk ((fs.inode ino).zone 0).toNat k = (bin2aout entryPoint img).getD k 0 := by
    intro k small
    have equal := (direct k small).symm.trans (holds.bytes k (length k small))
    rw [if_neg some] at equal
    exact Except.ok.inj equal
  constructor
  · apply headerOf_eq
    intro i bound
    rw [bytes i (by omega), bin2aout_header entryPoint img bound]
  · rw [bytes 0 (by decide), bin2aout_first]

section Image

variable {fs : FileSystem} {ino : Nat} {cred : Credentials} {entryPoint : BitVec 32} {img : List (BitVec 8)}

theorem packed_text (entryPoint : BitVec 32) (small : (img.length + 4095) / 4096 * 4096 ≤ 0x3000000) :
    (packedHeader entryPoint img).text.toNat = (img.length + 4095) / 4096 * 4096 := by
  unfold packedHeader
  rw [BitVec.toNat_ofNat, padCode_length]
  omega

theorem packed_accepted (small : (img.length + 4095) / 4096 * 4096 ≤ 0x3000000)
    (holds : HoldsFile fs ino (bin2aout entryPoint img)) :
    badHeader (packedHeader entryPoint img) (fs.inode ino).size = false := by
  have size := holds.size
  have text := packed_text entryPoint small
  rw [bin2aout_length, padCode_length] at size
  have sum : (packedHeader entryPoint img).text + (packedHeader entryPoint img).data +
      (packedHeader entryPoint img).bss = (packedHeader entryPoint img).text := by
    change (packedHeader entryPoint img).text + 0 + 0 = _
    simp
  have sum' : (packedHeader entryPoint img).text + (packedHeader entryPoint img).data +
      (packedHeader entryPoint img).syms = (packedHeader entryPoint img).text := sum
  have first : ¬ (0x3000000 : BitVec 32) < (packedHeader entryPoint img).text := by
    rw [BitVec.lt_def, text]
    exact not_lt.mpr small
  have second : ¬ (fs.inode ino).size.setWidth 64 <
      (packedHeader entryPoint img).text.setWidth 64 + nTxtoff (packedHeader entryPoint img) := by
    have offset : nTxtoff (packedHeader entryPoint img) = (1024 : Word) := rfl
    rw [offset, BitVec.lt_def, BitVec.toNat_add, BitVec.toNat_setWidth, BitVec.toNat_setWidth, text, size,
      show (1024 : Word).toNat = 1024 from rfl]
    omega
  unfold badHeader
  rw [sum, sum']
  simp only [first, second, decide_false, Bool.or_false]
  rfl

theorem packed_opens (small : (img.length + 4095) / 4096 * 4096 ≤ 0x3000000)
    (holds : HoldsFile fs ino (bin2aout entryPoint img)) (regular : isReg (fs.inode ino).mode = true)
    (allowed : mayExecute (fs.inode ino) cred = true) :
    openProgram fs ino cred = .program (packedHeader entryPoint img) := by
  have accepted := packed_accepted small holds
  unfold openProgram
  dsimp only
  rw [holds.header.1, holds.header.2]
  simp only [regular, allowed, accepted, Bool.not_true, Bool.false_eq_true, if_false]
  rfl

theorem packed_inReach {address : Word} (small : (img.length + 4095) / 4096 * 4096 ≤ 0x3000000)
    (inside : address < endData (packedHeader entryPoint img)) (start : 0xC0000000 ≤ address) :
    InReach (packedHeader entryPoint img) address := by
  have text := packed_text entryPoint small
  have value := toNat_endData (packedHeader entryPoint img)
  have below : address.toNat < (endData (packedHeader entryPoint img)).toNat := inside
  have above : 0xC0000000 ≤ address.toNat := start
  have noData : (packedHeader entryPoint img).data.toNat = 0 := rfl
  rw [text, noData] at value
  constructor
  · omega
  · omega

/-- Every page of a packed program is the page of the image, with zeros behind its end. -/
theorem packed_loads {k : Process} {pool : Pool} {dirs : Finset Word} {held : Finset Nat} {address : Word}
    (small : (img.length + 4095) / 4096 * 4096 ≤ 0x3000000) (holds : HoldsFile fs ino (bin2aout entryPoint img))
    (opened : openProgram fs ino cred = .program (packedHeader entryPoint img)) (aligned : address &&& 0xFFF = 0)
    (start : 0xC0000000 ≤ address) (inside : address < endData (packedHeader entryPoint img))
    (fault : PageFault pool dirs held (startProgram k ino (packedHeader entryPoint img)) address) :
    PageLoaded (startProgram k ino (packedHeader entryPoint img)) fs address
      (fun o => .ok (img.getD (address.toNat - 0xC0000000 + o) 0)) := by
  have text := packed_text entryPoint small
  have noData : (packedHeader entryPoint img).data.toNat = 0 := rfl
  have program : InProgram (packedHeader entryPoint img) address := ⟨by rw [text, noData]; omega, aligned, start, inside⟩
  rcases loads_in_reach program (packed_inReach small inside start) fs ino cred k pool dirs held opened fault with
    ⟨m', f, bound, run, found, bytes⟩
  refine ⟨m', f, bound, run, found, ?_⟩
  intro o within
  have value := toNat_endData (packedHeader entryPoint img)
  have bounds := program.bounds
  rw [text, noData] at value
  have before : address.toNat + o < (endData (packedHeader entryPoint img)).toNat := by omega
  rw [← bytes o within, programByte, if_pos before, holds.bytes]
  · rw [Nat.add_assoc, bin2aout_code]
  · rw [bin2aout_length, padCode_length]
    omega

end Image

end K210Linux.Exec
