import K210Linux.Exec.Packer
import K210Linux.Kernel.ForkContract

namespace K210Linux.Exec

open K210Linux.Mm K210Linux.Kernel K210Linux.Fs Outcome

variable {ex : Header} {address : Word}

section Device

/-- A header as the start of a block. -/
def headerBlock (ex : Header) : Block := fun i =>
  (([ex.magic, ex.text, ex.data, ex.bss, ex.syms, ex.entry, ex.trsize, ex.drsize].getD (i / 4) 0) >>>
    (8 * (i % 4))).setWidth 8

/-- A block of which every entry is 5. -/
def fiveBlock : Block := fun i => if i % 2 = 0 then 5 else 0

/-- A device with a program whose blocks behind the header are all block 5. -/
def programDevice (ex : Header) (size : BitVec 32) : FileSystem where
  sb := blankDevice.sb
  disk := fun b => if b = 6 then headerBlock ex else fiveBlock
  inode := fun _ => { MInode.zero with mode := 0x81FF, size := size, zone := fun slot => if slot = 0 then 6 else 5 }

theorem programDevice_zoneOf (ex : Header) (size : BitVec 32) (ino : Nat) {block : Nat} (behind : 0 < block) :
    (programDevice ex size).zoneOf (blockRef ino block) = 5 := by
  have slots : ∀ slot, slot ≠ 0 → (programDevice ex size).zoneOf ⟨ino, slot, []⟩ = 5 := by
    intro slot some
    change (if slot = 0 then (6 : BitVec 16) else 5).toNat = 5
    rw [if_neg some]
    rfl
  have entries : ∀ slot path k, (programDevice ex size).zoneOf ⟨ino, slot, path⟩ = 5 →
      (programDevice ex size).zoneOf ⟨ino, slot, k :: path⟩ = 5 := by
    intro slot path k above
    rw [zoneOf_cons, above, if_neg (by decide)]
    change entryAt fiveBlock k = 5
    unfold entryAt fiveBlock
    rw [if_pos (by omega), if_neg (by omega)]
    rfl
  unfold blockRef
  split
  · exact slots _ (by omega)
  · split
    · exact entries _ _ _ (slots 7 (by decide))
    · exact entries _ _ _ (entries _ _ _ (slots 8 (by decide)))

theorem programDevice_opens {size : BitVec 32} (accepted : badHeader ex size = false) :
    openProgram (programDevice ex size) 1 ⟨0, 0⟩ = .program ex := by
  have header : headerOf ((programDevice ex size).disk (((programDevice ex size).inode 1).zone 0).toNat) = ex :=
    headerOf_eq (fun _ _ => rfl)
  have refused := accepted
  unfold badHeader at refused
  simp only [Bool.or_eq_false_iff, decide_eq_false_iff_not, not_not] at refused
  have magic : ex.magic = zmagic := refused.1.1.1.1
  have first : headerBlock ex 0 = 0x0B := by
    change ((ex.magic >>> 0).setWidth 8 : BitVec 8) = 0x0B
    rw [magic]
    decide
  have notScript : ¬ ((programDevice ex size).disk (((programDevice ex size).inode 1).zone 0).toNat 0 = 0x23 ∧
      (programDevice ex size).disk (((programDevice ex size).inode 1).zone 0).toNat 1 = 0x21) := by
    intro both
    have wrong : (0x0B : BitVec 8) = 0x23 := first.symm.trans both.1
    exact absurd wrong (by decide)
  have offset : nTxtoff ex = 1024 := if_pos magic
  have regular : isReg ((programDevice ex size).inode 1).mode = true := by
    change isReg 0x81FF = true
    decide
  have allowed : mayExecute ((programDevice ex size).inode 1) ⟨0, 0⟩ = true := by
    simp [mayExecute, programDevice, MInode.zero]
  have accepted' : badHeader ex ((programDevice ex size).inode 1).size = false := accepted
  unfold openProgram
  dsimp only
  rw [header, regular, allowed, accepted', if_neg notScript]
  simp only [Bool.not_true, Bool.false_eq_true, if_false, offset, ne_eq, not_true]

end Device

section Boot

/-- The first task, right after the start. -/
def firstProcess : Process := sampleProcess (bootMemory parentDir) 0x4000000

theorem bootMemory_tableOf (s : TableSlot) : (bootMemory parentDir).tableOf s = none :=
  tableOf_invalid v_zero

theorem firstProcess_fault (ex : Header) (address : Word) :
    PageFault bootPool {parentDir} ∅ (startProgram firstProcess 1 ex) address where
  wf := bootMemory_wf (Finset.mem_singleton_self _)
  absent := by
    change (bootMemory parentDir).leafOf _ = none
    unfold Memory.leafOf
    rw [bootMemory_tableOf]
    rfl
  two := by
    refine ⟨1, 2, by decide, by decide, by decide, ?_, by decide, by decide, ?_⟩
    · exact (bootMemory_count parentDir 1).trans (if_pos (by decide))
    · exact (bootMemory_count parentDir 2).trans (if_pos (by decide))
  alone := rfl

/-- Behind the blocks that a file can have, `bmap` panics. -/
theorem loadPage_panics {fs : FileSystem} {task : Task} {ino : Nat} {m m' : Memory} {text : String}
    (blocks : bmapFrom fs ino ((1 + (address - task.startCode) / 1024).setWidth 32) 4 = .error text) :
    loadPage fs task ino m address ≠ .ok m' := by
  intro run
  unfold loadPage at run
  dsimp only at run
  split at run
  · cases run
  · rcases of_bind run with ⟨nr, looked, _⟩
    rw [blocks] at looked
    cases looked

theorem not_loaded_of_far {size : BitVec 32} (accepted : badHeader ex size = false) (program : InProgram ex address)
    (far : 7 + 512 + 512 * 512 ≤ (address.toNat - 0xC0000000) / 1024 + 4) : ¬ LoadsRight ex address := by
  intro loads
  have fault := firstProcess_fault ex address
  rcases loads _ 1 _ firstProcess _ _ _ (programDevice_opens accepted) fault with ⟨m', f, _, run, _⟩
  rw [doNoPage_started program fault, startProgram_task] at run
  have bounds := program.bounds
  have value := program.block
  apply loadPage_panics (bmapFrom_big _ (by decide) _) run
  · change bigBlock < ((1 + (address - 0xC0000000) / 1024).setWidth 32 : BitVec 32).toNat + 4
    rw [value, bigBlock]
    omega
  · change ((1 + (address - 0xC0000000) / 1024).setWidth 32 : BitVec 32).toNat + 4 < 2 ^ 31
    rw [value]
    omega

/-- When the difference changes its sign, the whole page is cleared. -/
theorem not_loaded_of_long {size : BitVec 32} (accepted : badHeader ex size = false) (program : InProgram ex address)
    (near : (address.toNat - 0xC0000000) / 1024 + 4 < 7 + 512 + 512 * 512)
    (long : ¬ (endData ex).toNat ≤ address.toNat + 4096 + 2 ^ 31) : ¬ LoadsRight ex address := by
  intro loads
  have fault := firstProcess_fault ex address
  rcases loads _ 1 _ firstProcess _ _ _ (programDevice_opens accepted) fault with ⟨m', f, bound, run, found, bytes⟩
  rcases page_of_blocks (programDevice ex size) program fault near (.inr fun s _ => bootMemory_tableOf s) with
    ⟨g, m₁, bound', run', found', cleared⟩
  have same := Except.ok.inj (run.symm.trans run')
  subst same
  have frames := Walk.found.inj (found.symm.trans found')
  have equal : f = g := by
    have one := congrArg BitVec.toNat frames
    rw [toNat_frameAddr bound, toNat_frameAddr bound'] at one
    omega
  subst equal
  have bounds := program.bounds
  have inFile : (1024 + (address.toNat - 0xC0000000) + 0) / blockSize < bigBlock := by
    rw [blockSize, bigBlock]
    omega
  have first := bytes 0 (by decide)
  rw [cleared 0 (by decide), if_neg (fun both => long both.1), programByte, if_pos (by omega),
    content_eq _ _ inFile] at first
  have five : byteOf (programDevice ex size) 1 (1024 + (address.toNat - 0xC0000000) + 0) = 5 := by
    have behind : 0 < (1024 + (address.toNat - 0xC0000000) + 0) / blockSize := by
      rw [blockSize]
      omega
    have zone := programDevice_zoneOf ex size 1 behind
    have start : (1024 + (address.toNat - 0xC0000000) + 0) % blockSize = 0 := by
      rw [blockSize]
      omega
    rw [byteOf, FileSystem.dataAt, zone, if_neg (by decide), start]
    rfl
  rw [five] at first
  exact absurd (Except.ok.inj first) (by decide)

end Boot

/-- The demand loader and the packer. -/
theorem demand_loading {ex : Header} {size : BitVec 32} {address : Word} (accepted : badHeader ex size = false)
    (program : InProgram ex address) : (LoadsRight ex address ↔ InReach ex address) ∧
    ∀ (entryPoint : BitVec 32) (img : List (BitVec 8)) fs ino cred,
      (img.length + 4095) / 4096 * 4096 ≤ 0x3000000 → HoldsFile fs ino (bin2aout entryPoint img) →
      isReg (fs.inode ino).mode = true → mayExecute (fs.inode ino) cred = true →
      ∃ ex, openProgram fs ino cred = .program ex ∧ badHeader ex (fs.inode ino).size = false ∧
        ∀ k pool dirs held address, address &&& 0xFFF = 0 → 0xC0000000 ≤ address → address < endData ex →
          PageFault pool dirs held (startProgram k ino ex) address →
          PageLoaded (startProgram k ino ex) fs address
            (fun o => .ok (img.getD (address.toNat - 0xC0000000 + o) 0)) := by
  constructor
  · constructor
    · intro loads
      by_contra out
      by_cases near : (address.toNat - 0xC0000000) / 1024 + 4 < 7 + 512 + 512 * 512
      · exact not_loaded_of_long accepted program near (fun reach => out ⟨near, reach⟩) loads
      · exact not_loaded_of_far accepted program (not_lt.mp near) loads
    · exact loads_in_reach program
  · intro entryPoint img fs ino cred small holds regular allowed
    have opened := packed_opens small holds regular allowed
    refine ⟨_, opened, packed_accepted small holds, ?_⟩
    intro k pool dirs held address aligned start inside fault
    exact packed_loads small holds opened aligned start inside fault

/-- A device with a file of at most seven blocks. -/
def fileDevice (file : List (BitVec 8)) : FileSystem where
  sb := blankDevice.sb
  disk := fun b i => file.getD (1024 * (b - 6) + i) 0
  inode := fun _ => { MInode.zero with
    mode := 0x81FF, size := BitVec.ofNat 32 file.length, zone := fun slot => BitVec.ofNat 16 (slot + 6) }

theorem fileDevice_holds {file : List (BitVec 8)} (short : file.length ≤ 7 * 1024) :
    HoldsFile (fileDevice file) 1 file where
  size := by
    change (BitVec.ofNat 32 file.length).toNat = file.length
    rw [BitVec.toNat_ofNat]
    omega
  bytes k inside := by
    have block : k / blockSize < 7 ∧ 1024 * (k / blockSize) + k % blockSize = k := by
      rw [blockSize]
      omega
    have inRange : k / blockSize < bigBlock := by
      rw [bigBlock]
      omega
    have zone : (fileDevice file).zoneOf (blockRef 1 (k / blockSize)) = k / blockSize + 6 := by
      unfold blockRef
      rw [if_pos block.1]
      change (BitVec.ofNat 16 (k / blockSize + 6)).toNat = _
      rw [BitVec.toNat_ofNat]
      omega
    rw [content_eq _ _ inRange, byteOf, FileSystem.dataAt, zone, if_neg (by omega)]
    change Except.ok (file.getD (1024 * (k / blockSize + 6 - 6) + k % blockSize) 0) = _
    rw [Nat.add_sub_cancel, block.2]

/-- One page of text. -/
def smallHeader : Header := ⟨zmagic, 4096, 0, 0, 0, 0xC0000000, 0, 0⟩

theorem small_programs_load : LoadsRight smallHeader 0xC0000000 ∧
    ∃ ex, openProgram (fileDevice (bin2aout 0xC0000000 [0x13, 0x05])) 1 ⟨0, 0⟩ = .program ex := by
  have accepted : badHeader smallHeader 5120 = false := by decide
  have program : InProgram smallHeader 0xC0000000 := ⟨by decide, by decide, by decide, by decide⟩
  constructor
  · exact (demand_loading accepted program).1.mpr ⟨by decide, by decide⟩
  · rcases (demand_loading accepted program).2 0xC0000000 [0x13, 0x05] (fileDevice (bin2aout 0xC0000000 [0x13, 0x05])) 1 ⟨0, 0⟩
      (by decide) (fileDevice_holds (by rw [bin2aout_length, padCode_length]; decide)) rfl rfl with ⟨ex, opened, _, _⟩
    exact ⟨ex, opened⟩

/-- Sizes that only fit because their sums wrap: 0x90000000 bytes of data with 0x70000000 bytes of bss. -/
def wrappedHeader : Header := ⟨zmagic, 0, 0x90000000, 0x70000000, 0x70000000, 0xC0000000, 0, 0⟩

theorem wrapped_sizes_misload : badHeader wrappedHeader 1024 = false ∧ InProgram wrappedHeader 0xC0000000 ∧
    ¬ LoadsRight wrappedHeader 0xC0000000 := by
  have accepted : badHeader wrappedHeader 1024 = false := by decide
  have program : InProgram wrappedHeader 0xC0000000 := ⟨by decide, by decide, by decide, by decide⟩
  exact ⟨accepted, program, not_loaded_of_long accepted program (by decide) (by decide)⟩

end K210Linux.Exec
