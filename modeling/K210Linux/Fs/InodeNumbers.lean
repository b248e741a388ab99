import K210Linux.Fs.Bitmap
import K210Linux.Lib.Outcome

namespace K210Linux.Fs

open Outcome

/-- The bit of inode number `n`. -/
def imapBit (sb : SuperBlock) (n : Nat) : Bool := mapBit sb.imap n

structure Mounted (sb : SuperBlock) : Prop where
  dev : sb.dev ≠ 0
  zero : imapBit sb 0 = true

/-- The number `n` was handed out: its block is there and its bit is set. -/
structure Taken (sb : SuperBlock) (n : Nat) : Prop where
  positive : 1 ≤ n
  small : n ≤ sb.ninodes.toNat
  bit : imapBit sb n = true

section New

variable {sb sb' : SuperBlock} {creator : Creator} {inode : MInode}

/-- What a `new_inode` that returns gives, and what it leaves of the super block. -/
theorem newInode_parts {sb sb' : SuperBlock} {creator : Creator} {new : Option MInode}
    (run : newInode sb creator = .ok (new, sb')) : (new = none → sb' = sb) ∧ ∀ inode, new = some inode →
      inode = freshInode sb.dev inode.num creator ∧ sb'.zmap = sb.zmap ∧ sb'.firstdatazone = sb.firstdatazone := by
  unfold newInode at run
  split at run
  · cases run
    exact ⟨fun _ => rfl, nofun⟩
  · split at run
    · cases run
      exact ⟨fun _ => rfl, nofun⟩
    · rcases of_bind run with ⟨⟨old, data⟩, -, rest⟩
      dsimp only at rest
      split at rest
      · cases rest
      · cases rest
        refine ⟨nofun, ?_⟩
        intro inode same
        cases same
        exact ⟨rfl, rfl, rfl⟩

theorem freeInode_parts {sb sb' : SuperBlock} {inode inode' : MInode} (run : freeInode sb inode = .ok (inode', sb')) :
    inode' = .zero ∧ sb'.zmap = sb.zmap ∧ sb'.firstdatazone = sb.firstdatazone := by
  unfold freeInode at run
  split_ifs at run
  · cases run
    exact ⟨rfl, rfl, rfl⟩
  · split at run
    · cases run
    · rcases of_bind run with ⟨r, -, rest⟩
      cases rest
      exact ⟨rfl, rfl, rfl⟩

/-- `new_inode` hands out a number whose bit was clear, and sets that bit. -/
theorem newInode_number (first : imapBit sb 0 = true) (call : newInode sb creator = .ok (some inode, sb')) :
    1 ≤ inode.num.toNat ∧ inode.num.toNat ≤ sb.ninodes.toNat ∧ imapBit sb inode.num.toNat = false ∧
      sb'.ninodes = sb.ninodes ∧ sb'.dev = sb.dev ∧
      ∀ n, imapBit sb' n = (imapBit sb n || decide (n = inode.num.toNat)) := by
  unfold newInode at call
  split at call
  · cases call
  · rename_i i j b found
    split at call
    · cases call
    · rename_i fits
      rw [not_or, not_le, not_lt] at fits
      obtain ⟨present, slot, low, clear⟩ := searchMap_found (le_refl _) found fits.1
      rcases of_bind call with ⟨r, stored, rest⟩
      rcases of_setBit stored with ⟨-, rfl⟩
      simp only [clear, Bool.false_eq_true, if_false] at rest
      cases rest
      have number : (BitVec.ofNat 16 (j + i * bitsPerBlock)).toNat = j + i * bitsPerBlock := by
        rw [BitVec.toNat_ofNat]
        have := sb.ninodes.isLt
        omega
      have wasClear : imapBit sb (j + i * bitsPerBlock) = false := (mapBit_at present fits.1).trans clear
      simp only [freshInode, number]
      refine ⟨?_, fits.2, wasClear, trivial, trivial, fun n => mapBit_markBit present fits.1⟩
      by_contra zero
      rw [show j + i * bitsPerBlock = 0 by omega, first] at wasClear
      cases wasClear

end New

section Free

variable {sb sb' : SuperBlock} {inode : MInode}

/-- An inode as `free_inode` is called with. -/
structure Freeable (sb : SuperBlock) (inode : MInode) : Prop where
  dev : inode.dev = sb.dev
  count : inode.count = 1
  nlinks : inode.nlinks = 0

theorem toNat_and_8192 (num : BitVec 16) : (num &&& 8192).toNat = num.toNat / 8192 % 2 * 8192 := by
  have bit : num.getLsbD 13 = decide (num.toNat / 8192 % 2 = 1) := by
    rw [← BitVec.testBit_toNat, Nat.testBit_eq_decide_div_mod_eq]
  rw [show (8192 : BitVec 16) = BitVec.twoPow 16 13 from rfl, BitVec.and_twoPow, bit]
  rcases Nat.mod_two_eq_zero_or_one (num.toNat / 8192) with even | odd
  · simp [even]
  · simp [odd]

theorem freeInode_eq (mounted : Mounted sb) (taken : Taken sb inode.num.toNat) (freeable : Freeable sb inode) :
    ∃ b, sb.imap (inode.num.toNat / bitsPerBlock) = some b ∧
      freeInode sb inode = .ok (.zero, { sb with
        imap := Function.update sb.imap (inode.num.toNat / bitsPerBlock)
          (some ⟨unmarkBit (inode.num.toNat / 8192 % 2 * 8192) b.data, true⟩) }) := by
  have bit := taken.bit
  have shift : (inode.num >>> 13).toNat = inode.num.toNat / bitsPerBlock := by
    rw [BitVec.toNat_ushiftRight, Nat.shiftRight_eq_div_pow, bitsPerBlock]
  unfold imapBit mapBit at bit
  split at bit
  · cases bit
  · rename_i b present
    refine ⟨b, present, ?_⟩
    have inRange : ¬ (inode.num < 1 ∨ sb.ninodes < inode.num) := by
      rw [not_or, BitVec.lt_def, BitVec.lt_def, show (1 : BitVec 16).toNat = 1 from rfl]
      have := taken.positive
      have := taken.small
      omega
    have some : ¬ inode.dev = 0 := freeable.dev ▸ mounted.dev
    -- the bit is bit 0 of a block, or behind the block
    have aligned : BitAligned (inode.num.toNat / 8192 % 2 * 8192) := by
      unfold BitAligned
      omega
    rw [freeInode, if_neg some, if_neg (by rw [freeable.count]; decide), if_neg (by simp [freeable.nlinks]),
      if_neg (by simp [freeable.dev]), if_neg inRange, shift, present, toNat_and_8192]
    simp only
    rw [bind_ok (clearBit_of_aligned aligned)]

/-- `free_inode` clears the bit of its own inode, and no other, exactly when the mask and the offset of the
    bit in its block are both 0. -/
theorem freeInode_clears_iff (mounted : Mounted sb) (taken : Taken sb inode.num.toNat)
    (freeable : Freeable sb inode) :
    ∃ sb', freeInode sb inode = .ok (.zero, sb') ∧ sb'.ninodes = sb.ninodes ∧ sb'.dev = sb.dev ∧
      ((∀ n, imapBit sb' n = (imapBit sb n && decide (n ≠ inode.num.toNat))) ↔ inode.num.toNat % 16384 = 0) := by
  obtain ⟨b, present, call⟩ := freeInode_eq mounted taken freeable
  refine ⟨_, call, rfl, rfl, ?_⟩
  constructor
  · intro exact_
    by_contra other
    have own := exact_ inode.num.toNat
    simp only [ne_eq, not_true_eq_false, decide_false, Bool.and_false] at own
    have kept : inode.num.toNat % bitsPerBlock ≠ inode.num.toNat / 8192 % 2 * 8192 := by
      rw [bitsPerBlock]
      omega
    have bit := taken.bit
    rw [imapBit, mapBit, present] at bit
    simp only [imapBit, mapBit, Function.update_self, bitAt_unmarkBit, bit, ne_eq, kept, not_false_eq_true, decide_true, Bool.and_true] at own
    cases own
  · intro aligned n
    have mask : inode.num.toNat / 8192 % 2 * 8192 = 0 := by omega
    rw [mask, imapBit, mapBit_unmarkBit present (by decide)]
    have number : 0 + inode.num.toNat / bitsPerBlock * bitsPerBlock = inode.num.toNat := by
      rw [bitsPerBlock]
      omega
    rw [number, imapBit]

end Free

/-- The device, and the numbers handed out since it was mounted and not yet freed. -/
structure Numbers where
  sb : SuperBlock
  out : List Nat

/-- A call of `new_inode`, or of `free_inode` on an inode that was handed out and that `allowed` admits. -/
inductive NumberStep (allowed : Nat → Prop) (s : Numbers) : Numbers → Prop
  | new {creator : Creator} {inode : MInode} {sb' : SuperBlock}
      (call : newInode s.sb creator = .ok (some inode, sb')) : NumberStep allowed s ⟨sb', inode.num.toNat :: s.out⟩
  | full {creator : Creator} {sb' : SuperBlock} (call : newInode s.sb creator = .ok (none, sb')) :
      NumberStep allowed s ⟨sb', s.out⟩
  | free {inode cleared : MInode} {sb' : SuperBlock} (held : inode.num.toNat ∈ s.out)
      (freeable : Freeable s.sb inode) (meets : allowed inode.num.toNat)
      (call : freeInode s.sb inode = .ok (cleared, sb')) :
      NumberStep allowed s ⟨sb', s.out.erase inode.num.toNat⟩

/-- Every number that is out has its bit set, and none is out twice. -/
structure Numbers.Wf (s : Numbers) : Prop where
  mounted : Mounted s.sb
  taken : ∀ n ∈ s.out, Taken s.sb n
  nodup : s.out.Nodup

theorem newInode_none {sb sb' : SuperBlock} {creator : Creator} (call : newInode sb creator = .ok (none, sb')) :
    sb' = sb := by
  unfold newInode at call
  split at call
  · cases call
    rfl
  · split at call
    · cases call
      rfl
    · rcases of_bind call with ⟨r, -, rest⟩
      simp only at rest
      split at rest <;> cases rest

theorem NumberStep.wf {s s' : Numbers} (step : NumberStep (fun n => n % 16384 = 0) s s') (wf : s.Wf) : s'.Wf := by
  cases step with
  | new call =>
    obtain ⟨positive, small, clear, ninodes, dev, bits⟩ := newInode_number wf.mounted.zero call
    refine ⟨⟨dev ▸ wf.mounted.dev, by rw [bits, wf.mounted.zero, Bool.true_or]⟩, ?_, ?_⟩
    · intro n isIn
      rcases List.mem_cons.mp isIn with rfl | old
      · exact ⟨positive, ninodes ▸ small, by rw [bits]; simp⟩
      · have before := wf.taken n old
        exact ⟨before.positive, ninodes ▸ before.small, by rw [bits, before.bit, Bool.true_or]⟩
    · refine List.nodup_cons.mpr ⟨?_, wf.nodup⟩
      intro old
      rw [(wf.taken _ old).bit] at clear
      cases clear
  | full call =>
    rw [newInode_none call]
    exact wf
  | free held freeable meets call =>
    obtain ⟨sb₁, frees, ninodes, dev, iff⟩ := freeInode_clears_iff wf.mounted (wf.taken _ held) freeable
    have bits := iff.mpr meets
    obtain ⟨-, rfl⟩ := Prod.mk.inj (Except.ok.inj (frees.symm.trans call))
    refine ⟨⟨dev ▸ wf.mounted.dev, ?_⟩, ?_, wf.nodup.erase _⟩
    · have positive := (wf.taken _ held).positive
      rw [bits, wf.mounted.zero, Bool.true_and, decide_eq_true_eq]
      omega
    · intro n isIn
      obtain ⟨other, old⟩ := (wf.nodup.mem_erase_iff).mp isIn
      have before := wf.taken n old
      exact ⟨before.positive, ninodes ▸ before.small, by rw [bits, before.bit]; simp [other]⟩

/-- In one state, `new_inode` hands out a number of the device that is free and not out, and `free_inode` clears the bit
    of its inode and no other. -/
structure Numbers.Sound (s : Numbers) (allowed : Nat → Prop) : Prop where
  new : ∀ creator inode sb', newInode s.sb creator = .ok (some inode, sb') →
    1 ≤ inode.num.toNat ∧ inode.num.toNat ≤ s.sb.ninodes.toNat ∧ imapBit s.sb inode.num.toNat = false ∧
      inode.num.toNat ∉ s.out
  free : ∀ inode, inode.num.toNat ∈ s.out → Freeable s.sb inode → allowed inode.num.toNat →
    ∃ sb', freeInode s.sb inode = .ok (.zero, sb') ∧
      ∀ n, imapBit sb' n = (imapBit s.sb n && decide (n ≠ inode.num.toNat))

theorem Numbers.Wf.sound {s : Numbers} (wf : s.Wf) : s.Sound fun n => n % 16384 = 0 where
  new creator inode sb' call := by
    obtain ⟨positive, small, clear, -⟩ := newInode_number wf.mounted.zero call
    refine ⟨positive, small, clear, ?_⟩
    intro old
    rw [(wf.taken _ old).bit] at clear
    cases clear
  free inode held freeable meets := by
    obtain ⟨sb', frees, -, -, iff⟩ := freeInode_clears_iff wf.mounted (wf.taken _ held) freeable
    exact ⟨sb', frees, iff.mpr meets⟩

/-- As long as `free_inode` only meets numbers that are multiples of 16384, the numbers are sound. -/
theorem inode_numbers_sound {sb : SuperBlock} {s : Numbers} (mounted : Mounted sb)
    (run : Relation.ReflTransGen (NumberStep fun n => n % 16384 = 0) ⟨sb, []⟩ s) :
    s.Sound fun n => n % 16384 = 0 := by
  have wf : s.Wf := by
    induction run with
    | refl => exact ⟨mounted, by simp, .nil⟩
    | tail _ step ih => exact step.wf ih
  exact wf.sound

def emptyMap : MapBlock := ⟨fun _ => 0, false⟩
def fullMap : MapBlock := ⟨fun _ => 255, false⟩

/-- A device with three blocks of inode bitmap, the first two of them full. -/
def sampleDevice : SuperBlock where
  ninodes := 20000
  nzones := 40000
  imapBlocks := 3
  zmapBlocks := 5
  firstdatazone := 700
  dev := 0x0101
  imap := fun i => if i < 2 then some fullMap else if i = 2 then some emptyMap else none
  zmap := fun _ => none

def sampleCreator : Creator := ⟨0, 0, 0⟩

theorem sampleDevice_mounted : Mounted sampleDevice := ⟨by decide, by decide⟩

theorem sampleDevice_new : ∃ inode sb', newInode sampleDevice sampleCreator = .ok (some inode, sb') ∧
    inode.num = 16384 := by
  have full : findFirstZero fullMap.data = bitsPerBlock := findFirstZero_none (by decide)
  have empty : findFirstZero emptyMap.data = 0 := findFirstZero_some (by decide)
  have search : searchMap sampleDevice.imap 0 bitsPerBlock none mapSlots = (2, 0, some emptyMap) := by
    simp [searchMap, mapSlots, sampleDevice, full, empty, bitsPerBlock]
  rw [newInode, search]
  exact ⟨_, _, rfl, rfl⟩

/-- Number 16384 is handed out, and giving it back clears its bit. -/
theorem sampleDevice_sound : ∃ s, Relation.ReflTransGen (NumberStep fun n => n % 16384 = 0) ⟨sampleDevice, []⟩ s ∧
    s.out = [16384] ∧ s.Sound fun n => n % 16384 = 0 := by
  obtain ⟨inode, sb', call, number⟩ := sampleDevice_new
  have step : NumberStep (fun n => n % 16384 = 0) ⟨sampleDevice, []⟩ ⟨sb', [inode.num.toNat]⟩ := .new call
  exact ⟨_, .single step, by rw [number]; rfl, inode_numbers_sound sampleDevice_mounted (.single step)⟩

def firstMap : MapBlock := ⟨fun n => if n = 0 then 1 else 0, false⟩

/-- A device with one block of inode bitmap, where only bit 0 is set. -/
def emptyDevice : SuperBlock :=
  { sampleDevice with ninodes := 100, imapBlocks := 1, imap := fun i => if i = 0 then some firstMap else none }

theorem emptyDevice_mounted : Mounted emptyDevice := ⟨by decide, by decide⟩

theorem emptyDevice_new : ∃ inode sb', newInode emptyDevice sampleCreator = .ok (some inode, sb') ∧ inode.num = 1 := by
  have first : findFirstZero firstMap.data = 1 := findFirstZero_some (by decide)
  have search : searchMap emptyDevice.imap 0 bitsPerBlock none mapSlots = (0, 1, some firstMap) := by
    simp [searchMap, mapSlots, emptyDevice, first, bitsPerBlock]
  rw [newInode, search]
  exact ⟨_, _, rfl, rfl⟩

/-- The first inode is number 1, and giving it back does not clear its bit. -/
theorem free_inode_keeps_bit : ∃ s, Mounted emptyDevice ∧
    Relation.ReflTransGen (NumberStep fun _ => True) ⟨emptyDevice, []⟩ s ∧ ¬ s.Sound fun _ => True := by
  obtain ⟨inode, sb', call, number⟩ := emptyDevice_new
  have step : NumberStep (fun _ => True) ⟨emptyDevice, []⟩ ⟨sb', [inode.num.toNat]⟩ := .new call
  refine ⟨_, emptyDevice_mounted, .single step, ?_⟩
  intro sound
  obtain ⟨positive, small, -, ninodes, dev, bits⟩ := newInode_number emptyDevice_mounted.zero call
  have mounted : Mounted sb' := ⟨dev ▸ emptyDevice_mounted.dev, by rw [bits, emptyDevice_mounted.zero, Bool.true_or]⟩
  have taken : Taken sb' inode.num.toNat := ⟨positive, ninodes ▸ small, by rw [bits]; simp⟩
  let gone : MInode := { inode with dev := sb'.dev, count := 1, nlinks := 0 }
  have freeable : Freeable sb' gone := ⟨rfl, rfl, rfl⟩
  obtain ⟨sb₁, frees, exactly⟩ := sound.free gone (List.mem_singleton_self _) freeable trivial
  have taken' : Taken sb' gone.num.toNat := taken
  obtain ⟨sb₂, frees', -, -, iff⟩ := freeInode_clears_iff mounted taken' freeable
  obtain ⟨-, rfl⟩ := Prod.mk.inj (Except.ok.inj (frees.symm.trans frees'))
  have aligned := iff.mp exactly
  rw [show gone.num = inode.num from rfl, number] at aligned
  cases aligned

end K210Linux.Fs
