import K210Linux.Fs.BlockMap

/-! When `new_block` and `new_inode` find what is free. -/

namespace K210Linux.Fs

open Outcome

section Zones

variable {fs : FileSystem}

/-- Every bit that stands for a zone of the device is set, as far as there are blocks of the bitmap. -/
def ZonesTaken (sb : SuperBlock) : Prop :=
  ∀ z, sb.firstdatazone.toNat ≤ z → z < sb.nzones.toNat → ∀ b,
    sb.zmap ((z + 1 - sb.firstdatazone.toNat) / bitsPerBlock) = some b →
      bitAt b.data ((z + 1 - sb.firstdatazone.toNat) % bitsPerBlock) = true

/-- A zone is free, and its bit is one of the first 64 of its block of the bitmap. On a device whose first zone is 0 that
    zone must not be free, because its number is what `new_block` returns without one. -/
def ZoneInReach (sb : SuperBlock) : Prop :=
  (∃ z, sb.firstdatazone.toNat ≤ z ∧ z < sb.nzones.toNat ∧ Findable sb.zmap (z + 1 - sb.firstdatazone.toNat)) ∧
    ¬ (sb.firstdatazone = 0 ∧ Findable sb.zmap 1)

/-- The bit that `new_block` takes next is in a byte whose doubleword is not aligned. -/
def NextHalts (sb : SuperBlock) : Prop := ∃ n, NextBit sb.zmap n ∧ ¬ BitAligned n

theorem not_nextHalts_of_none (none : ∀ m, m / bitsPerBlock < mapSlots → ¬ Findable fs.sb.zmap m) : ¬ NextHalts fs.sb := by
  rintro ⟨n, next, -⟩
  exact none n next.slot next.found

theorem BitTaken.not_nextHalts {zmap : Nat → Option MapBlock} {n : Nat} (marked : BitTaken fs zmap n) : ¬ NextHalts fs.sb := by
  rintro ⟨m, next, bad⟩
  have same : m = n := le_antisymm (next.least n marked.next.found) (marked.next.least m next.found)
  exact bad (same ▸ marked.aligned)

theorem newBlock_zero_iff (first : mapBit fs.sb.zmap 0 = true) :
    (∃ fs', newBlock fs = .ok (0, fs')) ↔ ¬ ZoneInReach fs.sb ∧ ¬ NextHalts fs.sb := by
  have firstZone : fs.sb.firstdatazone = 0 ↔ fs.sb.firstdatazone.toNat = 0 :=
    ⟨fun zero => by rw [zero]; rfl, fun zero => BitVec.eq_of_toNat_eq zero⟩
  have took := newBlock_taking fs
  generalize newBlock fs = result at took
  cases took with
  | halted next bad =>
    refine iff_of_false ?_ fun none => none.2 ⟨_, next, bad⟩
    rintro ⟨fs', lost⟩
    cases lost
  | full none =>
    refine iff_of_true ⟨fs, rfl⟩ ⟨?_, not_nextHalts_of_none none⟩
    rintro ⟨⟨z, above, below, reach⟩, -⟩
    refine none _ ?_ reach
    have large := fs.sb.nzones.isLt
    rw [bitsPerBlock, mapSlots]
    omega
  | behind marked outside =>
    refine iff_of_true ⟨_, rfl⟩ ⟨?_, marked.not_nextHalts⟩
    rintro ⟨⟨z, above, below, reach⟩, -⟩
    have le := marked.next.least _ reach
    omega
  | @taken n z zmap marked zone inside =>
    have positive := marked.positive first
    have number : z + 1 - fs.sb.firstdatazone.toNat = n := by omega
    constructor
    · rintro ⟨fs', run⟩
      have zero : z = 0 := (Prod.mk.inj (Except.ok.inj run)).1
      refine ⟨?_, marked.not_nextHalts⟩
      rintro ⟨-, apart⟩
      have one : n = 1 := by omega
      exact apart ⟨firstZone.mpr (by omega), one ▸ marked.next.found⟩
    · rintro ⟨reach, -⟩
      have zero : fs.sb.firstdatazone = 0 ∧ Findable fs.sb.zmap 1 := by
        by_contra apart
        exact reach ⟨⟨z, by omega, inside, by rw [number]; exact marked.next.found⟩, apart⟩
      have one := marked.next.least 1 zero.2
      have value : z = 0 := by
        rw [zone, firstZone.mp zero.1]
        omega
      subst value
      exact ⟨_, rfl⟩

end Zones

section Inodes

variable {sb : SuperBlock}

def InodesTaken (sb : SuperBlock) : Prop :=
  ∀ n, 1 ≤ n → n ≤ sb.ninodes.toNat → ∀ b, sb.imap (n / bitsPerBlock) = some b → bitAt b.data (n % bitsPerBlock) = true

/-- An inode is free, and its bit is one of the first 64 of its block of the bitmap. -/
def InodeInReach (sb : SuperBlock) : Prop := ∃ n, 1 ≤ n ∧ n ≤ sb.ninodes.toNat ∧ Findable sb.imap n

theorem newInode_none_iff (first : mapBit sb.imap 0 = true) (creator : Creator) :
    (∃ sb', newInode sb creator = .ok (none, sb')) ↔ ¬ InodeInReach sb := by
  rcases searchMap_cases sb.imap with
    ⟨i, j, b, search, bound, small, present, clear, findable, least⟩ | ⟨j, bh, search, full, none⟩
  · have notFirst : j + i * bitsPerBlock ≠ 0 := by
      intro zero
      rw [zero] at findable
      exact not_findable_zero first findable
    unfold newInode
    rw [search]
    dsimp only
    by_cases behind : sb.ninodes.toNat < j + i * bitsPerBlock
    · rw [if_pos (.inr behind)]
      refine iff_of_true ⟨_, rfl⟩ ?_
      rintro ⟨n, -, below, reach⟩
      have le := least n reach
      omega
    · have inside : ¬ (bitsPerBlock ≤ j ∨ sb.ninodes.toNat < j + i * bitsPerBlock) := by
        rw [not_or]
        refine ⟨?_, behind⟩
        rw [bitsPerBlock]
        omega
      rw [if_neg inside]
      refine iff_of_false ?_ (not_not.mpr ⟨_, by omega, not_lt.mp behind, findable⟩)
      rintro ⟨sb', run⟩
      rcases of_bind run with ⟨r, stored, rest⟩
      rcases of_setBit stored with ⟨-, rfl⟩
      simp only [clear, Bool.false_eq_true, if_false] at rest
      cases (Prod.mk.inj (Except.ok.inj rest)).1
  · refine iff_of_true ?_ ?_
    · unfold newInode
      rw [search]
      cases bh with
      | none => exact ⟨sb, rfl⟩
      | some b =>
        dsimp only
        rw [if_pos (.inl full)]
        exact ⟨sb, rfl⟩
    · rintro ⟨n, -, below, reach⟩
      refine none n ?_ reach
      have large := sb.ninodes.isLt
      rw [bitsPerBlock, mapSlots]
      omega

end Inodes

/-- `find_first_zero` looks at the same first word of a block again and again: what is free behind it is not found. -/
theorem allocation_complete_iff {fs : FileSystem} (zones : mapBit fs.sb.zmap 0 = true) (inodes : mapBit fs.sb.imap 0 = true)
    (creator : Creator) :
    ((∀ fs', newBlock fs = .ok (0, fs') → ZonesTaken fs.sb) ↔
      ZonesTaken fs.sb ∨ ZoneInReach fs.sb ∨ NextHalts fs.sb) ∧
    ((∀ sb', newInode fs.sb creator = .ok (none, sb') → InodesTaken fs.sb) ↔
      InodesTaken fs.sb ∨ InodeInReach fs.sb) := by
  constructor
  · rw [← exists_imp, newBlock_zero_iff zones]
    tauto
  · rw [← exists_imp, newInode_none_iff inodes creator]
    tauto

/-- A device whose bitmaps have the first `k` bytes set and, of the next one, bit 0. -/
def filledDevice (k : Nat) : FileSystem :=
  let map : Nat → Option MapBlock := fun i =>
    if i = 0 then some ⟨fun n => if n < k then 0xFF else if n = k then 1 else 0, false⟩ else none
  { blankDevice with sb := { blankDevice.sb with ninodes := 100, imap := map, zmap := map } }

theorem new_device_allocates :
    (∀ fs', newBlock (filledDevice 0) = .ok (0, fs') → ZonesTaken (filledDevice 0).sb) ∧
    (∀ sb', newInode (filledDevice 0).sb ⟨0, 0, 0⟩ = .ok (none, sb') → InodesTaken (filledDevice 0).sb) := by
  have both := allocation_complete_iff (by decide : mapBit (filledDevice 0).sb.zmap 0 = true) (by decide) ⟨0, 0, 0⟩
  have bit : Findable (filledDevice 0).sb.zmap 1 := ⟨by decide, _, rfl, by decide⟩
  have zones : ZoneInReach (filledDevice 0).sb := ⟨⟨10, by decide, by decide, bit⟩, fun zero => absurd zero.1 (by decide)⟩
  have inodes : InodeInReach (filledDevice 0).sb := ⟨1, le_refl _, by decide, bit⟩
  exact ⟨both.1.mpr (.inr (.inl zones)), both.2.mpr (.inr inodes)⟩

/-- With 64 zones and inodes in use nothing more is found, though 26 zones and 36 inodes are free. -/
theorem filled_word_stops_allocation :
    (∃ fs', newBlock (filledDevice 8) = .ok (0, fs')) ∧ ¬ ZonesTaken (filledDevice 8).sb ∧
    (∃ sb', newInode (filledDevice 8).sb ⟨0, 0, 0⟩ = .ok (none, sb')) ∧ ¬ InodesTaken (filledDevice 8).sb := by
  have zone : (newBlock (filledDevice 8)).map Prod.fst = .ok 0 := by decide +kernel
  have inode : (newInode (filledDevice 8).sb ⟨0, 0, 0⟩).map (fun r => r.1.isNone) = .ok true := by decide +kernel
  rcases of_map zone with ⟨⟨z, fs'⟩, block, rfl⟩
  rcases of_map inode with ⟨⟨n, sb'⟩, node, none⟩
  cases n with
  | some _ => cases none
  | none =>
    refine ⟨⟨fs', block⟩, ?_, ⟨sb', node⟩, ?_⟩
    · intro taken
      exact absurd (taken 74 (by decide) (by decide) _ rfl) (by decide)
    · intro taken
      exact absurd (taken 65 (by decide) (by decide) _ rfl) (by decide)

end K210Linux.Fs
