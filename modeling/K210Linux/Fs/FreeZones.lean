import K210Linux.Fs.Zones
import K210Linux.Lib.Outcome

/-! The bits that `new_block` finds, and how many zones it takes before a bit whose doubleword is not aligned. -/

namespace K210Linux.Fs

open Outcome

variable {map : Nat → Option MapBlock} {i j left : Nat} {bh : Option MapBlock}

/-- A clear bit of a bitmap block that `find_first_zero` looks at: one of its first 64. -/
def Findable (map : Nat → Option MapBlock) (n : Nat) : Prop :=
  n % bitsPerBlock < 64 ∧ ∃ b, map (n / bitsPerBlock) = some b ∧ bitAt b.data (n % bitsPerBlock) = false

/-- `find_first_zero` returns the first of the first 64 bits that is clear. -/
theorem findFirstZero_least {block : Block} {k : Nat} (small : k < 64) (clear : bitAt block k = false) :
    findFirstZero block ≤ k := by
  cases first : (List.range 64).find? fun j => !bitAt block j with
  | some j =>
    rw [findFirstZero_some first]
    by_contra before
    have set := (List.find?_range_eq_some.mp first).2.2 k (not_le.mp before)
    rw [clear] at set
    cases set
  | none =>
    have set := List.find?_range_eq_none.mp first k small
    rw [clear] at set
    cases set

/-- What the search through the blocks of a bitmap from `i` on came to. -/
inductive Searched (map : Nat → Option MapBlock) (i left : Nat) : Nat × Nat × Option MapBlock → Prop
  | found {i' j' : Nat} {b : MapBlock} (bound : i' < i + left) (present : map i' = some b) (small : j' < 64)
      (clear : bitAt b.data j' = false)
      (least : ∀ n, i ≤ n / bitsPerBlock → Findable map n → j' + i' * bitsPerBlock ≤ n) :
      Searched map i left (i', j', some b)
  | exhausted {j' : Nat} {bh : Option MapBlock} (full : bitsPerBlock ≤ j')
      (none : ∀ n, i ≤ n / bitsPerBlock → n / bitsPerBlock < i + left → ¬ Findable map n) :
      Searched map i left (i + left, j', bh)

/-- A search that goes on behind block `i` because there is no findable bit in it. -/
theorem Searched.skip {result : Nat × Nat × Option MapBlock} (rest : Searched map (i + 1) left result)
    (none : ∀ n, n / bitsPerBlock = i → ¬ Findable map n) : Searched map i (left + 1) result := by
  have later : ∀ n, i ≤ n / bitsPerBlock → Findable map n → i + 1 ≤ n / bitsPerBlock := by
    intro n from_i findable
    by_contra here
    exact none n (by omega) findable
  cases rest with
  | found bound present small clear least =>
    exact .found (by omega) present small clear fun n from_i findable => least n (later n from_i findable) findable
  | exhausted full rest =>
    rw [Nat.add_right_comm]
    refine .exhausted full fun n from_i before findable => ?_
    exact rest n (later n from_i findable) (by omega) findable

theorem searchMap_searched (none : bitsPerBlock ≤ j) : Searched map i left (searchMap map i j bh left) := by
  induction left generalizing i j bh with
  | zero => exact .exhausted none fun n from_i before => by omega
  | succ left ih =>
    unfold searchMap
    cases here : map i with
    | none =>
      refine (ih none).skip ?_
      rintro n rfl ⟨-, b, present, -⟩
      rw [here] at present
      cases present
    | some b =>
      dsimp only
      split
      · rename_i has
        rcases findFirstZero_clear has with ⟨small, clear⟩
        refine .found (by omega) here small clear ?_
        rintro n from_i ⟨low, b', present, zero⟩
        have split := Nat.div_add_mod n bitsPerBlock
        by_cases same : n / bitsPerBlock = i
        · rw [same, here] at present
          cases present
          have least := findFirstZero_least low zero
          rw [same] at split
          rw [bitsPerBlock] at *
          omega
        · rw [bitsPerBlock] at *
          omega
      · rename_i full
        refine (ih (not_lt.mp full)).skip ?_
        rintro n rfl ⟨low, b', present, zero⟩
        rw [here] at present
        cases present
        have least := findFirstZero_least low zero
        rw [bitsPerBlock] at *
        omega

/-- The search of `new_block` and `new_inode`, through all blocks of the bitmap. -/
theorem searchMap_cases (map : Nat → Option MapBlock) :
    (∃ i j b, searchMap map 0 bitsPerBlock none mapSlots = (i, j, some b) ∧ i < mapSlots ∧ j < 64 ∧
      map i = some b ∧ bitAt b.data j = false ∧ Findable map (j + i * bitsPerBlock) ∧
      ∀ n, Findable map n → j + i * bitsPerBlock ≤ n) ∨
    (∃ j bh, searchMap map 0 bitsPerBlock none mapSlots = (mapSlots, j, bh) ∧ bitsPerBlock ≤ j ∧
      ∀ n, n / bitsPerBlock < mapSlots → ¬ Findable map n) := by
  have searched : Searched map 0 mapSlots (searchMap map 0 bitsPerBlock none mapSlots) := searchMap_searched (le_refl _)
  generalize searchMap map 0 bitsPerBlock none mapSlots = result at searched
  cases searched with
  | @found i j b bound present small clear least =>
    have block : (j + i * bitsPerBlock) / bitsPerBlock = i ∧ (j + i * bitsPerBlock) % bitsPerBlock = j := by
      rw [bitsPerBlock]
      omega
    have findable : Findable map (j + i * bitsPerBlock) := by
      unfold Findable
      rw [block.1, block.2]
      exact ⟨small, b, present, clear⟩
    exact .inl ⟨i, j, b, rfl, by omega, small, present, clear, findable, fun n => least n (Nat.zero_le _)⟩
  | exhausted full rest =>
    refine .inr ⟨_, _, by rw [Nat.zero_add], full, fun n before => rest n (Nat.zero_le _) (by omega)⟩

theorem not_findable_zero (first : mapBit map 0 = true) : ¬ Findable map 0 := by
  rintro ⟨-, b, present, clear⟩
  unfold mapBit at first
  rw [present] at first
  dsimp only at first
  rw [clear] at first
  cases first

/-- The bit that the search comes to. -/
structure NextBit (map : Nat → Option MapBlock) (n : Nat) : Prop where
  found : Findable map n
  slot : n / bitsPerBlock < mapSlots
  least : ∀ m, Findable map m → n ≤ m

section Zones

variable {fs fs' : FileSystem} {n z k : Nat}

/-- The free zones that `find_first_zero` finds, now or later. -/
def freeZones (sb : SuperBlock) : Finset Nat :=
  (Finset.Ico sb.firstdatazone.toNat sb.nzones.toNat).filter fun z =>
    (z + 1 - sb.firstdatazone.toNat) % bitsPerBlock < 64 ∧
      (sb.zmap ((z + 1 - sb.firstdatazone.toNat) / bitsPerBlock)).any
        fun b => !bitAt b.data ((z + 1 - sb.firstdatazone.toNat) % bitsPerBlock)

theorem mem_freeZones (sb : SuperBlock) (z : Nat) : z ∈ freeZones sb ↔
    sb.firstdatazone.toNat ≤ z ∧ z < sb.nzones.toNat ∧ Findable sb.zmap (z + 1 - sb.firstdatazone.toNat) := by
  unfold freeZones Findable
  rw [Finset.mem_filter, Finset.mem_Ico, and_assoc, Option.any_eq_true]
  simp only [Bool.not_eq_true']

/-- A bit that was set is found no more, and the others as before. -/
theorem findable_markBit {map : Nat → Option MapBlock} {i j n : Nat} {b : MapBlock} (present : map i = some b)
    (inside : j < bitsPerBlock) :
    Findable (Function.update map i (some ⟨markBit j b.data, true⟩)) n ↔
      Findable map n ∧ n ≠ j + i * bitsPerBlock := by
  have split := Nat.div_add_mod n bitsPerBlock
  unfold Findable
  by_cases block : n / bitsPerBlock = i
  · rw [block, Function.update_self, present]
    simp only [Option.some.injEq, exists_eq_left', bitAt_markBit]
    rw [Bool.or_eq_false_iff, decide_eq_false_iff_not, and_assoc]
    have same : ¬ n % bitsPerBlock = j ↔ n ≠ j + i * bitsPerBlock := by
      rw [block] at split
      rw [bitsPerBlock] at *
      omega
    rw [same]
  · rw [Function.update_of_ne block]
    have other : n ≠ j + i * bitsPerBlock := by
      intro same
      apply block
      rw [bitsPerBlock] at *
      omega
    exact ⟨fun found => ⟨found, other⟩, fun both => both.1⟩


/-- The bit that `new_block` takes is set in the bitmap `zmap`. -/
structure BitTaken (fs : FileSystem) (zmap : Nat → Option MapBlock) (n : Nat) : Prop where
  next : NextBit fs.sb.zmap n
  aligned : BitAligned n
  bits : ∀ m, mapBit zmap m = (mapBit fs.sb.zmap m || decide (m = n))
  findable : ∀ m, Findable zmap m ↔ Findable fs.sb.zmap m ∧ m ≠ n

/-- What `new_block` does. -/
inductive Taking (fs : FileSystem) : Except String (Nat × FileSystem) → Prop
  | halted {n : Nat} (next : NextBit fs.sb.zmap n) (bad : ¬ BitAligned n) : Taking fs (.error misaligned)
  | full (none : ∀ m, m / bitsPerBlock < mapSlots → ¬ Findable fs.sb.zmap m) : Taking fs (.ok (0, fs))
  | behind {n : Nat} {zmap : Nat → Option MapBlock} (marked : BitTaken fs zmap n)
      (outside : fs.sb.nzones.toNat ≤ n + fs.sb.firstdatazone.toNat - 1) : Taking fs (.ok (0, { fs with sb.zmap := zmap }))
  | taken {n z : Nat} {zmap : Nat → Option MapBlock} (marked : BitTaken fs zmap n) (zone : z = n + fs.sb.firstdatazone.toNat - 1)
      (inside : z < fs.sb.nzones.toNat) :
      Taking fs (.ok (z, FileSystem.setBlock { fs with sb.zmap := zmap } z (clearBlock (fs.disk z))))

/-- What the search of `new_block` comes to, and what `set_bit` does with it. -/
inductive FreeBit (fs : FileSystem) : Nat × Nat × Option MapBlock → Prop
  | missing {j : Nat} {bh : Option MapBlock} (none : ∀ m, m / bitsPerBlock < mapSlots → ¬ Findable fs.sb.zmap m) :
      FreeBit fs (mapSlots, j, bh)
  | found {i j : Nat} {b : MapBlock} (bound : i < mapSlots) (inside : j < bitsPerBlock) (clear : bitAt b.data j = false)
      (next : NextBit fs.sb.zmap (j + i * bitsPerBlock)) (offset : BitAligned j ↔ BitAligned (j + i * bitsPerBlock))
      (marked : BitAligned j →
        BitTaken fs (Function.update fs.sb.zmap i (some ⟨markBit j b.data, true⟩)) (j + i * bitsPerBlock)) :
      FreeBit fs (i, j, some b)

theorem searchMap_freeBit (fs : FileSystem) : FreeBit fs (searchMap fs.sb.zmap 0 bitsPerBlock none mapSlots) := by
  rcases searchMap_cases fs.sb.zmap with
    ⟨i, j, b, search, bound, small, present, clear, findable, least⟩ | ⟨j, bh, search, -, none⟩
  · have inside : j < bitsPerBlock := by
      rw [bitsPerBlock]
      omega
    have slot : (j + i * bitsPerBlock) / bitsPerBlock = i ∧ (j + i * bitsPerBlock) % bitsPerBlock = j := by
      rw [bitsPerBlock] at *
      omega
    have next : NextBit fs.sb.zmap (j + i * bitsPerBlock) := ⟨findable, slot.1.symm ▸ bound, least⟩
    have offset := bitAligned_mod (j + i * bitsPerBlock)
    rw [slot.2] at offset
    rw [search]
    refine .found bound inside clear next offset fun aligned => ⟨next, offset.mp aligned, ?_, ?_⟩
    · exact fun m => mapBit_markBit present inside
    · exact fun m => findable_markBit present inside
  · rw [search]
    exact .missing none

theorem newBlock_taking (fs : FileSystem) : Taking fs (newBlock fs) := by
  have search := searchMap_freeBit fs
  unfold newBlock
  generalize searchMap fs.sb.zmap 0 bitsPerBlock none mapSlots = result at search
  cases search with
  | @missing j bh none =>
    cases bh with
    | none => exact .full none
    | some b =>
      simp only
      rw [if_pos (.inl (le_refl _))]
      exact .full none
  | @found i j b bound inside clear next offset marked =>
    simp only
    rw [if_neg (not_or.mpr ⟨not_le.mpr bound, not_le.mpr inside⟩)]
    by_cases aligned : BitAligned j
    · rw [bind_ok (setBit_of_aligned aligned)]
      simp only [clear, Bool.false_eq_true, if_false]
      split
      · exact .behind (marked aligned) ‹_›
      · exact .taken (marked aligned) rfl (not_le.mp ‹_›)
    · rw [setBit_of_not aligned]
      exact .halted next (mt offset.mpr aligned)

/-- Bit `m` stands for no zone that `new_block` can return. -/
def NoZone (sb : SuperBlock) (m : Nat) : Prop :=
  sb.nzones.toNat ≤ m + sb.firstdatazone.toNat - 1 ∨ m + sb.firstdatazone.toNat - 1 = 0

/-- The free zones in front of bit `n`. -/
def zonesBefore (sb : SuperBlock) (n : Nat) : Finset Nat :=
  (freeZones sb).filter fun z => z + 1 - sb.firstdatazone.toNat < n

/-- Before `new_block` comes to a bit whose doubleword is not aligned it finds `k` zones, or none any more. -/
def AlignedFor (sb : SuperBlock) (k : Nat) : Prop :=
  ∀ n, Findable sb.zmap n → n / bitsPerBlock < mapSlots → ¬ BitAligned n →
    (∃ m < n, Findable sb.zmap m ∧ NoZone sb m) ∨ k ≤ (zonesBefore sb n).card

theorem alignedFor_zero (sb : SuperBlock) : AlignedFor sb 0 := fun _ _ _ _ => .inr (Nat.zero_le _)

theorem AlignedFor.mono {sb : SuperBlock} {k' : Nat} (aligned : AlignedFor sb k) (fewer : k' ≤ k) : AlignedFor sb k' := by
  intro n found slot bad
  rcases aligned n found slot bad with ends | enough
  · exact .inl ends
  · exact .inr (fewer.trans enough)

theorem mem_zonesBefore {sb : SuperBlock} : z ∈ zonesBefore sb n ↔
    (sb.firstdatazone.toNat ≤ z ∧ z < sb.nzones.toNat ∧ Findable sb.zmap (z + 1 - sb.firstdatazone.toNat)) ∧
      z + 1 - sb.firstdatazone.toNat < n := by
  rw [zonesBefore, Finset.mem_filter, mem_freeZones]

/-- In front of the bit that is taken next there is no free zone. -/
theorem NextBit.zonesBefore_eq {sb : SuperBlock} (next : NextBit sb.zmap n) : zonesBefore sb n = ∅ := by
  rw [Finset.eq_empty_iff_forall_notMem]
  intro z isIn
  rcases mem_zonesBefore.mp isIn with ⟨⟨-, -, found⟩, before⟩
  exact absurd (next.least _ found) (not_le.mpr before)

section Mark

variable {zmap : Nat → Option MapBlock} (marked : BitTaken fs zmap n)

include marked

theorem BitTaken.later {m : Nat} (found : Findable fs.sb.zmap m) (bad : ¬ BitAligned m) : n < m ∧ Findable zmap m := by
  have other : m ≠ n := by
    rintro rfl
    exact bad marked.aligned
  exact ⟨lt_of_le_of_ne (marked.next.least m found) other.symm, (marked.findable m).mpr ⟨found, other⟩⟩

/-- A bit that is no zone ends the search for zones. -/
theorem BitTaken.ends (none : NoZone fs.sb n) (k : Nat) : AlignedFor fs.sb k := by
  intro m found slot bad
  exact .inl ⟨n, (marked.later found bad).1, marked.next.found, none⟩

theorem BitTaken.positive (first : mapBit fs.sb.zmap 0 = true) : 0 < n := by
  rw [Nat.pos_iff_ne_zero]
  rintro rfl
  exact not_findable_zero first marked.next.found

theorem BitTaken.clear : mapBit fs.sb.zmap n = false := by
  rcases marked.next.found with ⟨-, b, present, clear⟩
  unfold mapBit
  rw [present]
  exact clear

theorem BitTaken.freeZones (first : mapBit fs.sb.zmap 0 = true) :
    freeZones { fs.sb with zmap } = (freeZones fs.sb).erase (n + fs.sb.firstdatazone.toNat - 1) := by
  have positive := marked.positive first
  ext z
  rw [Finset.mem_erase, mem_freeZones, mem_freeZones]
  simp only [marked.findable]
  constructor
  · rintro ⟨above, below, found, other⟩
    exact ⟨by omega, above, below, found⟩
  · rintro ⟨other, above, below, found⟩
    exact ⟨above, below, found, by omega⟩

/-- The zone that is taken is counted once. -/
theorem BitTaken.alignedFor_iff (first : mapBit fs.sb.zmap 0 = true)
    (inside : n + fs.sb.firstdatazone.toNat - 1 < fs.sb.nzones.toNat) (zone : n + fs.sb.firstdatazone.toNat - 1 ≠ 0) :
    AlignedFor fs.sb (k + 1) ↔ AlignedFor { fs.sb with zmap } k := by
  have positive := marked.positive first
  have number : n + fs.sb.firstdatazone.toNat - 1 + 1 - fs.sb.firstdatazone.toNat = n := by omega
  have noZone : ∀ m, Findable fs.sb.zmap m → NoZone fs.sb m → Findable zmap m := by
    intro m found none
    refine (marked.findable m).mpr ⟨found, ?_⟩
    rintro rfl
    rcases none with outside | zero
    · exact absurd inside (not_lt.mpr outside)
    · exact zone zero
  have count : ∀ m, n < m → (zonesBefore { fs.sb with zmap } m).card + 1 = (zonesBefore fs.sb m).card := by
    intro m later
    have erased : zonesBefore { fs.sb with zmap } m = (zonesBefore fs.sb m).erase (n + fs.sb.firstdatazone.toNat - 1) := by
      unfold zonesBefore
      rw [marked.freeZones first, Finset.filter_erase]
    rw [erased]
    apply Finset.card_erase_add_one
    rw [mem_zonesBefore, number]
    exact ⟨⟨by omega, inside, marked.next.found⟩, later⟩
  constructor
  · intro aligned m found slot bad
    have old := ((marked.findable m).mp found).1
    rcases aligned m old slot bad with ⟨m', before, found', none⟩ | enough
    · exact .inl ⟨m', before, noZone m' found' none, none⟩
    · have one := count m (marked.later old bad).1
      exact .inr (by omega)
  · intro aligned m found slot bad
    rcases marked.later found bad with ⟨later, still⟩
    rcases aligned m still slot bad with ⟨m', before, found', none⟩ | enough
    · exact .inl ⟨m', before, ((marked.findable m').mp found').1, none⟩
    · have one := count m later
      exact .inr (by omega)

end Mark

/-- `new_block` returns just if its next bit is aligned. -/
theorem alignedFor_succ (first : mapBit fs.sb.zmap 0 = true) (k : Nat) : AlignedFor fs.sb (k + 1) ↔
    ∃ z fs', newBlock fs = .ok (z, fs') ∧ (z ≠ 0 → AlignedFor fs'.sb k) := by
  have took := newBlock_taking fs
  generalize newBlock fs = result at took
  cases took with
  | @halted n next bad =>
    constructor
    · intro aligned
      rcases aligned n next.found next.slot bad with ⟨m, before, found, -⟩ | enough
      · exact absurd (next.least m found) (not_le.mpr before)
      · rw [next.zonesBefore_eq] at enough
        cases enough
    · rintro ⟨z, fs', lost, -⟩
      cases lost
  | full none => exact iff_of_true (fun n found slot => absurd found (none n slot)) ⟨0, fs, rfl, fun some => absurd rfl some⟩
  | behind marked outside => exact iff_of_true (marked.ends (.inl outside) _) ⟨0, _, rfl, fun some => absurd rfl some⟩
  | @taken n z zmap marked zone inside =>
    subst zone
    by_cases zero : n + fs.sb.firstdatazone.toNat - 1 = 0
    · exact iff_of_true (marked.ends (.inr zero) _) ⟨_, _, rfl, fun some => absurd zero some⟩
    · rw [marked.alignedFor_iff first inside zero]
      constructor
      · exact fun aligned => ⟨_, _, rfl, fun _ => aligned⟩
      · rintro ⟨z, fs', same, aligned⟩
        cases same
        exact aligned zero

/-- A computation that takes `n` zones if it finds them, and stops without one. -/
def Allots (fs : FileSystem) (n : Nat) (c : Except String (Nat × FileSystem)) : Prop :=
  ∀ k, AlignedFor fs.sb (n + k) ↔ ∃ z fs', c = .ok (z, fs') ∧ (z ≠ 0 → AlignedFor fs'.sb k)

theorem Allots.newBlock (first : mapBit fs.sb.zmap 0 = true) : Allots fs 1 (newBlock fs) := by
  intro k
  rw [Nat.add_comm]
  exact alignedFor_succ first k

theorem Allots.done (sb : fs'.sb = fs.sb) (some : z ≠ 0) : Allots fs 0 (.ok (z, fs')) := by
  intro k
  rw [Nat.zero_add, ← sb]
  constructor
  · exact fun aligned => ⟨z, fs', rfl, fun _ => aligned⟩
  · rintro ⟨z, fs', same, aligned⟩
    cases same
    exact aligned some

/-- A second computation, made with the zone of the first one. -/
theorem Allots.bind {m : Nat} {c : Except String (Nat × FileSystem)} {f : Nat × FileSystem → Except String (Nat × FileSystem)}
    (one : Allots fs m c) (none : ∀ fs₁, f (0, fs₁) = .ok (0, fs₁))
    (two : ∀ z fs₁, c = .ok (z, fs₁) → z ≠ 0 → Allots fs₁ n (f (z, fs₁))) : Allots fs (m + n) (c >>= f) := by
  intro k
  rw [Nat.add_assoc, one]
  constructor
  · rintro ⟨z, fs₁, run, aligned⟩
    rw [bind_ok run]
    by_cases zero : z = 0
    · exact ⟨0, fs₁, zero ▸ none fs₁, fun some => absurd rfl some⟩
    · exact (two z fs₁ run zero k).mp (aligned zero)
  · rintro ⟨z, fs', run, aligned⟩
    rcases of_bind run with ⟨⟨z₁, fs₁⟩, first, rest⟩
    exact ⟨z₁, fs₁, first, fun some => (two z₁ fs₁ first some k).mpr ⟨z, fs', rest, aligned⟩⟩

/-- It returns just if the bits that it sets are aligned. -/
theorem Allots.returns_iff {c : Except String (Nat × FileSystem)} (allots : Allots fs n c) :
    AlignedFor fs.sb n ↔ ∃ z fs', c = .ok (z, fs') := by
  have all := allots 0
  rw [Nat.add_zero] at all
  rw [all]
  constructor
  · exact fun ⟨z, fs', run, _⟩ => ⟨z, fs', run⟩
  · exact fun ⟨z, fs', run⟩ => ⟨z, fs', run, fun _ => alignedFor_zero _⟩

end Zones

end K210Linux.Fs
