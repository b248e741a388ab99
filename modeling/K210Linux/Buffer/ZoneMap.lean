import K210Linux.Buffer.Intact
import K210Linux.Fs.Space

namespace K210Linux.Buffer

open Outcome K210Linux.Lib
open K210Linux.Fs

/-- The drive and the super block of its file system. The blocks of the bitmaps are held from `read_super` on,
    so they are kept apart from the other buffers. -/
structure Device where
  drive : Drive
  sb : SuperBlock

/-- The end of `new_block`, once zone `z` is marked. -/
def Device.takeZone (s : Device) (fuel z : Nat) : Except Halt (Nat × Device) := do
  let (i, drive) ← s.drive.getblk fuel ramdisk (BitVec.ofNat 64 z)
  let head := drive.cache.head i
  if head.count ≠ 1 then .error (.panic "new block: count is != 1")
  else
    let drive ← (drive.setHead i { head with data := clearBlock head.data, uptodate := true, dirt := true }).brelse i
    .ok (z, { s with drive })

/-- `new_block`. -/
def Device.newBlock (s : Device) (fuel : Nat) : Except Halt (Nat × Device) :=
  match searchMap s.sb.zmap 0 bitsPerBlock none mapSlots with
  | (_, _, none) => .ok (0, s)
  | (i, j, some bh) =>
    if mapSlots ≤ i ∨ bitsPerBlock ≤ j then .ok (0, s)
    else do
      let (old, data) ← (setBit j bh.data).mapError .exception
      if old then .error (.panic "new_block: bit already set")
      else
        let s := { s with sb.zmap := Function.update s.sb.zmap i (some ⟨data, true⟩) }
        let z := j + i * bitsPerBlock + s.sb.firstdatazone.toNat - 1
        if s.sb.nzones.toNat ≤ z then .ok (0, s) else s.takeZone fuel z

/-- The end of `free_block`. -/
def Device.unmark (s : Device) (z : Nat) : Except Halt Device :=
  let nr := z + 1 - s.sb.firstdatazone.toNat
  match s.sb.zmap (nr / bitsPerBlock) with
  | none => .error (.panic "s_zmap is NULL")
  | some bh => do
    let (clear, data) ← (clearBit (nr % bitsPerBlock) bh.data).mapError .exception
    if clear then .error (.panic "free_block: bit already cleared")
    else .ok { s with sb.zmap := Function.update s.sb.zmap (nr / bitsPerBlock) (some ⟨data, true⟩) }

/-- `free_block`. -/
def Device.freeBlock (s : Device) (z : Nat) : Except Halt Device :=
  if z < s.sb.firstdatazone.toNat ∨ s.sb.nzones.toNat ≤ z then .error (.panic "trying to free block not in datazone")
  else
    match s.drive.cache.findBuffer ramdisk (BitVec.ofNat 64 z) with
    | none => s.unmark z
    | some i => do
      let drive := s.drive.setHead i { s.drive.cache.head i with count := (s.drive.cache.head i).count + 1 }
      if 1 < (drive.cache.head i).count then
        let drive ← drive.brelse i
        .ok { s with drive }
      else
        let drive ← (drive.setHead i { drive.cache.head i with dirt := false, uptodate := false }).brelse i
        Device.unmark { s with drive } z

/-- The panics of `new_block` and `free_block`. -/
def zonePanics : List String :=
  ["trying to get new block from nonexistent device", "new_block: bit already set", "new_block: cannot get block",
    "new block: count is != 1", "trying to free block on nonexistent device",
    "trying to free block not in datazone", "s_zmap is NULL", "free_block: bit already cleared"]

def zoneBit (s : Device) (z : Nat) : Bool := mapBit s.sb.zmap (z + 1 - s.sb.firstdatazone.toNat)

def InZones (s : Device) (z : Nat) : Prop := s.sb.firstdatazone.toNat ≤ z ∧ z < s.sb.nzones.toNat

/-- Nobody else holds a buffer of a zone. -/
def Unheld (s : Device) : Prop :=
  ∀ i, i < s.drive.cache.nrBuffers → (s.drive.cache.head i).dev = ramdisk →
    InZones s (s.drive.cache.head i).blocknr.toNat → (s.drive.cache.head i).count = 0

/-- Zone `z` is cached, full of zeros. -/
def Zeroed (s : Drive) (z : Nat) : Prop :=
  ∃ i, s.cache.findBuffer ramdisk (BitVec.ofNat 64 z) = some i ∧ (∀ k < blockSize, (s.cache.head i).data k = 0) ∧
    (s.cache.head i).uptodate = true ∧ (s.cache.head i).dirt = true

variable {s s' : Device} {z fuel : Nat}

theorem Unheld.steady {drive : Drive} (unheld : Unheld s) (steady : Steady s.drive drive) : Unheld { s with drive } := by
  intro i inside device zone
  by_contra used
  have used₀ : (s.drive.cache.head i).count ≠ 0 := by
    rw [← steady.count]
    exact used
  have kept := steady.held i used₀
  rw [kept.1] at device
  rw [kept.2] at zone
  exact used₀ (unheld i (steady.nr ▸ inside) device zone)

/-- A buffer of the block that was asked for is the one that is found. -/
theorem Linked.found {drive : Drive} {i : Nat} {block : BitVec 64} (linked : Linked drive)
    (inside : i < drive.cache.nrBuffers) (here : (drive.cache.head i).dev = ramdisk ∧ (drive.cache.head i).blocknr = block) :
    drive.cache.findBuffer ramdisk block = some i := by
  rcases linked with ⟨order, chain, queues⟩
  have spec := queues.findBuffer block (show ramdisk ≠ 0 by decide)
  cases found : drive.cache.findBuffer ramdisk block with
  | none =>
    rw [found] at spec
    exact absurd here (spec i inside)
  | some j =>
    rw [found] at spec
    have same := queues.unique j i spec.1 inside (by rw [spec.2.1]; decide) (spec.2.1.trans here.1.symm)
      (spec.2.2.trans here.2.symm)
    rw [same]

/-- `new_block` gets the buffer of a zone that nobody holds, and clears it. -/
theorem takeZone_spec {i : Nat} {drive : Drive} (linked : Linked s.drive) (unheld : Unheld s) (zone : InZones s z)
    (got : s.drive.getblk fuel ramdisk (BitVec.ofNat 64 z) = .ok (i, drive)) :
    ∃ drive', s.takeZone fuel z = .ok (z, { s with drive := drive' }) ∧ Intact s.drive drive' ∧ Zeroed drive' z := by
  rcases getblk_acquires (syncDev_intact fuel) linked got with ⟨linked₁, acquired⟩
  have small : z < 2 ^ 64 := by
    have bound := s.sb.nzones.isLt
    have below := zone.2
    omega
  have toNat : (BitVec.ofNat 64 z).toNat = z := by rw [BitVec.toNat_ofNat, Nat.mod_eq_of_lt small]
  -- a buffer in use keeps its block, so this one was not in use
  have unused : (s.drive.cache.head i).count = 0 := by
    by_contra used
    have kept := acquired.held i used
    rw [acquired.here.1, acquired.here.2] at kept
    apply used
    apply unheld i acquired.inside kept.1.symm
    rw [← kept.2, toNat]
    exact zone
  have one : (drive.cache.head i).count = 1 := by
    rw [acquired.one, unused]
    rfl
  let head : BufferHead := { drive.cache.head i with
    data := clearBlock (drive.cache.head i).data, uptodate := true, dirt := true }
  let drive₂ : Drive := (drive.setHead i head).setHead i { head with count := 0 }
  have released : (drive.setHead i head).brelse i = .ok drive₂ := by
    simp only [Drive.brelse, Drive.setHead, Cache.setHead, Function.update_self, head, one, drive₂]
    rfl
  have acquired₁ : Acquired s.drive (drive.setHead i head) i (BitVec.ofNat 64 z) := acquired.setHead rfl rfl rfl
  have linked₂ : Linked (drive.setHead i head) := linked₁.setHead rfl rfl
  have intact := brelse_intact linked₂ acquired₁ released
  have done : drive₂.cache.head i = { head with count := 0 } := by
    simp only [drive₂, Drive.setHead, Cache.setHead, Function.update_self]
  refine ⟨drive₂, ?_, intact, i, ?_, ?_⟩
  · unfold Device.takeZone
    rw [bind_ok got]
    simp only
    rw [if_neg (not_not.2 one), bind_ok released]
  · apply intact.1.found
    · exact acquired.nr ▸ acquired.inside
    · rw [done]
      exact acquired.here
  · rw [done]
    refine ⟨?_, rfl, rfl⟩
    intro k below
    exact if_pos below

/-- The bitmaps of the device, without its blocks and inodes. -/
def Device.maps (s : Device) : FileSystem := ⟨s.sb, fun _ _ => 0, fun _ => .zero⟩

/-- What `new_block` does. -/
inductive Taking (s : Device) (fuel : Nat) : Except Halt (Nat × Device) → Prop
  | halted (next : NextHalts s.sb) : Taking s fuel (.error (.exception misaligned))
  | full (aligned : ¬ NextHalts s.sb) : Taking s fuel (.ok (0, s))
  | behind {n : Nat} {zmap : Nat → Option MapBlock} (marked : BitTaken s.maps zmap n)
      (outside : s.sb.nzones.toNat ≤ n + s.sb.firstdatazone.toNat - 1) : Taking s fuel (.ok (0, { s with sb.zmap := zmap }))
  | taken {n z : Nat} {zmap : Nat → Option MapBlock} (marked : BitTaken s.maps zmap n)
      (zone : z = n + s.sb.firstdatazone.toNat - 1) (inside : z < s.sb.nzones.toNat) :
      Taking s fuel (Device.takeZone { s with sb.zmap := zmap } fuel z)

theorem newBlock_taking (s : Device) (fuel : Nat) : Taking s fuel (s.newBlock fuel) := by
  have search := searchMap_freeBit s.maps
  unfold Device.newBlock
  change FreeBit s.maps (searchMap s.sb.zmap 0 bitsPerBlock none mapSlots) at search
  generalize searchMap s.sb.zmap 0 bitsPerBlock none mapSlots = result at search
  cases search with
  | @missing j bh none =>
    have aligned : ¬ NextHalts s.maps.sb := not_nextHalts_of_none none
    cases bh with
    | none => exact .full aligned
    | some b =>
      simp only
      rw [if_pos (.inl (le_refl _))]
      exact .full aligned
  | @found i j b bound inside clear next offset marked =>
    simp only
    rw [if_neg (not_or.mpr ⟨not_le.mpr bound, not_le.mpr inside⟩)]
    by_cases aligned : BitAligned j
    · rw [setBit_of_aligned aligned]
      change Taking s fuel (if bitAt b.data j then _ else _)
      rw [clear, if_neg Bool.false_ne_true]
      split
      · exact .behind (marked aligned) ‹_›
      · exact .taken (marked aligned) rfl (not_le.mp ‹_›)
    · rw [setBit_of_not aligned]
      exact .halted ⟨_, next, mt offset.mpr aligned⟩

theorem takeZone_sb {z' : Nat} (run : s.takeZone fuel z = .ok (z', s')) : z' = z ∧ s'.sb = s.sb := by
  unfold Device.takeZone at run
  rcases of_bind run with ⟨⟨i, drive⟩, -, rest⟩
  dsimp only at rest
  split at rest
  · cases rest
  · rcases of_bind rest with ⟨drive', -, last⟩
    cases last
    exact ⟨rfl, rfl⟩

/-- The zone and the bitmap are those of the file system that is a table of blocks. -/
theorem newBlock_flat {fs : FileSystem} (maps : fs.sb = s.sb) (run : s.newBlock fuel = .ok (z, s')) :
    ∃ fs', Fs.newBlock fs = .ok (z, fs') ∧ fs'.sb = s'.sb := by
  unfold Device.newBlock at run
  unfold Fs.newBlock
  rw [maps]
  generalize searchMap s.sb.zmap 0 bitsPerBlock none mapSlots = found at run
  rcases found with ⟨i, j, bh⟩
  cases bh with
  | none =>
    cases run
    exact ⟨fs, rfl, maps⟩
  | some bh =>
    dsimp only at run ⊢
    split at run
    · cases run
      exact ⟨fs, if_pos ‹_›, maps⟩
    · rename_i inside
      rw [if_neg inside]
      rcases of_bind run with ⟨⟨old, data⟩, marked, rest⟩
      rw [bind_ok (of_mapError marked)]
      dsimp only at rest ⊢
      split at rest
      · cases rest
      · rename_i clear
        rw [if_neg clear]
        split at rest
        · cases rest
          exact ⟨_, if_pos ‹_›, rfl⟩
        · rcases takeZone_sb rest with ⟨rfl, sb⟩
          exact ⟨_, if_neg ‹_›, sb.symm⟩

/-- Without other users of its buffer `free_block` goes on to the bit of a zone. -/
theorem freeBlock_unmarks (linked : Linked s.drive) (unheld : Unheld s) (zone : InZones s z) : ∃ drive,
    s.freeBlock z = Device.unmark { s with drive } z ∧ Intact s.drive drive := by
  unfold Device.freeBlock
  rw [if_neg (by rw [not_or, not_lt, not_le]; exact zone)]
  split
  · exact ⟨s.drive, rfl, linked, .refl _⟩
  · rename_i i found
    rcases linked with ⟨order, chain, queues⟩
    have spec := queues.findBuffer (BitVec.ofNat 64 z) (show ramdisk ≠ 0 by decide)
    rw [found] at spec
    have small : z < 2 ^ 64 := by
      have bound := s.sb.nzones.isLt
      have below := zone.2
      omega
    have unused : (s.drive.cache.head i).count = 0 := by
      apply unheld i spec.1 spec.2.1
      rw [spec.2.2, BitVec.toNat_ofNat, Nat.mod_eq_of_lt small]
      exact zone
    let drive : Drive := s.drive.setHead i { s.drive.cache.head i with dirt := false, uptodate := false, count := 0 }
    refine ⟨drive, ?_, .setHead ⟨order, chain, queues⟩ rfl rfl unused.symm⟩
    simp only [Drive.setHead, Cache.setHead, Function.update_self, unused, Drive.brelse, Function.update_idem]
    rfl

/-- What `free_block` does to a zone that is marked, and that nobody holds. -/
theorem freeBlock_spec (linked : Linked s.drive) (unheld : Unheld s) (zone : InZones s z) (marked : zoneBit s z = true)
    (aligned : BitAligned (z + 1 - s.sb.firstdatazone.toNat)) :
    ∃ s', s.freeBlock z = .ok s' ∧ Intact s.drive s'.drive ∧ s'.sb.firstdatazone = s.sb.firstdatazone ∧
      s'.sb.nzones = s.sb.nzones ∧
      ∀ n, mapBit s'.sb.zmap n = (mapBit s.sb.zmap n && decide (n ≠ z + 1 - s.sb.firstdatazone.toNat)) := by
  rcases freeBlock_unmarks linked unheld zone with ⟨drive, run, intact⟩
  rw [run]
  rw [zoneBit, mapBit] at marked
  -- the bit is found, set, and cleared
  split at marked
  · cases marked
  · rename_i bh present
    have inside : (z + 1 - s.sb.firstdatazone.toNat) % bitsPerBlock < bitsPerBlock := Nat.mod_lt _ (by decide)
    have done : Device.unmark { s with drive } z = .ok { drive, sb := { s.sb with
        zmap := Function.update s.sb.zmap ((z + 1 - s.sb.firstdatazone.toNat) / bitsPerBlock)
          (some ⟨unmarkBit ((z + 1 - s.sb.firstdatazone.toNat) % bitsPerBlock) bh.data, true⟩) } } := by
      simp only [Device.unmark, present, clearBit_of_aligned ((bitAligned_mod _).mpr aligned), marked]
      rfl
    refine ⟨_, done, intact, rfl, rfl, ?_⟩
    intro n
    dsimp only
    rw [mapBit_unmarkBit present inside, Nat.mod_add_div']

/-- A `free_block` that returns could reach the bit. -/
theorem freeBlock_aligned (linked : Linked s.drive) (unheld : Unheld s) (zone : InZones s z)
    (run : s.freeBlock z = .ok s') : BitAligned (z + 1 - s.sb.firstdatazone.toNat) := by
  rcases freeBlock_unmarks linked unheld zone with ⟨drive, same, -⟩
  rw [same] at run
  unfold Device.unmark at run
  dsimp only at run
  split at run
  · cases run
  · rcases of_bind run with ⟨r, cleared, -⟩
    exact (bitAligned_mod _).mp (of_clearBit (of_mapError cleared)).1

/-- The reasons for which the calls on buffers and inodes do not return. -/
def Foreign (halt : Halt) : Prop := halt ≠ .exception misaligned ∧ ∀ message ∈ zonePanics, halt ≠ .panic message

instance (halt : Halt) : Decidable (Foreign halt) := inferInstanceAs (Decidable (_ ∧ ∀ message ∈ zonePanics, _))

def SyncForeign (sync : BitVec 16 → Drive → Except Halt Drive) : Prop :=
  ∀ dev s halt, sync dev s = .error halt → Foreign halt

section

variable {sync : BitVec 16 → Drive → Except Halt Drive} {drive : Drive} {halt : Halt} {dev : BitVec 16} {block : BitVec 64}
  {i k : Nat}

theorem foreign_asleep : Foreign .asleep := by decide

theorem brelse_foreign (failed : drive.brelse i = .error halt) : Foreign halt := by
  unfold Drive.brelse at failed
  split at failed <;> cases failed
  decide

theorem clean_foreign (foreign : SyncForeign sync) (failed : Drive.clean sync i fuel drive = .error halt) :
    Foreign halt := by
  induction fuel generalizing drive with
  | zero =>
    cases failed
    exact foreign_asleep
  | succ fuel ih =>
    rw [Drive.clean] at failed
    split at failed
    · rcases error_of_bind failed with synced | ⟨drive₁, -, rest⟩
      · exact foreign _ _ _ synced
      · split at rest
        · cases rest
        · exact ih rest
    · cases failed

theorem getblk_foreign (foreign : SyncForeign sync) (failed : Drive.getblkWith sync dev block fuel drive = .error halt) :
    Foreign halt := by
  induction fuel generalizing drive with
  | zero =>
    cases failed
    exact foreign_asleep
  | succ fuel ih =>
    rw [Drive.getblkWith] at failed
    split at failed
    · cases failed
    · split at failed
      · cases failed
        exact foreign_asleep
      · rcases error_of_bind failed with cleaned | ⟨⟨again, drive₁⟩, -, rest⟩
        · exact clean_foreign foreign cleaned
        · simp only at rest
          split at rest
          · exact ih rest
          · split at rest <;> cases rest
            decide

theorem bread_foreign (foreign : SyncForeign sync) (failed : Drive.breadWith sync dev block fuel drive = .error halt) :
    Foreign halt := by
  rcases error_of_bind failed with got | ⟨⟨i, drive₁⟩, -, rest⟩
  · exact getblk_foreign foreign got
  · simp only at rest
    split at rest
    · cases rest
    · split at rest
      · cases rest
      · rcases error_of_bind rest with released | ⟨drive₂, -, done⟩
        · exact brelse_foreign released
        · cases done

theorem writeInode_foreign (failed : Drive.writeInode fuel k drive = .error halt) : Foreign halt := by
  have stuck : SyncForeign Drive.stuck := by
    intro dev s halt failed
    cases failed
    exact foreign_asleep
  unfold Drive.writeInode at failed
  simp only at failed
  split at failed
  · cases failed
  · split at failed
    · cases failed
      decide
    · rcases error_of_bind failed with read | ⟨⟨bh, drive₁⟩, -, rest⟩
      · exact bread_foreign stuck read
      · cases bh with
        | none =>
          cases rest
          decide
        | some i => exact brelse_foreign rest

theorem syncInodesFrom_foreign {left : Nat} (failed : Drive.syncInodesFrom fuel k left drive = .error halt) :
    Foreign halt := by
  induction left generalizing k drive with
  | zero => cases failed
  | succ left ih =>
    rw [Drive.syncInodesFrom] at failed
    rcases error_of_bind failed with one | ⟨drive₁, -, rest⟩
    · unfold Drive.syncInode at one
      split at one
      · exact writeInode_foreign one
      · cases one
    · exact ih rest

theorem syncDev_foreign (fuel : Nat) : SyncForeign (Drive.syncDev fuel) := by
  intro dev s halt failed
  rcases error_of_bind failed with inodes | ⟨drive₁, -, rest⟩
  · exact syncInodesFrom_foreign inodes
  · cases rest

end

end K210Linux.Buffer
