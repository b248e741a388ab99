import K210Linux.Buffer.InodeTable

/-! `write_inode` and then `read_inode`, on the inode table of any super block. -/

namespace K210Linux.Buffer

open K210Linux.Fs (Block Byte MInode)

variable {s s' : Drive} {flat : Nat → Block} {k : Nat}

/-- What a `bread` of a block of the ramdisk finds. -/
def Drive.blockData (s : Drive) (b : Nat) : Block :=
  match s.cache.findBuffer ramdisk (BitVec.ofNat 64 b) with
  | some i => if (s.cache.head i).uptodate then (s.cache.head i).data else s.disk b
  | none => s.disk b

theorem Shows.blockData (shows : Shows s flat) {b : Nat} (inside : Inside s b) : s.blockData b = flat b := by
  have toNat : (BitVec.ofNat 64 b).toNat = b := by
    have bound := s.length.isLt
    rw [Inside] at inside
    rw [BitVec.toNat_ofNat, Nat.mod_eq_of_lt (by omega)]
  rcases shows.queues with ⟨order, chain, queues⟩
  have spec := queues.findBuffer (BitVec.ofNat 64 b) (show ramdisk ≠ 0 by decide)
  unfold Drive.blockData
  cases found : s.cache.findBuffer ramdisk (BitVec.ofNat 64 b) with
  | none =>
    rw [found] at spec
    apply shows.stored b inside
    intro i mine _ same
    refine spec i mine.1 ⟨mine.2.1, ?_⟩
    rw [← same, BitVec.ofNat_toNat, BitVec.setWidth_eq]
  | some i =>
    rw [found] at spec
    have block : (s.cache.head i).blocknr.toNat = b := by rw [spec.2.2, toNat]
    have mine : Mine s i := ⟨spec.1, spec.2.1, by rwa [block]⟩
    simp only
    split
    · rename_i fresh
      rw [shows.cached i mine fresh, block]
    · rename_i stale
      rw [← block]
      apply shows.on_disk mine
      rw [← Bool.not_eq_true]
      exact fun isDirty => stale (shows.dirty i mine isDirty)

/-- The fields that an inode has on the disk. -/
structure SameRecord (a b : MInode) : Prop where
  mode : a.mode = b.mode
  uid : a.uid = b.uid
  size : a.size = b.size
  mtime : a.mtime = b.mtime
  gid : a.gid = b.gid
  nlinks : a.nlinks = b.nlinks
  zone : ∀ z, z < 9 → a.zone z = b.zone z

theorem bytes_of_word (x : BitVec 16) : ((x >>> 8).setWidth 8 : Byte) ++ ((x >>> 0).setWidth 8 : Byte) = x := by
  apply BitVec.eq_of_getLsbD_eq
  intro i below
  simp only [BitVec.getLsbD_append, BitVec.getLsbD_setWidth, BitVec.getLsbD_ushiftRight]
  split
  · rename_i low
    rw [decide_eq_true low, Bool.true_and, Nat.zero_add]
  · rw [decide_eq_true (show i - 8 < 8 by omega), Bool.true_and, show 8 + (i - 8) = i by omega]

/-- Two bytes of a long word, the lower one from bit `n` on. -/
theorem bytes_at (x : BitVec 32) (n : Nat) :
    ((x >>> (n + 8)).setWidth 8 : Byte) ++ ((x >>> n).setWidth 8 : Byte) = ((x >>> n).setWidth 16 : BitVec 16) := by
  apply BitVec.eq_of_getLsbD_eq
  intro i below
  simp only [BitVec.getLsbD_append, BitVec.getLsbD_setWidth, BitVec.getLsbD_ushiftRight]
  rw [decide_eq_true (show i < 16 from below), Bool.true_and]
  split
  · rename_i low
    rw [decide_eq_true low, Bool.true_and]
  · rw [decide_eq_true (show i - 8 < 8 by omega), Bool.true_and, show n + 8 + (i - 8) = n + i by omega]

theorem bytes_of_long (x : BitVec 32) : (((x >>> 24).setWidth 8 : Byte) ++ ((x >>> 16).setWidth 8 : Byte)) ++
    (((x >>> 8).setWidth 8 : Byte) ++ ((x >>> 0).setWidth 8 : Byte)) = x := by
  rw [bytes_at x 16, bytes_at x 0]
  apply BitVec.eq_of_getLsbD_eq
  intro i below
  simp only [BitVec.getLsbD_append, BitVec.getLsbD_setWidth, BitVec.getLsbD_ushiftRight]
  split
  · rename_i low
    rw [decide_eq_true low, Bool.true_and, Nat.zero_add]
  · rw [decide_eq_true (show i - 16 < 16 by omega), Bool.true_and, show 16 + (i - 16) = i by omega]

section Record

variable {block : Block} {n : Nat} {inode : MInode}

/-- The record in place `n` of a block is that of the inode. -/
def HoldsRecord (block : Block) (n : Nat) (inode : MInode) : Prop := ∀ k, k < 32 → block (32 * n + k) = inodeByte inode k

theorem HoldsRecord.word (holds : HoldsRecord block n inode) {k : Nat} (below : k + 1 < 32) :
    word block (32 * n + k) = inodeByte inode (k + 1) ++ inodeByte inode k := by
  rw [K210Linux.Buffer.word, ← holds (k + 1) below, ← holds k (by omega), Nat.add_assoc]

/-- What `read_inode` copies from such a record. -/
theorem HoldsRecord.load (holds : HoldsRecord block n inode) (before : MInode) :
    SameRecord (loadInode block n before) inode where
  mode := by
    change K210Linux.Buffer.word block (32 * n + 0) = _
    rw [holds.word (by omega)]
    exact bytes_of_word inode.mode
  uid := by
    change K210Linux.Buffer.word block (32 * n + 2) = _
    rw [holds.word (by omega)]
    exact bytes_of_word inode.uid
  size := by
    change (K210Linux.Buffer.word block (32 * n + 6) ++ K210Linux.Buffer.word block (32 * n + 4) : BitVec 32) = _
    rw [holds.word (by omega), holds.word (by omega)]
    exact bytes_of_long inode.size
  mtime := by
    change (K210Linux.Buffer.word block (32 * n + 10) ++ K210Linux.Buffer.word block (32 * n + 8) : BitVec 32) = _
    rw [holds.word (by omega), holds.word (by omega)]
    exact bytes_of_long inode.mtime
  gid := holds 12 (by omega)
  nlinks := holds 13 (by omega)
  zone z below := by
    change (if z < 9 then K210Linux.Buffer.word block (32 * n + 14 + 2 * z) else before.zone z) = _
    rw [if_pos below, Nat.add_assoc, holds.word (by omega)]
    have high : inodeByte inode (14 + 2 * z + 1) = (inode.zone z >>> 8).setWidth 8 := by
      simp only [inodeByte]
      repeat rw [if_neg (by omega)]
      rw [show (14 + 2 * z + 1 - 14) / 2 = z by omega, show 8 * ((14 + 2 * z + 1 - 14) % 2) = 8 by omega]
    have low : inodeByte inode (14 + 2 * z) = (inode.zone z >>> 0).setWidth 8 := by
      simp only [inodeByte]
      repeat rw [if_neg (by omega)]
      rw [show (14 + 2 * z - 14) / 2 = z by omega, show 8 * ((14 + 2 * z - 14) % 2) = 0 by omega]
    rw [high, low]
    exact bytes_of_word (inode.zone z)

end Record

/-- `read_inode` of an inode whose block is in the cache. -/
theorem readInode_cached {i : Nat} (fuel : Nat) (linked : Linked s) (device : (s.inode k).dev = ramdisk)
    (inside : i < s.cache.nrBuffers) (dev : (s.cache.head i).dev = ramdisk)
    (block : (s.cache.head i).blocknr = BitVec.ofNat 64 (s.inodeBlock (s.inode k).num.toNat))
    (fresh : (s.cache.head i).uptodate = true) (room : (s.cache.head i).count + 1 ≠ 0) :
    ∃ s', Drive.readInode (fuel + 1) k s = .ok s' ∧
      s'.inode k = loadInode (s.cache.head i).data (((s.inode k).num.toNat - 1) % 32) (s.inode k) := by
  have found := findBuffer_held linked inside ⟨dev, block⟩
  let s₁ := s.setHead i { s.cache.head i with count := (s.cache.head i).count + 1 }
  have head : s₁.cache.head i = { s.cache.head i with count := (s.cache.head i).count + 1 } := Function.update_self ..
  have read : Drive.breadWith Drive.stuck (s.inode k).dev (BitVec.ofNat 64 (s.inodeBlock (s.inode k).num.toNat))
      (fuel + 1) s = .ok (some i, s₁) := by
    have got : Drive.getblkWith Drive.stuck (s.inode k).dev (BitVec.ofNat 64 (s.inodeBlock (s.inode k).num.toNat))
        (fuel + 1) s = .ok (i, s₁) := by
      rw [Drive.getblkWith, device, found]
    unfold Drive.breadWith
    rw [got]
    change (if (s₁.cache.head i).uptodate then _ else _) = _
    rw [head, if_pos fresh]
  let s₂ := s₁.setInode k (loadInode (s₁.cache.head i).data (((s.inode k).num.toNat - 1) % 32) (s.inode k))
  have released : s₂.brelse i = .ok (s₂.setHead i { s₂.cache.head i with count := (s₂.cache.head i).count - 1 }) := by
    unfold Drive.brelse
    rw [if_neg]
    change (s₁.cache.head i).count ≠ 0
    rw [head]
    exact room
  refine ⟨s₂.setHead i { s₂.cache.head i with count := (s₂.cache.head i).count - 1 }, ?_, ?_⟩
  · unfold Drive.readInode
    simp only
    rw [if_neg (not_not.2 device), read]
    exact released
  · change Function.update s.inode k _ k = _
    rw [Function.update_self, head]

theorem Inside.mono {b c : Nat} (inside : Inside s c) (before : b ≤ c) : Inside s b :=
  le_trans (Nat.mul_le_mul_right 1024 (Nat.succ_le_succ before)) inside

theorem inodeBlock_mono (s : Drive) {m n : Nat} (before : m ≤ n) : s.inodeBlock m ≤ s.inodeBlock n :=
  Nat.add_le_add_left (Nat.div_le_div_right (Nat.sub_le_sub_right before 1)) _

theorem inodeBlock_congr (steady : Steady s s') (num : Nat) : s'.inodeBlock num = s.inodeBlock num := by
  rw [Drive.inodeBlock, Drive.inodeBlock, steady.table.1, steady.table.2]

theorem withInode_own {o : Nat} (inode : MInode) (small : o < 32) :
    withInode s flat inode (s.inodeBlock inode.num.toNat) (32 * ((inode.num.toNat - 1) % 32) + o) = inodeByte inode o := by
  simp only [withInode, Function.update_self, storeInode]
  rw [if_pos (by omega)]
  congr 1
  omega

/-- The place of another inode keeps its bytes. -/
theorem withInode_other {m o : Nat} {inode : MInode} (first : 1 ≤ inode.num.toNat) (positive : 1 ≤ m)
    (other : m ≠ inode.num.toNat) (small : o < 32) :
    withInode s flat inode (s.inodeBlock m) (32 * ((m - 1) % 32) + o) = flat (s.inodeBlock m) (32 * ((m - 1) % 32) + o) := by
  simp only [withInode, Function.update_apply]
  split
  · rename_i sameBlock
    have apart : ¬ (32 * ((inode.num.toNat - 1) % 32) ≤ 32 * ((m - 1) % 32) + o ∧
        32 * ((m - 1) % 32) + o < 32 * ((inode.num.toNat - 1) % 32) + 32) := by
      simp only [Drive.inodeBlock] at sameBlock
      omega
    rw [storeInode, if_neg apart, sameBlock]
  · rfl

/-- `write_inode` of inode `n`, one of the `ninodes` of the super block, and then `read_inode` of `n` into any place of
    the inode table: the fields come back, the records of the other inodes are as before, and so is every block
    outside the inode table. -/
theorem written_inode_reads_back {fuel : Nat} {ninodes : BitVec 16} (shows : Shows s flat)
    (table : Inside s (s.inodeBlock ninodes.toNat)) (device : (s.inode k).dev = ramdisk)
    (dirty : (s.inode k).dirt = true) (first : 1 ≤ (s.inode k).num.toNat) (last : (s.inode k).num.toNat ≤ ninodes.toNat)
    (written : Drive.writeInode fuel k s = .ok s') :
    (∀ turns j inode, inode.dev = ramdisk → inode.num = (s.inode k).num →
      ∃ s₂, Drive.readInode (turns + 1) j (s'.setInode j inode) = .ok s₂ ∧ SameRecord (s₂.inode j) (s.inode k)) ∧
    (∀ m, 1 ≤ m → m ≤ ninodes.toNat → m ≠ (s.inode k).num.toNat → ∀ o, o < 32 →
      s'.blockData (s'.inodeBlock m) (32 * ((m - 1) % 32) + o) = s.blockData (s.inodeBlock m) (32 * ((m - 1) % 32) + o)) ∧
    ∀ b, Inside s b → ¬ (2 + s.imapBlocks.toNat + s.zmapBlocks.toNat ≤ b ∧
      b ≤ 2 + s.imapBlocks.toNat + s.zmapBlocks.toNat + (ninodes.toNat - 1) / 32) → s'.blockData b = s.blockData b := by
  have inside {m : Nat} (fits : m ≤ ninodes.toNat) : Inside s (s.inodeBlock m) := table.mono (inodeBlock_mono s fits)
  rcases writeInode_stored shows device (inside last) dirty written with
    ⟨shows', steady, inodes, i, within, dev, block, fresh, room⟩
  have same (m : Nat) : s'.inodeBlock m = s.inodeBlock m := inodeBlock_congr steady m
  have still {b : Nat} (before : Inside s b) : Inside s' b := by
    rw [Inside, steady.length]
    exact before
  refine ⟨?_, ?_, ?_⟩
  · intro turns j inode onRamdisk num
    have target : (s'.setInode j inode).inode j = inode := Function.update_self ..
    have toNat : (s'.cache.head i).blocknr.toNat = s.inodeBlock (s.inode k).num.toNat := by
      have bound := s.length.isLt
      have fits := inside last
      rw [Inside] at fits
      rw [block, BitVec.toNat_ofNat, Nat.mod_eq_of_lt (by omega)]
    have position : (s'.cache.head i).blocknr =
        BitVec.ofNat 64 ((s'.setInode j inode).inodeBlock ((s'.setInode j inode).inode j).num.toNat) := by
      rw [block, target, num]
      exact congrArg _ (same _).symm
    have device' : ((s'.setInode j inode).inode j).dev = ramdisk := by
      rw [target]
      exact onRamdisk
    have linked : Linked (s'.setInode j inode) := shows'.queues
    rcases readInode_cached turns linked device' within dev position fresh room with ⟨s₂, read, loaded⟩
    rw [target, num] at loaded
    refine ⟨s₂, read, ?_⟩
    rw [loaded]
    have mine : Mine s' i := ⟨within, dev, still (toNat ▸ inside last)⟩
    have contents := shows'.cached i mine fresh
    apply HoldsRecord.load
    intro o small
    change (s'.cache.head i).data _ = _
    rw [contents, toNat]
    exact withInode_own (s.inode k) small
  · intro m positive fits other o small
    rw [same, shows'.blockData (still (inside fits)), shows.blockData (inside fits)]
    exact withInode_other first positive other small
  · intro b before outside
    rw [shows'.blockData (still before), shows.blockData before]
    have other : b ≠ s.inodeBlock (s.inode k).num.toNat := by
      rintro rfl
      exact outside ⟨inodeBlock_mono s first, inodeBlock_mono s last⟩
    simp only [withInode, Function.update_of_ne other]

/-- The third inode of a ramdisk of eight blocks is dirty. -/
def dirtyInode : Drive :=
  { (Session.fresh 2 (fun _ => 0) (fun _ _ => 0) (fun b _ => BitVec.ofNat 8 b) 0x8007D000 8192 1 1).drive with
    inode := fun k => if k = 1 then { MInode.zero with
        mode := 33188, uid := 7, size := 74565, mtime := 43981, gid := 5, nlinks := 2, dev := ramdisk, num := 3, dirt := true
        zone := fun z => BitVec.ofNat 16 (z + 500) } else MInode.zero }

theorem third_inode_reads_back :
    ∃ s', Drive.writeInode 2 1 dirtyInode = .ok s' ∧
      ∃ s₂, Drive.readInode 1 0 (s'.setInode 0 { MInode.zero with dev := ramdisk, num := 3 }) = .ok s₂ ∧
        SameRecord (s₂.inode 0) (dirtyInode.inode 1) := by
  have returns : (Drive.writeInode 2 1 dirtyInode).isOk = true := by decide +kernel
  have memory : (0x8007D000 : BitVec 64).toNat + (8192 : BitVec 64).toNat < 2 ^ 64 := by decide
  have shows := (fresh_refines (show 0 < 2 by decide) (fun _ => 0) (fun _ _ => 0) (fun b _ => BitVec.ofNat 8 b) memory 1 1).1
  cases written : Drive.writeInode 2 1 dirtyInode with
  | error e =>
    rw [written] at returns
    cases returns
  | ok s' =>
    have table : Inside dirtyInode (dirtyInode.inodeBlock (64 : BitVec 16).toNat) := by decide
    have reads := written_inode_reads_back (shows.withInodes dirtyInode.inode) table rfl rfl
      (by decide) (by decide) written
    exact ⟨s', rfl, reads.1 0 0 _ rfl rfl⟩

end K210Linux.Buffer
