import K210Linux.Buffer.GetblkReturns

/-! `sys_sync` and what is on the ramdisk after it. -/

namespace K210Linux.Buffer

open Outcome K210Linux.Lib
open K210Linux.Fs (Block Byte MInode)

/-- The argument `block` of `getblk` is an `int`. -/
def IsInt (block : BitVec 64) : Prop := (block.setWidth 32).signExtend 64 = block

instance (block : BitVec 64) : Decidable (IsInt block) := inferInstanceAs (Decidable (_ = _))

/-- The block with its first bit set. -/
def reserved (block : Block) : Block := Function.update block 0 (block 0 ||| 1)

/-- The contents of a buffer are on the ramdisk, or all but the bit that `read_super` sets. -/
def OnDisk (s : Drive) (i : Nat) : Prop :=
  let bh := s.cache.head i
  bh.data = s.disk (place bh.blocknr) ∨ s.MapBlock bh.blocknr ∧ bh.data = reserved (s.disk (place bh.blocknr))

/-- The buffers are of the ramdisk, or were never used, and what is clean and valid is on the ramdisk. -/
structure Matched (s : Drive) : Prop where
  device : ∀ i, ((s.cache.head i).dev = 0 ∧ (s.cache.head i).dirt = false ∧ (s.cache.head i).uptodate = false) ∨
    (i < s.cache.nrBuffers ∧ (s.cache.head i).dev = ramdisk ∧ IsInt (s.cache.head i).blocknr)
  onDisk : ∀ i, (s.cache.head i).uptodate = true → (s.cache.head i).dirt = false → OnDisk s i

variable {s s₁ s' : Drive} {i j k : Nat} {block : BitVec 64}

/-- The blocks that the calls on the ramdisk ask for. -/
def RamdiskInt (dev : BitVec 16) (block : BitVec 64) : Prop := dev = ramdisk ∧ IsInt block

theorem isInt_signExtend (n : BitVec 32) : IsInt (n.signExtend 64) := by
  have same : (n.signExtend 64).setWidth 32 = n := by
    apply BitVec.eq_of_toNat_eq
    have bound := n.isLt
    rw [BitVec.toNat_setWidth, BitVec.toNat_signExtend]
    split
    · rw [BitVec.toNat_setWidth]
      omega
    · rw [BitVec.toNat_setWidth]
      omega
  rw [IsInt, same]

/-- Blocks with different numbers lie in different places. -/
theorem place_injective {b c : BitVec 64} (one : IsInt b) (two : IsInt c) (same : place b = place c) : b = c := by
  unfold IsInt at one two
  unfold place at same
  have first := congrArg BitVec.toInt one
  have second := congrArg BitVec.toInt two
  rw [BitVec.toInt_signExtend_of_le (by decide)] at first second
  have below := BitVec.toInt_lt (x := b.setWidth 32)
  have above := BitVec.le_toInt (b.setWidth 32)
  have below' := BitVec.toInt_lt (x := c.setWidth 32)
  have above' := BitVec.le_toInt (c.setWidth 32)
  rw [first] at below above
  rw [second] at below' above'
  apply BitVec.eq_of_toInt_eq
  have natB := BitVec.toInt_eq_toNat_bmod b
  have natC := BitVec.toInt_eq_toNat_bmod c
  have boundB := b.isLt
  have boundC := c.isLt
  rw [Int.bmod_def] at natB natC
  split at natB <;> split at natC <;> omega

theorem isInt_table (s : Drive) (num : BitVec 16) : IsInt (BitVec.ofNat 64 (s.inodeBlock num.toNat)) := by
  have small : s.inodeBlock num.toNat < 2 ^ 18 := by
    have imap := s.imapBlocks.isLt
    have zmap := s.zmapBlocks.isLt
    have bound := num.isLt
    unfold Drive.inodeBlock
    omega
  have same : BitVec.ofNat 64 (s.inodeBlock num.toNat) = (BitVec.ofNat 32 (s.inodeBlock num.toNat)).signExtend 64 := by
    apply BitVec.eq_of_toNat_eq
    rw [BitVec.signExtend_eq_setWidth_of_msb_false]
    · simp only [BitVec.toNat_ofNat, BitVec.toNat_setWidth]
      omega
    · rw [BitVec.msb_eq_false_iff_two_mul_lt, BitVec.toNat_ofNat]
      omega
  rw [same]
  exact isInt_signExtend _

theorem reserved_reserved (block : Block) : reserved (reserved block) = reserved block := by
  unfold reserved
  rw [Function.update_idem, Function.update_self, BitVec.or_assoc, BitVec.or_self]

theorem Matched.setHead (matched : Matched s) {head : BufferHead} (same : head.dev = (s.cache.head i).dev)
    (blocknr : head.blocknr = (s.cache.head i).blocknr)
    (bare : (s.cache.head i).dev = 0 → (s.cache.head i).dirt = false → (s.cache.head i).uptodate = false →
      head.dirt = false ∧ head.uptodate = false)
    (onDisk : head.uptodate = true → head.dirt = false → OnDisk (s.setHead i head) i) : Matched (s.setHead i head) := by
  have heads (j : Nat) : (s.setHead i head).cache.head j = if j = i then head else s.cache.head j := by
    simp only [Drive.setHead, Cache.setHead, Function.update_apply]
  constructor
  · intro j
    rw [heads]
    split
    · rename_i here
      subst here
      rw [same, blocknr]
      exact (matched.device j).imp_left fun none => ⟨none.1, bare none.1 none.2.1 none.2.2⟩
    · exact matched.device j
  · intro j fresh clean
    by_cases here : j = i
    · subst here
      rw [heads, if_pos rfl] at fresh clean
      exact onDisk fresh clean
    · rw [heads, if_neg here] at fresh clean
      have before := matched.onDisk j fresh clean
      unfold OnDisk at before ⊢
      rw [heads, if_neg here]
      exact before

theorem Matched.request (matched : Matched s) (linked : Linked s) (write : Bool) (i : Nat) : Matched (s.llRwBlock write i) := by
  unfold Drive.llRwBlock
  simp only
  split_ifs with unserved passed refused isWrite
  · exact matched
  · exact matched
  · exact matched.setHead rfl rfl (fun _ _ _ => ⟨rfl, rfl⟩) fun fresh => by cases fresh
  · rcases matched.device i with none | ⟨inside, device, int⟩
    · exact absurd (by rw [none.1]; decide) unserved
    -- the other buffers are of other blocks
    have other {j : Nat} (apart : j ≠ i) (fresh : (s.cache.head j).uptodate = true) :
        place (s.cache.head j).blocknr ≠ place (s.cache.head i).blocknr := by
      rcases matched.device j with none | ⟨insideJ, deviceJ, intJ⟩
      · rw [none.2.2] at fresh
        cases fresh
      · intro same
        exact apart (linked.same ⟨insideJ, deviceJ, place_injective intJ int same⟩ ⟨inside, device, rfl⟩)
    have heads (j : Nat) : (s.setHead i { s.cache.head i with dirt := false, uptodate := true }).cache.head j =
        if j = i then { s.cache.head i with dirt := false, uptodate := true } else s.cache.head j := by
      simp only [Drive.setHead, Cache.setHead, Function.update_apply]
    constructor
    · intro j
      simp only [heads]
      split
      · rename_i here
        exact .inr ⟨here ▸ inside, device, int⟩
      · exact matched.device j
    · intro j fresh clean
      simp only [heads] at fresh clean
      unfold OnDisk
      simp only [heads]
      split_ifs at fresh clean ⊢ with here
      · exact .inl (Function.update_self (place (s.cache.head i).blocknr) (s.cache.head i).data s.disk).symm
      · rw [Function.update_of_ne (other here fresh)]
        exact matched.onDisk j fresh clean
  · refine matched.setHead rfl rfl ?_ ?_
    · intro none
      exact absurd (by rw [none]; decide) unserved
    · intro _ _
      left
      simp only [Drive.setHead, Cache.setHead, Function.update_self]

theorem Matched.change (matched : Matched s) (arranged : Arranged s) (change : Change RamdiskInt s s') : Matched s' := by
  cases change with
  | move move =>
    cases move with
    | request write i => exact matched.request arranged.linked write i
    | count i count =>
      refine matched.setHead rfl rfl (fun _ dirt fresh => ⟨dirt, fresh⟩) ?_
      intro fresh clean
      have before := matched.onDisk i fresh clean
      unfold OnDisk at before ⊢
      simp only [Drive.setHead, Cache.setHead, Function.update_self]
      exact before
    | assign i dev block cache inside asked clean unused missing assigned =>
      have heads := assign_head assigned
      have named : dev = ramdisk ∧ IsInt block := by
        rcases asked with both | ⟨device, k, -, rfl⟩
        · exact both
        · exact ⟨device, isInt_table s _⟩
      constructor
      · intro j
        simp only [heads.1, heads.2, Function.update_apply]
        split
        · rename_i here
          exact .inr ⟨here ▸ inside, named⟩
        · exact matched.device j
      · intro j fresh clean
        simp only [heads.1, Function.update_apply] at fresh clean
        unfold OnDisk
        simp only [heads.1, Function.update_apply]
        split_ifs at fresh clean ⊢ with here
        · cases fresh
        · exact matched.onDisk j fresh clean
    | inode i k data _ dirty here =>
      have stored : Matched (s.setHead i { s.cache.head i with data := data, dirt := true }) := by
        refine matched.setHead rfl rfl ?_ fun _ clean => by cases clean
        intro none
        rw [here] at none
        cases none
      exact ⟨stored.device, stored.onDisk⟩
  | store i data uptodate used =>
    refine matched.setHead rfl rfl ?_ fun _ clean => by cases clean
    intro none _ stale
    rcases used with fresh | ⟨block, device, -⟩
    · rw [stale] at fresh
      cases fresh
    · rw [none] at device
      cases device
  | drop i => exact matched.setHead rfl rfl (fun _ _ _ => ⟨rfl, rfl⟩) fun fresh => by cases fresh
  | reserve i block has map =>
    refine matched.setHead rfl rfl (fun _ dirt fresh => ⟨dirt, fresh⟩) ?_
    intro fresh clean
    have before := matched.onDisk i fresh clean
    unfold OnDisk at before ⊢
    simp only [Drive.setHead, Cache.setHead, Function.update_self]
    right
    rw [← has.2.2] at map
    refine ⟨map, ?_⟩
    change reserved (s.cache.head i).data = reserved _
    rcases before with same | ⟨-, same⟩
    · exact congrArg reserved same
    · exact (congrArg reserved same).trans (reserved_reserved _)
  | inode k inode mounted => exact ⟨matched.device, matched.onDisk⟩

/-- The 32 bytes of an inode in the inode table. -/
def InTable (block : Block) (inode : MInode) : Prop :=
  ∀ o < 32, block (32 * ((inode.num.toNat - 1) % 32) + o) = inodeByte inode o

instance (block : Block) (inode : MInode) : Decidable (InTable block inode) :=
  inferInstanceAs (Decidable (∀ o < 32, _))

/-- An inode waits in a dirty buffer to be written to the ramdisk. -/
def InBuffer (s : Drive) (inode : MInode) : Prop :=
  ∃ i, s.Has i (BitVec.ofNat 64 (s.inodeBlock inode.num.toNat)) ∧ (s.cache.head i).dirt = true ∧
    (s.cache.head i).uptodate = true ∧ InTable (s.cache.head i).data inode

theorem Stored.inBuffer (stored : Stored s s' k i) : InBuffer s' (s.inode k) := by
  rcases stored.data with ⟨base, data, -⟩
  have block : s'.inodeBlock (s.inode k).num.toNat = s.inodeBlock (s.inode k).num.toNat := by
    rw [Drive.inodeBlock, Drive.inodeBlock, stored.table.1, stored.table.2]
  refine ⟨i, ?_, stored.dirt, stored.uptodate, ?_⟩
  · rw [block]
    exact stored.here
  · intro o small
    rw [data, storeInode, if_pos (by omega)]
    congr 1
    omega

/-- Writing an inode leaves the others in their buffers. -/
theorem InBuffer.stored {inode : MInode} (waits : InBuffer s inode) (linked : Linked s) (stored : Stored s s' k i)
    (first : 1 ≤ inode.num.toNat) (second : 1 ≤ (s.inode k).num.toNat) (apart : inode.num ≠ (s.inode k).num) :
    InBuffer s' inode := by
  rcases waits with ⟨j, has, dirt, fresh, table⟩
  have block : s'.inodeBlock inode.num.toNat = s.inodeBlock inode.num.toNat := by
    rw [Drive.inodeBlock, Drive.inodeBlock, stored.table.1, stored.table.2]
  have differ : inode.num.toNat ≠ (s.inode k).num.toNat := fun same => apart (BitVec.eq_of_toNat_eq same)
  by_cases here : j = i
  · subst here
    rcases stored.data with ⟨base, data, before⟩
    have mine : s.Has j (s.slotBlock k) := by
      rcases stored.source with mine | ⟨-, spare⟩
      · exact mine
      · have clean := (mem_spare.1 spare).2.2
        simp [dirt] at clean
    have same := has.2.2.symm.trans mine.2.2
    refine ⟨j, ?_, stored.dirt, stored.uptodate, ?_⟩
    · rw [block, same]
      exact stored.here
    · intro o small
      -- two inodes of one block are in different places
      have small₁ := inode.num.isLt
      have small₂ := (s.inode k).num.isLt
      have imap := s.imapBlocks.isLt
      have zmap := s.zmapBlocks.isLt
      have numbers : s.inodeBlock inode.num.toNat = s.inodeBlock (s.inode k).num.toNat := by
        have equal := congrArg BitVec.toNat same
        simp only [Drive.slotBlock, BitVec.toNat_ofNat, Drive.inodeBlock] at equal ⊢
        omega
      simp only [Drive.inodeBlock] at numbers
      rw [data, storeInode, if_neg (by omega), before mine fresh]
      exact table o small
  · refine ⟨j, ?_, ?_, ?_, ?_⟩
    · rw [block, Drive.Has, stored.nr, stored.others j here]
      exact has
    · rw [stored.others j here]
      exact dirt
    · rw [stored.others j here]
      exact fresh
    · rw [stored.others j here]
      exact table

/-- The inodes in core that are on the ramdisk have numbers of its inode table. -/
def Numbering (s : Drive) : Prop := ∀ k < Drive.nrInode, (s.inode k).dev ≠ 0 → Numbered s (s.inode k).num

instance (s : Drive) (num : BitVec 16) : Decidable (Numbered s num) := inferInstanceAs (Decidable (_ ∧ _))

instance (s : Drive) : Decidable (Numbering s) := inferInstanceAs (Decidable (∀ k < Drive.nrInode, _ → _))

/-- No inode from `k` on that is to be written has the number. -/
def Unshared (s : Drive) (k left : Nat) (num : BitVec 16) : Prop := ∀ j < k + left, k ≤ j → Due s j → (s.inode j).num ≠ num

/-- The loop over the inodes from `k` on puts each into its buffer, and for a number that several have it ends with the
    last. -/
theorem syncInodesFrom_inBuffer {fuel left : Nat} (transferred : Transferred s) (numbering : ∀ j < k + left, Due s j → 1 ≤ (s.inode j).num.toNat)
    (synced : Drive.syncInodesFrom fuel k left s = .ok s') :
    (∀ j < k + left, k ≤ j → Due s j → Unshared s (j + 1) (k + left - (j + 1)) (s.inode j).num → InBuffer s' (s.inode j)) ∧
      ∀ inode, 1 ≤ inode.num.toNat → Unshared s k left inode.num → InBuffer s inode → InBuffer s' inode := by
  induction left generalizing k s with
  | zero =>
    cases synced
    refine ⟨?_, fun _ _ _ waits => waits⟩
    intro j last first
    omega
  | succ left ih =>
    rw [Drive.syncInodesFrom] at synced
    rcases of_bind synced with ⟨s₁, one, rest⟩
    by_cases due : Due s k
    · rw [syncInode_due due] at one
      rcases writeInode_effect transferred due one with ⟨i, stored, -, transferred₁⟩
      have later {j : Nat} (other : j ≠ k) : s₁.inode j = s.inode j := by
        rw [stored.inode, Function.update_of_ne other]
      have numbering₁ (j : Nat) (last : j < k + 1 + left) (dueJ : Due s₁ j) : 1 ≤ (s₁.inode j).num.toNat := by
        by_cases here : j = k
        · rw [here, Due, stored.inode, Function.update_self] at dueJ
          exact absurd dueJ.1 (by simp)
        · rw [later here]
          exact numbering j (by omega) ((stored.due here).1 dueJ)
      have unshared {j left' : Nat} {num : BitVec 16} (above : k < j) (alone : Unshared s j left' num) :
          Unshared s₁ j left' num := by
        intro l last first dueL
        rw [later (by omega)]
        exact alone l last first ((stored.due (by omega)).1 dueL)
      rcases ih transferred₁ numbering₁ rest with ⟨written, kept⟩
      constructor
      · intro j last first dueJ alone
        by_cases here : j = k
        · subst here
          have whole : j + (left + 1) - (j + 1) = left := by omega
          rw [whole] at alone
          exact kept _ (numbering j (by omega) dueJ) (unshared (Nat.lt_succ_self j) alone) stored.inBuffer
        · have same : k + 1 + left - (j + 1) = k + (left + 1) - (j + 1) := by omega
          have result := written j (by omega) (by omega) ((stored.due here).2 dueJ)
          rw [later here, same] at result
          exact result (unshared (by omega) alone)
      · intro inode positive alone waits
        have apart := (alone k (by omega) (le_refl _) due).symm
        refine kept inode positive (unshared (Nat.lt_succ_self k) ?_)
          (waits.stored transferred.linked stored positive (numbering k (by omega) due) apart)
        exact fun l last first => alone l (by omega) (by omega)
    · rw [syncInode_passes due] at one
      cases one
      rcases ih transferred (fun j last => numbering j (by omega)) rest with ⟨written, kept⟩
      constructor
      · intro j last first dueJ alone
        have other : j ≠ k := fun here => due (here ▸ dueJ)
        refine written j (by omega) (by omega) dueJ ?_
        have same : k + 1 + left - (j + 1) = k + (left + 1) - (j + 1) := by omega
        rw [same]
        exact alone
      · intro inode positive alone waits
        exact kept inode positive (fun l last first => alone l (by omega) (by omega)) waits

theorem syncInodesFrom_geometry {fuel left : Nat} (transferred : Transferred s)
    (synced : Drive.syncInodesFrom fuel k left s = .ok s') :
    s'.start = s.start ∧ s'.length = s.length ∧ s'.imapBlocks = s.imapBlocks ∧ s'.zmapBlocks = s.zmapBlocks := by
  induction left generalizing k s with
  | zero =>
    cases synced
    exact ⟨rfl, rfl, rfl, rfl⟩
  | succ left ih =>
    rw [Drive.syncInodesFrom] at synced
    rcases of_bind synced with ⟨s₁, one, rest⟩
    by_cases due : Due s k
    · rw [syncInode_due due] at one
      rcases writeInode_effect transferred due one with ⟨i, stored, -, transferred₁⟩
      have later := ih transferred₁ rest
      rw [stored.size.1, stored.size.2, stored.table.1, stored.table.2] at later
      exact later
    · rw [syncInode_passes due] at one
      cases one
      exact ih transferred rest

/-- A sweep changes at most `b_dirt` of a valid buffer. -/
theorem sweep_valid {which : BufferHead → Bool} (device : (s.cache.head i).dev = ramdisk)
    (fresh : (s.cache.head i).uptodate = true) (served : s.serves (s.cache.head i).blocknr = true) :
    ∃ dirt, (s.sweep which).cache.head i = { s.cache.head i with dirt } := by
  have swept (l : List Nat) (t : Drive) (flushed : Flushed s t) (valid : ∃ dirt, t.cache.head i = { s.cache.head i with dirt }) :
      ∃ dirt, (l.foldl (fun s i => s.writeBack which i) t).cache.head i = { s.cache.head i with dirt } := by
    induction l generalizing t with
    | nil => exact valid
    | cons j l ih =>
      apply ih _ (flushed.trans (writeBack_flushed t which j))
      unfold Drive.writeBack
      split
      · rename_i due
        simp only [Bool.and_eq_true] at due
        rcases valid with ⟨dirt, same⟩
        by_cases here : j = i
        · subst here
          have onRamdisk : (t.cache.head j).dev = ramdisk := by
            rw [same]
            exact device
          have accepted : t.refuses (t.cache.head j) = false := by
            rw [refuses_ramdisk onRamdisk, Drive.serves, flushed.size.1, flushed.size.2, same]
            exact congrArg not served
          have major : ¬ (t.cache.head j).dev.toNat / 256 ≠ 1 := by
            rw [onRamdisk]
            decide
          refine ⟨false, ?_⟩
          simp only [Drive.llRwBlock, major, due.2, accepted, Bool.not_true, Bool.and_false, Bool.false_and, Bool.or_self,
            Bool.false_eq_true, if_false, if_true, Drive.setHead, Cache.setHead, Function.update_self]
          rw [same, ← fresh]
        · rcases llRwBlock_cases t true j with ⟨head, disk, done, -⟩
          refine ⟨dirt, ?_⟩
          rw [done, ← same]
          exact Function.update_of_ne (Ne.symm here) ..
      · exact valid
  exact swept _ s (.refl s) ⟨(s.cache.head i).dirt, rfl⟩

theorem inodeBlock_notMap (s : Drive) (num : BitVec 16) : ¬ s.MapBlock (BitVec.ofNat 64 (s.inodeBlock num.toNat)) := by
  have imap := s.imapBlocks.isLt
  have zmap := s.zmapBlocks.isLt
  have bound := num.isLt
  have two : (2 : BitVec 64).toNat = 2 := rfl
  rintro (⟨some, same⟩ | ⟨some, same⟩)
  · have positive : s.imapBlocks.toNat ≠ 0 := fun none => some (BitVec.eq_of_toNat_eq none)
    have equal := congrArg BitVec.toNat same
    simp only [Drive.inodeBlock, BitVec.toNat_ofNat, two] at equal
    omega
  · have positive : s.zmapBlocks.toNat ≠ 0 := fun none => some (BitVec.eq_of_toNat_eq none)
    have equal := congrArg BitVec.toNat same
    simp only [Drive.inodeBlock, BitVec.toNat_ofNat, BitVec.toNat_add, BitVec.toNat_setWidth, two] at equal
    omega

/-- The driver serves the blocks inside the ramdisk. -/
theorem serves_inside (memory : s.start.toNat + s.length.toNat < 2 ^ 64) {b : Nat} (inside : Inside s b) :
    s.serves (BitVec.ofNat 64 b) = true := by
  have bound := s.length.isLt
  unfold Inside at inside
  have shifted : (offset (BitVec.ofNat 64 b)).toNat = b * 1024 := by
    rw [offset, BitVec.toNat_shiftLeft, BitVec.toNat_shiftLeft, Nat.shiftLeft_eq, Nat.shiftLeft_eq, BitVec.toNat_ofNat]
    omega
  simp only [Drive.serves, Bool.not_eq_eq_eq_not, Bool.not_true, decide_eq_false_iff_not, BitVec.not_lt]
  rw [BitVec.le_def, BitVec.toNat_add, BitVec.toNat_add, BitVec.toNat_add, shifted]
  change (_ + 1024) % _ ≤ _
  omega

/-- Everything is on the ramdisk; of a number that several inodes have, the last in the table. -/
structure Durable (s s' : Drive) : Prop where
  buffers : ∀ i < s'.cache.nrBuffers, (s'.cache.head i).dirt = false
  inodes : ∀ k < Drive.nrInode, (s'.inode k).dev ≠ 0 → (s'.inode k).pipe = false → (s'.inode k).dirt = false
  blocks : ∀ i < s'.cache.nrBuffers, (s'.cache.head i).dev ≠ 0 → (s'.cache.head i).uptodate = true → OnDisk s' i
  slots : ∀ k < Drive.nrInode, (s.inode k).dev ≠ 0 → (s.inode k).dirt = true →
    (∀ j < Drive.nrInode, k < j → (s.inode j).dev ≠ 0 → (s.inode j).dirt = true → (s.inode j).num ≠ (s.inode k).num) →
    InTable (s'.disk (s'.inodeBlock (s.inode k).num.toNat)) (s.inode k)

theorem sysSync_durable {fuel : Nat} (arranged : Arranged s) (transferred : Transferred s) (matched : Matched s)
    (memory : s.start.toNat + s.length.toNat < 2 ^ 64) (numbering : Numbering s)
    (synced : Drive.sysSync fuel s = .ok s') : Durable s s' := by
  rcases of_bind synced with ⟨t, inodes, rest⟩
  cases rest
  have first : Moves RamdiskInt True s t := syncInodesFrom_moves arranged.linked inodes
  have second : Moves RamdiskInt True t (t.sweep fun _ => true) := sweep_moves t fun _ => true
  have atInodes : Arranged t ∧ Matched t :=
    first.changes.keeps (fun _ _ arranged matched change => matched.change arranged change) arranged matched
  have atEnd : Arranged (t.sweep fun _ => true) ∧ Matched (t.sweep fun _ => true) :=
    second.changes.keeps (fun _ _ arranged matched change => matched.change arranged change) atInodes.1 atInodes.2
  have flushed := sweep_flushed t fun _ => true
  have positive (k : Nat) (below : k < 0 + Drive.nrInode) (due : Due s k) : 1 ≤ (s.inode k).num.toNat :=
    (numbering k (by omega) due.2.2).1
  have waits := (syncInodesFrom_inBuffer transferred positive inodes).1
  rcases syncInodesFrom_fit transferred inodes with ⟨-, -, -, written, -⟩
  have geometry := syncInodesFrom_geometry transferred inodes
  have clean (i : Nat) (inside : i < t.cache.nrBuffers) : ((t.sweep fun _ => true).cache.head i).dirt = false := by
    rcases atInodes.2.device i with ⟨-, clean, -⟩ | ⟨-, device, -⟩
    · exact flushed.clean i clean
    · exact sweep_cleans (fun _ _ _ => rfl) inside rfl (by rw [device]; exact served_ramdisk)
  have blocks (i : Nat) (inside : i < t.cache.nrBuffers) (fresh : ((t.sweep fun _ => true).cache.head i).uptodate = true) :
      OnDisk (t.sweep fun _ => true) i := atEnd.2.onDisk i fresh (clean i inside)
  refine ⟨?_, ?_, ?_, ?_⟩
  · intro i inside
    rw [flushed.nr] at inside
    exact clean i inside
  · intro k below used noPipe
    rw [flushed.inode] at used noPipe ⊢
    by_contra dirt
    exact written k (Nat.zero_le k) (by simpa using below) ⟨by simpa using dirt, noPipe, used⟩
  · intro i inside _ fresh
    rw [flushed.nr] at inside
    exact blocks i inside fresh
  · intro k below used dirt alone
    have onRamdisk := (arranged.mounted k).resolve_left used
    have due : Due s k := ⟨dirt, onRamdisk.2, used⟩
    have unshared : Unshared s (k + 1) (0 + Drive.nrInode - (k + 1)) (s.inode k).num := by
      intro j last first dueJ
      exact alone j (by omega) (by omega) dueJ.2.2 dueJ.1
    rcases waits k (by omega) (Nat.zero_le k) due unshared with ⟨i, has, -, fresh, table⟩
    have small : t.inodeBlock (s.inode k).num.toNat < 2 ^ 18 := by
      have imap := t.imapBlocks.isLt
      have zmap := t.zmapBlocks.isLt
      have bound := (s.inode k).num.isLt
      unfold Drive.inodeBlock
      omega
    have served : t.serves (t.cache.head i).blocknr = true := by
      rw [has.2.2]
      have inside := (numbering k below used).2
      rw [Inside, ← geometry.2.1] at inside
      have same : t.inodeBlock (s.inode k).num.toNat = s.inodeBlock (s.inode k).num.toNat := by
        rw [Drive.inodeBlock, Drive.inodeBlock, geometry.2.2.1, geometry.2.2.2]
      rw [same]
      refine serves_inside ?_ inside
      rw [geometry.1, geometry.2.1]
      exact memory
    have swept : ∃ dirt, (t.sweep fun _ => true).cache.head i = { t.cache.head i with dirt } :=
      sweep_valid has.2.1 fresh served
    rcases swept with ⟨dirt', head⟩
    have stored := blocks i has.1 (by rw [head]; exact fresh)
    have notMap := inodeBlock_notMap (t.sweep fun _ => true) (s.inode k).num
    have block : (t.sweep fun _ => true).inodeBlock (s.inode k).num.toNat = t.inodeBlock (s.inode k).num.toNat := by
      rw [Drive.inodeBlock, Drive.inodeBlock, flushed.table.1, flushed.table.2]
    have there : place (t.cache.head i).blocknr = t.inodeBlock (s.inode k).num.toNat := by
      rw [has.2.2, place, BitVec.toNat_ofNat]
      omega
    unfold OnDisk at stored
    rw [head] at stored
    simp only at stored
    rw [has.2.2, ← block] at stored
    rw [has.2.2, ← block] at there
    rcases stored with same | ⟨map, -⟩
    · rw [there] at same
      rw [← same]
      exact table
    · exact absurd map notMap

/-- The calls on block special files are on the ramdisk, and `getblk` is called with an `int`. -/
def DeviceEvent.OnRamdisk : DeviceEvent → Prop
  | .file (.cache e) => ∀ block ∈ e.asks, IsInt block
  | .file _ | .readSuper .. => True
  | .blockRead _ dev .. | .blockWrite _ dev .. => dev = ramdisk

instance : (e : DeviceEvent) → Decidable e.OnRamdisk
  | .file (.cache e) => inferInstanceAs (Decidable (∀ block ∈ e.asks, IsInt block))
  | .file (.forget _) | .file (.iget ..) | .file (.newInode ..) | .file (.getPipeInode ..) | .file (.change ..) => isTrue trivial
  | .file (.writeInode ..) | .file (.release _) | .file (.closePipe _) | .file (.clear _) | .readSuper .. => isTrue trivial
  | .blockRead _ dev .. | .blockWrite _ dev .. => inferInstanceAs (Decidable (dev = ramdisk))

theorem DeviceEvent.OnRamdisk.asks {e : DeviceEvent} (onRamdisk : e.OnRamdisk) : e.Asks RamdiskInt := by
  cases e with
  | file e =>
    cases e with
    | cache e => exact fun block asked => ⟨rfl, onRamdisk block asked⟩
    | _ => trivial
  | blockRead => exact ⟨fun _ _ => ⟨onRamdisk, isInt_signExtend _⟩, fun _ _ => ⟨onRamdisk, isInt_signExtend _⟩⟩
  | blockWrite => exact ⟨fun _ _ => ⟨onRamdisk, isInt_signExtend _⟩, fun _ _ => ⟨onRamdisk, isInt_signExtend _⟩⟩
  | readSuper => trivial

theorem Change.size {asks : BitVec 16 → BitVec 64 → Prop} (change : Change asks s s') :
    s'.start = s.start ∧ s'.length = s.length := by
  cases change with
  | move move =>
    cases move with
    | request write i => exact (llRwBlock_flushed s write i).size
    | count i count => exact ⟨rfl, rfl⟩
    | assign i dev block cache => exact ⟨rfl, rfl⟩
    | inode i k data => exact ⟨rfl, rfl⟩
  | store i data uptodate used => exact ⟨rfl, rfl⟩
  | drop i => exact ⟨rfl, rfl⟩
  | reserve i block has map => exact ⟨rfl, rfl⟩
  | inode k inode mounted => exact ⟨rfl, rfl⟩

/-- What holds in every state that is reached over the ramdisk. -/
structure Fit (s : Drive) : Prop where
  arranged : Arranged s
  transferred : Transferred s
  matched : Matched s

theorem Fit.linked (fit : Fit s) : Linked s := fit.arranged.linked

theorem Fit.changes (fit : Fit s) (changes : Changes RamdiskInt s s') : Fit s' := by
  have kept := changes.keeps (P := fun a => Transferred a ∧ Matched a)
    (fun _ _ arranged both change => ⟨both.1.change change, both.2.change arranged change⟩) fit.arranged
    ⟨fit.transferred, fit.matched⟩
  exact ⟨kept.1, kept.2.1, kept.2.2⟩

theorem Changes.size {asks : BitVec 16 → BitVec 64 → Prop} (changes : Changes asks s s') :
    s'.start = s.start ∧ s'.length = s.length := by
  induction changes with
  | refl => exact ⟨rfl, rfl⟩
  | tail _ change ih => exact ⟨change.size.1.trans ih.1, change.size.2.trans ih.2⟩

theorem run_fit {n : Nat} (room : 0 < n) (blocknr : Nat → BitVec 64) (data image : Nat → Block) (start length : BitVec 64)
    (imapBlocks zmapBlocks : BitVec 16) {s : System}
    (run : Run DeviceEvent.step (fun e _ => e.OnRamdisk)
      (.fresh n blocknr data image start length imapBlocks zmapBlocks) s) :
    Fit s.session.drive ∧ s.session.drive.start = start ∧ s.session.drive.length = length := by
  refine run.invariant (I := fun s => Fit s.session.drive ∧ s.session.drive.start = start ∧ s.session.drive.length = length)
    ⟨⟨fresh_arranged room blocknr data image start length imapBlocks zmapBlocks,
      fresh_transferred room blocknr data image start length imapBlocks zmapBlocks,
      fun _ => .inl ⟨rfl, rfl, rfl⟩, fun _ fresh => by cases fresh⟩, rfl, rfl⟩ ?_
  intro e a b before onRamdisk stepped
  have changes := step_changes before.1.arranged onRamdisk.asks stepped
  exact ⟨before.1.changes changes, changes.size.1.trans before.2.1, changes.size.2.trans before.2.2⟩

/-- In every state that is reached over the ramdisk, `sys_sync` leaves everything on it. -/
theorem sysSync_stores_everything {n : Nat} (room : 0 < n) (blocknr : Nat → BitVec 64) (data image : Nat → Block)
    {start length : BitVec 64} (memory : start.toNat + length.toNat < 2 ^ 64) (imapBlocks zmapBlocks : BitVec 16)
    {s : System} {fuel : Nat} {drive : Drive}
    (run : Run DeviceEvent.step (fun e _ => e.OnRamdisk)
      (.fresh n blocknr data image start length imapBlocks zmapBlocks) s)
    (numbering : Numbering s.session.drive) (synced : s.session.drive.sysSync fuel = .ok drive) :
    Durable s.session.drive drive := by
  rcases run_fit room blocknr data image start length imapBlocks zmapBlocks run with ⟨fit, atStart, atLength⟩
  rw [← atStart, ← atLength] at memory
  exact sysSync_durable fit.arranged fit.transferred fit.matched memory numbering synced

/-- On a ramdisk of eight blocks a bitmap was marked, an inode changed and a whole block written. -/
theorem changed_inode_stored :
    ∃ s, Run DeviceEvent.step (fun e _ => e.OnRamdisk)
        (.fresh 3 (fun _ => 0) (fun _ _ => 0) (fun b _ => BitVec.ofNat 8 b) 0x8007D000 8192 1 1) s ∧
      (s.session.drive.inode 1).num = 3 ∧ Due s.session.drive 1 ∧
      (s.session.drive.cache.head 2).dirt = true ∧ (s.session.drive.cache.head 2).uptodate = false ∧
      ∃ drive, s.session.drive.sysSync 4 = .ok drive ∧ Durable s.session.drive drive := by
  have test : ((runEvents DeviceEvent.step (fun e _ => e.OnRamdisk)
      [.file (.cache (.bread 4 2)), .readSuper 0 2, .file (.iget 4 3),
        .file (.change 1 { MInode.zero with nlinks := 2, dirt := true }), .blockWrite 4 ramdisk 6144 (fun _ => 7) 1024]
      (.fresh 3 (fun _ => 0) (fun _ _ => 0) (fun b _ => BitVec.ofNat 8 b) 0x8007D000 8192 1 1)).any fun s =>
        (s.session.drive.inode 1).num == 3 && decide (Due s.session.drive 1) && (s.session.drive.cache.head 2).dirt &&
          !(s.session.drive.cache.head 2).uptodate && decide (Numbering s.session.drive) &&
          (s.session.drive.sysSync 4).isOk) = true := by decide +kernel
  rcases Run.of_test test with ⟨s, run, passed⟩
  simp only [Bool.and_eq_true, beq_iff_eq, decide_eq_true_eq, Bool.not_eq_eq_eq_not, Bool.not_true] at passed
  rcases passed with ⟨⟨⟨⟨⟨num, due⟩, dirt⟩, stale⟩, numbering⟩, returns⟩
  refine ⟨s, run, num, due, dirt, stale, ?_⟩
  cases synced : s.session.drive.sysSync 4 with
  | error e =>
    rw [synced] at returns
    cases returns
  | ok drive => exact ⟨drive, rfl, sysSync_stores_everything (by decide) _ _ _ (by decide) _ _ run numbering synced⟩

/-- The bit that `read_super` sets is not written, and of two inodes with one number only the second is. -/
theorem sync_misses_bit :
    (∃ s drive, Run DeviceEvent.step (fun e _ => e.OnRamdisk)
        (.fresh 1 (fun _ => 0) (fun _ _ => 0) (fun _ _ => 0) 0x8007D000 8192 1 1) s ∧ Numbering s.session.drive ∧
      s.session.drive.sysSync 4 = .ok drive ∧ (drive.cache.head 0).dev = ramdisk ∧ (drive.cache.head 0).blocknr = 2 ∧
      (drive.cache.head 0).uptodate = true ∧ (drive.cache.head 0).data ≠ drive.disk 2) ∧
    ∃ s drive, Run DeviceEvent.step (fun e _ => e.OnRamdisk)
        (.fresh 1 (fun _ => 0) (fun _ _ => 0) (fun _ _ => 0) 0x8007D000 8192 1 1) s ∧ Numbering s.session.drive ∧
      s.session.drive.sysSync 4 = .ok drive ∧ (s.session.drive.inode 1).dev ≠ 0 ∧ (s.session.drive.inode 1).dirt = true ∧
      ¬ InTable (drive.disk (drive.inodeBlock (s.session.drive.inode 1).num.toNat)) (s.session.drive.inode 1) := by
  have bit : ((runEvents DeviceEvent.step (fun e _ => e.OnRamdisk) [.file (.cache (.bread 4 2)), .readSuper 0 2]
      (.fresh 1 (fun _ => 0) (fun _ _ => 0) (fun _ _ => 0) 0x8007D000 8192 1 1)).any fun s =>
        decide (Numbering s.session.drive) && (s.session.drive.sysSync 4).toOption.any fun drive =>
          (drive.cache.head 0).dev == ramdisk && (drive.cache.head 0).blocknr == 2 && (drive.cache.head 0).uptodate &&
            (drive.cache.head 0).data 0 != drive.disk 2 0) = true := by decide +kernel
  have shared : ((runEvents DeviceEvent.step (fun e _ => e.OnRamdisk)
      [.file (.iget 4 3), .file (.change 1 { MInode.zero with nlinks := 2, dirt := true }), .file (.newInode 4 3 0 0 0)]
      (.fresh 1 (fun _ => 0) (fun _ _ => 0) (fun _ _ => 0) 0x8007D000 8192 1 1)).any fun s =>
        decide (Numbering s.session.drive) && decide ((s.session.drive.inode 1).dev ≠ 0) && (s.session.drive.inode 1).dirt &&
          (s.session.drive.sysSync 4).toOption.any fun drive =>
            decide (¬ InTable (drive.disk (drive.inodeBlock (s.session.drive.inode 1).num.toNat)) (s.session.drive.inode 1))) =
      true := by decide +kernel
  constructor
  · rcases Run.of_test bit with ⟨s, run, passed⟩
    simp only [Bool.and_eq_true, decide_eq_true_eq] at passed
    rcases passed with ⟨numbering, passed⟩
    cases synced : s.session.drive.sysSync 4 with
    | error e =>
      rw [synced] at passed
      cases passed
    | ok drive =>
      rw [synced] at passed
      simp only [Except.toOption, Option.any_some, Bool.and_eq_true, beq_iff_eq, bne_iff_ne] at passed
      rcases passed with ⟨⟨⟨device, block⟩, fresh⟩, differs⟩
      exact ⟨s, drive, run, numbering, synced, device, block, fresh, fun same => differs (congrFun same 0)⟩
  · rcases Run.of_test shared with ⟨s, run, passed⟩
    simp only [Bool.and_eq_true, decide_eq_true_eq] at passed
    rcases passed with ⟨⟨⟨numbering, device⟩, dirt⟩, passed⟩
    cases synced : s.session.drive.sysSync 4 with
    | error e =>
      rw [synced] at passed
      cases passed
    | ok drive =>
      rw [synced] at passed
      simp only [Except.toOption, Option.any_some, decide_eq_true_eq] at passed
      exact ⟨s, drive, run, numbering, synced, device, dirt, passed⟩

end K210Linux.Buffer
