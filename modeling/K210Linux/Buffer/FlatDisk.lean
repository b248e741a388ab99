import K210Linux.Lib.Outcome
import K210Linux.Buffer.Ramdisk

namespace K210Linux.Buffer

open Outcome
open K210Linux.Fs (Block MInode)

/-- A block of the ramdisk. -/
def Inside (s : Drive) (b : Nat) : Prop := (b + 1) * 1024 ≤ s.length.toNat

instance (s : Drive) (b : Nat) : Decidable (Inside s b) := inferInstanceAs (Decidable (_ ≤ _))

/-- A buffer of a block of the ramdisk. -/
def Mine (s : Drive) (i : Nat) : Prop :=
  i < s.cache.nrBuffers ∧ (s.cache.head i).dev = ramdisk ∧ Inside s (s.cache.head i).blocknr.toNat

/-- A block number that a request takes for a block of the ramdisk is the number of that block. -/
def Real (s : Drive) (block : BitVec 64) : Prop := Inside s (place block) → Inside s block.toNat

/-- The cache over the ramdisk stands for the flat disk `flat`: what is up to date in a buffer is the
    block, and so is what lies on the ramdisk unless the buffer is dirty. Buffers of other devices, and of blocks
    behind the end of the ramdisk, may hold anything, but no request for them gets to a block of the ramdisk. -/
structure Shows (s : Drive) (flat : Nat → Block) : Prop where
  room : s.start.toNat + s.length.toNat < 2 ^ 64
  queues : ∃ order chain, Queues s.cache order chain
  real : ∀ i, i < s.cache.nrBuffers → (s.cache.head i).dev = ramdisk → Real s (s.cache.head i).blocknr
  dirty : ∀ i, Mine s i → (s.cache.head i).dirt = true → (s.cache.head i).uptodate = true
  cached : ∀ i, Mine s i → (s.cache.head i).uptodate = true → (s.cache.head i).data = flat (s.cache.head i).blocknr.toNat
  stored : ∀ b, Inside s b → (∀ i, Mine s i → (s.cache.head i).dirt = true → (s.cache.head i).blocknr.toNat ≠ b) →
    s.disk b = flat b

variable {s s' : Drive} {flat flat' : Nat → Block} {i : Nat}

theorem place_eq {block : BitVec 64} (inside : Inside s block.toNat) : place block = block.toNat := by
  have bound := s.length.isLt
  rw [Inside] at inside
  apply Nat.mod_eq_of_lt
  omega

theorem Mine.used (mine : Mine s i) : (s.cache.head i).dev ≠ 0 := by
  rw [mine.2.1]
  decide

theorem Shows.unique (shows : Shows s flat) {j : Nat} (mineI : Mine s i) (mineJ : Mine s j)
    (same : (s.cache.head i).blocknr.toNat = (s.cache.head j).blocknr.toNat) : i = j := by
  rcases shows.queues with ⟨order, chain, queues⟩
  apply queues.unique i j mineI.1 mineJ.1 mineI.used
  · rw [mineI.2.1, mineJ.2.1]
  · exact BitVec.eq_of_toNat_eq same

/-- The block of a clean buffer lies on the ramdisk. -/
theorem Shows.on_disk (shows : Shows s flat) (mine : Mine s i) (clean : (s.cache.head i).dirt = false) :
    s.disk (s.cache.head i).blocknr.toNat = flat (s.cache.head i).blocknr.toNat := by
  apply shows.stored _ mine.2.2
  intro j mineJ isDirty same
  have here := shows.unique mineJ mine same
  rw [here, clean] at isDirty
  cases isDirty

/-- A buffer and the ramdisk change for one block only. -/
theorem Shows.change (shows : Shows s flat) (head : BufferHead) (disk : Nat → Block)
    (dev : head.dev = (s.cache.head i).dev) (block : head.blocknr = (s.cache.head i).blocknr)
    (dirty : Mine s i → head.dirt = true → head.uptodate = true)
    (cached : Mine s i → head.uptodate = true → head.data = flat' head.blocknr.toNat)
    (others : ∀ b, Inside s b → (Mine s i → b ≠ head.blocknr.toNat) → flat' b = flat b ∧ disk b = s.disk b)
    (stored : Mine s i → head.dirt = false → disk head.blocknr.toNat = flat' head.blocknr.toNat) :
    Shows { s.setHead i head with disk } flat' := by
  rcases shows.queues with ⟨order, chain, queues⟩
  have heads (j : Nat) : ({ s.setHead i head with disk } : Drive).cache.head j = if j = i then head else s.cache.head j := by
    simp only [Drive.setHead, Cache.setHead, Function.update_apply]
  have device (j : Nat) : (({ s.setHead i head with disk } : Drive).cache.head j).dev = (s.cache.head j).dev ∧
      (({ s.setHead i head with disk } : Drive).cache.head j).blocknr = (s.cache.head j).blocknr := by
    rw [heads]
    split
    · rename_i here
      rw [here]
      exact ⟨dev, block⟩
    · exact ⟨rfl, rfl⟩
  have mines (j : Nat) : Mine { s.setHead i head with disk } j ↔ Mine s j := by
    rw [Mine, Mine, (device j).1, (device j).2]
    exact Iff.rfl
  refine ⟨shows.room, ⟨order, chain, queues.setHead dev block⟩, ?_, ?_, ?_, ?_⟩
  · intro j inside ramdisk
    rw [(device j).1] at ramdisk
    rw [(device j).2]
    exact shows.real j inside ramdisk
  · intro j mineJ isDirty
    rw [mines] at mineJ
    rw [heads] at isDirty ⊢
    split_ifs at isDirty ⊢ with here
    · rw [here] at mineJ
      exact dirty mineJ isDirty
    · exact shows.dirty j mineJ isDirty
  · intro j mineJ fresh
    rw [mines] at mineJ
    rw [heads] at fresh ⊢
    split_ifs at fresh ⊢ with here
    · rw [here] at mineJ
      exact cached mineJ fresh
    · rw [shows.cached j mineJ fresh, (others _ mineJ.2.2 ?_).1]
      intro mine same
      rw [block] at same
      exact here (shows.unique mineJ mine same)
  · intro b inside none
    by_cases here : Mine s i ∧ b = head.blocknr.toNat
    · rcases here with ⟨mine, rfl⟩
      apply stored mine
      rw [← Bool.not_eq_true]
      intro isDirty
      have atI := none i ((mines i).2 mine)
      rw [heads, if_pos rfl] at atI
      exact atI isDirty rfl
    · have apart : Mine s i → b ≠ head.blocknr.toNat := fun mine same => here ⟨mine, same⟩
      rw [(others b inside apart).1]
      refine ((others b inside apart).2).trans (shows.stored b inside ?_)
      intro j mineJ isDirty
      by_cases atI : j = i
      · rw [atI, ← block]
        rw [atI] at mineJ
        exact (apart mineJ).symm
      · have still := none j ((mines j).2 mineJ)
        rw [heads, if_neg atI] at still
        exact still isDirty

/-- The test of `do_rd_request` lets the blocks of the ramdisk pass. -/
theorem Shows.accepts (shows : Shows s flat) (mine : Mine s i) : s.refuses (s.cache.head i) = false := by
  have room := shows.room
  have inside := mine.2.2
  rw [Inside] at inside
  have shifted : (offset (s.cache.head i).blocknr).toNat = (s.cache.head i).blocknr.toNat * 1024 := by
    rw [offset, BitVec.toNat_shiftLeft, BitVec.toNat_shiftLeft, Nat.shiftLeft_eq, Nat.shiftLeft_eq]
    omega
  have minor : (s.cache.head i).dev.toNat % 256 = 1 := by
    rw [mine.2.1]
    rfl
  simp only [Drive.refuses, minor, ne_eq, not_true_eq_false, decide_false, Bool.false_or, decide_eq_false_iff_not,
    BitVec.not_lt]
  rw [BitVec.le_def, BitVec.toNat_add, BitVec.toNat_add, BitVec.toNat_add, shifted]
  change (_ + 1024) % _ ≤ _
  omega

/-- `ll_rw_block` changes flags and data of the buffer at most, and makes it clean if it makes a request. -/
theorem llRwBlock_cases (s : Drive) (write : Bool) (i : Nat) :
    ∃ head disk, s.llRwBlock write i = { s.setHead i head with disk } ∧ head.dev = (s.cache.head i).dev ∧
      head.blocknr = (s.cache.head i).blocknr ∧ head.count = (s.cache.head i).count ∧
      (head.dirt = true → (s.cache.head i).dirt = true) ∧
      (disk = s.disk ∨ ((s.cache.head i).dev = ramdisk ∧
        disk = Function.update s.disk (place (s.cache.head i).blocknr) (s.cache.head i).data)) := by
  have same : s = { s.setHead i (s.cache.head i) with disk := s.disk } := by
    simp only [Drive.setHead, Cache.setHead, Function.update_eq_self]
  unfold Drive.llRwBlock
  simp only
  split_ifs with major passed refused isWrite
  · exact ⟨s.cache.head i, s.disk, same, rfl, rfl, rfl, id, .inl rfl⟩
  · exact ⟨s.cache.head i, s.disk, same, rfl, rfl, rfl, id, .inl rfl⟩
  · exact ⟨_, s.disk, rfl, rfl, rfl, rfl, (fun dirty => by cases dirty), .inl rfl⟩
  · refine ⟨_, _, rfl, rfl, rfl, rfl, (fun dirty => by cases dirty), .inr ⟨?_, rfl⟩⟩
    simp only [Drive.refuses, ne_eq, Bool.or_eq_true, decide_eq_true_eq, not_or, not_not] at refused
    have bound := (s.cache.head i).dev.isLt
    apply BitVec.eq_of_toNat_eq
    change _ = 257
    have minor := refused.1
    omega
  · exact ⟨_, s.disk, rfl, rfl, rfl, rfl, (fun dirty => by cases dirty), .inl rfl⟩

/-- A request for another device, or behind the end of the ramdisk. -/
theorem Shows.elsewhere (shows : Shows s flat) (write : Bool) (inside : i < s.cache.nrBuffers) (foreign : ¬ Mine s i) :
    Shows (s.llRwBlock write i) flat := by
  rcases llRwBlock_cases s write i with ⟨head, disk, done, dev, block, -, -, written⟩
  rw [done]
  apply shows.change head disk dev block
  · exact fun mine => absurd mine foreign
  · exact fun mine => absurd mine foreign
  · intro b insideB _
    refine ⟨rfl, ?_⟩
    rcases written with same | ⟨device, same⟩
    · rw [same]
    · rw [same, Function.update_of_ne]
      rintro rfl
      exact foreign ⟨inside, device, shows.real i inside device insideB⟩
  · exact fun mine => absurd mine foreign

/-- A dirty buffer is written to the ramdisk. -/
theorem Shows.write (shows : Shows s flat) (mine : Mine s i) (isDirty : (s.cache.head i).dirt = true) :
    s.llRwBlock true i = { s.setHead i { s.cache.head i with dirt := false, uptodate := true } with
      disk := Function.update s.disk (s.cache.head i).blocknr.toNat (s.cache.head i).data } ∧
    Shows (s.llRwBlock true i) flat := by
  have atPlace : place (s.cache.head i).blocknr = (s.cache.head i).blocknr.toNat := place_eq mine.2.2
  have written : s.llRwBlock true i = { s.setHead i { s.cache.head i with dirt := false, uptodate := true } with
      disk := Function.update s.disk (s.cache.head i).blocknr.toNat (s.cache.head i).data } := by
    have onRamdisk : (s.cache.head i).dev.toNat = 257 := by
      rw [mine.2.1]
      rfl
    simp [Drive.llRwBlock, onRamdisk, isDirty, atPlace, shows.accepts mine]
  refine ⟨written, ?_⟩
  rw [written]
  have data := shows.cached i mine (shows.dirty i mine isDirty)
  apply shows.change
  · rfl
  · rfl
  · exact fun _ _ => rfl
  · exact fun _ _ => data
  · intro b _ other
    exact ⟨rfl, Function.update_of_ne (other mine) ..⟩
  · intro _ _
    rw [Function.update_self]
    exact data

/-- A buffer that is not up to date is read from the ramdisk. -/
theorem Shows.read (shows : Shows s flat) (mine : Mine s i) (stale : (s.cache.head i).uptodate = false) :
    s.llRwBlock false i = s.setHead i { s.cache.head i with
      dirt := false, uptodate := true, data := flat (s.cache.head i).blocknr.toNat } ∧
    Shows (s.llRwBlock false i) flat := by
  have clean : (s.cache.head i).dirt = false := by
    rw [← Bool.not_eq_true]
    intro isDirty
    rw [shows.dirty i mine isDirty] at stale
    cases stale
  have onDisk := shows.on_disk mine clean
  have atPlace : place (s.cache.head i).blocknr = (s.cache.head i).blocknr.toNat := place_eq mine.2.2
  have read : s.llRwBlock false i = s.setHead i { s.cache.head i with
      dirt := false, uptodate := true, data := flat (s.cache.head i).blocknr.toNat } := by
    have onRamdisk : (s.cache.head i).dev.toNat = 257 := by
      rw [mine.2.1]
      rfl
    simp [Drive.llRwBlock, onRamdisk, stale, atPlace, shows.accepts mine, onDisk]
  refine ⟨read, ?_⟩
  rw [read]
  apply shows.change _ s.disk
  · rfl
  · rfl
  · exact fun _ _ => rfl
  · exact fun _ _ => rfl
  · exact fun _ _ _ => ⟨rfl, rfl⟩
  · exact fun _ _ => onDisk

/-- The count of a buffer is no part of the flat disk. -/
theorem Shows.setCount (shows : Shows s flat) (i : Nat) (count : BitVec 8) :
    Shows (s.setHead i { s.cache.head i with count := count }) flat := by
  apply shows.change _ s.disk
  · rfl
  · rfl
  · exact fun mine isDirty => shows.dirty i mine isDirty
  · exact fun mine fresh => shows.cached i mine fresh
  · exact fun _ _ _ => ⟨rfl, rfl⟩
  · exact fun mine clean => shows.on_disk mine clean

/-- New contents in a buffer that is marked dirty are new contents of the block. -/
theorem Shows.store (shows : Shows s flat) (mine : Mine s i) (data : Block) :
    Shows (s.setHead i { s.cache.head i with data := data, dirt := true, uptodate := true })
      (Function.update flat (s.cache.head i).blocknr.toNat data) := by
  apply shows.change _ s.disk
  · rfl
  · rfl
  · exact fun _ _ => rfl
  · intro _ _
    change data = Function.update flat (s.cache.head i).blocknr.toNat data (s.cache.head i).blocknr.toNat
    rw [Function.update_self]
  · intro b _ other
    exact ⟨Function.update_of_ne (other mine) .., rfl⟩
  · nofun

/-- A clean buffer gets another block. -/
theorem Shows.assign (shows : Shows s flat) (inside : i < s.cache.nrBuffers) {block : BitVec 64}
    (clean : (s.cache.head i).dirt = false) (real : Real s block)
    (new : s.cache.findBuffer ramdisk block = none) :
    ∃ cache, s.cache.assign i ramdisk block = some cache ∧ cache.nrBuffers = s.cache.nrBuffers ∧
      cache.head = Function.update s.cache.head i ((s.cache.head i).taken ramdisk block) ∧
      Shows { s with cache } flat := by
  rcases shows.queues with ⟨order, chain, queues⟩
  have device : ramdisk ≠ 0 := by decide
  have missing := queues.findBuffer block device
  rw [new] at missing
  rcases queues.assign inside device missing with ⟨cache, assigned, nr, heads, queues'⟩
  have head (j : Nat) : cache.head j = if j = i then (s.cache.head i).taken ramdisk block else s.cache.head j := by
    rw [heads, Function.update_apply]
  have mines (j : Nat) (other : j ≠ i) : Mine { s with cache } j ↔ Mine s j := by
    simp only [Mine, nr, head, if_neg other]
    exact Iff.rfl
  refine ⟨cache, assigned, nr, heads, ⟨shows.room, ⟨_, _, queues'⟩, ?_, ?_, ?_, ?_⟩⟩
  · intro j insideJ used
    simp only [nr, head] at insideJ used ⊢
    split_ifs at used ⊢
    · exact real
    · exact shows.real j insideJ used
  · intro j mineJ isDirty
    simp only [head] at isDirty ⊢
    split_ifs at isDirty ⊢ with here
    · cases isDirty
    · exact shows.dirty j ((mines j here).1 mineJ) isDirty
  · intro j mineJ fresh
    simp only [head] at fresh ⊢
    split_ifs at fresh ⊢ with here
    · cases fresh
    · exact shows.cached j ((mines j here).1 mineJ) fresh
  · intro b insideB none
    apply shows.stored b insideB
    intro j mineJ isDirty
    by_cases here : j = i
    · rw [here, clean] at isDirty
      cases isDirty
    · have apart := none j ((mines j here).2 mineJ)
      simp only [head, if_neg here] at apart
      exact apart isDirty

/-- Some dirty buffers were written, and nothing else happened. -/
structure Flushed (s s' : Drive) : Prop where
  nr : s'.cache.nrBuffers = s.cache.nrBuffers
  size : s'.start = s.start ∧ s'.length = s.length
  inode : s'.inode = s.inode
  table : s'.imapBlocks = s.imapBlocks ∧ s'.zmapBlocks = s.zmapBlocks
  head : ∀ i, (s'.cache.head i).dev = (s.cache.head i).dev ∧ (s'.cache.head i).blocknr = (s.cache.head i).blocknr ∧
    (s'.cache.head i).count = (s.cache.head i).count
  clean : ∀ i, (s.cache.head i).dirt = false → (s'.cache.head i).dirt = false

theorem Flushed.refl (s : Drive) : Flushed s s :=
  ⟨rfl, ⟨rfl, rfl⟩, rfl, ⟨rfl, rfl⟩, fun _ => ⟨rfl, rfl, rfl⟩, fun _ clean => clean⟩

theorem Flushed.trans {s₁ : Drive} (one : Flushed s s₁) (two : Flushed s₁ s') : Flushed s s' where
  nr := two.nr.trans one.nr
  size := ⟨two.size.1.trans one.size.1, two.size.2.trans one.size.2⟩
  inode := two.inode.trans one.inode
  table := ⟨two.table.1.trans one.table.1, two.table.2.trans one.table.2⟩
  head i := ⟨(two.head i).1.trans (one.head i).1, (two.head i).2.1.trans (one.head i).2.1,
    (two.head i).2.2.trans (one.head i).2.2⟩
  clean i clean := two.clean i (one.clean i clean)

theorem Flushed.mine (flushed : Flushed s s') (mine : Mine s i) : Mine s' i := by
  rw [Mine, Inside, flushed.nr, (flushed.head i).1, (flushed.head i).2.1, flushed.size.2]
  exact mine

theorem llRwBlock_flushed (s : Drive) (write : Bool) (i : Nat) : Flushed s (s.llRwBlock write i) := by
  rcases llRwBlock_cases s write i with ⟨head, disk, done, dev, block, count, clean, -⟩
  have heads (j : Nat) : ({ s.setHead i head with disk } : Drive).cache.head j = if j = i then head else s.cache.head j := by
    simp only [Drive.setHead, Cache.setHead, Function.update_apply]
  rw [done]
  refine ⟨rfl, ⟨rfl, rfl⟩, rfl, ⟨rfl, rfl⟩, ?_, ?_⟩
  · intro j
    rw [heads]
    split
    · rename_i here
      rw [here]
      exact ⟨dev, block, count⟩
    · exact ⟨rfl, rfl, rfl⟩
  · intro j before
    rw [heads]
    split
    · rename_i here
      rw [here] at before
      rw [← Bool.not_eq_true]
      intro isDirty
      rw [clean isDirty] at before
      cases before
    · exact before

theorem writeBack_flushed (s : Drive) (which : BufferHead → Bool) (i : Nat) : Flushed s (s.writeBack which i) := by
  unfold Drive.writeBack
  split
  · exact llRwBlock_flushed s true i
  · exact .refl s

theorem foldl_flushed (s : Drive) (which : BufferHead → Bool) (l : List Nat) :
    Flushed s (l.foldl (fun s i => s.writeBack which i) s) := by
  induction l generalizing s with
  | nil => exact .refl s
  | cons i l ih => exact (writeBack_flushed s which i).trans (ih _)

theorem sweep_flushed (s : Drive) (which : BufferHead → Bool) : Flushed s (s.sweep which) := foldl_flushed s which _

/-- A choice of buffers by their device. -/
def ByDevice (which : BufferHead → Bool) : Prop := ∀ bh bh' : BufferHead, bh.dev = bh'.dev → which bh = which bh'

theorem Shows.writeBack (shows : Shows s flat) (which : BufferHead → Bool) (inside : i < s.cache.nrBuffers) :
    Shows (s.writeBack which i) flat ∧
      (Mine s i → which (s.cache.head i) = true → ((s.writeBack which i).cache.head i).dirt = false) := by
  unfold Drive.writeBack
  split
  · rename_i chosen
    simp only [Bool.and_eq_true] at chosen
    refine ⟨?_, ?_⟩
    · by_cases mine : Mine s i
      · exact (shows.write mine chosen.2).2
      · exact shows.elsewhere true inside mine
    · intro mine _
      rw [(shows.write mine chosen.2).1]
      simp [Drive.setHead, Cache.setHead]
  · rename_i passed
    refine ⟨shows, ?_⟩
    intro _ wanted
    simpa [wanted] using passed

theorem Shows.sweepOver (shows : Shows s flat) {which : BufferHead → Bool} (byDevice : ByDevice which) (l : List Nat)
    (inside : ∀ i ∈ l, i < s.cache.nrBuffers) :
    let s' := l.foldl (fun s i => s.writeBack which i) s
    Shows s' flat ∧
      ∀ i ∈ l, Mine s i → which (s.cache.head i) = true → (s'.cache.head i).dirt = false := by
  induction l generalizing s with
  | nil => exact ⟨shows, nofun⟩
  | cons i l ih =>
    have flushed := writeBack_flushed s which i
    rcases shows.writeBack which (inside i (List.mem_cons_self ..)) with ⟨shows₁, done₁⟩
    rcases ih shows₁ (by
      intro j later
      rw [flushed.nr]
      exact inside j (List.mem_cons_of_mem _ later)) with ⟨shows₂, done₂⟩
    have rest : Flushed (s.writeBack which i) (l.foldl (fun s i => s.writeBack which i) (s.writeBack which i)) :=
      foldl_flushed _ which l
    refine ⟨shows₂, ?_⟩
    intro j member mine wanted
    rcases List.mem_cons.1 member with rfl | later
    · exact rest.clean j (done₁ mine wanted)
    · apply done₂ j later (flushed.mine mine)
      rw [byDevice _ _ (flushed.head j).1]
      exact wanted

/-- A sweep writes every chosen buffer. -/
theorem Shows.sweep (shows : Shows s flat) (which : BufferHead → Bool) (byDevice : ByDevice which) :
    Shows (s.sweep which) flat ∧ Flushed s (s.sweep which) ∧
      ∀ i, Mine s i → which (s.cache.head i) = true → ((s.sweep which).cache.head i).dirt = false := by
  rcases shows.sweepOver byDevice (List.range s.cache.nrBuffers) (fun i member => List.mem_range.1 member) with ⟨shows', done⟩
  exact ⟨shows', sweep_flushed s which, fun i mine wanted => done i (List.mem_range.2 mine.1) mine wanted⟩

end K210Linux.Buffer
