import K210Linux.Buffer.InodeRoom
import K210Linux.Buffer.System

/-! When `getblk` returns. -/

namespace K210Linux.Buffer

open Outcome K210Linux.Lib
open K210Linux.Fs (Block Byte MInode)

variable {s s₁ s' : Drive} {i : Nat} {dev : BitVec 16} {block : BitVec 64}

/-- Only the ramdisk driver has registered a `request_fn`. -/
def Served (dev : BitVec 16) : Prop := dev.toNat / 256 = 1

instance (dev : BitVec 16) : Decidable (Served dev) := inferInstanceAs (Decidable (_ = _))

theorem served_ramdisk : Served ramdisk := by decide

theorem Transferred.setHead (transferred : Transferred s) {head : BufferHead} (same : head.dev = (s.cache.head i).dev)
    (blocknr : head.blocknr = (s.cache.head i).blocknr) (lock : head.lock = (s.cache.head i).lock)
    (flags : head.uptodate = true → head.dirt = false → (s.cache.head i).dev = ramdisk →
      ((s.cache.head i).uptodate = true ∧ (s.cache.head i).dirt = false) ∨ s.serves (s.cache.head i).blocknr = true) :
    Transferred (s.setHead i head) := by
  have heads (j : Nat) : (s.setHead i head).cache.head j = if j = i then head else s.cache.head j := by
    simp only [Drive.setHead, Cache.setHead, Function.update_apply]
  refine ⟨transferred.linked.setHead same blocknr, ?_, ?_, transferred.mounted⟩
  · intro j
    rw [heads]
    split
    · rename_i here
      subst j
      intro device fresh clean
      rw [same] at device
      rw [blocknr]
      rcases flags fresh clean device with before | served
      · exact transferred.served i device before.1 before.2
      · exact served
    · exact transferred.served j
  · intro j
    rw [heads]
    split
    · rw [lock]
      exact transferred.unlocked i
    · exact transferred.unlocked j

/-- A buffer that is stored into is dirty. -/
theorem Transferred.store (transferred : Transferred s) (i : Nat) (data : Block) (uptodate : Bool) :
    Transferred (s.setHead i { s.cache.head i with data, dirt := true, uptodate }) :=
  transferred.setHead rfl rfl rfl fun _ clean => by cases clean

theorem Transferred.setInode (transferred : Transferred s) (k : Nat) {inode : MInode}
    (mounted : inode.dev = 0 ∨ inode.dev = ramdisk) : Transferred (s.setInode k inode) := by
  refine ⟨transferred.linked, transferred.served, transferred.unlocked, ?_⟩
  intro j
  simp only [Drive.setInode, Function.update_apply]
  split
  · exact mounted
  · exact transferred.mounted j

theorem Transferred.request (transferred : Transferred s) (write : Bool) (i : Nat) : Transferred (s.llRwBlock write i) := by
  have accepted (allowed : ¬ s.refuses (s.cache.head i) = true) (device : (s.cache.head i).dev = ramdisk) :
      s.serves (s.cache.head i).blocknr = true := by
    rw [refuses_ramdisk device] at allowed
    simpa using allowed
  unfold Drive.llRwBlock
  simp only
  split_ifs with unserved passed refused isWrite
  · exact transferred
  · exact transferred
  · exact transferred.setHead rfl rfl rfl fun fresh => by cases fresh
  · have clean : Transferred (s.setHead i { s.cache.head i with dirt := false, uptodate := true }) :=
      transferred.setHead rfl rfl rfl fun _ _ device => .inr (accepted refused device)
    exact ⟨clean.linked, clean.served, clean.unlocked, clean.mounted⟩
  · exact transferred.setHead rfl rfl rfl fun _ _ device => .inr (accepted refused device)

theorem Transferred.move {asks : BitVec 16 → BitVec 64 → Prop} {inodes : Prop} (transferred : Transferred s)
    (move : Move asks inodes s s') : Transferred s' := by
  have linked := transferred.linked.move move
  cases move with
  | request write i => exact transferred.request write i
  | count i count => exact transferred.setHead rfl rfl rfl fun fresh clean _ => .inl ⟨fresh, clean⟩
  | assign i dev block cache _ _ _ _ _ assigned =>
    have heads := assign_head assigned
    refine ⟨linked, ?_, ?_, transferred.mounted⟩
    · intro j
      simp only [heads.1, Function.update_apply]
      split
      · intro _ fresh
        cases fresh
      · exact transferred.served j
    · intro j
      simp only [heads.1, Function.update_apply]
      split
      · exact transferred.unlocked i
      · exact transferred.unlocked j
  | inode i k data _ _ here =>
    have stored := transferred.store i data (s.cache.head i).uptodate
    refine ⟨stored.linked, stored.served, stored.unlocked, ?_⟩
    intro j
    simp only [Function.update_apply]
    split
    · exact transferred.mounted k
    · exact transferred.mounted j

theorem Transferred.moves {asks : BitVec 16 → BitVec 64 → Prop} {inodes : Prop} (transferred : Transferred s)
    (moves : Moves asks inodes s s') : Transferred s' :=
  moves.keeps (fun _ _ before move => before.move move) transferred

/-- Nothing in the inode table waits to be written. -/
def NothingToWrite (s : Drive) : Prop := ∀ k, k < Drive.nrInode → ¬ Due s k

theorem syncInodesFrom_nothing (fuel : Nat) {k left : Nat} (bound : k + left ≤ Drive.nrInode) (nothing : NothingToWrite s) :
    Drive.syncInodesFrom fuel k left s = .ok s := by
  induction left generalizing k with
  | zero => rfl
  | succ left ih =>
    have one : Drive.syncInode fuel k s = .ok s := syncInode_passes (nothing k (by omega))
    rw [Drive.syncInodesFrom, bind_ok one]
    exact ih (by omega)

/-- With nothing to write for the inodes, `sync_dev` is a sweep over the buffers, made twice. -/
theorem syncDev_nothing (fuel : Nat) (dev : BitVec 16) (nothing : NothingToWrite s) : Drive.syncDev fuel dev s =
      .ok ((s.sweep fun bh => bh.dev = dev).sweep fun bh => bh.dev = dev) := by
  have still : NothingToWrite (s.sweep fun bh => bh.dev = dev) := by
    intro k
    rw [Due, (sweep_flushed s _).inode]
    exact nothing k
  have inodes := syncInodesFrom_nothing fuel (show 0 + Drive.nrInode ≤ Drive.nrInode by omega) still
  exact bind_ok inodes

section Sweep

/-- A request to write leaves no buffer of a served device dirty. -/
theorem llRwBlock_clean (served : Served (s.cache.head i).dev) (dirty : (s.cache.head i).dirt = true) :
    ((s.llRwBlock true i).cache.head i).dirt = false := by
  have major : ¬ (s.cache.head i).dev.toNat / 256 ≠ 1 := not_not.2 served
  simp only [Drive.llRwBlock, major, dirty, if_false, Bool.not_true, Bool.and_false, Bool.false_and, Bool.or_false,
    Bool.false_eq_true, if_true]
  split <;> simp [Drive.setHead, Cache.setHead]

theorem sweep_cleans {which : BufferHead → Bool} (byDevice : ByDevice which) (inside : i < s.cache.nrBuffers)
    (wanted : which (s.cache.head i) = true) (served : Served (s.cache.head i).dev) :
    ((s.sweep which).cache.head i).dirt = false := by
  have swept (l : List Nat) (t : Drive) (flushed : Flushed s t) (cleaned : i ∈ l ∨ (t.cache.head i).dirt = false) :
      ((l.foldl (fun s i => s.writeBack which i) t).cache.head i).dirt = false := by
    induction l generalizing t with
    | nil => exact cleaned.resolve_left List.not_mem_nil
    | cons j l ih =>
      have one := writeBack_flushed t which j
      refine ih _ (flushed.trans one) ?_
      rcases cleaned with member | clean
      · rcases List.mem_cons.1 member with rfl | later
        · right
          have chosen : which (t.cache.head i) = true := by
            rw [byDevice _ _ (flushed.head i).1]
            exact wanted
          change ((t.writeBack which i).cache.head i).dirt = false
          unfold Drive.writeBack
          split
          · rename_i due
            simp only [Bool.and_eq_true] at due
            apply llRwBlock_clean _ due.2
            rw [(flushed.head i).1]
            exact served
          · rename_i passed
            simpa [chosen] using passed
        · exact .inl later
      · exact .inr (one.clean i clean)
  exact swept _ s (.refl s) (.inl (List.mem_range.2 inside))

/-- A request to a device without a driver does nothing. -/
theorem sweep_unserved (unserved : ¬ Served dev) : (s.sweep fun bh => bh.dev = dev) = s := by
  have still (l : List Nat) : l.foldl (fun s i => s.writeBack (fun bh => bh.dev = dev) i) s = s := by
    induction l with
    | nil => rfl
    | cons j l ih =>
      have one : s.writeBack (fun bh => bh.dev = dev) j = s := by
        unfold Drive.writeBack
        split
        · rename_i due
          simp only [Bool.and_eq_true, decide_eq_true_eq] at due
          unfold Drive.llRwBlock
          simp only
          rw [if_pos]
          rw [due.1]
          exact unserved
        · rfl
      rw [List.foldl_cons, one]
      exact ih
  exact still _

/-- A sweep leaves the other buffers alone. -/
theorem sweep_other {which : BufferHead → Bool} (byDevice : ByDevice which) (passed : which (s.cache.head i) = false) :
    (s.sweep which).cache.head i = s.cache.head i := by
  have swept (l : List Nat) (t : Drive) (same : t.cache.head i = s.cache.head i) :
      (l.foldl (fun s i => s.writeBack which i) t).cache.head i = s.cache.head i := by
    induction l generalizing t with
    | nil => exact same
    | cons j l ih =>
      apply ih
      change (t.writeBack which j).cache.head i = _
      unfold Drive.writeBack
      split
      · rename_i due
        simp only [Bool.and_eq_true] at due
        have other : i ≠ j := by
          rintro rfl
          rw [byDevice _ _ (congrArg BufferHead.dev same), passed] at due
          cases due.1
        rcases llRwBlock_cases t true j with ⟨head, disk, done, -⟩
        rw [done, ← same]
        exact Function.update_of_ne other ..
      · exact same
  exact swept _ s rfl

end Sweep

section Choice

variable {c : Cache} {order : List Nat} {chain : Nat → List Nat}

/-- The first unused buffer of the free list, from `tmp` on. -/
def Cache.firstUnused (c : Cache) (tmp : Nat) : Nat → Option Nat
  | 0 => none
  | left + 1 =>
    if (c.head tmp).count = 0 then some tmp
    else
      match c.nextFree tmp with
      | none => none
      | some n => if some n = c.freeList then none else c.firstUnused n left

def Cache.firstFree (c : Cache) : Option Nat := c.freeList.bind fun f => c.firstUnused f c.nrBuffers

/-- Where all unused buffers are dirty, `getblk` stays with the first. -/
theorem Queues.pickFrom_first (queues : Queues c order chain) (unlocked : ∀ i, (c.head i).lock = false)
    (dirty : ∀ i < c.nrBuffers, (c.head i).count = 0 → (c.head i).dirt = true) {tmp left : Nat} (here : tmp ∈ order) :
    c.pickFrom tmp none left = c.firstUnused tmp left := by
  have bad {j : Nat} (member : j ∈ order) (unused : (c.head j).count = 0) : c.badness j = 2 := by
    simp only [Cache.badness, dirty j (queues.mem_order.1 member) unused, unlocked, Bool.toNat_true, Bool.toNat_false]
  have goesOn {bh : Option Nat} {tmp left : Nat} (here : tmp ∈ order)
      (best : ∀ b, bh = some b → b ∈ order ∧ (c.head b).count = 0) :
      ¬ (c.pickFrom tmp bh (left + 1) = some tmp ∧ c.badness tmp = 0) := by
    rintro ⟨stopped, good⟩
    have unused := (queues.pickFrom_spec here best tmp stopped).2
    rw [bad here unused] at good
    cases good
  have kept {b : Nat} (memberB : b ∈ order) (unusedB : (c.head b).count = 0) (left : Nat) :
      ∀ tmp ∈ order, c.pickFrom tmp (some b) left = some b := by
    induction left with
    | zero =>
      intro tmp _
      rfl
    | succ left ih =>
      intro tmp here
      have onward := (pickFrom_succ c tmp left (some b)).resolve_left
        (goesOn here fun b' same => Option.some.inj same ▸ ⟨memberB, unusedB⟩)
      have better : c.better tmp (some b) = some b := by
        unfold Cache.better
        split_ifs with inUse
        · rfl
        · simp only [bad here (not_not.1 inUse), bad memberB unusedB, lt_self_iff_false, if_false]
      rw [onward, better]
      cases link : c.nextFree tmp with
      | none => rfl
      | some n =>
        simp only
        split
        · rfl
        · exact ih n (queues.ring.next_mem here link)
  induction left generalizing tmp with
  | zero => rfl
  | succ left ih =>
    have onward := (pickFrom_succ c tmp left none).resolve_left (goesOn here fun _ absent => by cases absent)
    rw [onward, Cache.firstUnused]
    by_cases unused : (c.head tmp).count = 0
    · have better : c.better tmp none = some tmp := if_neg (not_not.2 unused)
      rw [better, if_pos unused]
      cases link : c.nextFree tmp with
      | none => rfl
      | some n =>
        simp only
        split
        · rfl
        · exact kept here unused left n (queues.ring.next_mem here link)
    · have better : c.better tmp none = none := if_pos unused
      rw [better, if_neg unused]
      cases link : c.nextFree tmp with
      | none => rfl
      | some n =>
        simp only
        split
        · rfl
        · exact ih (queues.ring.next_mem here link)

theorem Queues.pick_first (queues : Queues c order chain) (unlocked : ∀ i, (c.head i).lock = false)
    (dirty : ∀ i < c.nrBuffers, (c.head i).count = 0 → (c.head i).dirt = true) : c.pick = c.firstFree := by
  unfold Cache.pick Cache.firstFree
  cases list : c.freeList with
  | none => rfl
  | some f =>
    have member : f ∈ order := List.mem_of_mem_head? (queues.first.trans list)
    exact queues.pickFrom_first unlocked dirty member

end Choice

section Getblk

theorem assign_returns (linked : Linked s) (inside : i < s.cache.nrBuffers)
    (missing : s.cache.findBuffer dev block = none) : ∃ cache, s.cache.assign i dev block = some cache := by
  rcases linked with ⟨order, chain, queues⟩
  by_cases device : dev = 0
  · subst dev
    rcases queues.assignBare inside block with ⟨cache, assigned, -⟩
    exact ⟨cache, assigned⟩
  · have new := queues.findBuffer block device
    rw [missing] at new
    rcases queues.assign inside device new with ⟨cache, assigned, -⟩
    exact ⟨cache, assigned⟩

/-- The loop over `sync_dev` does not end at a dirty buffer of a device without a driver. -/
theorem clean_unserved {fuel : Nat} (nothing : NothingToWrite s) (unused : (s.cache.head i).count = 0)
    (dirty : (s.cache.head i).dirt = true) (unserved : ¬ Served (s.cache.head i).dev) (turns : Nat) :
    Drive.clean (Drive.syncDev fuel) i turns s = .error .asleep := by
  have synced : Drive.syncDev fuel (s.cache.head i).dev s = .ok s := by
    rw [syncDev_nothing fuel _ nothing, sweep_unserved unserved, sweep_unserved unserved]
  induction turns with
  | zero => rfl
  | succ turns ih =>
    rw [Drive.clean, if_pos dirty, bind_ok synced, if_neg (not_not.2 unused)]
    exact ih

/-- The block is in the cache. -/
def Cached (s : Drive) (dev : BitVec 16) (block : BitVec 64) : Prop :=
  dev ≠ 0 ∧ ∃ i < s.cache.nrBuffers, (s.cache.head i).dev = dev ∧ (s.cache.head i).blocknr = block

/-- The first unused buffer of the free list can be written, and the inodes with it. -/
def Writable (s : Drive) : Prop :=
  match s.cache.firstFree with
  | none => False
  | some i => Served (s.cache.head i).dev ∧ InodesFit s (fun bh => bh.dev = (s.cache.head i).dev) 0 Drive.nrInode

/-- The block is cached, an unused buffer is clean, or the first unused one can be written. -/
def Obtainable (s : Drive) (dev : BitVec 16) (block : BitVec 64) : Prop :=
  Cached s dev block ∨ (∃ i < s.cache.nrBuffers, (s.cache.head i).count = 0 ∧ (s.cache.head i).dirt = false) ∨ Writable s

instance (s : Drive) (dev : BitVec 16) (block : BitVec 64) : Decidable (Cached s dev block) :=
  inferInstanceAs (Decidable (_ ∧ _))

instance (s : Drive) : Decidable (Writable s) := by
  unfold Writable
  split <;> infer_instance

instance (s : Drive) (dev : BitVec 16) (block : BitVec 64) : Decidable (Obtainable s dev block) :=
  inferInstanceAs (Decidable (_ ∨ _))

theorem cached_iff (linked : Linked s) : Cached s dev block ↔ (s.cache.findBuffer dev block).isSome = true := by
  rcases linked with ⟨order, chain, queues⟩
  constructor
  · rintro ⟨device, i, inside, here⟩
    have spec := queues.findBuffer block device
    cases found : s.cache.findBuffer dev block with
    | some j => rfl
    | none =>
      rw [found] at spec
      exact absurd here (spec i inside)
  · intro some
    rcases Option.isSome_iff_exists.1 some with ⟨i, found⟩
    have here := queues.found found
    exact ⟨queues.found_device found, i, here.1, here.2⟩

/-- What is dirty for the device is what `sync_dev` writes before the inodes. -/
theorem sweep_fit (transferred : Transferred s) (served : Served dev) :
    InodesFit (s.sweep fun bh => bh.dev = dev) (fun _ => false) 0 Drive.nrInode ↔
      InodesFit s (fun bh => bh.dev = dev) 0 Drive.nrInode := by
  have byDevice : ByDevice fun bh => bh.dev = dev := fun _ _ same => by simp only [same]
  have flushed := sweep_flushed s fun bh => bh.dev = dev
  have swept : Transferred (s.sweep fun bh => bh.dev = dev) := by
    have moves : Moves (fun _ _ => True) True s _ := sweep_moves s fun bh => bh.dev = dev
    exact transferred.moves moves
  have other {i : Nat} (passed : (s.cache.head i).dev ≠ dev) :
      (s.sweep fun bh => bh.dev = dev).cache.head i = s.cache.head i := sweep_other byDevice (by simp [passed])
  have cleaned {i : Nat} (inside : i < s.cache.nrBuffers) (here : (s.cache.head i).dev = dev) :
      ((s.sweep fun bh => bh.dev = dev).cache.head i).dirt = false :=
    sweep_cleans byDevice inside (by simp [here]) (by rw [here]; exact served)
  generalize (s.sweep fun bh => bh.dev = dev) = t at *
  have has (i : Nat) (x : BitVec 64) : t.Has i x ↔ s.Has i x := by
    rw [Drive.Has, Drive.Has, flushed.nr, (flushed.head i).1, (flushed.head i).2.1]
  have spare : t.spare (fun _ => false) = s.spare fun bh => bh.dev = dev := by
    ext i
    rw [mem_spare, mem_spare, flushed.nr, (flushed.head i).2.2]
    refine and_congr_right fun inside => and_congr_right fun _ => ?_
    by_cases here : (s.cache.head i).dev = dev
    · simp [cleaned inside here, here]
    · rw [other here]
      simp [here]
  have due (k : Nat) : Due t k ↔ Due s k := by rw [Due, Due, flushed.inode]
  have slot (k : Nat) : t.slotBlock k = s.slotBlock k := by
    rw [Drive.slotBlock, Drive.slotBlock, Drive.inodeBlock, Drive.inodeBlock, flushed.inode, flushed.table.1, flushed.table.2]
  have needed : t.needed (fun _ => false) 0 Drive.nrInode = s.needed (fun bh => bh.dev = dev) 0 Drive.nrInode := by
    ext x
    simp only [mem_needed, due, slot, has, spare]
  have serves (x : BitVec 64) : t.serves x = s.serves x := by
    rw [Drive.serves, Drive.serves, flushed.size.1, flushed.size.2]
  have storable (k : Nat) : Storable t (fun _ => false) k ↔ Storable s (fun bh => bh.dev = dev) k := by
    unfold Storable
    rw [slot, serves, flushed.nr]
    refine and_congr ?_ ?_
    · constructor
      · rintro (onDisk | ⟨i, inside, hasI, fresh, -⟩)
        · exact .inl onDisk
        · by_cases here : (s.cache.head i).dev = dev
          · have valid := swept.served i hasI.2.1 fresh (cleaned inside here)
            rw [hasI.2.2, serves] at valid
            exact .inl valid
          · rw [other here] at fresh
            exact .inr ⟨i, inside, (has i _).1 hasI, fresh, by simp [here]⟩
      · rintro (onDisk | ⟨i, inside, hasI, fresh, passed⟩)
        · exact .inl onDisk
        · have apart : (s.cache.head i).dev ≠ dev := by simpa using passed
          rw [← other apart] at fresh
          exact .inr ⟨i, inside, (has i _).2 hasI, fresh, rfl⟩
    · simp only [has, (flushed.head _).2.2]
  rw [InodesFit, InodesFit, needed, spare]
  simp only [due, storable]

/-- A buffer of a device with a driver is cleaned by `sync_dev` if no inode is to be written. -/
theorem clean_nothing (transferred : Transferred s) (nothing : NothingToWrite s) (inside : i < s.cache.nrBuffers)
    (unused : (s.cache.head i).count = 0) (served : Served (s.cache.head i).dev) (fuel turns : Nat) :
    ∃ s', Drive.clean (Drive.syncDev fuel) i (turns + 2) s = .ok (false, s') ∧ Flushed s s' ∧ Linked s' := by
  cases dirt : (s.cache.head i).dirt with
  | false =>
    refine ⟨s, ?_, .refl s, transferred.linked⟩
    rw [Drive.clean, dirt]
    rfl
  | true =>
    have byDevice : ByDevice fun bh => bh.dev = (s.cache.head i).dev := fun _ _ same => by simp only [same]
    have synced := syncDev_nothing fuel (s.cache.head i).dev nothing
    have one := sweep_flushed s fun bh => bh.dev = (s.cache.head i).dev
    have two := sweep_flushed (s.sweep fun bh => bh.dev = (s.cache.head i).dev) fun bh => bh.dev = (s.cache.head i).dev
    have flushed := one.trans two
    have clean := two.clean i (sweep_cleans byDevice inside (by simp) served)
    have moves : Moves (fun _ _ => True) True s _ := (sweep_moves s fun bh => bh.dev = (s.cache.head i).dev).trans
      (sweep_moves _ fun bh => bh.dev = (s.cache.head i).dev)
    refine ⟨_, ?_, flushed, transferred.linked.moves moves⟩
    have still : ((((s.sweep fun bh => bh.dev = (s.cache.head i).dev)).sweep fun bh =>
        bh.dev = (s.cache.head i).dev).cache.head i).count = 0 := by
      rw [(flushed.head i).2.2]
      exact unused
    rw [Drive.clean, if_pos dirt, bind_ok synced, if_neg (not_not.2 still), Drive.clean, clean]
    rfl

/-- What a `sync_dev` that returns did with the inodes. -/
theorem syncDev_fit {fuel : Nat} (transferred : Transferred s) (synced : Drive.syncDev fuel dev s = .ok s') :
    InodesFit (s.sweep fun bh => bh.dev = dev) (fun _ => false) 0 Drive.nrInode ∧ Transferred s' ∧ NothingToWrite s' ∧
      ∃ t, Onward (s.sweep fun bh => bh.dev = dev) t ∧ NothingToWrite t ∧ s' = t.sweep fun bh => bh.dev = dev := by
  have swept : Transferred (s.sweep fun bh => bh.dev = dev) := by
    have moves : Moves (fun _ _ => True) True s _ := sweep_moves s fun bh => bh.dev = dev
    exact transferred.moves moves
  rcases of_bind synced with ⟨t, inodes, rest⟩
  cases rest
  rcases syncInodesFrom_fit swept inodes with ⟨fit, transferred₁, onward, clean, -⟩
  have nothing : NothingToWrite t := fun k below => clean k (Nat.zero_le k) (by simpa using below)
  have moves : Moves (fun _ _ => True) True t _ := sweep_moves t fun bh => bh.dev = dev
  refine ⟨fit, transferred₁.moves moves, ?_, t, onward, nothing, rfl⟩
  intro k below
  rw [Due, (sweep_flushed t fun bh => bh.dev = dev).inode]
  exact nothing k below

/-- The first unused buffer is cleaned, where all are dirty. -/
theorem clean_writable (transferred : Transferred s) (inside : i < s.cache.nrBuffers) (unused : (s.cache.head i).count = 0)
    (dirty : (s.cache.head i).dirt = true) (served : Served (s.cache.head i).dev)
    (fit : InodesFit s (fun bh => bh.dev = (s.cache.head i).dev) 0 Drive.nrInode) (fuel turns : Nat) :
    ∃ s', Drive.clean (Drive.syncDev (fuel + 2)) i (turns + 3) s = .ok (false, s') ∧ Linked s' ∧
      s'.cache.nrBuffers = s.cache.nrBuffers := by
  have swept : Transferred (s.sweep fun bh => bh.dev = (s.cache.head i).dev) := by
    have moves : Moves (fun _ _ => True) True s _ := sweep_moves s fun bh => bh.dev = (s.cache.head i).dev
    exact transferred.moves moves
  have flushed := sweep_flushed s fun bh => bh.dev = (s.cache.head i).dev
  rcases syncInodesFrom_returns swept ((sweep_fit transferred served).2 fit) fuel with ⟨t, inodes⟩
  have synced : Drive.syncDev (fuel + 2) (s.cache.head i).dev s =
      .ok (t.sweep fun bh => bh.dev = (s.cache.head i).dev) := bind_ok inodes
  rcases syncDev_fit transferred synced with ⟨-, transferred', nothing, t', onward, -, same⟩
  rw [same] at transferred' nothing synced
  have flushed' := sweep_flushed t' fun bh => bh.dev = (s.cache.head i).dev
  generalize (t'.sweep fun bh => bh.dev = (s.cache.head i).dev) = s₁ at *
  have nr : s₁.cache.nrBuffers = s.cache.nrBuffers := flushed'.nr.trans (onward.nr.trans flushed.nr)
  have still : (s₁.cache.head i).count = 0 := by
    rw [(flushed'.head i).2.2, onward.count, (flushed.head i).2.2]
    exact unused
  have served₁ : Served (s₁.cache.head i).dev := by
    rw [(flushed'.head i).1]
    rcases onward.dev i with dev | dev
    · rw [dev, (flushed.head i).1]
      exact served
    · rw [dev]
      exact served_ramdisk
  have inside₁ : i < s₁.cache.nrBuffers := by
    rw [nr]
    exact inside
  rcases clean_nothing transferred' nothing inside₁ still served₁ (fuel + 2) turns with ⟨s₂, cleaned, flushed₂, linked⟩
  refine ⟨s₂, ?_, linked, flushed₂.nr.trans nr⟩
  rw [Drive.clean, if_pos dirty, bind_ok synced, if_neg (not_not.2 still)]
  exact cleaned

theorem getblk_returns (transferred : Transferred s) (unused : ∃ i < s.cache.nrBuffers, (s.cache.head i).count = 0)
    (obtainable : Obtainable s dev block) (fuel : Nat) : ∃ i s', s.getblk (fuel + 4) dev block = .ok (i, s') := by
  rcases transferred.linked with ⟨order, chain, queues⟩
  unfold Drive.getblk
  cases found : s.cache.findBuffer dev block with
  | some i =>
    rw [Drive.getblkWith, found]
    exact ⟨i, _, rfl⟩
  | none =>
    rcases unused with ⟨j, insideJ, unusedJ⟩
    rcases queues.pick_best insideJ unusedJ with ⟨b, picked, inside, unusedB, best⟩
    -- what is left to do with the clean buffer
    have taken {s₁ : Drive} (cleaned : Drive.clean (Drive.syncDev (fuel + 4)) b (fuel + 3) s = .ok (false, s₁))
        (linked : Linked s₁) (nr : s₁.cache.nrBuffers = s.cache.nrBuffers) :
        ∃ i s', Drive.getblkWith (Drive.syncDev (fuel + 4)) dev block (fuel + 4) s = .ok (i, s') := by
      rw [Drive.getblkWith, found]
      simp only [picked]
      rw [bind_ok cleaned]
      cases now : s₁.cache.findBuffer dev block with
      | some i =>
        rw [if_pos (.inr rfl), Drive.getblkWith, now]
        exact ⟨i, _, rfl⟩
      | none =>
        rcases assign_returns linked (by rw [nr]; exact inside) now with ⟨cache, assigned⟩
        simp only [Option.isSome_none, Bool.false_eq_true, or_self, if_false, assigned]
        exact ⟨b, _, rfl⟩
    cases dirt : (s.cache.head b).dirt with
    | false =>
      have cleaned : Drive.clean (Drive.syncDev (fuel + 4)) b (fuel + 3) s = .ok (false, s) := by
        rw [Drive.clean, dirt]
        rfl
      exact taken cleaned transferred.linked rfl
    | true =>
      have dirty (i : Nat) (insideI : i < s.cache.nrBuffers) (unusedI : (s.cache.head i).count = 0) :
          (s.cache.head i).dirt = true := by
        have worse := best i insideI unusedI
        cases dirtI : (s.cache.head i).dirt with
        | true => rfl
        | false =>
          simp only [Cache.badness, dirt, dirtI, transferred.unlocked, Bool.toNat_true, Bool.toNat_false] at worse
          omega
      rcases obtainable with cached | ⟨i, insideI, unusedI, clean⟩ | writable
      · rw [cached_iff transferred.linked, found] at cached
        cases cached
      · rw [dirty i insideI unusedI] at clean
        cases clean
      · unfold Writable at writable
        rw [← queues.pick_first transferred.unlocked dirty, picked] at writable
        rcases clean_writable transferred inside unusedB dirt writable.1 writable.2 (fuel + 2) fuel with
          ⟨s₁, cleaned, linked, nr⟩
        exact taken cleaned linked nr

/-- Where `getblk` returned, it found what it needed. -/
theorem obtainable_of_getblk {fuel : Nat} (transferred : Transferred s) (got : s.getblk fuel dev block = .ok (i, s')) :
    Obtainable s dev block := by
  rcases transferred.linked with ⟨order, chain, queues⟩
  unfold Drive.getblk at got
  cases fuel with
  | zero => cases got
  | succ fuel =>
    rw [Drive.getblkWith] at got
    cases found : s.cache.findBuffer dev block with
    | some j => exact .inl ((cached_iff transferred.linked).2 (by rw [found]; rfl))
    | none =>
      rw [found] at got
      cases picked : s.cache.pick with
      | none =>
        rw [picked] at got
        cases got
      | some b =>
        simp only [picked] at got
        have chosen := queues.pick picked
        rcases of_bind got with ⟨⟨again, s₁⟩, cleaned, -⟩
        by_cases some : ∃ i < s.cache.nrBuffers, (s.cache.head i).count = 0 ∧ (s.cache.head i).dirt = false
        · exact .inr (.inl some)
        · have dirty (i : Nat) (inside : i < s.cache.nrBuffers) (unused : (s.cache.head i).count = 0) :
              (s.cache.head i).dirt = true := by
            by_contra clean
            exact some ⟨i, inside, unused, by simpa using clean⟩
          have dirt := dirty b chosen.1 chosen.2
          have writable : Served (s.cache.head b).dev ∧
              InodesFit s (fun bh => bh.dev = (s.cache.head b).dev) 0 Drive.nrInode := by
            cases fuel with
            | zero => cases cleaned
            | succ turns =>
              rw [Drive.clean, if_pos dirt] at cleaned
              rcases of_bind cleaned with ⟨s₂, synced, rest⟩
              rcases syncDev_fit transferred synced with ⟨fit, transferred₂, nothing, t, onward, -, same⟩
              by_cases served : Served (s.cache.head b).dev
              · exact ⟨served, (sweep_fit transferred served).1 fit⟩
              · -- the buffer stays as it is, and so does the loop
                rw [sweep_unserved served] at onward same
                have device : (s.cache.head b).dev ≠ ramdisk := by
                  intro here
                  rw [here] at served
                  exact served served_ramdisk
                have kept : s₂.cache.head b = s.cache.head b := by
                  rw [same]
                  exact onward.dirty b dirt device
                rw [if_neg (by rw [kept]; exact not_not.2 chosen.2)] at rest
                rw [clean_unserved nothing (by rw [kept]; exact chosen.2) (by rw [kept]; exact dirt)
                  (by rw [kept]; exact served)] at rest
                cases rest
          refine .inr (.inr ?_)
          unfold Writable
          rw [← queues.pick_first transferred.unlocked dirty, picked]
          exact writable

end Getblk

theorem Transferred.change {asks : BitVec 16 → BitVec 64 → Prop} (transferred : Transferred s) (change : Change asks s s') :
    Transferred s' := by
  cases change with
  | move move => exact transferred.move move
  | store i data uptodate used => exact transferred.store i data uptodate
  | drop i => exact transferred.setHead rfl rfl rfl fun fresh => by cases fresh
  | reserve i block has map => exact transferred.setHead rfl rfl rfl fun fresh clean _ => .inl ⟨fresh, clean⟩
  | inode k inode mounted => exact transferred.setInode k (mounted.imp_right And.left)

theorem asks_any (e : DeviceEvent) : e.Asks fun _ _ => True := by
  cases e with
  | file e => cases e <;> first | trivial | exact fun _ _ => trivial
  | blockRead => exact ⟨fun _ _ => trivial, fun _ _ => trivial⟩
  | blockWrite => exact ⟨fun _ _ => trivial, fun _ _ => trivial⟩
  | readSuper => trivial

theorem fresh_transferred {n : Nat} (room : 0 < n) (blocknr : Nat → BitVec 64) (data image : Nat → Block)
    (start length : BitVec 64) (imapBlocks zmapBlocks : BitVec 16) :
    Transferred (System.fresh n blocknr data image start length imapBlocks zmapBlocks).session.drive :=
  ⟨⟨_, _, bufferInit_queues room blocknr data⟩, (fun _ device => by cases device), fun _ => rfl, fun _ => .inl rfl⟩

theorem run_transferred {n : Nat} (room : 0 < n) (blocknr : Nat → BitVec 64) (data image : Nat → Block)
    (start length : BitVec 64) (imapBlocks zmapBlocks : BitVec 16) {s : System}
    (run : Run DeviceEvent.step (fun _ _ => True)
      (.fresh n blocknr data image start length imapBlocks zmapBlocks) s) : Transferred s.session.drive := by
  have both : Arranged s.session.drive ∧ Transferred s.session.drive :=
    run.invariant (I := fun s => Arranged s.session.drive ∧ Transferred s.session.drive)
      ⟨fresh_arranged room blocknr data image start length imapBlocks zmapBlocks,
        fresh_transferred room blocknr data image start length imapBlocks zmapBlocks⟩
      fun e _ _ before _ stepped => (step_changes before.1 (asks_any e) stepped).keeps
        (fun _ _ _ transferred change => transferred.change change) before.1 before.2
  exact both.2

end K210Linux.Buffer
