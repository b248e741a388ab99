import K210Linux.Buffer.BlockDev

/-! The memory that the requests of `block_read` and `block_write` touch. -/

namespace K210Linux.Buffer

open Outcome
open K210Linux.Fs (Block Byte storeUser)

variable {start length : BitVec 64} {block : BitVec 64}

/-- The block of bytes that a request copies to or from lies between `rd_start` and `rd_start + rd_length`. -/
def InRamdisk (start length block : BitVec 64) : Prop :=
  start.toNat ≤ (start + offset block).toNat ∧ (start + offset block).toNat + 1024 ≤ start.toNat + length.toNat

/-- The address test of `do_rd_request`. -/
def Refused (start length block : BitVec 64) : Prop := start + length < start + offset block + 1024

def Confined (start length block : BitVec 64) : Prop := Refused start length block ∨ InRamdisk start length block

theorem offset_toNat (block : BitVec 64) : (offset block).toNat = 1024 * place block := by
  rw [offset, place, BitVec.toNat_shiftLeft, BitVec.toNat_shiftLeft, Nat.shiftLeft_eq, Nat.shiftLeft_eq]
  omega

theorem place_lt (block : BitVec 64) : place block < 2 ^ 54 := Nat.mod_lt _ (by decide)

theorem inRamdisk_iff (room : start.toNat + length.toNat < 2 ^ 64) :
    InRamdisk start length block ↔ (place block + 1) * 1024 ≤ length.toNat := by
  have small := place_lt block
  rw [InRamdisk, BitVec.toNat_add, offset_toNat]
  omega

theorem refused_iff (room : start.toNat + length.toNat < 2 ^ 64) :
    Refused start length block ↔ start.toNat + length.toNat < (start.toNat + 1024 * place block + 1024) % 2 ^ 64 := by
  have constant : (1024 : BitVec 64).toNat = 1024 := rfl
  rw [Refused, BitVec.lt_def, BitVec.toNat_add, BitVec.toNat_add, BitVec.toNat_add, offset_toNat, constant,
    Nat.mod_eq_of_lt room, Nat.mod_add_mod]

/-- The ramdisk lies so far from the end of the address space that no positive block number gets there. -/
def Roomy (start length : BitVec 64) : Prop := start.toNat + length.toNat + 2 ^ 41 < 2 ^ 64

instance : Decidable (Roomy start length) := inferInstanceAs (Decidable (_ < _))

theorem Roomy.room (roomy : Roomy start length) : start.toNat + length.toNat < 2 ^ 64 := by
  rw [Roomy] at roomy
  omega

theorem confined_iff (roomy : Roomy start length) :
    Confined start length block ↔
      start.toNat + length.toNat < (start.toNat + 1024 * place block + 1024) % 2 ^ 64 ∨
        (place block + 1) * 1024 ≤ length.toNat := by
  rw [Confined, refused_iff roomy.room, inRamdisk_iff roomy.room]

theorem small_confined (roomy : Roomy start length) (small : block.toNat < 2 ^ 31) : Confined start length block := by
  rw [confined_iff roomy, place]
  rw [Roomy] at roomy
  omega

theorem ahead_confined (roomy : Roomy start length) {n : BitVec 32} (positive : n.msb = false) :
    Confined start length (n.signExtend 64) := by
  apply small_confined roomy
  rw [BitVec.msb_eq_decide, decide_eq_false_iff_not] at positive
  rw [BitVec.toNat_signExtend, BitVec.toNat_setWidth, BitVec.msb_eq_decide, if_neg (by simpa using positive)]
  omega

/-- The block numbers that the test tells apart from blocks of the ramdisk. -/
theorem number_confined_iff (roomy : Roomy start length) (n : BitVec 32) :
    Confined start length (n.signExtend 64) ↔ 0 ≤ n.toInt ∨ (start.toNat : Int) + (n.toInt + 1) * 1024 < 0 := by
  cases positive : n.msb with
  | false =>
    have nonneg : 0 ≤ n.toInt := by
      rw [BitVec.toInt_eq_msb_cond, positive]
      exact Int.natCast_nonneg _
    exact iff_of_true (ahead_confined roomy positive) (.inl nonneg)
  | true =>
    have bound := n.isLt
    have toInt : n.toInt = (n.toNat : Int) - 2 ^ 32 := by
      rw [BitVec.toInt_eq_msb_cond, positive]
      rfl
    have toNat : (n.signExtend 64).toNat = n.toNat + (2 ^ 64 - 2 ^ 32) := by
      rw [BitVec.toNat_signExtend, BitVec.toNat_setWidth, positive, if_pos rfl]
      omega
    have high : 2 ^ 31 ≤ n.toNat := by
      rw [BitVec.msb_eq_decide, decide_eq_true_eq] at positive
      exact positive
    have placed : place (n.signExtend 64) = n.toNat + (2 ^ 54 - 2 ^ 32) := by
      rw [place, toNat]
      omega
    rw [confined_iff roomy, placed, toInt]
    rw [Roomy] at roomy
    omega

variable {s s' : Drive} {i : Nat} {dev : BitVec 16} {sync : BitVec 16 → Drive → Except Halt Drive} {m : Nat → Block}

/-- The blocks that may be asked for. -/
def Safe (start length : BitVec 64) (dev : BitVec 16) (block : BitVec 64) : Prop :=
  dev = ramdisk → Confined start length block

/-- The requests for the buffers are all refused or keep to the ramdisk. -/
structure Guarded (start length : BitVec 64) (s : Drive) : Prop where
  size : s.start = start ∧ s.length = length
  linked : Linked s
  confined : ∀ i, Safe start length (s.cache.head i).dev (s.cache.head i).blocknr

theorem Guarded.setHead (guarded : Guarded start length s) {head : BufferHead} (same : head.dev = (s.cache.head i).dev)
    (blocknr : head.blocknr = (s.cache.head i).blocknr) : Guarded start length (s.setHead i head) := by
  refine ⟨guarded.size, guarded.linked.setHead same blocknr, ?_⟩
  intro j
  simp only [Drive.setHead, Cache.setHead, Function.update_apply]
  split
  · rw [same, blocknr]
    exact guarded.confined i
  · exact guarded.confined j

theorem table_confined (roomy : Roomy start length) (table : TableBlock s block) : Confined start length block := by
  rcases table with ⟨k, -, rfl⟩
  apply small_confined roomy
  have imap := s.imapBlocks.isLt
  have zmap := s.zmapBlocks.isLt
  have num := (s.inode k).num.isLt
  rw [Drive.inodeBlock, BitVec.toNat_ofNat]
  omega

theorem Guarded.move {inodes : Prop} (roomy : Roomy start length) (guarded : Guarded start length s)
    (move : Move (Safe start length) inodes s s') : Guarded start length s' := by
  have linked := guarded.linked.move move
  cases move with
  | request write i =>
    rcases llRwBlock_cases s write i with ⟨head, disk, done, same, blocknr, -⟩
    have changed := guarded.setHead same blocknr
    rw [done] at linked ⊢
    exact ⟨changed.size, linked, changed.confined⟩
  | count i count => exact guarded.setHead rfl rfl
  | assign i dev block cache _ asked _ _ _ assigned =>
    refine ⟨guarded.size, linked, ?_⟩
    intro j
    simp only [(assign_head assigned).1, Function.update_apply]
    split
    · intro here
      exact asked.elim (fun safe => safe here) fun both => table_confined roomy both.2
    · exact guarded.confined j
  | inode i k data _ _ _ =>
    have stored : Guarded start length (s.setHead i { s.cache.head i with data := data, dirt := true }) :=
      guarded.setHead rfl rfl
    exact ⟨stored.size, linked, stored.confined⟩

theorem Guarded.moves {inodes : Prop} (roomy : Roomy start length) (guarded : Guarded start length s)
    (moves : Moves (Safe start length) inodes s s') : Guarded start length s' :=
  moves.keeps (fun _ _ before move => before.move roomy move) guarded

/-- The same ramdisk with `m` in the memory around it. -/
def Drive.around (m : Nat → Block) (s : Drive) : Drive :=
  { s with disk := fun p => if Inside s p then s.disk p else m p }

theorem request_around (roomy : Roomy start length) (guarded : Guarded start length s) (write : Bool) (i : Nat) :
    (s.around m).llRwBlock write i = (s.llRwBlock write i).around m := by
  have passes : (s.cache.head i).dev.toNat / 256 = 1 → s.refuses (s.cache.head i) = false → Inside s (place (s.cache.head i).blocknr) := by
    intro major accepted
    simp only [Drive.refuses, ne_eq, Bool.or_eq_false_iff, decide_eq_false_iff_not, not_not, guarded.size] at accepted
    have device : (s.cache.head i).dev = ramdisk := by
      have bound := (s.cache.head i).dev.isLt
      have minor := accepted.1
      apply BitVec.eq_of_toNat_eq
      change _ = 257
      omega
    rw [Inside, guarded.size.2, ← inRamdisk_iff roomy.room]
    exact (guarded.confined i device).resolve_left accepted.2
  have refuses (bh : BufferHead) : (s.around m).refuses bh = s.refuses bh := rfl
  have cache : (s.around m).cache = s.cache := rfl
  unfold Drive.llRwBlock
  simp only [refuses, cache]
  split_ifs with major passed refused isWrite
  · rfl
  · rfl
  · rfl
  · have inside := passes (not_not.1 major) (by simpa using refused)
    simp only [Drive.around, Drive.setHead, Drive.mk.injEq, true_and, and_true]
    funext p
    by_cases here : p = place (s.cache.head i).blocknr
    · subst p
      have written := Function.update_self (place (s.cache.head i).blocknr) (s.cache.head i).data s.disk
      rw [Function.update_self]
      exact ((if_pos inside).trans written).symm
    · rw [Function.update_of_ne here, Function.update_of_ne here]
      rfl
  · have inside := passes (not_not.1 major) (by simpa using refused)
    have same : (s.around m).disk (place (s.cache.head i).blocknr) = s.disk (place (s.cache.head i).blocknr) := if_pos inside
    rw [same]
    rfl

theorem sweep_around (roomy : Roomy start length) (guarded : Guarded start length s) (which : BufferHead → Bool) :
    (s.around m).sweep which = (s.sweep which).around m := by
  have all (l : List Nat) (a : Drive) (before : Guarded start length a) :
      l.foldl (fun s i => s.writeBack which i) (a.around m) = (l.foldl (fun s i => s.writeBack which i) a).around m := by
    induction l generalizing a with
    | nil => rfl
    | cons i l ih =>
      have one : (a.around m).writeBack which i = (a.writeBack which i).around m := by
        unfold Drive.writeBack
        have cache : (a.around m).cache = a.cache := rfl
        rw [cache]
        split
        · exact request_around roomy before true i
        · rfl
      have after : Guarded start length (a.writeBack which i) := by
        unfold Drive.writeBack
        split
        · have request : Move (Safe start length) True a (a.llRwBlock true i) := .request a true i
          exact before.move roomy request
        · exact before
      rw [List.foldl_cons, List.foldl_cons, one]
      exact ih _ after
  exact all _ s guarded

theorem brelse_around (s : Drive) (i : Nat) : (s.around m).brelse i = (s.brelse i).map (Drive.around m) := by
  unfold Drive.brelse
  have cache : (s.around m).cache = s.cache := rfl
  rw [cache]
  split <;> rfl

/-- What is asked of the `sync_dev` under a `getblk`. -/
structure SyncAround (start length : BitVec 64) (m : Nat → Block) (sync : BitVec 16 → Drive → Except Halt Drive) : Prop where
  moves : SyncMoves sync (Safe start length) True
  around : ∀ dev s, Guarded start length s → sync dev (s.around m) = (sync dev s).map (Drive.around m)

theorem clean_around (roomy : Roomy start length) (synced : SyncAround start length m sync) (i fuel : Nat)
    (guarded : Guarded start length s) :
    Drive.clean sync i fuel (s.around m) = (Drive.clean sync i fuel s).map fun r => (r.1, r.2.around m) := by
  induction fuel generalizing s with
  | zero => rfl
  | succ fuel ih =>
    have cache : (s.around m).cache = s.cache := rfl
    rw [Drive.clean, Drive.clean, cache]
    split
    · refine bind_along (synced.around _ s guarded) ?_
      intro s₁ done
      have guarded₁ := guarded.moves roomy (synced.moves _ s s₁ guarded.linked done)
      have cache₁ : (s₁.around m).cache = s₁.cache := rfl
      rw [cache₁]
      split
      · rfl
      · exact ih guarded₁
    · rfl

theorem getblk_around (roomy : Roomy start length) (synced : SyncAround start length m sync) (fuel : Nat)
    (guarded : Guarded start length s) :
    Drive.getblkWith sync dev block fuel (s.around m) =
      (Drive.getblkWith sync dev block fuel s).map fun r => (r.1, r.2.around m) := by
  induction fuel generalizing s with
  | zero => rfl
  | succ fuel ih =>
    have cache : (s.around m).cache = s.cache := rfl
    rw [Drive.getblkWith, Drive.getblkWith, cache]
    cases s.cache.findBuffer dev block with
    | some i => rfl
    | none =>
      cases picked : s.cache.pick with
      | none => rfl
      | some i =>
        refine bind_along (clean_around roomy synced i fuel guarded) ?_
        rintro ⟨again, s₁⟩ cleaned
        rcases guarded.linked with ⟨order, chain, queues⟩
        have moves := (clean_moves synced.moves guarded.linked (queues.pick picked).2 cleaned).1
        have cache₁ : (s₁.around m).cache = s₁.cache := rfl
        simp only [cache₁]
        split
        · exact ih (guarded.moves roomy moves)
        · cases s₁.cache.assign i dev block <;> rfl

theorem bread_around (roomy : Roomy start length) (synced : SyncAround start length m sync) (fuel : Nat)
    (guarded : Guarded start length s) (asked : Asked (Safe start length) s dev block) :
    Drive.breadWith sync dev block fuel (s.around m) =
      (Drive.breadWith sync dev block fuel s).map fun r => (r.1, r.2.around m) := by
  refine bind_along (getblk_around roomy synced fuel guarded) ?_
  rintro ⟨i, s₁⟩ got
  have guarded₁ := guarded.moves roomy (getblk_moves synced.moves guarded.linked asked got).1
  have cache (a : Drive) : (a.around m).cache = a.cache := rfl
  simp only [cache, request_around roomy guarded₁]
  split
  · rfl
  · split
    · rfl
    · refine bind_along (brelse_around _ i) ?_
      exact fun _ _ => rfl

theorem stuck_around : SyncAround start length m Drive.stuck := ⟨stuck_moves, fun _ _ _ => rfl⟩

theorem writeInode_around (roomy : Roomy start length) (fuel k : Nat) (guarded : Guarded start length s) :
    Drive.writeInode fuel k (s.around m) = (Drive.writeInode fuel k s).map (Drive.around m) := by
  have inode (a : Drive) : (a.around m).inode = a.inode := rfl
  have cache (a : Drive) : (a.around m).cache = a.cache := rfl
  have table : (s.around m).inodeBlock = s.inodeBlock := rfl
  unfold Drive.writeInode
  simp only [inode, table]
  split
  · rfl
  · split
    · rfl
    · rename_i device
      have asked : Asked (Safe start length) s (s.inode k).dev
          (BitVec.ofNat 64 (s.inodeBlock (s.inode k).num.toNat)) := .inr ⟨not_not.1 device, k, not_not.1 device, rfl⟩
      refine bind_along (bread_around roomy stuck_around fuel guarded asked) ?_
      rintro ⟨bh, s₁⟩ -
      cases bh with
      | none => rfl
      | some i =>
        let data := storeInode (s₁.cache.head i).data (((s.inode k).num.toNat - 1) % 32) (s.inode k)
        exact brelse_around { s₁.setHead i { s₁.cache.head i with data := data, dirt := true } with
          inode := Function.update s₁.inode k { s.inode k with dirt := false } } i

theorem syncInodesFrom_around (roomy : Roomy start length) (fuel k left : Nat) (guarded : Guarded start length s) :
    Drive.syncInodesFrom fuel k left (s.around m) = (Drive.syncInodesFrom fuel k left s).map (Drive.around m) := by
  induction left generalizing k s with
  | zero => rfl
  | succ left ih =>
    have one : Drive.syncInode fuel k (s.around m) = (Drive.syncInode fuel k s).map (Drive.around m) := by
      have inode : (s.around m).inode = s.inode := rfl
      unfold Drive.syncInode
      rw [inode]
      split
      · exact writeInode_around roomy fuel k guarded
      · rfl
    refine bind_along one ?_
    intro s₁ done
    have moves : Moves (Safe start length) True s s₁ := by
      unfold Drive.syncInode at done
      split at done
      · exact writeInode_moves guarded.linked done
      · cases done
        exact .refl
    exact ih (k + 1) (guarded.moves roomy moves)

theorem syncDev_around (roomy : Roomy start length) (fuel : Nat) :
    SyncAround start length m (Drive.syncDev fuel) where
  moves := syncDev_moves fuel
  around dev s guarded := by
    have swept : Moves (Safe start length) True s (s.sweep fun bh => bh.dev = dev) := sweep_moves s _
    have guarded₁ := guarded.moves roomy swept
    unfold Drive.syncDev Drive.syncInodes
    rw [sweep_around roomy guarded]
    refine bind_along (syncInodesFrom_around roomy fuel 0 Drive.nrInode guarded₁) ?_
    intro s₁ done
    have guarded₂ := guarded₁.moves roomy (syncInodesFrom_moves guarded₁.linked done)
    rw [sweep_around roomy guarded₂]
    rfl

theorem load_around (roomy : Roomy start length) (guarded : Guarded start length s) (i : Nat) :
    (if ((s.around m).cache.head i).uptodate then s.around m else (s.around m).llRwBlock false i) =
      (if (s.cache.head i).uptodate then s else s.llRwBlock false i).around m := by
  have cache : (s.around m).cache = s.cache := rfl
  rw [cache, request_around roomy guarded]
  split <;> rfl

theorem safeAhead (roomy : Roomy start length) (dev : BitVec 16) : AsksAhead (Safe start length) dev :=
  fun _ positive _ => ahead_confined roomy positive

theorem readAhead_around (roomy : Roomy start length) (fuel : Nat) (ahead : List (BitVec 32))
    (guarded : Guarded start length s) :
    Drive.readAhead fuel dev ahead (s.around m) = (Drive.readAhead fuel dev ahead s).map (Drive.around m) := by
  induction ahead generalizing s with
  | nil => rfl
  | cons first rest ih =>
    rw [Drive.readAhead, Drive.readAhead]
    split
    · rfl
    · rename_i positive
      refine bind_along (getblk_around roomy (syncDev_around roomy fuel) fuel guarded) ?_
      rintro ⟨tmp, s₁⟩ got
      have asked : Asked (Safe start length) s dev (first.signExtend 64) :=
        .inl (safeAhead roomy dev first (by simpa using positive))
      have guarded₁ := guarded.moves roomy (getblk_moves (syncDev_moves fuel) guarded.linked asked got).1
      have loaded : Moves (Safe start length) True s₁ _ := load_moves s₁ tmp
      have guarded₂ := guarded₁.moves roomy loaded
      simp only [load_around roomy guarded₁]
      generalize (if (s₁.cache.head tmp).uptodate then s₁ else s₁.llRwBlock false tmp) = s₂ at guarded₂ ⊢
      have guarded₃ : Guarded start length
          (s₂.setHead tmp { s₂.cache.head tmp with count := (s₂.cache.head tmp).count - 1 }) := guarded₂.setHead rfl rfl
      exact ih guarded₃

theorem breada_around (roomy : Roomy start length) (fuel : Nat) {first : BitVec 32} (ahead : List (BitVec 32))
    (guarded : Guarded start length s) (safe : Safe start length dev (first.signExtend 64)) :
    (s.around m).breada fuel dev first ahead = (s.breada fuel dev first ahead).map fun r => (r.1, r.2.around m) := by
  refine bind_along (getblk_around roomy (syncDev_around roomy fuel) fuel guarded) ?_
  rintro ⟨bh, s₁⟩ got
  have guarded₁ := guarded.moves roomy (getblk_moves (syncDev_moves fuel) guarded.linked (.inl safe) got).1
  have loaded : Moves (Safe start length) True s₁ _ := load_moves s₁ bh
  simp only [load_around roomy guarded₁]
  refine bind_along (readAhead_around roomy fuel ahead (guarded₁.moves roomy loaded)) ?_
  intro s₂ done
  have cache : (s₂.around m).cache = s₂.cache := rfl
  rw [cache]
  split
  · rfl
  · refine bind_along (brelse_around _ bh) ?_
    exact fun _ _ => rfl

theorem writeTarget_around (roomy : Roomy start length) (fuel : Nat) {block : BitVec 32} (chars : Nat)
    (guarded : Guarded start length s) (safe : Safe start length dev (block.signExtend 64)) :
    (s.around m).writeTarget fuel dev block chars =
      (s.writeTarget fuel dev block chars).map fun r => (r.1, r.2.around m) := by
  unfold Drive.writeTarget
  split
  · refine bind_along (getblk_around roomy (syncDev_around roomy fuel) fuel guarded) ?_
    exact fun _ _ => rfl
  · exact breada_around roomy fuel _ guarded safe

theorem writeTarget_guarded (roomy : Roomy start length) {fuel chars : Nat} {block : BitVec 32} {bh : Option Nat}
    (guarded : Guarded start length s) (safe : Safe start length dev (block.signExtend 64))
    (got : s.writeTarget fuel dev block chars = .ok (bh, s')) : Guarded start length s' := by
  unfold Drive.writeTarget at got
  split at got
  · rcases of_bind got with ⟨⟨i, s₁⟩, found, last⟩
    cases last
    exact guarded.moves roomy (getblk_moves (syncDev_moves fuel) guarded.linked (.inl safe) found).1
  · exact guarded.moves roomy (breada_moves (safeAhead roomy dev) safe guarded.linked got).1

theorem writeBlocks_around (roomy : Roomy start length) (fuel turns : Nat) (buf : Nat → Byte) {block : BitVec 32}
    {offset left : Nat} (written : Nat) (small : offset < 1024) (guarded : Guarded start length s)
    (safe : AsksBlocks (Safe start length) dev block offset left) :
    (s.around m).writeBlocks fuel dev buf turns block offset written left =
      (s.writeBlocks fuel dev buf turns block offset written left).map fun r => (r.1, r.2.1, r.2.2.around m) := by
  induction turns generalizing block offset left written s with
  | zero => rfl
  | succ turns ih =>
    rw [Drive.writeBlocks, Drive.writeBlocks]
    split
    · rfl
    · rename_i some
      refine bind_along (writeTarget_around roomy fuel _ guarded (safe.first some)) ?_
      rintro ⟨bh, s₁⟩ got
      have guarded₁ := writeTarget_guarded roomy guarded (safe.first some) got
      cases bh with
      | none => rfl
      | some i =>
        let chars := min (1024 - offset) left
        let data := storeUser (s₁.cache.head i).data offset chars buf written
        have stored : Guarded start length (s₁.setHead i { s₁.cache.head i with data := data, dirt := true }) :=
          guarded₁.setHead rfl rfl
        refine bind_along (brelse_around (s₁.setHead i { s₁.cache.head i with data := data, dirt := true }) i) ?_
        intro s₂ released
        have moves : Moves (Safe start length) True _ s₂ := brelse_moves released
        exact ih (written + chars) (by decide) (stored.moves roomy moves) (safe.next small)

theorem readBlocks_around (roomy : Roomy start length) (fuel turns : Nat) {block : BitVec 32} {offset left : Nat}
    (small : offset < 1024) (guarded : Guarded start length s)
    (safe : AsksBlocks (Safe start length) dev block offset left) :
    (s.around m).readBlocks fuel dev turns block offset left =
      (s.readBlocks fuel dev turns block offset left).map fun r => (r.1, r.2.1, r.2.2.around m) := by
  induction turns generalizing block offset left s with
  | zero => rfl
  | succ turns ih =>
    rw [Drive.readBlocks, Drive.readBlocks]
    split
    · rfl
    · rename_i some
      refine bind_along (breada_around roomy fuel _ guarded (safe.first some)) ?_
      rintro ⟨bh, s₁⟩ got
      have guarded₁ := guarded.moves roomy (breada_moves (safeAhead roomy dev) (safe.first some) guarded.linked got).1
      cases bh with
      | none => rfl
      | some i =>
        refine bind_along (brelse_around s₁ i) ?_
        intro s₂ released
        have moves : Moves (Safe start length) True s₁ s₂ := brelse_moves released
        refine bind_along (ih (by decide) (guarded₁.moves roomy moves) (safe.next small)) ?_
        exact fun _ _ => rfl

/-- `block_read` and `block_write` of `count` bytes from `pos` on keep to the ramdisk: the memory around it decides
    nothing and stays as it is, no buffer is left for a request that would not keep to it, and a request for a block
    that is not on it is refused. The refusal is asked of every block of the range, also where the transfer ends earlier
    with `-EIO`, and of the first one where `count` is 0 and `pos` is inside a block. -/
structure KeepsToRamdisk (start length pos : BitVec 64) (count : Nat) : Prop where
  read : ∀ (s : Drive) (fuel : Nat) (m : Nat → Block), Guarded start length s →
    (s.around m).blockRead fuel ramdisk pos count =
      (s.blockRead fuel ramdisk pos count).map fun r => (r.1, r.2.1, r.2.2.1, r.2.2.2.around m)
  write : ∀ (s : Drive) (fuel : Nat) (buf : Nat → Byte) (m : Nat → Block), Guarded start length s →
    (s.around m).blockWrite fuel ramdisk pos buf count =
      (s.blockWrite fuel ramdisk pos buf count).map fun r => (r.1, r.2.1, r.2.2.around m)
  afterRead : ∀ (s : Drive) (fuel : Nat) (bytes : List Byte) (n : Int) (pos' : BitVec 64) (s' : Drive),
    Guarded start length s → s.blockRead fuel ramdisk pos count = .ok (bytes, n, pos', s') → Guarded start length s'
  afterWrite : ∀ (s : Drive) (fuel : Nat) (buf : Nat → Byte) (n : Int) (pos' : BitVec 64) (s' : Drive),
    Guarded start length s → s.blockWrite fuel ramdisk pos buf count = .ok (n, pos', s') → Guarded start length s'
  refused : ∀ j, 1024 * j < pos.toNat % 1024 + count →
    ¬ InRamdisk start length ((Drive.blockOf pos + BitVec.ofNat 32 j).signExtend 64) →
      Refused start length ((Drive.blockOf pos + BitVec.ofNat 32 j).signExtend 64)

/-- The transfers keep to the ramdisk if and only if the numbers of their blocks, as an `int`, are not negative, or so
    far below zero that the address wraps. -/
theorem transfer_keeps_to_ramdisk_iff (roomy : Roomy start length) (pos : BitVec 64) (count : Nat) :
    KeepsToRamdisk start length pos count ↔
      ∀ j, 1024 * j < pos.toNat % 1024 + count →
        0 ≤ (Drive.blockOf pos + BitVec.ofNat 32 j).toInt ∨
          (start.toNat : Int) + ((Drive.blockOf pos + BitVec.ofNat 32 j).toInt + 1) * 1024 < 0 := by
  constructor
  · intro keeps j named
    rw [← number_confined_iff roomy, Confined, or_iff_not_imp_right]
    exact keeps.refused j named
  · intro numbers
    have small : pos.toNat % 1024 < 1024 := Nat.mod_lt _ (by decide)
    have confined (j : Nat) (named : 1024 * j < pos.toNat % 1024 + count) :=
      (number_confined_iff roomy (Drive.blockOf pos + BitVec.ofNat 32 j)).2 (numbers j named)
    have safe : AsksBlocks (Safe start length) ramdisk (Drive.blockOf pos) (pos.toNat % 1024) count :=
      fun j named _ => confined j named
    constructor
    · intro s fuel m guarded
      refine bind_along (readBlocks_around roomy fuel count small guarded safe) ?_
      exact fun _ _ => rfl
    · intro s fuel buf m guarded
      refine bind_along (writeBlocks_around roomy fuel count buf 0 small guarded safe) ?_
      exact fun _ _ => rfl
    · intro s fuel bytes n pos' s' guarded read
      rcases of_bind read with ⟨⟨bytes₁, failed, s₁⟩, done, last⟩
      cases last
      exact guarded.moves roomy (readBlocks_moves (safeAhead roomy ramdisk) safe small guarded.linked done)
    · intro s fuel buf n pos' s' guarded written
      rcases of_bind written with ⟨⟨n₁, failed, s₁⟩, done, last⟩
      cases last
      refine writeBlocks_keeps _ (fun _ _ before moves => before.moves roomy moves) (fun _ before => before.linked) ?_
        (safeAhead roomy ramdisk) safe small (fun _ => trivial) guarded done
      exact fun _ _ _ before _ _ => before.setHead rfl rfl
    · intro j named outside
      exact (confined j named).resolve_right outside

/-- A transfer that begins inside a block and ends behind the third of the following ones. -/
theorem early_transfer_keeps_to_ramdisk : KeepsToRamdisk 0x8007D000 0x5A000 1000 3000 := by
  refine (transfer_keeps_to_ramdisk_iff (by decide) 1000 3000).2 ?_
  intro j named
  have few : j < 4 := by
    change 1024 * j < 4000 at named
    omega
  left
  interval_cases j <;> decide

/-- Two buffers of a machine whose ramdisk is all zero, with other bytes around it. -/
def sevenAround : Drive where
  cache := bufferInit 2 (fun _ => 0) fun _ _ => 0
  disk p _ := if p < 360 then 0 else 7
  start := 0x8007D000
  length := 0x5A000
  inode _ := .zero
  imapBlocks := 1
  zmapBlocks := 1

/-- A byte in front of the ramdisk is read as a byte of block -1, and written by the next `sys_sync`. -/
theorem block_minus_one_is_not_refused :
    (Drive.blockOf 0x3FFFFFFFC00).toInt = -1 ∧
    ¬ InRamdisk 0x8007D000 0x5A000 ((Drive.blockOf 0x3FFFFFFFC00).signExtend 64) ∧
    (sevenAround.blockRead 4 ramdisk 0x3FFFFFFFC00 1).map (fun r => (r.1, r.2.1)) = .ok ([7], 1) ∧
    ((sevenAround.blockWrite 4 ramdisk 0x3FFFFFFFC00 (fun _ => 9) 1).bind fun r =>
      (r.2.2.sysSync 4).map fun s => s.disk (2 ^ 54 - 1) 0) = .ok 9 := by
  refine ⟨by decide, ?_, by decide +kernel, by decide +kernel⟩
  rw [inRamdisk_iff (by decide)]
  decide

end K210Linux.Buffer
