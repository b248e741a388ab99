import K210Linux.Buffer.Blocks

/-! The single moves that the calls on buffers are made of. A fact that every move keeps is kept by every call. -/

namespace K210Linux.Buffer

open Outcome
open K210Linux.Fs (Block MInode)

/-- A block of the inode table that an inode in core belongs to. -/
def TableBlock (s : Drive) (block : BitVec 64) : Prop :=
  ∃ k, (s.inode k).dev = ramdisk ∧ block = BitVec.ofNat 64 (s.inodeBlock (s.inode k).num.toNat)

/-- Buffer `i` has the block of the ramdisk. -/
def Drive.Has (s : Drive) (i : Nat) (block : BitVec 64) : Prop :=
  i < s.cache.nrBuffers ∧ (s.cache.head i).dev = ramdisk ∧ (s.cache.head i).blocknr = block

instance (s : Drive) (i : Nat) (block : BitVec 64) : Decidable (s.Has i block) := inferInstanceAs (Decidable (_ ∧ _))

def Linked (s : Drive) : Prop := ∃ order chain, Queues s.cache order chain

theorem Linked.setHead {s : Drive} {i : Nat} (linked : Linked s) {head : BufferHead}
    (dev : head.dev = (s.cache.head i).dev) (blocknr : head.blocknr = (s.cache.head i).blocknr) :
    Linked (s.setHead i head) := by
  rcases linked with ⟨order, chain, queues⟩
  exact ⟨order, chain, queues.setHead dev blocknr⟩

theorem findBuffer_held {s : Drive} {i : Nat} {block : BitVec 64} (linked : Linked s) (inside : i < s.cache.nrBuffers)
    (here : (s.cache.head i).dev = ramdisk ∧ (s.cache.head i).blocknr = block) :
    s.cache.findBuffer ramdisk block = some i := by
  rcases linked with ⟨order, chain, queues⟩
  have device : ramdisk ≠ 0 := by decide
  have spec := queues.findBuffer block device
  cases found : s.cache.findBuffer ramdisk block with
  | none =>
    rw [found] at spec
    exact absurd here (spec i inside)
  | some j =>
    rw [found] at spec
    have same : j = i := by
      apply queues.unique j i spec.1 inside
      · rw [spec.2.1]
        exact device
      · rw [spec.2.1, here.1]
      · rw [spec.2.2, here.2]
    rw [same]

/-- A block that somebody asks for: one of `asks`, or one of the inode table. -/
def Asked (asks : BitVec 16 → BitVec 64 → Prop) (s : Drive) (dev : BitVec 16) (block : BitVec 64) : Prop :=
  asks dev block ∨ dev = ramdisk ∧ TableBlock s block

/-- A request to the driver, a change of a count, a new block for a clean buffer that nobody uses, or, where `inodes`
    allows it, an inode written into the buffer of its block. -/
inductive Move (asks : BitVec 16 → BitVec 64 → Prop) (inodes : Prop) : Drive → Drive → Prop
  | request (s : Drive) (write : Bool) (i : Nat) : Move asks inodes s (s.llRwBlock write i)
  | count (s : Drive) (i : Nat) (count : BitVec 8) : Move asks inodes s (s.setHead i { s.cache.head i with count := count })
  | assign (s : Drive) (i : Nat) (dev : BitVec 16) (block : BitVec 64) (cache : Cache) : i < s.cache.nrBuffers →
      Asked asks s dev block → (s.cache.head i).dirt = false → (s.cache.head i).count = 0 →
      s.cache.findBuffer dev block = none → s.cache.assign i dev block = some cache → Move asks inodes s { s with cache }
  | inode (s : Drive) (i k : Nat) (data : Block) : inodes → (s.inode k).dirt = true → (s.cache.head i).dev = ramdisk →
      (s.cache.head i).blocknr = BitVec.ofNat 64 (s.inodeBlock (s.inode k).num.toNat) → Move asks inodes s { s.setHead i { s.cache.head i with data := data, dirt := true } with
        inode := Function.update s.inode k { s.inode k with dirt := false } }

abbrev Moves (asks : BitVec 16 → BitVec 64 → Prop) (inodes : Prop) : Drive → Drive → Prop :=
  Relation.ReflTransGen (Move asks inodes)

variable {s s' : Drive} {i k : Nat} {dev : BitVec 16} {block : BitVec 64} {sync : BitVec 16 → Drive → Except Halt Drive}
  {asks : BitVec 16 → BitVec 64 → Prop} {inodes : Prop}

def SyncMoves (sync : BitVec 16 → Drive → Except Halt Drive) (asks : BitVec 16 → BitVec 64 → Prop) (inodes : Prop) :
    Prop :=
  ∀ dev s s', Linked s → sync dev s = .ok s' → Moves asks inodes s s'

theorem sweep_moves (s : Drive) (which : BufferHead → Bool) : Moves asks inodes s (s.sweep which) := by
  unfold Drive.sweep
  induction List.range s.cache.nrBuffers generalizing s with
  | nil => exact .refl
  | cons i l ih =>
    refine Relation.ReflTransGen.trans ?_ (ih (s.writeBack which i))
    unfold Drive.writeBack
    split
    · exact .single (.request s true i)
    · exact .refl

theorem brelse_moves (released : s.brelse i = .ok s') : Moves asks inodes s s' := by
  unfold Drive.brelse at released
  split at released
  · cases released
  · cases released
    exact .single (.count s i _)

theorem assign_head {c c' : Cache} {dev : BitVec 16} (assigned : c.assign i dev block = some c') :
    c'.head = Function.update c.head i ((c.head i).taken dev block) ∧ c'.nrBuffers = c.nrBuffers := by
  have unhash (c : Cache) : (c.unhash i).head = c.head ∧ (c.unhash i).nrBuffers = c.nrBuffers := by
    rw [unhash_frame]
    exact ⟨rfl, rfl⟩
  have rehash (c : Cache) : (c.rehash i).head = c.head ∧ (c.rehash i).nrBuffers = c.nrBuffers := by
    simp only [Cache.rehash, Cache.linkSelf]
    split_ifs
    · exact ⟨rfl, rfl⟩
    · split <;> exact ⟨rfl, rfl⟩
  simp only [Cache.assign, Cache.removeFromQueues, Cache.insertIntoQueues] at assigned
  split at assigned
  · cases assigned
  · rename_i c₁ removed
    split at removed
    · split_ifs at removed <;> cases removed
      all_goals
        split at assigned
        · cases assigned
        · split at assigned
          · cases assigned
          · cases assigned
            rw [(rehash _).1, (rehash _).2]
            simp [Cache.setHead, unhash, BufferHead.taken]
    · cases removed

theorem Move.nr (move : Move asks inodes s s') : s'.cache.nrBuffers = s.cache.nrBuffers := by
  cases move with
  | request write i => exact (llRwBlock_flushed s write i).nr
  | count i count => rfl
  | assign i dev block cache _ _ _ _ _ assigned => exact (assign_head assigned).2
  | inode i k data => rfl

theorem Moves.nr (moves : Moves asks inodes s s') : s'.cache.nrBuffers = s.cache.nrBuffers := by
  induction moves with
  | refl => rfl
  | tail _ move ih => exact move.nr.trans ih

theorem Moves.table (moves : Moves asks inodes s s') :
    s'.imapBlocks = s.imapBlocks ∧ s'.zmapBlocks = s.zmapBlocks := by
  induction moves with
  | refl => exact ⟨rfl, rfl⟩
  | tail _ move ih =>
    rw [← ih.1, ← ih.2]
    cases move with
    | request write i => exact (llRwBlock_flushed _ write i).table
    | count i count => exact ⟨rfl, rfl⟩
    | assign i dev block cache => exact ⟨rfl, rfl⟩
    | inode i k data => exact ⟨rfl, rfl⟩

theorem Linked.move (linked : Linked s) (move : Move asks inodes s s') : Linked s' := by
  cases move with
  | request write i =>
    rcases llRwBlock_cases s write i with ⟨head, disk, done, same, blocknr, -⟩
    rw [done]
    exact linked.setHead same blocknr
  | count i count => exact linked.setHead rfl rfl
  | assign i dev block cache inside _ _ _ missing assigned =>
    rcases linked with ⟨order, chain, queues⟩
    by_cases device : dev = 0
    · subst dev
      rcases queues.assignBare inside block with ⟨cache', assigned', -, -, queues'⟩
      rw [assigned] at assigned'
      cases assigned'
      exact ⟨_, _, queues'⟩
    · have new := queues.findBuffer block device
      rw [missing] at new
      rcases queues.assign inside device new with ⟨cache', assigned', -, -, queues'⟩
      rw [assigned] at assigned'
      cases assigned'
      exact ⟨_, _, queues'⟩
  | inode i k data =>
    have stored : Linked (s.setHead i { s.cache.head i with data := data, dirt := true }) := linked.setHead rfl rfl
    exact stored

theorem Linked.moves (linked : Linked s) (moves : Moves asks inodes s s') : Linked s' := by
  induction moves with
  | refl => exact linked
  | tail _ move ih => exact ih.move move

theorem clean_moves (moves : SyncMoves sync asks inodes) {fuel : Nat} {again : Bool} (linked : Linked s)
    (unused : (s.cache.head i).count = 0) (cleaned : Drive.clean sync i fuel s = .ok (again, s')) :
    Moves asks inodes s s' ∧ (again = false → (s'.cache.head i).dirt = false ∧ (s'.cache.head i).count = 0) := by
  induction fuel generalizing s with
  | zero => cases cleaned
  | succ fuel ih =>
    rw [Drive.clean] at cleaned
    split at cleaned
    · rcases of_bind cleaned with ⟨s₁, synced, rest⟩
      have one := moves _ s s₁ linked synced
      split at rest
      · cases rest
        exact ⟨one, fun done => by cases done⟩
      · rename_i still
        rcases ih (linked.moves one) (not_not.1 still) rest with ⟨two, clean⟩
        exact ⟨one.trans two, clean⟩
    · rename_i clean
      cases cleaned
      exact ⟨.refl, fun _ => ⟨by simpa using clean, unused⟩⟩

theorem TableBlock.move (table : TableBlock s block) (move : Move asks inodes s s') : TableBlock s' block := by
  rcases table with ⟨k, device, rfl⟩
  cases move with
  | request write i =>
    have flushed := llRwBlock_flushed s write i
    refine ⟨k, ?_, ?_⟩
    · rw [flushed.inode]
      exact device
    · rw [Drive.inodeBlock, Drive.inodeBlock, flushed.inode, flushed.table.1, flushed.table.2]
  | count i count => exact ⟨k, device, rfl⟩
  | assign i dev block cache => exact ⟨k, device, rfl⟩
  | inode i j data =>
    have same : (Function.update s.inode j { s.inode j with dirt := false } k).dev = (s.inode k).dev ∧
        (Function.update s.inode j { s.inode j with dirt := false } k).num = (s.inode k).num := by
      rw [Function.update_apply]
      split
      · rename_i here
        rw [here]
        exact ⟨rfl, rfl⟩
      · exact ⟨rfl, rfl⟩
    refine ⟨k, same.1.trans device, ?_⟩
    simp only [Drive.inodeBlock, Drive.setHead, same.2]

theorem TableBlock.moves (table : TableBlock s block) (moves : Moves asks inodes s s') : TableBlock s' block := by
  induction moves with
  | refl => exact table
  | tail _ move ih => exact ih.move move

theorem Asked.moves (asked : Asked asks s dev block) (moves : Moves asks inodes s s') : Asked asks s' dev block :=
  asked.imp_right fun both => ⟨both.1, both.2.moves moves⟩

/-- `getblk` returns a buffer of the block. -/
theorem getblk_moves (moves : SyncMoves sync asks inodes) {fuel : Nat} (linked : Linked s) (asked : Asked asks s dev block)
    (got : Drive.getblkWith sync dev block fuel s = .ok (i, s')) :
    Moves asks inodes s s' ∧ i < s'.cache.nrBuffers ∧ (s'.cache.head i).dev = dev ∧ (s'.cache.head i).blocknr = block := by
  induction fuel generalizing s with
  | zero => cases got
  | succ fuel ih =>
    rcases linked with ⟨order, chain, queues⟩
    rw [Drive.getblkWith] at got
    split at got
    · rename_i j found
      cases got
      have here := queues.found found
      refine ⟨.single (.count s i _), here.1, ?_⟩
      simpa only [Drive.setHead, Cache.setHead, Function.update_self] using here.2
    · split at got
      · cases got
      · rename_i j picked
        have chosen := queues.pick picked
        rcases of_bind got with ⟨⟨again, s₁⟩, cleaned, rest⟩
        rcases clean_moves moves ⟨order, chain, queues⟩ chosen.2 cleaned with ⟨one, clean⟩
        have linked₁ : Linked s₁ := Linked.moves ⟨order, chain, queues⟩ one
        simp only at rest
        split at rest
        · rcases ih linked₁ (asked.moves one) rest with ⟨two, here⟩
          exact ⟨one.trans two, here⟩
        · rename_i done
          simp only [not_or, Bool.not_eq_true, Option.isSome_eq_false_iff, Option.isNone_iff_eq_none] at done
          split at rest
          · cases rest
          · rename_i cache assigned
            cases rest
            have inside : i < s₁.cache.nrBuffers := by
              rw [one.nr]
              exact chosen.1
            refine ⟨one.tail (.assign s₁ i dev block cache inside (asked.moves one) (clean done.1).1 (clean done.1).2
              done.2 assigned), ?_⟩
            simp only [(assign_head assigned).1, (assign_head assigned).2, Function.update_self]
            exact ⟨inside, rfl, rfl⟩

theorem bread_moves (moves : SyncMoves sync asks inodes) {fuel : Nat} {result : Option Nat} (linked : Linked s)
    (asked : Asked asks s dev block) (read : Drive.breadWith sync dev block fuel s = .ok (result, s')) :
    Moves asks inodes s s' ∧ ∀ i, result = some i → (s'.cache.head i).dev = dev ∧ (s'.cache.head i).blocknr = block := by
  rcases of_bind read with ⟨⟨i, s₁⟩, got, rest⟩
  rcases getblk_moves moves linked asked got with ⟨one, -, here⟩
  simp only at rest
  split at rest
  · cases rest
    refine ⟨one, ?_⟩
    rintro j ⟨⟩
    exact here
  · have two : Moves asks inodes s (s₁.llRwBlock false i) := one.tail (.request s₁ false i)
    split at rest
    · cases rest
      refine ⟨two, ?_⟩
      rintro j ⟨⟩
      rw [((llRwBlock_flushed s₁ false i).head i).1, ((llRwBlock_flushed s₁ false i).head i).2.1]
      exact here
    · rcases of_bind rest with ⟨s₂, released, done⟩
      cases done
      exact ⟨two.trans (brelse_moves released), nofun⟩

theorem stuck_moves : SyncMoves Drive.stuck asks inodes := nofun

theorem Moves.inode (moves : Moves asks False s s') : s'.inode = s.inode := by
  induction moves with
  | refl => rfl
  | tail _ move ih =>
    rw [← ih]
    cases move with
    | request write i => exact (llRwBlock_flushed _ write i).inode
    | count i count => rfl
    | assign i dev block cache => rfl
    | inode i k data never => exact never.elim

theorem Moves.mono (moves : Moves asks False s s') : Moves asks inodes s s' := by
  induction moves with
  | refl => exact .refl
  | tail _ move ih =>
    refine ih.tail ?_
    cases move with
    | request write i => exact .request _ write i
    | count i count => exact .count _ i count
    | assign i dev block cache inside asked clean unused missing assigned =>
      exact .assign _ i dev block cache inside asked clean unused missing assigned
    | inode i k data never => exact never.elim

theorem writeInode_moves {fuel : Nat} (linked : Linked s) (written : Drive.writeInode fuel k s = .ok s') : Moves asks True s s' := by
  unfold Drive.writeInode at written
  simp only at written
  split at written
  · cases written
    exact .refl
  · rename_i due
    simp only [not_or, Bool.not_eq_false] at due
    split at written
    · cases written
    · rename_i device
      have onRamdisk := not_not.1 device
      rcases of_bind written with ⟨⟨bh, s₁⟩, read, rest⟩
      rw [onRamdisk] at read
      have reading : Moves asks False s s₁ ∧ ∀ i, bh = some i → (s₁.cache.head i).dev = ramdisk ∧ _ :=
        bread_moves stuck_moves linked (.inr ⟨rfl, k, onRamdisk, rfl⟩) read
      cases bh with
      | none => cases rest
      | some i =>
        have same := reading.1.inode
        have dirty : (s₁.inode k).dirt = true := by
          rw [same]
          exact due.1
        let data := storeInode (s₁.cache.head i).data (((s₁.inode k).num.toNat - 1) % 32) (s₁.inode k)
        have block : s₁.inodeBlock (s₁.inode k).num.toNat = s.inodeBlock (s.inode k).num.toNat := by
          rw [same, Drive.inodeBlock, Drive.inodeBlock, reading.1.table.1, reading.1.table.2]
        have here : (s₁.cache.head i).blocknr = BitVec.ofNat 64 (s₁.inodeBlock (s₁.inode k).num.toNat) := by
          rw [block]
          exact (reading.2 i rfl).2
        have stored : Move asks True s₁ _ := .inode s₁ i k data trivial dirty (reading.2 i rfl).1 here
        have inode : s.inode k = s₁.inode k := by rw [same]
        simp only [inode] at rest
        exact (reading.1.mono.tail stored).trans (brelse_moves rest)

theorem syncInodesFrom_moves {fuel left : Nat} (linked : Linked s) (synced : Drive.syncInodesFrom fuel k left s = .ok s') :
    Moves asks True s s' := by
  induction left generalizing k s with
  | zero =>
    cases synced
    exact .refl
  | succ left ih =>
    rw [Drive.syncInodesFrom] at synced
    rcases of_bind synced with ⟨s₁, one, rest⟩
    have first : Moves asks True s s₁ := by
      unfold Drive.syncInode at one
      split at one
      · exact writeInode_moves linked one
      · cases one
        exact .refl
    exact first.trans (ih (linked.moves first) rest)

theorem syncDev_moves (fuel : Nat) : SyncMoves (Drive.syncDev fuel) asks True := by
  intro dev s s' linked synced
  rcases of_bind synced with ⟨s₂, inodes, rest⟩
  cases rest
  have one : Moves asks True s (s.sweep fun bh => bh.dev = dev) := sweep_moves s _
  exact (one.trans (syncInodesFrom_moves (linked.moves one) inodes)).trans (sweep_moves s₂ _)

theorem sysSync_moves {fuel : Nat} (linked : Linked s) (synced : Drive.sysSync fuel s = .ok s') : Moves asks True s s' := by
  rcases of_bind synced with ⟨s₁, inodes, rest⟩
  cases rest
  exact (syncInodesFrom_moves linked inodes).trans (sweep_moves s₁ _)

/-- A fact that every move keeps. -/
theorem Moves.keeps {P : Drive → Prop} (kept : ∀ a b, P a → Move asks inodes a b → P b) (first : P s)
    (moves : Moves asks inodes s s') : P s' := by
  induction moves with
  | refl => exact first
  | tail _ move ih => exact kept _ _ ih move

end K210Linux.Buffer
