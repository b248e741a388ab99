import K210Linux.Buffer.Contents

/-! What the calls on buffers keep whatever the buffers hold: the queues, the counts, and the identity of the
buffers in use. -/

namespace K210Linux.Buffer

open Outcome
open K210Linux.Fs (Block MInode)

variable {s s₁ s' : Drive} {i k : Nat} {block : BitVec 64} {sync : BitVec 16 → Drive → Except Halt Drive}

theorem Linked.withInodes (linked : Linked s) (inode : Nat → MInode) : Linked { s with inode } := linked

/-- Whether a drive is linked, and steady since `s`. -/
def Intact (s s' : Drive) : Prop := Linked s' ∧ Steady s s'

theorem Intact.trans (one : Intact s s₁) (two : Intact s₁ s') : Intact s s' := ⟨two.1, one.2.trans two.2⟩

theorem Intact.setHead (linked : Linked s) {head : BufferHead} (dev : head.dev = (s.cache.head i).dev)
    (blocknr : head.blocknr = (s.cache.head i).blocknr) (count : head.count = (s.cache.head i).count) :
    Intact s (s.setHead i head) := ⟨linked.setHead dev blocknr, .setHead s dev blocknr count⟩

theorem llRwBlock_intact (linked : Linked s) (write : Bool) (i : Nat) : Intact s (s.llRwBlock write i) := by
  rcases llRwBlock_cases s write i with ⟨head, disk, done, dev, blocknr, count, -⟩
  have steady := Steady.setHead s dev blocknr count
  rw [done]
  exact ⟨linked.setHead dev blocknr, ⟨steady.nr, steady.start, steady.length, steady.table, steady.count, steady.held, steady.used⟩⟩

theorem Acquired.llRwBlock (acquired : Acquired s s₁ i block) (write : Bool) (k : Nat) :
    Acquired s (s₁.llRwBlock write k) i block := by
  rcases llRwBlock_cases s₁ write k with ⟨head, disk, done, dev, blocknr, count, -⟩
  have set := acquired.setHead dev blocknr count
  rw [done]
  exact ⟨set.nr, set.start, set.length, set.table, set.inside, set.here, set.one, set.count, set.held, set.used⟩

theorem sweep_intact (linked : Linked s) (which : BufferHead → Bool) : Intact s (s.sweep which) := by
  unfold Drive.sweep
  induction List.range s.cache.nrBuffers generalizing s with
  | nil => exact ⟨linked, .refl s⟩
  | cons i l ih =>
    have one : Intact s (s.writeBack which i) := by
      unfold Drive.writeBack
      split
      · exact llRwBlock_intact linked true i
      · exact ⟨linked, .refl s⟩
    exact one.trans (ih one.1)

def SyncIntact (sync : BitVec 16 → Drive → Except Halt Drive) : Prop :=
  ∀ dev s s', Linked s → sync dev s = .ok s' → Intact s s'

theorem clean_intact (intact : SyncIntact sync) {fuel : Nat} {again : Bool} (linked : Linked s)
    (cleaned : Drive.clean sync i fuel s = .ok (again, s')) : Intact s s' := by
  induction fuel generalizing s with
  | zero => cases cleaned
  | succ fuel ih =>
    rw [Drive.clean] at cleaned
    split at cleaned
    · rcases of_bind cleaned with ⟨s₁, synced, rest⟩
      have one := intact _ s s₁ linked synced
      split at rest
      · cases rest
        exact one
      · exact one.trans (ih one.1 rest)
    · cases cleaned
      exact ⟨linked, .refl _⟩

/-- A buffer that is got is counted once more. -/
theorem getblk_acquires (intact : SyncIntact sync) {fuel : Nat} (linked : Linked s)
    (got : Drive.getblkWith sync ramdisk block fuel s = .ok (i, s')) : Linked s' ∧ Acquired s s' i block := by
  have device : ramdisk ≠ 0 := by decide
  induction fuel generalizing s with
  | zero => cases got
  | succ fuel ih =>
    rcases linked with ⟨order, chain, queues⟩
    rw [Drive.getblkWith] at got
    split at got
    · rename_i j found
      cases got
      have spec := queues.findBuffer block device
      rw [found] at spec
      exact ⟨⟨order, chain, queues.setHead rfl rfl⟩, .counted spec.1 spec.2⟩
    · split at got
      · cases got
      · rename_i j picked
        have chosen := queues.pick picked
        rcases of_bind got with ⟨⟨again, s₁⟩, cleaned, rest⟩
        have one := clean_intact intact ⟨order, chain, queues⟩ cleaned
        simp only at rest
        split at rest
        · rcases ih one.1 rest with ⟨linked', acquired⟩
          exact ⟨linked', acquired.after one.2⟩
        · rename_i done
          simp only [not_or, Bool.not_eq_true, Option.isSome_eq_false_iff, Option.isNone_iff_eq_none] at done
          have inside₁ : j < s₁.cache.nrBuffers := by
            rw [one.2.nr]
            exact chosen.1
          have unused₁ : (s₁.cache.head j).count = 0 := by
            rw [one.2.count]
            exact chosen.2
          rcases one.1 with ⟨order₁, chain₁, queues₁⟩
          have missing := queues₁.findBuffer block device
          rw [done.2] at missing
          rcases queues₁.assign inside₁ device missing with ⟨cache, assigned, nr, heads, queues₂⟩
          rw [assigned] at rest
          cases rest
          exact ⟨⟨_, _, queues₂⟩, (Acquired.assigned inside₁ unused₁ nr heads).after one.2⟩

/-- `brelse` after the buffer was got. -/
theorem brelse_intact (linked : Linked s₁) (acquired : Acquired s s₁ i block) (released : s₁.brelse i = .ok s') :
    Intact s s' := by
  unfold Drive.brelse at released
  split at released
  · cases released
  · cases released
    exact ⟨linked.setHead rfl rfl, acquired.released⟩

theorem bread_acquires (intact : SyncIntact sync) {fuel : Nat} {result : Option Nat} (linked : Linked s)
    (read : Drive.breadWith sync ramdisk block fuel s = .ok (result, s')) :
    match result with
    | some i => Linked s' ∧ Acquired s s' i block
    | none => Intact s s' := by
  rcases of_bind read with ⟨⟨i, s₁⟩, got, rest⟩
  rcases getblk_acquires intact linked got with ⟨linked₁, acquired⟩
  simp only at rest
  split at rest
  · cases rest
    exact ⟨linked₁, acquired⟩
  · have loaded := llRwBlock_intact linked₁ false i
    have acquired₂ := acquired.llRwBlock false i
    split at rest
    · cases rest
      exact ⟨loaded.1, acquired₂⟩
    · rcases of_bind rest with ⟨s₂, released, done⟩
      cases done
      exact brelse_intact loaded.1 acquired₂ released

theorem stuck_intact : SyncIntact Drive.stuck := nofun

theorem writeInode_intact {fuel : Nat} (linked : Linked s) (written : Drive.writeInode fuel k s = .ok s') :
    Intact s s' := by
  unfold Drive.writeInode at written
  simp only at written
  split at written
  · cases written
    exact ⟨linked, .refl _⟩
  · split at written
    · cases written
    · rename_i device
      rw [not_not.1 device] at written
      rcases of_bind written with ⟨⟨bh, s₁⟩, read, rest⟩
      have got := bread_acquires stuck_intact linked read
      cases bh with
      | none => cases rest
      | some i =>
        rcases got with ⟨linked₁, acquired⟩
        let head : BufferHead := { s₁.cache.head i with
          data := storeInode (s₁.cache.head i).data (((s.inode k).num.toNat - 1) % 32) (s.inode k), dirt := true }
        have marked : Linked (s₁.setHead i head) := linked₁.setHead rfl rfl
        have still : Acquired s (s₁.setHead i head) i _ := acquired.setHead rfl rfl rfl
        exact brelse_intact (marked.withInodes _) (still.withInodes _) rest

theorem syncInodesFrom_intact {fuel left : Nat} (linked : Linked s)
    (synced : Drive.syncInodesFrom fuel k left s = .ok s') : Intact s s' := by
  induction left generalizing k s with
  | zero =>
    cases synced
    exact ⟨linked, .refl _⟩
  | succ left ih =>
    rw [Drive.syncInodesFrom] at synced
    rcases of_bind synced with ⟨s₁, one, rest⟩
    have first : Intact s s₁ := by
      unfold Drive.syncInode at one
      split at one
      · exact writeInode_intact linked one
      · cases one
        exact ⟨linked, .refl _⟩
    exact first.trans (ih first.1 rest)

theorem syncDev_intact (fuel : Nat) : SyncIntact (Drive.syncDev fuel) := by
  intro dev s s' linked synced
  rcases of_bind synced with ⟨s₂, inodes, rest⟩
  cases rest
  have one := sweep_intact linked fun bh => bh.dev = dev
  have two := syncInodesFrom_intact one.1 inodes
  exact (one.trans two).trans (sweep_intact two.1 _)

section Inodes

open Drive

variable {d d' : Drive} {fuel : Nat}

/-- Nothing that `write_inode` calls touches an inode. -/
theorem clean_inode {i : Nat} {again : Bool} (run : clean stuck i fuel d = .ok (again, d')) : d'.inode = d.inode := by
  cases fuel with
  | zero => cases run
  | succ fuel =>
    unfold clean at run
    split at run
    · cases run
    · cases run
      rfl

theorem getblkWith_inode {dev : BitVec 16} {block : BitVec 64} {i : Nat}
    (run : getblkWith stuck dev block fuel d = .ok (i, d')) : d'.inode = d.inode := by
  induction fuel generalizing d with
  | zero => cases run
  | succ fuel ih =>
    unfold getblkWith at run
    split at run
    · cases run
      rfl
    · split at run
      · cases run
      · rcases of_bind run with ⟨⟨again, d₁⟩, cleaned, rest⟩
        rw [← clean_inode cleaned]
        dsimp only at rest
        split at rest
        · exact ih rest
        · split at rest
          · cases rest
          · cases rest
            rfl

theorem llRwBlock_inode (d : Drive) (write : Bool) (i : Nat) : (d.llRwBlock write i).inode = d.inode := by
  unfold llRwBlock
  dsimp only
  split_ifs <;> rfl

theorem brelse_inode {i : Nat} (run : d.brelse i = .ok d') : d'.inode = d.inode := by
  unfold brelse at run
  split at run
  · cases run
  · cases run
    rfl

theorem breadWith_inode {dev : BitVec 16} {block : BitVec 64} {i : Option Nat}
    (run : breadWith stuck dev block fuel d = .ok (i, d')) : d'.inode = d.inode := by
  unfold breadWith at run
  rcases of_bind run with ⟨⟨j, d₁⟩, got, rest⟩
  rw [← getblkWith_inode got]
  dsimp only at rest
  split at rest
  · cases rest
    rfl
  · rw [← llRwBlock_inode d₁ false j]
    split at rest
    · cases rest
      rfl
    · rcases of_bind rest with ⟨d₂, released, last⟩
      cases last
      exact brelse_inode released

end Inodes

end K210Linux.Buffer
