import K210Linux.Buffer.InodeTable
import K210Linux.Buffer.Intact

/-! What the calls on buffers and on inodes add to the counts of their users, in any state. -/

namespace K210Linux.Buffer

open Outcome
open K210Linux.Fs (MInode)

/-- `i_count` of every inode, and `b_count` of every buffer. -/
abbrev Counts := (Nat → BitVec 16) × (Nat → BitVec 8)

/-- One user of an inode. -/
def Counts.inode (k : Nat) : Counts := (Pi.single k 1, 0)

/-- One user of a buffer. -/
def Counts.buffer (i : Nat) : Counts := (0, Pi.single i 1)

def Counts.buffer? (bh : Option Nat) : Counts := bh.elim 0 buffer

def Drive.counts (s : Drive) : Counts := (fun k => (s.inode k).count, fun i => (s.cache.head i).count)

variable {s s₁ s' : Drive} {i k : Nat} {dev : BitVec 16} {block : BitVec 64} {sync : BitVec 16 → Drive → Except Halt Drive}

theorem update_add {ι M : Type} [DecidableEq ι] [AddCommGroup M] (f : ι → M) (j : ι) (x : M) :
    Function.update f j (f j + x) = f + Pi.single j x := by
  funext j'
  rw [Pi.add_apply]
  by_cases here : j' = j
  · rw [here, Function.update_self, Pi.single_eq_same]
  · rw [Function.update_of_ne here, Pi.single_eq_of_ne here, add_zero]

/-- An inode with another count. -/
theorem setInode_counts (s : Drive) (k : Nat) (inode : MInode) {more : BitVec 16} (count : inode.count = (s.inode k).count + more) :
    (s.setInode k inode).counts = s.counts + (Pi.single k more, 0) := by
  unfold Drive.counts Drive.setInode
  rw [Prod.mk_add_mk, add_zero, ← update_add, ← count]
  congr 1
  funext j
  simp only [Function.update_apply]
  split <;> rfl

/-- A buffer with another count. -/
theorem setHead_counts (s : Drive) (i : Nat) (head : BufferHead) {more : BitVec 8}
    (count : head.count = (s.cache.head i).count + more) :
    (s.setHead i head).counts = s.counts + (0, Pi.single i more) := by
  unfold Drive.counts Drive.setHead Cache.setHead
  rw [Prod.mk_add_mk, add_zero, ← update_add, ← count]
  congr 1
  funext j
  simp only [Function.update_apply]
  split <;> rfl

theorem setInode_same {inode : MInode} (count : inode.count = (s.inode k).count) :
    (s.setInode k inode).counts = s.counts := by
  rw [setInode_counts s k inode (count.trans (add_zero _).symm), Pi.single_zero]
  exact add_zero _

theorem setInode_more {inode : MInode} (count : inode.count = (s.inode k).count + 1) :
    (s.setInode k inode).counts = s.counts + .inode k := setInode_counts s k inode count

theorem setInode_less {inode : MInode} (count : inode.count = (s.inode k).count - 1) :
    (s.setInode k inode).counts = s.counts - .inode k := by
  rw [setInode_counts s k inode (count.trans (sub_eq_add_neg _ _)), Pi.single_neg, sub_eq_add_neg, Counts.inode,
    Prod.neg_mk, neg_zero]

theorem setHead_same {head : BufferHead} (count : head.count = (s.cache.head i).count) :
    (s.setHead i head).counts = s.counts := by
  rw [setHead_counts s i head (count.trans (add_zero _).symm), Pi.single_zero]
  exact add_zero _

theorem setHead_more {head : BufferHead} (count : head.count = (s.cache.head i).count + 1) :
    (s.setHead i head).counts = s.counts + .buffer i := setHead_counts s i head count

theorem setHead_less {head : BufferHead} (count : head.count = (s.cache.head i).count - 1) :
    (s.setHead i head).counts = s.counts - .buffer i := by
  rw [setHead_counts s i head (count.trans (sub_eq_add_neg _ _)), Pi.single_neg, sub_eq_add_neg, Counts.buffer,
    Prod.neg_mk, neg_zero]

theorem Counts.buffer_ne (i : Nat) : Counts.buffer i ≠ 0 := by
  intro zero
  have here : (Pi.single i 1 : Nat → BitVec 8) i = 0 := congrFun (congrArg Prod.snd zero) i
  rw [Pi.single_eq_same] at here
  exact absurd here (by decide)

theorem llRwBlock_counts (s : Drive) (write : Bool) (i : Nat) : (s.llRwBlock write i).counts = s.counts := by
  have flushed := llRwBlock_flushed s write i
  unfold Drive.counts
  rw [flushed.inode]
  congr 1
  funext j
  exact (flushed.head j).2.2

theorem sweep_counts (s : Drive) (which : BufferHead → Bool) : (s.sweep which).counts = s.counts := by
  unfold Drive.sweep
  induction List.range s.cache.nrBuffers generalizing s with
  | nil => rfl
  | cons i l ih =>
    rw [List.foldl_cons, ih]
    unfold Drive.writeBack
    split
    · exact llRwBlock_counts s true i
    · rfl

theorem brelse_counts (released : s.brelse i = .ok s') : s'.counts = s.counts - .buffer i := by
  unfold Drive.brelse at released
  split at released
  · cases released
  · cases released
    exact setHead_less rfl

theorem pickFrom_unused {c : Cache} {tmp left : Nat} {bh : Option Nat} (unused : ∀ b, bh = some b → (c.head b).count = 0)
    (picked : c.pickFrom tmp bh left = some i) : (c.head i).count = 0 := by
  induction left generalizing tmp bh with
  | zero => exact unused i picked
  | succ left ih =>
    unfold Cache.pickFrom at picked
    extract_lets rest at picked
    have onward {b : Option Nat} (unused : ∀ j, b = some j → (c.head j).count = 0) (found : rest b = some i) :
        (c.head i).count = 0 := by
      simp only [rest] at found
      split at found
      · exact unused i found
      · split at found
        · exact unused i found
        · exact ih unused found
    split at picked
    · exact onward unused picked
    · rename_i here
      have self (j : Nat) (same : some tmp = some j) : (c.head j).count = 0 := Option.some.inj same ▸ not_not.1 here
      split at picked
      · split at picked
        · exact self i picked
        · exact onward self picked
      · split at picked
        · split at picked
          · exact self i picked
          · exact onward self picked
        · exact onward unused picked

theorem pick_unused {c : Cache} (picked : c.pick = some i) : (c.head i).count = 0 := by
  unfold Cache.pick at picked
  split at picked
  · cases picked
  · have nobody (b : Nat) (held : none = some b) : (c.head b).count = 0 := by cases held
    exact pickFrom_unused nobody picked

/-- `sync_dev` leaves the counts alone. -/
def Uncounted (sync : BitVec 16 → Drive → Except Halt Drive) : Prop :=
  ∀ dev s s', sync dev s = .ok s' → s'.counts = s.counts

theorem clean_counts {fuel : Nat} {again : Bool} (uncounted : Uncounted sync) (unused : (s.cache.head i).count = 0)
    (cleaned : Drive.clean sync i fuel s = .ok (again, s')) :
    s'.counts = s.counts ∧ (again = false → (s'.cache.head i).count = 0) := by
  induction fuel generalizing s with
  | zero => cases cleaned
  | succ fuel ih =>
    rw [Drive.clean] at cleaned
    split at cleaned
    · rcases of_bind cleaned with ⟨s₁, synced, rest⟩
      have one := uncounted _ s s₁ synced
      split at rest
      · cases rest
        exact ⟨one, fun done => by cases done⟩
      · rename_i still
        rcases ih (not_not.1 still) rest with ⟨two, clean⟩
        exact ⟨two.trans one, clean⟩
    · cases cleaned
      exact ⟨rfl, fun _ => unused⟩

theorem getblk_counts {fuel : Nat} (uncounted : Uncounted sync) (got : Drive.getblkWith sync dev block fuel s = .ok (i, s')) :
    s'.counts = s.counts + .buffer i := by
  induction fuel generalizing s with
  | zero => cases got
  | succ fuel ih =>
    rw [Drive.getblkWith] at got
    split at got
    · cases got
      exact setHead_more rfl
    · split at got
      · cases got
      · rename_i picked
        rcases of_bind got with ⟨⟨again, s₁⟩, cleaned, rest⟩
        rcases clean_counts uncounted (pick_unused picked) cleaned with ⟨one, unused⟩
        dsimp only at rest
        split at rest
        · rw [ih rest, one]
        · rename_i done
          rw [not_or, Bool.not_eq_true] at done
          split at rest
          · cases rest
          · rename_i cache assigned
            cases rest
            rw [← one]
            have taken : ({ s₁ with cache } : Drive).counts =
                (s₁.setHead i ((s₁.cache.head i).taken dev block)).counts := by
              unfold Drive.counts
              rw [(assign_head assigned).1]
              rfl
            refine taken.trans (setHead_more ?_)
            rw [unused done.1]
            rfl

theorem bread_counts {fuel : Nat} {bh : Option Nat} (uncounted : Uncounted sync)
    (read : Drive.breadWith sync dev block fuel s = .ok (bh, s')) : s'.counts = s.counts + .buffer? bh := by
  rcases of_bind read with ⟨⟨i, s₁⟩, got, rest⟩
  have one := getblk_counts uncounted got
  dsimp only at rest
  split at rest
  · cases rest
    exact one
  · split at rest
    · cases rest
      exact (llRwBlock_counts s₁ false i).trans one
    · rcases of_bind rest with ⟨s₂, released, done⟩
      cases done
      rw [brelse_counts released, llRwBlock_counts, one, add_sub_cancel_right]
      exact (add_zero _).symm

theorem stuck_uncounted : Uncounted Drive.stuck := nofun

theorem writeInode_counts {fuel : Nat} (written : Drive.writeInode fuel k s = .ok s') : s'.counts = s.counts := by
  unfold Drive.writeInode at written
  dsimp only at written
  split at written
  · cases written
    rfl
  · split at written
    · cases written
    · rcases of_bind written with ⟨⟨bh, s₁⟩, read, rest⟩
      have one := bread_counts stuck_uncounted read
      cases bh with
      | none => cases rest
      | some i =>
        have same : s₁.inode = s.inode := breadWith_inode read
        rw [← same] at rest
        have stored (head : BufferHead) (kept : head.count = (s₁.cache.head i).count) :
            ((s₁.setHead i head).setInode k { s₁.inode k with dirt := false }).counts = s₁.counts := by
          rw [setInode_same, setHead_same kept]
          rfl
        rw [brelse_counts rest, ← add_sub_cancel_right s.counts (.buffer i)]
        refine congrArg (· - Counts.buffer i) (Eq.trans (stored { s₁.cache.head i with
          data := storeInode (s₁.cache.head i).data (((s₁.inode k).num.toNat - 1) % 32) (s₁.inode k), dirt := true } rfl) one)

theorem syncInodesFrom_counts {fuel left : Nat} (synced : Drive.syncInodesFrom fuel k left s = .ok s') :
    s'.counts = s.counts := by
  induction left generalizing k s with
  | zero =>
    cases synced
    rfl
  | succ left ih =>
    rw [Drive.syncInodesFrom] at synced
    rcases of_bind synced with ⟨s₁, one, rest⟩
    refine (ih rest).trans ?_
    unfold Drive.syncInode at one
    split at one
    · exact writeInode_counts one
    · cases one
      rfl

theorem syncDev_uncounted (fuel : Nat) : Uncounted (Drive.syncDev fuel) := by
  intro dev s s' synced
  rcases of_bind synced with ⟨s₁, inodes, rest⟩
  cases rest
  rw [sweep_counts, syncInodesFrom_counts inodes, sweep_counts]

theorem cleanInode_counts {left : Nat} (cleaned : Drive.cleanInode k left s = .ok s') : s'.counts = s.counts := by
  induction left generalizing s with
  | zero => cases cleaned
  | succ left ih =>
    rw [Drive.cleanInode] at cleaned
    split at cleaned
    · rcases of_bind cleaned with ⟨s₁, written, rest⟩
      exact (ih rest).trans (writeInode_counts written)
    · cases cleaned
      rfl

/-- The empty inode has its first user. -/
theorem getEmptyInode_counts {fuel last last' : Nat} (got : Drive.getEmptyInode fuel last s = .ok (k, last', s')) :
    s'.counts = s.counts + .inode k ∧ s'.inode k = { MInode.zero with count := 1 } := by
  induction fuel generalizing s last with
  | zero => cases got
  | succ fuel ih =>
    rw [Drive.getEmptyInode] at got
    split at got
    · cases got
    · rcases of_bind got with ⟨s₁, cleaned, rest⟩
      have one := cleanInode_counts cleaned
      split at rest
      · rcases ih rest with ⟨two, here⟩
        exact ⟨two.trans (congrArg (· + _) one), here⟩
      · rename_i unused
        cases rest
        refine ⟨(setInode_more ?_).trans (congrArg (· + _) one), Function.update_self ..⟩
        rw [not_not.1 unused]
        rfl

theorem readInode_counts {fuel : Nat} (read : Drive.readInode fuel k s = .ok s') : s'.counts = s.counts := by
  unfold Drive.readInode at read
  dsimp only at read
  split at read
  · cases read
  · rcases of_bind read with ⟨⟨bh, s₁⟩, found, rest⟩
    have one := bread_counts stuck_uncounted found
    cases bh with
    | none => cases rest
    | some i =>
      have loaded : (s₁.setInode k (loadInode (s₁.cache.head i).data (((s.inode k).num.toNat - 1) % 32) (s.inode k))).counts =
          s₁.counts := by
        apply setInode_same
        rw [breadWith_inode found]
        rfl
      rw [brelse_counts rest, loaded, one]
      exact add_sub_cancel_right ..

end K210Linux.Buffer
