import Mathlib.Data.Finset.Card
import Mathlib.Data.Finset.Image
import Mathlib.Order.Interval.Finset.Nat
import K210Linux.Buffer.BlockDev

/-! Whether `sync_inodes` gets through. `write_inode` needs a buffer for the block of its inode, and while it has locked
    the inode its `getblk` cannot clean one: `sync_dev` would wait for the inode. -/

namespace K210Linux.Buffer

open Outcome
open K210Linux.Fs (Block MInode)

/-- Whether `do_rd_request` transfers a block of the ramdisk. -/
def Drive.serves (s : Drive) (block : BitVec 64) : Bool := !decide (s.start + s.length < s.start + offset block + 1024)

/-- `sync_inodes` has to write inode `k`. -/
def Due (s : Drive) (k : Nat) : Prop := (s.inode k).dirt = true ∧ (s.inode k).pipe = false ∧ (s.inode k).dev ≠ 0

instance (s : Drive) (k : Nat) : Decidable (Due s k) := inferInstanceAs (Decidable (_ ∧ _))

/-- The block of inode `k`. -/
def Drive.slotBlock (s : Drive) (k : Nat) : BitVec 64 := BitVec.ofNat 64 (s.inodeBlock (s.inode k).num.toNat)

/-- The buffers that `getblk` takes without a call of `sync_dev`: nobody uses them, and they are clean or among those
    `written` before. -/
def Drive.spare (s : Drive) (written : BufferHead → Bool) : Finset Nat :=
  (Finset.range s.cache.nrBuffers).filter fun i =>
    (s.cache.head i).count = 0 ∧ ((s.cache.head i).dirt = false ∨ written (s.cache.head i) = true)

/-- The blocks of the inodes from `k` on that need such a buffer. -/
def Drive.needed (s : Drive) (written : BufferHead → Bool) (k left : Nat) : Finset (BitVec 64) :=
  (((Finset.Ico k (k + left)).filter (Due s)).image s.slotBlock).filter fun block =>
    ∀ i < s.cache.nrBuffers, s.Has i block → i ∈ s.spare written

/-- The block of inode `k` is on the ramdisk or valid in its buffer, whose count of users does not overflow. -/
def Storable (s : Drive) (written : BufferHead → Bool) (k : Nat) : Prop :=
  (s.serves (s.slotBlock k) = true ∨ ∃ i < s.cache.nrBuffers, s.Has i (s.slotBlock k) ∧
    (s.cache.head i).uptodate = true ∧ written (s.cache.head i) = false) ∧
  ∀ i < s.cache.nrBuffers, s.Has i (s.slotBlock k) → (s.cache.head i).count ≠ 255

instance (s : Drive) (written : BufferHead → Bool) (k : Nat) : Decidable (Storable s written k) :=
  inferInstanceAs (Decidable (_ ∧ _))

/-- The inodes from `k` on can be written. -/
def InodesFit (s : Drive) (written : BufferHead → Bool) (k left : Nat) : Prop :=
  (∀ j < k + left, k ≤ j → Due s j → Storable s written j) ∧ (s.needed written k left).card ≤ (s.spare written).card

instance (s : Drive) (written : BufferHead → Bool) (k left : Nat) : Decidable (InodesFit s written k left) :=
  inferInstanceAs (Decidable (_ ∧ _))

variable {s s₁ s' : Drive} {i j k : Nat} {block : BitVec 64}

/-- What is clean and valid was transferred, so the ramdisk has the block. Requests are done at once, so nothing is
    locked, and the only mounted device is the ramdisk. -/
structure Transferred (s : Drive) : Prop where
  linked : Linked s
  served : ∀ i, (s.cache.head i).dev = ramdisk → (s.cache.head i).uptodate = true → (s.cache.head i).dirt = false →
    s.serves (s.cache.head i).blocknr = true
  unlocked : ∀ i, (s.cache.head i).lock = false
  mounted : ∀ k, (s.inode k).dev = 0 ∨ (s.inode k).dev = ramdisk

theorem refuses_ramdisk {bh : BufferHead} (device : bh.dev = ramdisk) : s.refuses bh = !s.serves bh.blocknr := by
  have minor : bh.dev.toNat % 256 = 1 := by
    rw [device]
    rfl
  simp [Drive.refuses, Drive.serves, minor]

theorem Linked.same (linked : Linked s) (one : s.Has i block) (two : s.Has j block) : i = j := by
  rcases linked with ⟨order, chain, queues⟩
  have device : (s.cache.head i).dev ≠ 0 := by
    rw [one.2.1]
    decide
  exact queues.unique i j one.1 two.1 device (one.2.1.trans two.2.1.symm) (one.2.2.trans two.2.2.symm)

theorem Linked.findBuffer_none (linked : Linked s) (missing : s.cache.findBuffer ramdisk block = none) (i : Nat) :
    ¬ s.Has i block := by
  rcases linked with ⟨order, chain, queues⟩
  have new := queues.findBuffer block (show ramdisk ≠ 0 by decide)
  rw [missing] at new
  exact fun has => new i has.1 has.2

/-- The buffers are those of `s`, but for buffer `i`. -/
def OnlyHead (s s' : Drive) (i : Nat) (head : BufferHead) : Prop :=
  s'.cache.nrBuffers = s.cache.nrBuffers ∧ s'.cache.head = Function.update s.cache.head i head

theorem OnlyHead.self {head : BufferHead} (only : OnlyHead s s' i head) : s'.cache.head i = head := by
  rw [only.2, Function.update_self]

/-- How `getblk` gets the block while an inode is locked: it is cached, or a spare buffer is taken. -/
structure Got (s s' : Drive) (i : Nat) (block : BitVec 64) : Prop where
  drive : ∃ cache, s' = { s with cache }
  inside : i < s.cache.nrBuffers
  head : (s.Has i block ∧ OnlyHead s s' i { s.cache.head i with count := (s.cache.head i).count + 1 }) ∨
    ((∀ j, ¬ s.Has j block) ∧ i ∈ s.spare (fun _ => false) ∧ OnlyHead s s' i ((s.cache.head i).taken ramdisk block))

theorem mem_spare {written : BufferHead → Bool} : i ∈ s.spare written ↔
    i < s.cache.nrBuffers ∧ (s.cache.head i).count = 0 ∧ ((s.cache.head i).dirt = false ∨ written (s.cache.head i) = true) := by
  rw [Drive.spare, Finset.mem_filter, Finset.mem_range]

/-- Without `sync_dev` the chosen buffer must be clean. -/
theorem clean_stuck {fuel : Nat} {again : Bool} (cleaned : Drive.clean Drive.stuck i fuel s = .ok (again, s₁)) :
    again = false ∧ s₁ = s ∧ (s.cache.head i).dirt = false := by
  cases fuel with
  | zero => cases cleaned
  | succ fuel =>
    rw [Drive.clean] at cleaned
    split at cleaned
    · cases cleaned
    · rename_i clean
      cases cleaned
      exact ⟨rfl, rfl, by simpa using clean⟩

theorem getblkStuck_got {fuel : Nat} (linked : Linked s)
    (got : Drive.getblkWith Drive.stuck ramdisk block fuel s = .ok (i, s')) : Got s s' i block := by
  have linked' := linked
  rcases linked' with ⟨order, chain, queues⟩
  cases fuel with
  | zero => cases got
  | succ fuel =>
    rw [Drive.getblkWith] at got
    split at got
    · rename_i j found
      cases got
      have here := queues.found found
      exact ⟨⟨_, rfl⟩, here.1, .inl ⟨here, rfl, rfl⟩⟩
    · rename_i missing
      split at got
      · cases got
      · rename_i j picked
        have chosen := queues.pick picked
        rcases of_bind got with ⟨⟨again, s₁⟩, cleaned, rest⟩
        rcases clean_stuck cleaned with ⟨rfl, rfl, clean⟩
        simp only [missing, Option.isSome_none, Bool.false_eq_true, or_self, if_false] at rest
        split at rest
        · cases rest
        · rename_i cache assigned
          cases rest
          have heads := assign_head assigned
          exact ⟨⟨_, rfl⟩, chosen.1, .inr ⟨linked.findBuffer_none missing, mem_spare.2 ⟨chosen.1, chosen.2, .inl clean⟩,
            heads.2, heads.1⟩⟩

/-- Where the block is cached or a spare buffer is there, `getblk` does without `sync`. -/
theorem getblkWith_got (sync : BitVec 16 → Drive → Except Halt Drive) (linked : Linked s)
    (room : (∃ i, s.Has i block) ∨ (s.spare fun _ => false).Nonempty) (unlocked : ∀ i, (s.cache.head i).lock = false)
    (fuel : Nat) : ∃ i s', Drive.getblkWith sync ramdisk block (fuel + 2) s = .ok (i, s') ∧ Got s s' i block := by
  have linked' := linked
  rcases linked' with ⟨order, chain, queues⟩
  rw [Drive.getblkWith]
  cases found : s.cache.findBuffer ramdisk block with
  | some i =>
    have here := queues.found found
    exact ⟨i, _, rfl, ⟨_, rfl⟩, here.1, .inl ⟨here, rfl, rfl⟩⟩
  | none =>
    have missing := linked.findBuffer_none found
    rcases room with ⟨i, has⟩ | ⟨i, spare⟩
    · exact absurd has (missing i)
    · rcases mem_spare.1 spare with ⟨inside, unused, clean⟩
      rcases queues.pick_best inside unused with ⟨b, picked, insideB, unusedB, best⟩
      have worse := best i inside unused
      have clean : (s.cache.head b).dirt = false := by
        simp only [Bool.false_eq_true, or_false] at clean
        simp only [Cache.badness, unlocked, clean, Bool.toNat_false] at worse
        cases dirt : (s.cache.head b).dirt with
        | false => rfl
        | true =>
          rw [dirt] at worse
          cases worse
      have cleaned : Drive.clean sync b (fuel + 1) s = .ok (false, s) := by
        rw [Drive.clean, clean]
        rfl
      have new := queues.findBuffer block (show ramdisk ≠ 0 by decide)
      rw [found] at new
      rcases queues.assign insideB (show ramdisk ≠ 0 by decide) new with ⟨cache, assigned, -⟩
      have heads := assign_head assigned
      simp only [picked, bind_ok cleaned, found, assigned, Option.isSome_none, Bool.false_eq_true, or_self, if_false]
      exact ⟨b, _, rfl, ⟨_, rfl⟩, insideB, .inr ⟨missing, mem_spare.2 ⟨insideB, unusedB, .inl clean⟩, heads.2, heads.1⟩⟩

/-- What the turn of `sync_inodes` for a due inode `k` does, with the buffer `i` of its block. -/
structure Stored (s s' : Drive) (k i : Nat) : Prop where
  nr : s'.cache.nrBuffers = s.cache.nrBuffers
  size : s'.start = s.start ∧ s'.length = s.length
  table : s'.imapBlocks = s.imapBlocks ∧ s'.zmapBlocks = s.zmapBlocks
  inode : s'.inode = Function.update s.inode k { s.inode k with dirt := false }
  source : s.Has i (s.slotBlock k) ∨ (∀ j, ¬ s.Has j (s.slotBlock k)) ∧ i ∈ s.spare fun _ => false
  here : s'.Has i (s.slotBlock k)
  dirt : (s'.cache.head i).dirt = true
  uptodate : (s'.cache.head i).uptodate = true
  data : ∃ base, (s'.cache.head i).data = storeInode base (((s.inode k).num.toNat - 1) % 32) (s.inode k) ∧
    (s.Has i (s.slotBlock k) → (s.cache.head i).uptodate = true → base = (s.cache.head i).data)
  count : ∀ j, (s'.cache.head j).count = (s.cache.head j).count
  lock : ∀ j, (s'.cache.head j).lock = (s.cache.head j).lock
  others : ∀ j, j ≠ i → s'.cache.head j = s.cache.head j

/-- The buffer that `getblk` returned can be filled and released again. -/
def Fillable (s s₁ : Drive) (i : Nat) (block : BitVec 64) : Prop :=
  ((s₁.cache.head i).uptodate = true ∨ s.serves block = true) ∧ (s₁.cache.head i).count ≠ 0

theorem Got.here (got : Got s s₁ i block) : s₁.Has i block := by
  rcases got.head with ⟨has, only⟩ | ⟨-, -, only⟩
  · refine ⟨?_, ?_⟩
    · rw [only.1]
      exact has.1
    · rw [only.self]
      exact has.2
  · refine ⟨?_, ?_⟩
    · rw [only.1]
      exact got.inside
    · rw [only.self]
      exact ⟨rfl, rfl⟩

theorem Got.geometry (got : Got s s₁ i block) : s₁.start = s.start ∧ s₁.length = s.length ∧ s₁.imapBlocks = s.imapBlocks ∧
    s₁.zmapBlocks = s.zmapBlocks ∧ s₁.inode = s.inode ∧ s₁.cache.nrBuffers = s.cache.nrBuffers := by
  rcases got.drive with ⟨cache, rfl⟩
  rcases got.head with ⟨-, only⟩ | ⟨-, -, only⟩
  · exact ⟨rfl, rfl, rfl, rfl, rfl, only.1⟩
  · exact ⟨rfl, rfl, rfl, rfl, rfl, only.1⟩

theorem Got.others (got : Got s s₁ i block) (other : j ≠ i) : s₁.cache.head j = s.cache.head j := by
  rcases got.head with ⟨-, only⟩ | ⟨-, -, only⟩ <;> rw [only.2, Function.update_of_ne other]

theorem Got.count (got : Got s s₁ i block) : (s₁.cache.head i).count = (s.cache.head i).count + 1 := by
  rcases got.head with ⟨-, only⟩ | ⟨-, spare, only⟩
  · rw [only.self]
  · rw [only.self, (mem_spare.1 spare).2.1]
    rfl

theorem Got.lock (got : Got s s₁ i block) : (s₁.cache.head i).lock = (s.cache.head i).lock := by
  rcases got.head with ⟨-, only⟩ | ⟨-, -, only⟩ <;> rw [only.self] <;> rfl

theorem Got.fillable_iff (linked : Linked s) (got : Got s s₁ i (s.slotBlock k)) :
    Fillable s s₁ i (s.slotBlock k) ↔ Storable s (fun _ => false) k := by
  have none {c : BitVec 8} : c + 1 ≠ 0 ↔ c ≠ 255 := by bv_omega
  unfold Fillable Storable
  rw [got.count, none]
  rcases got.head with ⟨has, only⟩ | ⟨missing, spare, only⟩
  · rw [only.self]
    constructor
    · rintro ⟨readable, countable⟩
      refine ⟨?_, ?_⟩
      · rcases readable with fresh | served
        · exact .inr ⟨i, has.1, has, fresh, rfl⟩
        · exact .inl served
      · intro j _ hasJ
        rw [linked.same hasJ has]
        exact countable
    · rintro ⟨readable, countable⟩
      refine ⟨?_, countable i has.1 has⟩
      rcases readable with served | ⟨j, -, hasJ, fresh, -⟩
      · exact .inr served
      · rw [linked.same hasJ has] at fresh
        exact .inl fresh
  · rw [only.self]
    have unused := (mem_spare.1 spare).2.1
    constructor
    · rintro ⟨readable, -⟩
      exact ⟨.inl (readable.resolve_left (by simp [BufferHead.taken])), fun j _ has => absurd has (missing j)⟩
    · rintro ⟨readable, -⟩
      refine ⟨.inr ?_, ?_⟩
      · rcases readable with served | ⟨j, -, has, -⟩
        · exact served
        · exact absurd has (missing j)
      · rw [unused]
        decide

/-- A buffer that is valid or is read now. -/
theorem load_valid (device : (s.cache.head i).dev = ramdisk)
    (readable : (s.cache.head i).uptodate = true ∨ s.serves (s.cache.head i).blocknr = true) :
    ∃ dirt data, (if (s.cache.head i).uptodate then s else s.llRwBlock false i) =
      s.setHead i { s.cache.head i with dirt, data, uptodate := true } ∧
      ((s.cache.head i).uptodate = true → data = (s.cache.head i).data) := by
  cases fresh : (s.cache.head i).uptodate with
  | true =>
    refine ⟨(s.cache.head i).dirt, (s.cache.head i).data, ?_, fun _ => rfl⟩
    have same : { s.cache.head i with
        dirt := (s.cache.head i).dirt, data := (s.cache.head i).data, uptodate := true } = s.cache.head i := by rw [← fresh]
    rw [if_pos rfl, same]
    simp only [Drive.setHead, Cache.setHead, Function.update_eq_self]
  | false =>
    have served := readable.resolve_left (by rw [fresh]; decide)
    have major : ¬ (s.cache.head i).dev.toNat / 256 ≠ 1 := by
      rw [device]
      decide
    refine ⟨false, s.disk (place (s.cache.head i).blocknr), ?_, fun valid => by cases valid⟩
    simp only [Drive.llRwBlock, fresh, major, refuses_ramdisk device, served, Bool.false_eq_true, Bool.not_false, Bool.not_true,
      Bool.and_false, Bool.false_and, Bool.or_self, if_false]

theorem load_refused (device : (s.cache.head i).dev = ramdisk) (stale : (s.cache.head i).uptodate = false)
    (refused : s.serves (s.cache.head i).blocknr = false) : ((s.llRwBlock false i).cache.head i).uptodate = false := by
  have major : ¬ (s.cache.head i).dev.toNat / 256 ≠ 1 := by
    rw [device]
    decide
  simp only [Drive.llRwBlock, stale, major, refuses_ramdisk device, refused, Bool.false_eq_true, Bool.not_false, Bool.and_false,
    Bool.false_and, Bool.or_self, if_false, if_true, Drive.setHead, Cache.setHead, Function.update_self]

/-- `write_inode` after its `getblk`. -/
theorem writeInode_due {fuel : Nat} (due : Due s k) (device : (s.inode k).dev = ramdisk)
    (got : Drive.getblkWith Drive.stuck ramdisk (s.slotBlock k) fuel s = .ok (i, s₁)) :
    Drive.writeInode fuel k s = (do
      let (bh, s₂) ← (if (s₁.cache.head i).uptodate then .ok (some i, s₁)
        else if ((s₁.llRwBlock false i).cache.head i).uptodate then .ok (some i, s₁.llRwBlock false i)
        else do
          let s₂ ← (s₁.llRwBlock false i).brelse i
          .ok (none, s₂) : Except Halt (Option Nat × Drive))
      match bh with
      | none => .error (.panic "unable to read i-node block")
      | some i =>
        let head := s₂.cache.head i
        let s₂ := s₂.setHead i { head with
          data := storeInode head.data (((s.inode k).num.toNat - 1) % 32) (s.inode k), dirt := true }
        let s₂ := { s₂ with inode := Function.update s₂.inode k { s.inode k with dirt := false } }
        s₂.brelse i) := by
  have some : ¬ ((s.inode k).dirt = false ∨ (s.inode k).dev = 0) := by
    rw [due.1]
    exact fun either => either.elim (fun clean => by cases clean) due.2.2
  unfold Drive.writeInode
  simp only
  rw [if_neg some, if_neg (not_not.2 device), device]
  unfold Drive.breadWith
  unfold Drive.slotBlock at got
  rw [bind_ok got] <;> rfl

theorem writeInode_stores {fuel : Nat} (due : Due s k) (device : (s.inode k).dev = ramdisk)
    (got : Drive.getblkWith Drive.stuck ramdisk (s.slotBlock k) fuel s = .ok (i, s₁)) (buffer : Got s s₁ i (s.slotBlock k))
    (fillable : Fillable s s₁ i (s.slotBlock k)) : ∃ s', Drive.writeInode fuel k s = .ok s' ∧ Stored s s' k i := by
  rcases buffer.here with ⟨inside, here, blocknr⟩
  have geometry := buffer.geometry
  have readable : (s₁.cache.head i).uptodate = true ∨ s₁.serves (s₁.cache.head i).blocknr = true := by
    rw [blocknr, Drive.serves, geometry.1, geometry.2.1]
    exact fillable.1
  rcases load_valid here readable with ⟨dirt, data, loaded, before⟩
  let head : BufferHead := { s₁.cache.head i with
    dirt := true, data := storeInode data (((s.inode k).num.toNat - 1) % 32) (s.inode k), uptodate := true, count := (s.cache.head i).count }
  let s' : Drive := { s₁.setHead i head with inode := Function.update s₁.inode k { s.inode k with dirt := false } }
  have back : (s₁.cache.head i).count - 1 = (s.cache.head i).count := by
    rw [buffer.count]
    exact BitVec.add_sub_cancel ..
  have written : Drive.writeInode fuel k s = .ok s' := by
    rw [writeInode_due due device got]
    cases fresh : (s₁.cache.head i).uptodate with
    | true =>
      rw [if_pos fresh] at loaded
      rw [if_pos rfl, loaded]
      simp only [bind, Except.bind, Drive.brelse, Drive.setHead, Cache.setHead, Function.update_self, Function.update_idem,
        fillable.2, if_false, back]
      rfl
    | false =>
      rw [fresh, if_neg (by decide)] at loaded
      rw [if_neg (by decide), loaded]
      simp only [bind, Except.bind, Drive.brelse, Drive.setHead, Cache.setHead, Function.update_self, Function.update_idem,
        fillable.2, if_false, if_true, back]
      rfl
  refine ⟨s', written, ?_⟩
  have self : s'.cache.head i = head := Function.update_self ..
  have others (j : Nat) (other : j ≠ i) : s'.cache.head j = s.cache.head j := by
    rw [← buffer.others other]
    exact Function.update_of_ne other ..
  refine ⟨geometry.2.2.2.2.2, ⟨geometry.1, geometry.2.1⟩, ⟨geometry.2.2.1, geometry.2.2.2.1⟩, ?_, ?_, ?_, ?_, ?_, ?_, ?_, ?_, others⟩
  · change Function.update s₁.inode k _ = _
    rw [geometry.2.2.2.2.1]
  · exact buffer.head.imp (fun has => has.1) fun taken => ⟨taken.1, taken.2.1⟩
  · refine ⟨inside, ?_⟩
    rw [self]
    exact ⟨here, blocknr⟩
  · rw [self]
  · rw [self]
  · rw [self]
    refine ⟨data, rfl, ?_⟩
    intro has fresh
    rcases buffer.head with ⟨-, only⟩ | ⟨missing, -⟩
    · rw [before (by rw [only.self]; exact fresh), only.self]
    · exact absurd has (missing i)
  · intro j
    by_cases other : j = i
    · rw [other, self]
    · rw [others j other]
  · intro j
    by_cases other : j = i
    · rw [other, self]
      exact buffer.lock
    · rw [others j other]

theorem writeInode_fails {fuel : Nat} (due : Due s k) (device : (s.inode k).dev = ramdisk)
    (got : Drive.getblkWith Drive.stuck ramdisk (s.slotBlock k) fuel s = .ok (i, s₁)) (buffer : Got s s₁ i (s.slotBlock k))
    (unfit : ¬ Fillable s s₁ i (s.slotBlock k)) : ∃ e, Drive.writeInode fuel k s = .error e := by
  rcases buffer.here with ⟨inside, here, blocknr⟩
  have geometry := buffer.geometry
  have serves : s₁.serves (s₁.cache.head i).blocknr = s.serves (s.slotBlock k) := by
    rw [blocknr, Drive.serves, geometry.1, geometry.2.1]
    rfl
  rw [writeInode_due due device got]
  by_cases readable : (s₁.cache.head i).uptodate = true ∨ s₁.serves (s₁.cache.head i).blocknr = true
  · have uncounted : (s₁.cache.head i).count = 0 := by
      by_contra counted
      rw [serves] at readable
      exact unfit ⟨readable, counted⟩
    rcases load_valid here readable with ⟨dirt, data, loaded, -⟩
    refine ⟨.panic "Trying to free free buffer", ?_⟩
    cases fresh : (s₁.cache.head i).uptodate with
    | true =>
      rw [if_pos fresh] at loaded
      rw [if_pos rfl, loaded]
      simp only [bind, Except.bind, Drive.brelse, Drive.setHead, Cache.setHead, Function.update_self, uncounted, if_true]
    | false =>
      rw [fresh, if_neg (by decide)] at loaded
      rw [if_neg (by decide), loaded]
      simp only [bind, Except.bind, Drive.brelse, Drive.setHead, Cache.setHead, Function.update_self, uncounted, if_true]
  · simp only [not_or, Bool.not_eq_true] at readable
    have invalid := load_refused here readable.1 readable.2
    simp only [readable.1, invalid, Bool.false_eq_true, if_false]
    cases released : (s₁.llRwBlock false i).brelse i with
    | error e => exact ⟨e, rfl⟩
    | ok s₂ => exact ⟨_, rfl⟩

theorem mem_needed {written : BufferHead → Bool} {x : BitVec 64} {left : Nat} : x ∈ s.needed written k left ↔
    (∃ j, (k ≤ j ∧ j < k + left) ∧ Due s j ∧ s.slotBlock j = x) ∧ ∀ i, s.Has i x → i ∈ s.spare written := by
  simp only [Drive.needed, Finset.mem_filter, Finset.mem_image, Finset.mem_Ico, and_assoc]
  refine and_congr_right fun _ => ⟨fun all i has => all i has.1 has, fun all i _ has => all i has⟩

section Stored

variable {x : BitVec 64} {left : Nat} (stored : Stored s s' k i)

include stored

theorem Stored.serves (x : BitVec 64) : s'.serves x = s.serves x := by
  rw [Drive.serves, Drive.serves, stored.size.1, stored.size.2]

theorem Stored.slotBlock (j : Nat) : s'.slotBlock j = s.slotBlock j := by
  have num : (s'.inode j).num = (s.inode j).num := by
    rw [stored.inode, Function.update_apply]
    split
    · rename_i here
      rw [here]
    · rfl
  rw [Drive.slotBlock, Drive.slotBlock, Drive.inodeBlock, Drive.inodeBlock, num, stored.table.1, stored.table.2]

theorem Stored.due (other : j ≠ k) : Due s' j ↔ Due s j := by
  rw [Due, Due, stored.inode, Function.update_of_ne other]

theorem Stored.spare_eq : s'.spare (fun _ => false) = (s.spare fun _ => false).erase i := by
  ext j
  rw [Finset.mem_erase, mem_spare, mem_spare, stored.nr]
  by_cases here : j = i
  · subst j
    simp [stored.dirt]
  · rw [stored.others j here]
    simp [here]

/-- A buffer of another block keeps it, unless it was taken. -/
theorem Stored.has_iff (other : x ≠ s.slotBlock k) : s'.Has j x ↔ s.Has j x ∧ j ≠ i := by
  by_cases here : j = i
  · subst j
    constructor
    · intro has
      exact absurd (has.2.2.symm.trans stored.here.2.2) other
    · exact fun both => absurd rfl both.2
  · rw [Drive.Has, Drive.Has, stored.nr, stored.others j here]
    simp [here]

/-- What was taken for another block was spare. -/
theorem Stored.taken (has : s.Has i x) (other : x ≠ s.slotBlock k) : i ∈ s.spare fun _ => false := by
  rcases stored.source with same | ⟨-, spare⟩
  · exact absurd (has.2.2.symm.trans same.2.2) other
  · exact spare

theorem Stored.storable (transferred : Transferred s) (storable : Storable s (fun _ => false) k) (j : Nat) :
    Storable s' (fun _ => false) j ↔ Storable s (fun _ => false) j := by
  unfold Storable at storable ⊢
  rw [stored.slotBlock, stored.serves, stored.nr]
  by_cases same : s.slotBlock j = s.slotBlock k
  · rw [same]
    refine iff_of_true ⟨.inr ⟨i, ?_, stored.here, stored.uptodate, rfl⟩, ?_⟩ storable
    · exact stored.nr ▸ stored.here.1
    · intro l inside has
      rw [stored.count]
      have here : l = i := by
        by_contra other
        have before : s.Has l (s.slotBlock k) := by
          rw [Drive.Has, stored.nr, stored.others l other] at has
          exact has
        rcases stored.source with mine | ⟨missing, -⟩
        · exact other (transferred.linked.same before mine)
        · exact missing l before
      subst l
      rcases stored.source with mine | ⟨-, spare⟩
      · exact storable.2 i mine.1 mine
      · rw [(mem_spare.1 spare).2.1]
        decide
  · constructor
    · rintro ⟨readable, countable⟩
      refine ⟨?_, ?_⟩
      · refine readable.imp_right ?_
        rintro ⟨l, inside, has, fresh, -⟩
        have before := (stored.has_iff same).1 has
        rw [stored.others l before.2] at fresh
        exact ⟨l, inside, before.1, fresh, rfl⟩
      · intro l inside has
        by_cases here : l = i
        · subst l
          rw [(mem_spare.1 (stored.taken has same)).2.1]
          decide
        · rw [← stored.count]
          exact countable l inside ((stored.has_iff same).2 ⟨has, here⟩)
    · rintro ⟨readable, countable⟩
      refine ⟨?_, ?_⟩
      · rcases readable with served | ⟨l, inside, has, fresh, -⟩
        · exact .inl served
        · by_cases here : l = i
          · subst here
            -- it was clean, and valid
            have clean := (mem_spare.1 (stored.taken has same)).2.2
            simp only [Bool.false_eq_true, or_false] at clean
            have served := transferred.served l has.2.1 fresh clean
            rw [has.2.2] at served
            exact .inl served
          · rw [← stored.others l here] at fresh
            exact .inr ⟨l, inside, (stored.has_iff same).2 ⟨has, here⟩, fresh, rfl⟩
      · intro l inside has
        rw [stored.count]
        exact countable l inside ((stored.has_iff same).1 has).1

theorem Stored.needed_eq : s'.needed (fun _ => false) (k + 1) left = (s.needed (fun _ => false) k (left + 1)).erase (s.slotBlock k) := by
  ext x
  rw [Finset.mem_erase, mem_needed, mem_needed]
  by_cases same : x = s.slotBlock k
  · subst x
    refine iff_of_false ?_ (fun both => both.1 rfl)
    rintro ⟨-, all⟩
    have spare := all i stored.here
    rw [stored.spare_eq] at spare
    exact (Finset.mem_erase.1 spare).1 rfl
  · simp only [same, ne_eq, not_false_eq_true, true_and]
    refine and_congr ?_ ?_
    · constructor
      · rintro ⟨j, ⟨first, last⟩, due, rfl⟩
        exact ⟨j, ⟨by omega, by omega⟩, (stored.due (by omega)).1 due, (stored.slotBlock j).symm⟩
      · rintro ⟨j, ⟨first, last⟩, due, rfl⟩
        have other : j ≠ k := fun here => same (by rw [here])
        exact ⟨j, ⟨by omega, by omega⟩, (stored.due other).2 due, stored.slotBlock j⟩
    · constructor
      · intro all l has
        by_cases here : l = i
        · rw [here] at has ⊢
          exact stored.taken has same
        · have spare := all l ((stored.has_iff same).2 ⟨has, here⟩)
          rw [stored.spare_eq] at spare
          exact (Finset.mem_erase.1 spare).2
      · intro all l has
        have before := (stored.has_iff same).1 has
        rw [stored.spare_eq]
        exact Finset.mem_erase.2 ⟨before.2, all l before.1⟩

/-- The turn takes a spare buffer just where its block needs one. -/
theorem Stored.takes (linked : Linked s) (due : Due s k) :
    i ∈ s.spare (fun _ => false) ↔ s.slotBlock k ∈ s.needed (fun _ => false) k (left + 1) := by
  rw [mem_needed]
  constructor
  · intro spare
    refine ⟨⟨k, ⟨le_refl _, by omega⟩, due, rfl⟩, ?_⟩
    intro l has
    rcases stored.source with mine | ⟨missing, -⟩
    · rwa [linked.same has mine]
    · exact absurd has (missing l)
  · rintro ⟨-, all⟩
    rcases stored.source with mine | ⟨-, spare⟩
    · exact all i mine
    · exact spare

theorem Stored.inodesFit (transferred : Transferred s) (due : Due s k) (storable : Storable s (fun _ => false) k) :
    InodesFit s' (fun _ => false) (k + 1) left ↔ InodesFit s (fun _ => false) k (left + 1) := by
  have takes : i ∈ s.spare (fun _ => false) ↔ s.slotBlock k ∈ s.needed (fun _ => false) k (left + 1) :=
    stored.takes transferred.linked due
  unfold InodesFit
  refine and_congr ?_ ?_
  · constructor
    · intro all j last first dueJ
      by_cases here : j = k
      · rw [here]
        exact storable
      · exact (stored.storable transferred storable j).1 (all j (by omega) (by omega) ((stored.due here).2 dueJ))
    · intro all j last first dueJ
      have later : j ≠ k := by omega
      exact (stored.storable transferred storable j).2 (all j (by omega) (by omega) ((stored.due later).1 dueJ))
  · rw [stored.spare_eq, stored.needed_eq]
    by_cases spare : i ∈ s.spare fun _ => false
    · have some := Finset.card_pos.2 ⟨i, spare⟩
      have some' := Finset.card_pos.2 ⟨_, takes.1 spare⟩
      rw [Finset.card_erase_of_mem spare, Finset.card_erase_of_mem (takes.1 spare)]
      omega
    · rw [Finset.erase_eq_of_notMem spare, Finset.erase_eq_of_notMem (fun member => spare (takes.2 member))]

theorem Stored.transferred (transferred : Transferred s) (linked : Linked s') : Transferred s' := by
  refine ⟨linked, ?_, ?_, ?_⟩
  · intro j device fresh clean
    by_cases here : j = i
    · rw [here, stored.dirt] at clean
      cases clean
    · rw [stored.others j here] at device fresh clean ⊢
      rw [stored.serves]
      exact transferred.served j device fresh clean
  · intro j
    rw [stored.lock]
    exact transferred.unlocked j
  · intro j
    rw [stored.inode, Function.update_apply]
    split
    · exact transferred.mounted k
    · exact transferred.mounted j

end Stored

/-- The users of the buffers, and what is dirty for another device, stay through `sync_inodes`. -/
structure Onward (s s' : Drive) : Prop where
  nr : s'.cache.nrBuffers = s.cache.nrBuffers
  count : ∀ j, (s'.cache.head j).count = (s.cache.head j).count
  dev : ∀ j, (s'.cache.head j).dev = (s.cache.head j).dev ∨ (s'.cache.head j).dev = ramdisk
  dirty : ∀ j, (s.cache.head j).dirt = true → (s.cache.head j).dev ≠ ramdisk → s'.cache.head j = s.cache.head j

theorem Onward.refl (s : Drive) : Onward s s := ⟨rfl, fun _ => rfl, fun _ => .inl rfl, fun _ _ _ => rfl⟩

theorem Onward.trans (one : Onward s s₁) (two : Onward s₁ s') : Onward s s' where
  nr := two.nr.trans one.nr
  count j := (two.count j).trans (one.count j)
  dev j := by
    rcases two.dev j with same | here
    · rw [same]
      exact one.dev j
    · exact .inr here
  dirty j dirt device := by
    have kept := one.dirty j dirt device
    rw [← kept] at dirt device
    rw [two.dirty j dirt device, kept]

theorem Stored.onward (stored : Stored s s' k i) : Onward s s' := by
  refine ⟨stored.nr, stored.count, ?_, ?_⟩
  · intro j
    by_cases here : j = i
    · rw [here]
      exact .inr stored.here.2.1
    · rw [stored.others j here]
      exact .inl rfl
  · intro j dirt device
    have other : j ≠ i := by
      rintro rfl
      rcases stored.source with mine | ⟨-, spare⟩
      · exact device mine.2.1
      · have clean := (mem_spare.1 spare).2.2
        simp [dirt] at clean
    exact stored.others j other

/-- A turn for a due inode that returns. -/
theorem writeInode_effect {fuel : Nat} (transferred : Transferred s) (due : Due s k)
    (written : Drive.writeInode fuel k s = .ok s') :
    ∃ i, Stored s s' k i ∧ Storable s (fun _ => false) k ∧ Transferred s' := by
  have device := (transferred.mounted k).resolve_left due.2.2
  have linked' : Linked s' := by
    have moves : Moves (fun _ _ => True) True s s' := writeInode_moves transferred.linked written
    exact transferred.linked.moves moves
  cases got : Drive.getblkWith Drive.stuck ramdisk (s.slotBlock k) fuel s with
  | error e =>
    have some : ¬ ((s.inode k).dirt = false ∨ (s.inode k).dev = 0) := by
      rw [due.1]
      exact fun either => either.elim (fun clean => by cases clean) due.2.2
    have failed : Drive.writeInode fuel k s = .error e := by
      unfold Drive.writeInode
      simp only
      rw [if_neg some, if_neg (not_not.2 device), device]
      unfold Drive.breadWith
      unfold Drive.slotBlock at got
      rw [got]
      rfl
    rw [failed] at written
    cases written
  | ok result =>
    rcases result with ⟨i, s₁⟩
    have buffer := getblkStuck_got transferred.linked got
    by_cases fillable : Fillable s s₁ i (s.slotBlock k)
    · rcases writeInode_stores due device got buffer fillable with ⟨s₂, written', stored⟩
      rw [written] at written'
      cases written'
      exact ⟨i, stored, (buffer.fillable_iff transferred.linked).1 fillable, stored.transferred transferred linked'⟩
    · rcases writeInode_fails due device got buffer fillable with ⟨e, failed⟩
      rw [failed] at written
      cases written

theorem writeInode_returns (transferred : Transferred s) (due : Due s k) (storable : Storable s (fun _ => false) k)
    (room : (∃ i, s.Has i (s.slotBlock k)) ∨ (s.spare fun _ => false).Nonempty) (fuel : Nat) :
    ∃ s', Drive.writeInode (fuel + 2) k s = .ok s' := by
  have device := (transferred.mounted k).resolve_left due.2.2
  rcases getblkWith_got Drive.stuck transferred.linked room transferred.unlocked fuel with ⟨i, s₁, got, buffer⟩
  have fillable := (buffer.fillable_iff transferred.linked).2 storable
  rcases writeInode_stores due device got buffer fillable with ⟨s', written, -⟩
  exact ⟨s', written⟩

theorem syncInode_due {fuel : Nat} (due : Due s k) : Drive.syncInode fuel k s = Drive.writeInode fuel k s := by
  rw [Drive.syncInode, due.1, due.2.1]
  rfl

theorem syncInode_passes {fuel : Nat} (passed : ¬ Due s k) : Drive.syncInode fuel k s = .ok s := by
  unfold Drive.syncInode
  split
  · rename_i some
    simp only [Bool.and_eq_true, Bool.not_eq_eq_eq_not, Bool.not_true] at some
    have none : (s.inode k).dev = 0 := by
      by_contra device
      exact passed ⟨some.1, some.2, device⟩
    simp [Drive.writeInode, none]
  · rfl

theorem inodesFit_passed {written : BufferHead → Bool} {left : Nat} (passed : ¬ Due s k) :
    InodesFit s written k (left + 1) ↔ InodesFit s written (k + 1) left := by
  have needed : s.needed written k (left + 1) = s.needed written (k + 1) left := by
    ext x
    rw [mem_needed, mem_needed]
    refine and_congr_left fun _ => ?_
    constructor
    · rintro ⟨j, ⟨first, last⟩, due, same⟩
      have later : j ≠ k := fun here => passed (here ▸ due)
      exact ⟨j, ⟨by omega, by omega⟩, due, same⟩
    · rintro ⟨j, ⟨first, last⟩, due, same⟩
      exact ⟨j, ⟨by omega, by omega⟩, due, same⟩
  rw [InodesFit, InodesFit, needed]
  refine and_congr_left fun _ => ?_
  constructor
  · exact fun all j last first => all j (by omega) (by omega)
  · intro all j last first due
    have later : j ≠ k := fun here => passed (here ▸ due)
    exact all j (by omega) (by omega) due

/-- Where the loop over the inodes returns, they fitted. -/
theorem syncInodesFrom_fit {fuel left : Nat} (transferred : Transferred s)
    (synced : Drive.syncInodesFrom fuel k left s = .ok s') :
    InodesFit s (fun _ => false) k left ∧ Transferred s' ∧ Onward s s' ∧ (∀ j, k ≤ j → j < k + left → ¬ Due s' j) ∧
      ∀ j, ¬ Due s j → ¬ Due s' j := by
  induction left generalizing k s with
  | zero =>
    cases synced
    refine ⟨⟨?_, ?_⟩, transferred, .refl _, ?_, fun _ passed => passed⟩
    · intro j first last
      omega
    · simp [Drive.needed]
    · intro j first last
      omega
  | succ left ih =>
    rw [Drive.syncInodesFrom] at synced
    rcases of_bind synced with ⟨s₁, one, rest⟩
    by_cases due : Due s k
    · rw [syncInode_due due] at one
      rcases writeInode_effect transferred due one with ⟨i, stored, storable, transferred₁⟩
      rcases ih transferred₁ rest with ⟨fit, transferred', onward, clean, still⟩
      have written : ¬ Due s₁ k := by
        rw [Due, stored.inode, Function.update_self]
        simp
      refine ⟨(stored.inodesFit transferred due storable).1 fit, transferred', stored.onward.trans onward, ?_, ?_⟩
      · intro j first last
        by_cases here : j = k
        · rw [here]
          exact still k written
        · exact clean j (by omega) (by omega)
      · intro j passed
        by_cases here : j = k
        · rw [here]
          exact still k written
        · exact still j ((not_congr (stored.due here)).2 passed)
    · rw [syncInode_passes due] at one
      cases one
      rcases ih transferred rest with ⟨fit, transferred', onward, clean, still⟩
      refine ⟨(inodesFit_passed due).2 fit, transferred', onward, ?_, still⟩
      intro j first last
      by_cases here : j = k
      · rw [here]
        exact still k due
      · exact clean j (by omega) (by omega)

/-- Inodes that fit are written. -/
theorem syncInodesFrom_returns {left : Nat} (transferred : Transferred s) (fit : InodesFit s (fun _ => false) k left) (fuel : Nat) :
    ∃ s', Drive.syncInodesFrom (fuel + 2) k left s = .ok s' := by
  induction left generalizing k s with
  | zero => exact ⟨s, rfl⟩
  | succ left ih =>
    rw [Drive.syncInodesFrom]
    by_cases due : Due s k
    · have storable := fit.1 k (by omega) (le_refl _) due
      have room : (∃ i, s.Has i (s.slotBlock k)) ∨ (s.spare fun _ => false).Nonempty := by
        by_contra none
        rcases not_or.1 none with ⟨missing, empty⟩
        have member : s.slotBlock k ∈ s.needed (fun _ => false) k (left + 1) :=
          mem_needed.2 ⟨⟨k, ⟨le_refl _, by omega⟩, due, rfl⟩, fun i has => absurd ⟨i, has⟩ missing⟩
        have positive := Finset.card_pos.2 ⟨_, member⟩
        rw [Finset.not_nonempty_iff_eq_empty] at empty
        have enough := fit.2
        rw [empty, Finset.card_empty] at enough
        omega
      rcases writeInode_returns transferred due storable room fuel with ⟨s₁, written⟩
      rcases writeInode_effect transferred due written with ⟨i, stored, -, transferred₁⟩
      rw [syncInode_due due, bind_ok written]
      exact ih transferred₁ ((stored.inodesFit transferred due storable).2 fit)
    · rw [syncInode_passes due, bind_ok rfl]
      exact ih transferred ((inodesFit_passed due).1 fit)

end K210Linux.Buffer
