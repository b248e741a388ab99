import K210Linux.Buffer.FlatDisk

namespace K210Linux.Buffer

open Outcome
open K210Linux.Fs (Block MInode)

variable {s s₁ s' : Drive} {flat : Nat → Block} {i : Nat}

/-- Every buffer has as many users as before, and the ones in use keep their blocks. -/
structure Steady (s s' : Drive) : Prop where
  nr : s'.cache.nrBuffers = s.cache.nrBuffers
  start : s'.start = s.start
  length : s'.length = s.length
  table : s'.imapBlocks = s.imapBlocks ∧ s'.zmapBlocks = s.zmapBlocks
  count : ∀ j, (s'.cache.head j).count = (s.cache.head j).count
  held : ∀ j, (s.cache.head j).count ≠ 0 →
    (s'.cache.head j).dev = (s.cache.head j).dev ∧ (s'.cache.head j).blocknr = (s.cache.head j).blocknr
  used : ∀ j, (s.cache.head j).dev ≠ 0 → (s'.cache.head j).dev ≠ 0

theorem Steady.refl (s : Drive) : Steady s s :=
  ⟨rfl, rfl, rfl, ⟨rfl, rfl⟩, fun _ => rfl, fun _ _ => ⟨rfl, rfl⟩, fun _ used => used⟩

theorem Steady.trans (one : Steady s s₁) (two : Steady s₁ s') : Steady s s' where
  nr := two.nr.trans one.nr
  start := two.start.trans one.start
  length := two.length.trans one.length
  table := ⟨two.table.1.trans one.table.1, two.table.2.trans one.table.2⟩
  count j := (two.count j).trans (one.count j)
  held j used := by
    have used₁ : (s₁.cache.head j).count ≠ 0 := by
      rw [one.count]
      exact used
    rw [(two.held j used₁).1, (two.held j used₁).2]
    exact one.held j used
  used j used := two.used j (one.used j used)

theorem Flushed.steady (flushed : Flushed s s') : Steady s s' where
  nr := flushed.nr
  start := flushed.size.1
  length := flushed.size.2
  table := flushed.table
  count j := (flushed.head j).2.2
  held j _ := ⟨(flushed.head j).1, (flushed.head j).2.1⟩
  used j used := by
    rw [(flushed.head j).1]
    exact used

/-- Buffer `i` has one user more, and holds `block` of the ramdisk. -/
structure Acquired (s s' : Drive) (i : Nat) (block : BitVec 64) : Prop where
  nr : s'.cache.nrBuffers = s.cache.nrBuffers
  start : s'.start = s.start
  length : s'.length = s.length
  table : s'.imapBlocks = s.imapBlocks ∧ s'.zmapBlocks = s.zmapBlocks
  inside : i < s.cache.nrBuffers
  here : (s'.cache.head i).dev = ramdisk ∧ (s'.cache.head i).blocknr = block
  one : (s'.cache.head i).count = (s.cache.head i).count + 1
  count : ∀ j, j ≠ i → (s'.cache.head j).count = (s.cache.head j).count
  held : ∀ j, (s.cache.head j).count ≠ 0 →
    (s'.cache.head j).dev = (s.cache.head j).dev ∧ (s'.cache.head j).blocknr = (s.cache.head j).blocknr
  used : ∀ j, (s.cache.head j).dev ≠ 0 → (s'.cache.head j).dev ≠ 0

theorem Acquired.after {block : BitVec 64} (before : Steady s s₁) (acquired : Acquired s₁ s' i block) :
    Acquired s s' i block where
  nr := acquired.nr.trans before.nr
  start := acquired.start.trans before.start
  length := acquired.length.trans before.length
  table := ⟨acquired.table.1.trans before.table.1, acquired.table.2.trans before.table.2⟩
  inside := before.nr ▸ acquired.inside
  here := acquired.here
  one := by rw [acquired.one, before.count]
  count j other := (acquired.count j other).trans (before.count j)
  held j used := by
    have used₁ : (s₁.cache.head j).count ≠ 0 := by
      rw [before.count]
      exact used
    rw [(acquired.held j used₁).1, (acquired.held j used₁).2]
    exact before.held j used
  used j used := acquired.used j (before.used j used)

theorem Acquired.counted {block : BitVec 64} (inside : i < s.cache.nrBuffers)
    (here : (s.cache.head i).dev = ramdisk ∧ (s.cache.head i).blocknr = block) :
    Acquired s (s.setHead i { s.cache.head i with count := (s.cache.head i).count + 1 }) i block where
  nr := rfl
  start := rfl
  length := rfl
  table := ⟨rfl, rfl⟩
  inside := inside
  here := by
    simp only [Drive.setHead, Cache.setHead, Function.update_self]
    exact here
  one := by simp only [Drive.setHead, Cache.setHead, Function.update_self]
  count j other := by simp only [Drive.setHead, Cache.setHead, Function.update_of_ne other]
  held j _ := by
    simp only [Drive.setHead, Cache.setHead, Function.update_apply]
    split
    · rename_i same
      rw [same]
      exact ⟨rfl, rfl⟩
    · exact ⟨rfl, rfl⟩
  used j used := by
    simp only [Drive.setHead, Cache.setHead, Function.update_apply]
    split
    · rename_i same
      rw [same] at used
      exact used
    · exact used

theorem Acquired.assigned {block : BitVec 64} {cache : Cache} (inside : i < s.cache.nrBuffers)
    (unused : (s.cache.head i).count = 0) (nr : cache.nrBuffers = s.cache.nrBuffers)
    (heads : cache.head = Function.update s.cache.head i ((s.cache.head i).taken ramdisk block)) :
    Acquired s { s with cache } i block where
  nr := nr
  start := rfl
  length := rfl
  table := ⟨rfl, rfl⟩
  inside := inside
  here := by
    simp only [heads, Function.update_self]
    exact ⟨rfl, rfl⟩
  one := by
    simp only [heads, Function.update_self, unused]
    rfl
  count j other := by simp only [heads, Function.update_of_ne other]
  held j used := by
    have other : j ≠ i := fun same => used (same ▸ unused)
    simp only [heads, Function.update_of_ne other]
    trivial
  used j used := by
    simp only [heads, Function.update_apply]
    split
    · exact show ramdisk ≠ 0 by decide
    · exact used

/-- Flags and contents of a buffer may change. -/
theorem Acquired.setHead {block : BitVec 64} (acquired : Acquired s s' i block) {k : Nat} {head : BufferHead}
    (dev : head.dev = (s'.cache.head k).dev) (blocknr : head.blocknr = (s'.cache.head k).blocknr)
    (count : head.count = (s'.cache.head k).count) : Acquired s (s'.setHead k head) i block := by
  have same (j : Nat) : ((s'.setHead k head).cache.head j).dev = (s'.cache.head j).dev ∧
      ((s'.setHead k head).cache.head j).blocknr = (s'.cache.head j).blocknr ∧
      ((s'.setHead k head).cache.head j).count = (s'.cache.head j).count := by
    simp only [Drive.setHead, Cache.setHead, Function.update_apply]
    split
    · rename_i here
      rw [here]
      exact ⟨dev, blocknr, count⟩
    · exact ⟨rfl, rfl, rfl⟩
  refine ⟨acquired.nr, acquired.start, acquired.length, acquired.table, acquired.inside, ?_, ?_, ?_, ?_, ?_⟩
  · rw [(same i).1, (same i).2.1]
    exact acquired.here
  · rw [(same i).2.2]
    exact acquired.one
  · intro j other
    rw [(same j).2.2]
    exact acquired.count j other
  · intro j used
    rw [(same j).1, (same j).2.1]
    exact acquired.held j used
  · intro j used
    rw [(same j).1]
    exact acquired.used j used

theorem Acquired.mine {block : BitVec 64} (acquired : Acquired s s' i block) (fits : Inside s block.toNat) : Mine s' i := by
  rw [Mine, Inside, acquired.nr, acquired.here.2, acquired.length]
  exact ⟨acquired.inside, acquired.here.1, fits⟩

/-- What is asked of the `sync_dev` under a `getblk`: `extra` is kept, and the flat disk changes as `allowed`. -/
structure SyncSound (sync : BitVec 16 → Drive → Except Halt Drive) (extra : Drive → Prop)
    (allowed : (Nat → Block) → (Nat → Block) → Prop) : Prop where
  refl : ∀ flat, allowed flat flat
  trans : ∀ a b c, allowed a b → allowed b c → allowed a c
  frame : ∀ s cache disk, extra s → extra { s with cache, disk }
  sync : ∀ dev s s' flat, Shows s flat → extra s → sync dev s = .ok s' →
    ∃ flat', allowed flat flat' ∧ Shows s' flat' ∧ extra s' ∧ Steady s s'

variable {sync : BitVec 16 → Drive → Except Halt Drive} {extra : Drive → Prop}
  {allowed : (Nat → Block) → (Nat → Block) → Prop}

theorem clean_spec (sound : SyncSound sync extra allowed) {fuel : Nat} {again : Bool} (shows : Shows s flat)
    (kept : extra s) (cleaned : Drive.clean sync i fuel s = .ok (again, s')) :
    ∃ flat', allowed flat flat' ∧ Shows s' flat' ∧ extra s' ∧ Steady s s' ∧
      (again = false → (s'.cache.head i).dirt = false) := by
  induction fuel generalizing s flat with
  | zero => cases cleaned
  | succ fuel ih =>
    rw [Drive.clean] at cleaned
    split at cleaned
    · rcases of_bind cleaned with ⟨s₁, synced, rest⟩
      rcases sound.sync _ s s₁ flat shows kept synced with ⟨flat₁, change₁, shows₁, kept₁, steady₁⟩
      split at rest
      · cases rest
        exact ⟨flat₁, change₁, shows₁, kept₁, steady₁, nofun⟩
      · rcases ih shows₁ kept₁ rest with ⟨flat₂, change₂, shows₂, kept₂, steady₂, clean⟩
        exact ⟨flat₂, sound.trans _ _ _ change₁ change₂, shows₂, kept₂, steady₁.trans steady₂, clean⟩
    · rename_i isClean
      cases cleaned
      exact ⟨flat, sound.refl flat, shows, kept, .refl _, fun _ => by simpa using isClean⟩

/-- `getblk` on the ramdisk. -/
theorem getblk_spec (sound : SyncSound sync extra allowed) {fuel : Nat} {block : BitVec 64} (shows : Shows s flat)
    (kept : extra s) (real : Real s block)
    (got : Drive.getblkWith sync ramdisk block fuel s = .ok (i, s')) :
    ∃ flat', allowed flat flat' ∧ Shows s' flat' ∧ extra s' ∧ Acquired s s' i block := by
  induction fuel generalizing s flat with
  | zero => cases got
  | succ fuel ih =>
    rcases shows.queues with ⟨order, chain, queues⟩
    rw [Drive.getblkWith] at got
    split at got
    · rename_i j found
      cases got
      have spec := queues.findBuffer block (show ramdisk ≠ 0 by decide)
      rw [found] at spec
      exact ⟨flat, sound.refl flat, shows.setCount i _, sound.frame s _ s.disk kept, .counted spec.1 spec.2⟩
    · split at got
      · cases got
      · rename_i j picked
        have chosen := queues.pick picked
        rcases of_bind got with ⟨⟨again, s₁⟩, cleaned, rest⟩
        rcases clean_spec sound shows kept cleaned with ⟨flat₁, change₁, shows₁, kept₁, steady₁, clean⟩
        have real₁ : Real s₁ block := by
          rw [Real, Inside, Inside, steady₁.length]
          exact real
        simp only at rest
        split at rest
        · rcases ih shows₁ kept₁ real₁ rest with ⟨flat₂, change₂, shows₂, kept₂, acquired⟩
          exact ⟨flat₂, sound.trans _ _ _ change₁ change₂, shows₂, kept₂, acquired.after steady₁⟩
        · rename_i done
          simp only [not_or, Bool.not_eq_true, Option.isSome_eq_false_iff, Option.isNone_iff_eq_none] at done
          have inside₁ : j < s₁.cache.nrBuffers := by
            rw [steady₁.nr]
            exact chosen.1
          have unused₁ : (s₁.cache.head j).count = 0 := by
            rw [steady₁.count]
            exact chosen.2
          rcases shows₁.assign inside₁ (clean done.1) real₁ done.2 with ⟨cache, assigned, nr, heads, shows₂⟩
          rw [assigned] at rest
          cases rest
          exact ⟨flat₁, change₁, shows₂, sound.frame s₁ cache s₁.disk kept₁, (Acquired.assigned inside₁ unused₁ nr heads).after steady₁⟩

/-- `bread` on a block inside the ramdisk returns a buffer with its contents. -/
theorem bread_spec (sound : SyncSound sync extra allowed) {fuel : Nat} {block : BitVec 64} {result : Option Nat}
    (shows : Shows s flat) (kept : extra s) (fits : Inside s block.toNat)
    (read : Drive.breadWith sync ramdisk block fuel s = .ok (result, s')) :
    ∃ i flat', result = some i ∧ allowed flat flat' ∧ Shows s' flat' ∧ extra s' ∧ Acquired s s' i block ∧
      (s'.cache.head i).uptodate = true ∧ (s'.cache.head i).data = flat' block.toNat := by
  rcases of_bind read with ⟨⟨i, s₁⟩, got, rest⟩
  rcases getblk_spec sound shows kept (fun _ => fits) got with ⟨flat₁, change, shows₁, kept₁, acquired⟩
  have mine : Mine s₁ i := acquired.mine fits
  simp only at rest
  split at rest
  · rename_i fresh
    cases rest
    refine ⟨i, flat₁, rfl, change, shows₁, kept₁, acquired, fresh, ?_⟩
    rw [shows₁.cached i mine fresh, acquired.here.2]
  · rename_i stale
    rcases shows₁.read mine (by simpa using stale) with ⟨loaded, shows₂⟩
    have fresh : ((s₁.llRwBlock false i).cache.head i).uptodate = true := by
      rw [loaded]
      simp [Drive.setHead, Cache.setHead]
    rw [if_pos fresh] at rest
    cases rest
    refine ⟨i, flat₁, rfl, change, shows₂, ?_, ?_, fresh, ?_⟩
    · rw [loaded]
      exact sound.frame s₁ _ s₁.disk kept₁
    · rw [loaded]
      exact acquired.setHead rfl rfl rfl
    · rw [loaded]
      simp [Drive.setHead, Cache.setHead, acquired.here.2]

theorem Shows.withInodes (shows : Shows s flat) (inode : Nat → MInode) : Shows { s with inode } flat :=
  ⟨shows.room, shows.queues, shows.real, shows.dirty, shows.cached, shows.stored⟩

theorem Acquired.withInodes {block : BitVec 64} (acquired : Acquired s s' i block) (inode : Nat → MInode) :
    Acquired s { s' with inode } i block :=
  ⟨acquired.nr, acquired.start, acquired.length, acquired.table, acquired.inside, acquired.here, acquired.one, acquired.count,
    acquired.held, acquired.used⟩

/-- A buffer that was got and is given back leaves the counts as they were before. -/
theorem Acquired.released {block : BitVec 64} (acquired : Acquired s s₁ i block) :
    Steady s (s₁.setHead i { s₁.cache.head i with count := (s₁.cache.head i).count - 1 }) := by
  have head (j : Nat) : ((s₁.setHead i { s₁.cache.head i with count := (s₁.cache.head i).count - 1 }).cache.head j) =
      if j = i then { s₁.cache.head i with count := (s₁.cache.head i).count - 1 } else s₁.cache.head j := by
    simp only [Drive.setHead, Cache.setHead, Function.update_apply]
  refine ⟨acquired.nr, acquired.start, acquired.length, acquired.table, ?_, ?_, ?_⟩
  · intro j
    rw [head]
    split
    · rename_i here
      rw [here]
      change (s₁.cache.head i).count - 1 = _
      rw [acquired.one]
      exact BitVec.add_sub_cancel ..
    · rename_i other
      exact acquired.count j other
  · intro j inUse
    rw [head]
    split
    · rename_i here
      rw [here] at inUse ⊢
      exact acquired.held i inUse
    · exact acquired.held j inUse
  · intro j before
    rw [head]
    split
    · rename_i here
      rw [here] at before
      exact acquired.used i before
    · exact acquired.used j before

theorem brelse_spec {s₂ : Drive} {block : BitVec 64} (shows : Shows s₁ flat) (acquired : Acquired s s₁ i block)
    (released : s₁.brelse i = .ok s₂) : Shows s₂ flat ∧ Steady s s₂ ∧ s₂.inode = s₁.inode := by
  unfold Drive.brelse at released
  split at released
  · cases released
  · cases released
    exact ⟨shows.setCount i _, acquired.released, rfl⟩

/-- A `sync_dev` that does not return promises anything. -/
theorem stuck_sound (inode : Nat → MInode) :
    SyncSound Drive.stuck (fun s => s.inode = inode) fun flat flat' => flat' = flat where
  refl _ := rfl
  trans _ _ _ one two := two.trans one
  frame _ _ _ same := same
  sync := nofun

/-- The flat disk with an inode written to the inode table. -/
def withInode (s : Drive) (flat : Nat → Block) (inode : MInode) : Nat → Block :=
  let b := s.inodeBlock inode.num.toNat
  Function.update flat b (storeInode (flat b) ((inode.num.toNat - 1) % 32) inode)

/-- `write_inode` of an inode whose place in the inode table is inside the ramdisk. The buffer of that block stays in
    the cache. -/
theorem writeInode_stored {fuel k : Nat} (shows : Shows s flat) (device : (s.inode k).dev = ramdisk)
    (inside : Inside s (s.inodeBlock (s.inode k).num.toNat)) (dirty : (s.inode k).dirt = true)
    (written : Drive.writeInode fuel k s = .ok s') :
    Shows s' (withInode s flat (s.inode k)) ∧ Steady s s' ∧
      s'.inode = Function.update s.inode k { s.inode k with dirt := false } ∧
      ∃ i, i < s'.cache.nrBuffers ∧ (s'.cache.head i).dev = ramdisk ∧
        (s'.cache.head i).blocknr = BitVec.ofNat 64 (s.inodeBlock (s.inode k).num.toNat) ∧
        (s'.cache.head i).uptodate = true ∧ (s'.cache.head i).count + 1 ≠ 0 := by
  have due : ¬ ((s.inode k).dirt = false ∨ (s.inode k).dev = 0) := by
    rw [dirty, device]
    decide
  unfold Drive.writeInode at written
  simp only at written
  rw [if_neg due, if_neg (not_not.2 device)] at written
  rcases of_bind written with ⟨⟨bh, s₁⟩, read, rest⟩
  rw [device] at read
  have small : s.inodeBlock (s.inode k).num.toNat < 2 ^ 64 := by
    have bound := s.length.isLt
    rw [Inside] at inside
    omega
  have toNat : (BitVec.ofNat 64 (s.inodeBlock (s.inode k).num.toNat)).toNat = s.inodeBlock (s.inode k).num.toNat := by
    rw [BitVec.toNat_ofNat, Nat.mod_eq_of_lt small]
  have fits : Inside s (BitVec.ofNat 64 (s.inodeBlock (s.inode k).num.toNat)).toNat := by
    rw [toNat]
    exact inside
  rcases bread_spec (stuck_sound s.inode) shows rfl fits read with
    ⟨i, flat₁, rfl, rfl, shows₁, inode₁, acquired, fresh, contents⟩
  let data := storeInode (s₁.cache.head i).data (((s.inode k).num.toNat - 1) % 32) (s.inode k)
  have marked : ({ s₁.cache.head i with data := data, dirt := true } : BufferHead) =
      { s₁.cache.head i with data := data, dirt := true, uptodate := true } := by
    simp only [fresh]
  have shows₂ := shows₁.store (acquired.mine fits) data
  have acquired₂ : Acquired s (s₁.setHead i { s₁.cache.head i with data := data, dirt := true, uptodate := true }) i
      (BitVec.ofNat 64 (s.inodeBlock (s.inode k).num.toNat)) := acquired.setHead rfl rfl rfl
  rw [acquired.here.2, toNat] at shows₂
  have flat₂ : Function.update flat₁ (s.inodeBlock (s.inode k).num.toNat) data = withInode s flat₁ (s.inode k) := by
    rw [withInode, ← toNat, ← contents, toNat]
  rw [flat₂] at shows₂
  change ({ s₁.setHead i { s₁.cache.head i with data := data, dirt := true } with
    inode := Function.update s₁.inode k { s.inode k with dirt := false } } : Drive).brelse i = .ok s' at rest
  rw [marked, inode₁] at rest
  have finished := brelse_spec (shows₂.withInodes _) (acquired₂.withInodes _) rest
  refine ⟨finished.1, finished.2.1, finished.2.2, i, ?_⟩
  unfold Drive.brelse at rest
  split at rest
  · cases rest
  · rename_i used
    cases rest
    simp only [Drive.setHead, Cache.setHead, Function.update_self] at used ⊢
    refine ⟨acquired.nr ▸ acquired.inside, acquired.here.1, acquired.here.2, trivial, ?_⟩
    rw [BitVec.sub_add_cancel]
    exact used

end K210Linux.Buffer
