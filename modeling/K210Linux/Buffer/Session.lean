import K210Linux.Lib.Run
import K210Linux.Buffer.Moves

namespace K210Linux.Buffer

open Outcome K210Linux.Lib
open K210Linux.Fs (Block MInode)

/-- The drive, the references its users hold, each a buffer with the block it was got for, and the
    contents that were stored last in every block. -/
structure Session where
  drive : Drive
  held : List (Nat × BitVec 64)
  contents : Nat → Block

/-- What the users of the cache do, one after the other: `overwrite` is a `getblk` whose caller then fills
    the buffer. -/
inductive CacheEvent where
  | bread (fuel : Nat) (block : BitVec 64)
  | overwrite (fuel : Nat) (block : BitVec 64) (data : Block)
  | store (i : Nat) (block : BitVec 64) (data : Block)
  | brelse (i : Nat) (block : BitVec 64)
  | syncDev (fuel : Nat)
  | sysSync (fuel : Nat)

/-- The flat disk after an event. -/
def CacheEvent.onFlat : CacheEvent → (Nat → Block) → Nat → Block
  | .overwrite _ block data, flat => Function.update flat block.toNat data
  | .store _ block data, flat => Function.update flat block.toNat data
  | _, flat => flat

/-- The drive and the references after an event; `none` when the call does not return, or when the event
    needs a reference that nobody holds. -/
def Session.act (s : Session) : CacheEvent → Option (Drive × List (Nat × BitVec 64))
  | .bread fuel block =>
    match s.drive.bread fuel ramdisk block with
    | .ok (some i, drive) => some (drive, (i, block) :: s.held)
    | .ok (none, drive) => some (drive, s.held)
    | .error _ => none
  | .overwrite fuel block data =>
    match s.drive.getblk fuel ramdisk block with
    | .ok (i, drive) =>
      some (drive.setHead i { drive.cache.head i with data := data, dirt := true, uptodate := true },
        (i, block) :: s.held)
    | .error _ => none
  | .store i block data =>
    if (i, block) ∈ s.held ∧ (s.drive.cache.head i).uptodate then
      some (s.drive.setHead i { s.drive.cache.head i with data := data, dirt := true }, s.held)
    else none
  | .brelse i block =>
    if (i, block) ∈ s.held then
      match s.drive.brelse i with
      | .ok drive => some (drive, s.held.erase (i, block))
      | .error _ => none
    else none
  | .syncDev fuel =>
    match s.drive.syncDev fuel ramdisk with
    | .ok drive => some (drive, s.held)
    | .error _ => none
  | .sysSync fuel =>
    match s.drive.sysSync fuel with
    | .ok drive => some (drive, s.held)
    | .error _ => none

def Session.step (e : CacheEvent) (s : Session) : Option Session :=
  (s.act e).map fun (drive, held) => { drive, held, contents := e.onFlat s.contents }

/-- The references of the users agree with the counts, and lead to the blocks they were got for. -/
structure Referenced (s : Drive) (held : List (Nat × BitVec 64)) : Prop where
  count : ∀ i, (s.cache.head i).count.toNat = held.countP fun r => r.1 = i
  block : ∀ i b, (i, b) ∈ held → Mine s i ∧ (s.cache.head i).blocknr = b

variable {s s' : Drive} {held : List (Nat × BitVec 64)} {i : Nat} {block : BitVec 64}

theorem Referenced.used (refs : Referenced s held) (member : (i, block) ∈ held) : (s.cache.head i).count ≠ 0 := by
  intro zero
  have count := refs.count i
  rw [zero] at count
  have positive : 0 < held.countP fun r => r.1 = i := List.countP_pos_iff.2 ⟨(i, block), member, by simp⟩
  change 0 = _ at count
  omega

theorem Referenced.steady (refs : Referenced s held) (steady : Steady s s') : Referenced s' held := by
  constructor
  · intro j
    rw [steady.count]
    exact refs.count j
  · intro j b member
    have kept := steady.held j (refs.used member)
    rw [Mine, Inside, steady.nr, steady.length, kept.1, kept.2]
    exact refs.block j b member

/-- A buffer of a block with fewer than 255 users is counted once more, without overflow. -/
theorem Referenced.acquire (refs : Referenced s held) (fits : Inside s block.toNat) (bound : (held.countP fun r => r.2 = block) < 255)
    (acquired : Acquired s s' i block) : Referenced s' ((i, block) :: held) := by
  -- every reference to the buffer is one to this block
  have atMost : (held.countP fun r => r.1 = i) ≤ held.countP fun r => r.2 = block := by
    apply List.countP_mono_left
    intro r member same
    simp only [decide_eq_true_eq] at same ⊢
    have member' : (i, r.2) ∈ held := by
      rw [← same]
      exact member
    have kept := acquired.held i (refs.used member')
    rw [← (refs.block i r.2 member').2, ← kept.2]
    exact acquired.here.2
  constructor
  · intro j
    rw [List.countP_cons]
    by_cases here : j = i
    · subst j
      have before := refs.count i
      rw [acquired.one, BitVec.toNat_add]
      change ((s.cache.head i).count.toNat + 1) % 256 = _
      rw [Nat.mod_eq_of_lt (by omega), before]
      simp
    · rw [acquired.count j here, refs.count j]
      have other : ¬ i = j := fun same => here same.symm
      simp [other]
  · intro j b member
    rcases List.mem_cons.1 member with new | old
    · cases new
      exact ⟨acquired.mine fits, acquired.here.2⟩
    · have kept := acquired.held j (refs.used old)
      rw [Mine, Inside, acquired.nr, acquired.length, kept.1, kept.2]
      exact refs.block j b old

/-- A reference that is given back is no longer counted. -/
theorem Referenced.release (refs : Referenced s held) (member : (i, block) ∈ held) :
    Referenced (s.setHead i { s.cache.head i with count := (s.cache.head i).count - 1 }) (held.erase (i, block)) := by
  have used := refs.used member
  have one : 1 ≤ (s.cache.head i).count.toNat := by
    have other : (s.cache.head i).count.toNat ≠ 0 := fun zero => used (BitVec.eq_of_toNat_eq zero)
    omega
  constructor
  · intro j
    have before := refs.count j
    rw [(List.perm_cons_erase member).countP_eq, List.countP_cons] at before
    simp only [Drive.setHead, Cache.setHead, Function.update_apply]
    split
    · rename_i here
      subst j
      simp only [decide_true, if_true] at before
      have least : (1 : BitVec 8) ≤ (s.cache.head i).count := BitVec.le_def.2 (by simpa using one)
      rw [BitVec.toNat_sub_of_le least]
      change (s.cache.head i).count.toNat - 1 = _
      omega
    · rename_i other
      have apart : ¬ i = j := fun same => other same.symm
      simpa [apart] using before
  · intro j b still
    have before := refs.block j b (List.mem_of_mem_erase still)
    rw [Mine, Inside] at before ⊢
    simp only [Drive.setHead, Cache.setHead, Function.update_apply]
    split
    · rename_i here
      subst j
      exact before
    · exact before

end K210Linux.Buffer
