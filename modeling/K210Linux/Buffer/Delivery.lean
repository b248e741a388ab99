import K210Linux.Buffer.Durability
import K210Linux.Buffer.Intact

/-! What a request for a block of the ramdisk gets, and how long. -/

namespace K210Linux.Buffer

open Outcome K210Linux.Lib
open K210Linux.Fs (Block Byte)

variable {s s₁ s₂ s' : Drive} {i j k : Nat} {x : BitVec 64} {b : Block}

theorem Fit.moves (fit : Fit s) (moves : Moves RamdiskInt True s s') : Fit s' := fit.changes moves.changes

section Delivers

/-- Two blocks have the same 1024 bytes. -/
def Same (a b : Block) : Prop := ∀ o < 1024, a o = b o

/-- A request for block `x` gets `b`: a buffer that is valid or dirty holds it, and the ramdisk does unless the buffer is
    both. -/
structure Delivers (s : Drive) (x : BitVec 64) (b : Block) : Prop where
  buffer : ∀ i, s.Has i x → (s.cache.head i).uptodate = true ∨ (s.cache.head i).dirt = true → Same (s.cache.head i).data b
  disk : (∀ i, s.Has i x → (s.cache.head i).uptodate = false ∨ (s.cache.head i).dirt = false) → Same (s.disk (place x)) b

theorem Delivers.onDisk (delivers : Delivers s x b) (linked : Linked s) (has : s.Has i x)
    (clean : (s.cache.head i).uptodate = false ∨ (s.cache.head i).dirt = false) : Same (s.disk (place x)) b :=
  delivers.disk fun _ hasJ => linked.same has hasJ ▸ clean

theorem has_setHead (head : BufferHead) (dev : head.dev = (s.cache.head i).dev)
    (blocknr : head.blocknr = (s.cache.head i).blocknr) : (s.setHead i head).Has j x ↔ s.Has j x := by
  simp only [Drive.Has, Drive.setHead, Cache.setHead, Function.update_apply]
  split
  · rename_i here
    rw [here, dev, blocknr]
  · rfl

theorem Delivers.setHead (delivers : Delivers s x b) {head : BufferHead} (dev : head.dev = (s.cache.head i).dev)
    (blocknr : head.blocknr = (s.cache.head i).blocknr)
    (buffer : s.Has i x → head.uptodate = true ∨ head.dirt = true → Same head.data b)
    (disk : s.Has i x → head.uptodate = false ∨ head.dirt = false → Same (s.disk (place x)) b) :
    Delivers (s.setHead i head) x b := by
  have heads (j : Nat) : (s.setHead i head).cache.head j = if j = i then head else s.cache.head j := by
    simp only [Drive.setHead, Cache.setHead, Function.update_apply]
  constructor
  · intro j has ready
    have before := (has_setHead _ dev blocknr).1 has
    rw [heads] at ready ⊢
    split_ifs at ready ⊢ with here
    · exact buffer (here ▸ before) ready
    · exact delivers.buffer j before ready
  · intro all
    by_cases mine : s.Has i x
    · have clean := all i ((has_setHead _ dev blocknr).2 mine)
      rw [heads, if_pos rfl] at clean
      exact disk mine clean
    · refine delivers.disk ?_
      intro j has
      have clean := all j ((has_setHead _ dev blocknr).2 has)
      have other : j ≠ i := fun here => mine (here ▸ has)
      rwa [heads, if_neg other] at clean

theorem Delivers.request (fit : Fit s) (int : IsInt x) (served : s.serves x = true) (delivers : Delivers s x b)
    (write : Bool) (i : Nat) : Delivers (s.llRwBlock write i) x b := by
  unfold Drive.llRwBlock
  simp only
  split_ifs with unserved passed refused isWrite
  · exact delivers
  · exact delivers
  · have other : ¬ s.Has i x := by
      intro has
      rw [refuses_ramdisk has.2.1, has.2.2, served] at refused
      cases refused
    exact delivers.setHead rfl rfl (fun has => absurd has other) (fun has => absurd has other)
  · have dirty : (s.cache.head i).dirt = true := by simpa [isWrite] using passed
    let head : BufferHead := { s.cache.head i with dirt := false, uptodate := true }
    by_cases mine : s.Has i x
    · constructor
      · intro j has _
        have before : s.Has j x := (has_setHead head rfl rfl).1 has
        rw [fit.linked.same before mine]
        simp only [Drive.setHead, Cache.setHead, Function.update_self]
        exact delivers.buffer i mine (.inr dirty)
      · intro _
        simp only [mine.2.2, Function.update_self]
        exact delivers.buffer i mine (.inr dirty)
    · have apart : place x ≠ place (s.cache.head i).blocknr := by
        rcases fit.matched.device i with none | ⟨inside, device, intI⟩
        · exact absurd (by rw [none.1]; decide) unserved
        · exact fun same => mine ⟨inside, device, (place_injective int intI same).symm⟩
      have set : Delivers (s.setHead i head) x b :=
        delivers.setHead rfl rfl (fun has => absurd has mine) (fun has => absurd has mine)
      refine ⟨set.buffer, ?_⟩
      intro all
      simp only [Function.update_of_ne apart]
      exact set.disk all
  · have stale : (s.cache.head i).uptodate = false := by simpa [isWrite] using passed
    refine delivers.setHead rfl rfl ?_ ?_
    · intro has _
      simp only [has.2.2]
      exact delivers.onDisk fit.linked has (.inl stale)
    · exact fun has _ => delivers.onDisk fit.linked has (.inl stale)

/-- No inode of block `x` that waits in `s` was written by the time of `s'`. -/
def Unwritten (x : BitVec 64) (s s' : Drive) : Prop :=
  ∀ k, s.slotBlock k = x → (s.inode k).dirt = true → (s'.inode k).dirt = true

theorem Delivers.move (fit : Fit s) (int : IsInt x) (served : s.serves x = true) (delivers : Delivers s x b)
    (unwritten : Unwritten x s s') (move : Move RamdiskInt True s s') : Delivers s' x b := by
  cases move with
  | request write i => exact delivers.request fit int served write i
  | count i count =>
    exact delivers.setHead rfl rfl (fun has => delivers.buffer i has) (fun has => delivers.onDisk fit.linked has)
  | assign i dev block cache inside asked clean unused missing assigned =>
    have heads := assign_head assigned
    by_cases named : dev = ramdisk ∧ block = x
    · -- the block was in no buffer
      rw [named.1, named.2] at missing
      have none := fit.linked.findBuffer_none missing
      have disk := delivers.disk fun j has => absurd has (none j)
      refine ⟨?_, fun _ => disk⟩
      intro j has ready
      simp only [heads.1, Function.update_apply] at ready
      split_ifs at ready with here
      · simp [BufferHead.taken] at ready
      · refine absurd ?_ (none j)
        simpa only [Drive.Has, heads.1, heads.2, Function.update_of_ne here] using has
    · have other {j : Nat} (has : ({ s with cache } : Drive).Has j x) : j ≠ i := by
        rintro rfl
        simp only [Drive.Has, heads.1, Function.update_self, BufferHead.taken] at has
        exact named has.2
      have still {j : Nat} (apart : j ≠ i) : ({ s with cache } : Drive).Has j x ↔ s.Has j x := by
        simp only [Drive.Has, heads.1, heads.2, Function.update_of_ne apart]
      constructor
      · intro j has ready
        have apart := other has
        simp only [heads.1, Function.update_of_ne apart] at ready ⊢
        exact delivers.buffer j ((still apart).1 has) ready
      · intro all
        refine delivers.disk ?_
        intro j has
        by_cases here : j = i
        · rw [here]
          exact .inr clean
        · have before := all j ((still here).2 has)
          simpa only [heads.1, Function.update_of_ne here] using before
  | inode i k data _ dirty device blocknr =>
    have other : ¬ s.Has i x := by
      intro has
      have waits := unwritten k (blocknr.symm.trans has.2.2) dirty
      simp at waits
    have set : Delivers (s.setHead i { s.cache.head i with data := data, dirt := true }) x b :=
      delivers.setHead rfl rfl (fun has => absurd has other) (fun has => absurd has other)
    exact ⟨set.buffer, set.disk⟩

/-- The ramdisk and the places of the inodes are the same, and no more inodes wait. -/
structure Since (s s' : Drive) : Prop where
  size : s'.start = s.start ∧ s'.length = s.length
  slot : ∀ k, s'.slotBlock k = s.slotBlock k
  dirt : ∀ k, (s'.inode k).dirt = true → (s.inode k).dirt = true

theorem Since.refl (s : Drive) : Since s s := ⟨⟨rfl, rfl⟩, fun _ => rfl, fun _ dirt => dirt⟩

theorem Since.trans (one : Since s s₁) (two : Since s₁ s') : Since s s' where
  size := ⟨two.size.1.trans one.size.1, two.size.2.trans one.size.2⟩
  slot k := (two.slot k).trans (one.slot k)
  dirt k dirt := one.dirt k (two.dirt k dirt)

theorem Since.serves (since : Since s s') (x : BitVec 64) : s'.serves x = s.serves x := by
  rw [Drive.serves, Drive.serves, since.size.1, since.size.2]

theorem Unwritten.first (unwritten : Unwritten x s s') (later : Since s₁ s') : Unwritten x s s₁ :=
  fun k here dirt => later.dirt k (unwritten k here dirt)

theorem Unwritten.last (unwritten : Unwritten x s s') (before : Since s s₁) : Unwritten x s₁ s' :=
  fun k here dirt => unwritten k ((before.slot k).symm.trans here) (before.dirt k dirt)

theorem Move.since {asks : BitVec 16 → BitVec 64 → Prop} {inodes : Prop} (move : Move asks inodes s s') : Since s s' := by
  cases move with
  | request write i =>
    have flushed := llRwBlock_flushed s write i
    refine ⟨flushed.size, ?_, ?_⟩
    · intro k
      rw [Drive.slotBlock, Drive.slotBlock, Drive.inodeBlock, Drive.inodeBlock, flushed.inode, flushed.table.1, flushed.table.2]
    · intro k
      rw [flushed.inode]
      exact id
  | count i count => exact ⟨⟨rfl, rfl⟩, fun _ => rfl, fun _ => id⟩
  | assign i dev block cache => exact ⟨⟨rfl, rfl⟩, fun _ => rfl, fun _ => id⟩
  | inode i j data _ dirty =>
    refine ⟨⟨rfl, rfl⟩, ?_, ?_⟩
    · intro k
      simp only [Drive.slotBlock, Drive.inodeBlock, Drive.setHead, Function.update_apply]
      split
      · rename_i here
        rw [here]
      · rfl
    · intro k
      simp only [Function.update_apply]
      split
      · rename_i here
        rw [here]
        exact fun _ => dirty
      · exact id

theorem Moves.since {asks : BitVec 16 → BitVec 64 → Prop} {inodes : Prop} (moves : Moves asks inodes s s') : Since s s' := by
  induction moves with
  | refl => exact .refl _
  | tail _ move ih => exact ih.trans move.since

/-- What a block delivers stays the same until an inode is written into it. -/
theorem Delivers.moves (fit : Fit s) (int : IsInt x) (served : s.serves x = true) (delivers : Delivers s x b)
    (unwritten : Unwritten x s s') (moves : Moves RamdiskInt True s s') : Delivers s' x b := by
  induction moves with
  | refl => exact delivers
  | tail moves move ih =>
    have before : Since s _ := Moves.since moves
    exact (ih (unwritten.first move.since)).move (fit.moves moves) int ((before.serves x).trans served) (unwritten.last before) move

end Delivers

section Valid

/-- A valid buffer that somebody uses stays valid. -/
def StaysValid (s s' : Drive) : Prop :=
  ∀ i, (s.cache.head i).dev = ramdisk → s.serves (s.cache.head i).blocknr = true → (s.cache.head i).count ≠ 0 →
    (s.cache.head i).uptodate = true → (s'.cache.head i).uptodate = true

theorem Steady.serves (steady : Steady s s') (x : BitVec 64) : s'.serves x = s.serves x := by
  rw [Drive.serves, Drive.serves, steady.start, steady.length]

theorem StaysValid.trans (one : StaysValid s s₁) (steady : Steady s s₁) (two : StaysValid s₁ s') : StaysValid s s' := by
  intro i device served used valid
  have held := steady.held i used
  refine two i (held.1.trans device) ?_ ?_ (one i device served used valid)
  · rw [held.2, steady.serves]
    exact served
  · rw [steady.count]
    exact used

theorem syncInodesFrom_valid {fuel left : Nat} (transferred : Transferred s)
    (synced : Drive.syncInodesFrom fuel k left s = .ok s') (valid : (s.cache.head i).uptodate = true) :
    (s'.cache.head i).uptodate = true := by
  induction left generalizing k s with
  | zero =>
    cases synced
    exact valid
  | succ left ih =>
    rw [Drive.syncInodesFrom] at synced
    rcases of_bind synced with ⟨s₁, one, rest⟩
    by_cases due : Due s k
    · rw [syncInode_due due] at one
      rcases writeInode_effect transferred due one with ⟨j, stored, -, transferred₁⟩
      refine ih transferred₁ rest ?_
      by_cases here : i = j
      · rw [here]
        exact stored.uptodate
      · rw [stored.others i here]
        exact valid
    · rw [syncInode_passes due] at one
      cases one
      exact ih transferred rest valid

theorem syncDev_valid {fuel : Nat} {dev : BitVec 16} (transferred : Transferred s)
    (synced : Drive.syncDev fuel dev s = .ok s') : StaysValid s s' := by
  rcases of_bind synced with ⟨t, inodes, rest⟩
  cases rest
  intro i device served used valid
  have swept : Transferred (s.sweep fun bh => bh.dev = dev) := by
    have moves : Moves (fun _ _ => True) True s _ := sweep_moves s fun bh => bh.dev = dev
    exact transferred.moves moves
  have first : ∃ dirt, (s.sweep fun bh => bh.dev = dev).cache.head i = { s.cache.head i with dirt } :=
    sweep_valid device valid served
  rcases first with ⟨dirt, head⟩
  have valid₁ : (t.cache.head i).uptodate = true := syncInodesFrom_valid swept inodes (by rw [head]; exact valid)
  have steady := ((sweep_intact transferred.linked _).trans (syncInodesFrom_intact swept.linked inodes)).2
  have held := steady.held i used
  have second : ∃ dirt, (t.sweep fun bh => bh.dev = dev).cache.head i = { t.cache.head i with dirt } := by
    refine sweep_valid (held.1.trans device) valid₁ ?_
    rw [held.2, steady.serves]
    exact served
  rcases second with ⟨dirt', head'⟩
  rw [head']
  exact valid₁

theorem clean_valid {fuel turns : Nat} {again : Bool} (transferred : Transferred s)
    (cleaned : Drive.clean (Drive.syncDev fuel) i turns s = .ok (again, s')) : StaysValid s s' := by
  induction turns generalizing s with
  | zero => cases cleaned
  | succ turns ih =>
    rw [Drive.clean] at cleaned
    split at cleaned
    · rcases of_bind cleaned with ⟨s₁, synced, rest⟩
      have one := syncDev_valid transferred synced
      have moves : Moves (fun _ _ => True) True s s₁ := syncDev_moves fuel _ s s₁ transferred.linked synced
      split at rest
      · cases rest
        exact one
      · exact one.trans (syncDev_intact fuel _ s s₁ transferred.linked synced).2 (ih (transferred.moves moves) rest)
    · cases cleaned
      exact fun _ _ _ _ valid => valid

theorem getblk_valid {fuel turns : Nat} (transferred : Transferred s)
    (got : Drive.getblkWith (Drive.syncDev fuel) ramdisk x turns s = .ok (i, s')) : StaysValid s s' := by
  induction turns generalizing s with
  | zero => cases got
  | succ turns ih =>
    have linked := transferred.linked
    rw [Drive.getblkWith] at got
    split at got
    · cases got
      intro j _ _ _ valid
      simp only [Drive.setHead, Cache.setHead, Function.update_apply]
      split
      · rename_i here
        rw [here] at valid
        exact valid
      · exact valid
    · split at got
      · cases got
      · rename_i j picked
        rcases of_bind got with ⟨⟨again, s₁⟩, cleaned, rest⟩
        have one := clean_valid transferred cleaned
        have steady := (clean_intact (syncDev_intact fuel) linked cleaned).2
        have unused : (s.cache.head j).count = 0 := by
          rcases linked with ⟨order, chain, queues⟩
          exact (queues.pick picked).2
        have moves : Moves (fun _ _ => True) True s s₁ := (clean_moves (syncDev_moves fuel) linked unused cleaned).1
        simp only at rest
        split at rest
        · exact one.trans steady (ih (transferred.moves moves) rest)
        · split at rest
          · cases rest
          · rename_i cache assigned
            cases rest
            intro l device served used valid
            have other : l ≠ i := by
              rintro rfl
              exact used unused
            simp only [(assign_head assigned).1, Function.update_of_ne other]
            exact one l device served used valid

theorem load_keeps (valid : (s.cache.head k).uptodate = true) :
    ((if (s.cache.head i).uptodate then s else s.llRwBlock false i).cache.head k).uptodate = true := by
  split
  · exact valid
  · rename_i stale
    have other : k ≠ i := by
      rintro rfl
      exact stale valid
    rcases llRwBlock_cases s false i with ⟨head, disk, done, -⟩
    rw [done]
    simp only [Drive.setHead, Cache.setHead, Function.update_of_ne other]
    exact valid

/-- Read ahead leaves the buffers in use alone. -/
theorem readAhead_keeps {fuel : Nat} {ahead : List (BitVec 32)} (transferred : Transferred s)
    (done : Drive.readAhead fuel ramdisk ahead s = .ok s') : Steady s s' ∧ StaysValid s s' := by
  induction ahead generalizing s with
  | nil =>
    cases done
    exact ⟨.refl _, fun _ _ _ _ valid => valid⟩
  | cons first rest ih =>
    rw [Drive.readAhead] at done
    split at done
    · cases done
      exact ⟨.refl _, fun _ _ _ _ valid => valid⟩
    · rcases of_bind done with ⟨⟨tmp, s₁⟩, got, later⟩
      have one := getblk_valid transferred got
      have acquired := (getblk_acquires (syncDev_intact fuel) transferred.linked got).2
      have moves : Moves (fun _ _ => True) True s s₁ :=
        (getblk_moves (syncDev_moves fuel) transferred.linked (.inl trivial) got).1
      have moves₂ := moves.trans (load_moves s₁ tmp)
      have acquired₂ : Acquired s (if (s₁.cache.head tmp).uptodate then s₁ else s₁.llRwBlock false tmp) tmp
          (first.signExtend 64) := by
        split
        · exact acquired
        · exact acquired.llRwBlock false tmp
      have two {j : Nat} (valid : (s₁.cache.head j).uptodate = true) := load_keeps (i := tmp) valid
      simp only at later
      generalize (if (s₁.cache.head tmp).uptodate then s₁ else s₁.llRwBlock false tmp) = s₂ at later moves₂ acquired₂ two
      have steady := acquired₂.released
      have moves₃ := moves₂.tail (.count s₂ tmp ((s₂.cache.head tmp).count - 1))
      rcases ih (transferred.moves moves₃) later with ⟨steady', valid'⟩
      refine ⟨steady.trans steady', StaysValid.trans ?_ steady valid'⟩
      intro j device served used valid
      have before := two (one j device served used valid)
      simp only [Drive.setHead, Cache.setHead, Function.update_apply]
      split
      · rename_i here
        rw [here] at before
        exact before
      · exact before

theorem of_brelse (released : s.brelse i = .ok s') :
    (s.cache.head i).count ≠ 0 ∧ s' = s.setHead i { s.cache.head i with count := (s.cache.head i).count - 1 } := by
  unfold Drive.brelse at released
  split at released
  · cases released
  · rename_i used
    cases released
    exact ⟨used, rfl⟩

theorem asksAhead_ramdisk : AsksAhead RamdiskInt ramdisk := fun _ _ => ⟨rfl, isInt_signExtend _⟩

theorem asksBlocks_ramdisk (block : BitVec 32) (offset left : Nat) : AsksBlocks RamdiskInt ramdisk block offset left :=
  fun _ _ => ⟨rfl, isInt_signExtend _⟩

/-- `breada` of a block that the driver serves returns its buffer, unless the count of users overflowed. -/
theorem breada_valid {fuel : Nat} {first : BitVec 32} {ahead : List (BitVec 32)} {result : Option Nat} (fit : Fit s)
    (served : s.serves (first.signExtend 64) = true) (read : s.breada fuel ramdisk first ahead = .ok (result, s')) :
    Moves RamdiskInt True s s' ∧ ∃ i, result = some i ∧ (s'.cache.head i).uptodate = true ∧
      ((s'.cache.head i).count ≠ 0 → s'.Has i (first.signExtend 64)) := by
  have moves := (breada_moves asksAhead_ramdisk ⟨rfl, isInt_signExtend first⟩ fit.linked read).1
  refine ⟨moves, ?_⟩
  rcases of_bind read with ⟨⟨i, s₁⟩, got, rest⟩
  rcases of_bind rest with ⟨s₃, done, last⟩
  have acquired := (getblk_acquires (syncDev_intact fuel) fit.linked got).2
  have moves₁ : Moves RamdiskInt True s s₁ :=
    (getblk_moves (syncDev_moves fuel) fit.linked (.inl ⟨rfl, isInt_signExtend first⟩) got).1
  have moves₂ := moves₁.trans (load_moves s₁ i)
  have served₁ : s₁.serves (s₁.cache.head i).blocknr = true := by
    rw [acquired.here.2, moves₁.since.serves]
    exact served
  rcases load_valid acquired.here.1 (.inr served₁) with ⟨dirt, data, loaded, -⟩
  rw [loaded] at done moves₂
  rcases readAhead_keeps (fit.moves moves₂).transferred done with ⟨steady, stays⟩
  have head : (s₁.setHead i { s₁.cache.head i with dirt, data, uptodate := true }).cache.head i =
      { s₁.cache.head i with dirt, data, uptodate := true } := Function.update_self ..
  have inside : i < s₃.cache.nrBuffers := by
    rw [steady.nr]
    change i < s₁.cache.nrBuffers
    rw [acquired.nr]
    exact acquired.inside
  by_cases used : (s₁.cache.head i).count ≠ 0
  · have held := steady.held i (by rw [head]; exact used)
    rw [head] at held
    have valid : (s₃.cache.head i).uptodate = true := by
      refine stays i ?_ ?_ ?_ ?_ <;> rw [head]
      · exact acquired.here.1
      · exact served₁
      · exact used
    rw [if_pos valid] at last
    cases last
    exact ⟨i, rfl, valid, fun _ => ⟨inside, held.1.trans acquired.here.1, held.2.trans acquired.here.2⟩⟩
  · have unused : (s₃.cache.head i).count = 0 := by
      rw [steady.count, head]
      exact not_not.1 used
    split at last
    · rename_i valid
      cases last
      exact ⟨i, rfl, valid, fun counted => absurd unused counted⟩
    · rcases of_bind last with ⟨s₄, released, -⟩
      exact absurd unused (of_brelse released).1

end Valid

end K210Linux.Buffer
