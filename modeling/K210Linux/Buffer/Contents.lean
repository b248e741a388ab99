import K210Linux.Lib.Run
import K210Linux.Buffer.Session

namespace K210Linux.Buffer

open Outcome K210Linux.Lib
open K210Linux.Fs (Block MInode)

variable {s s' : Drive} {flat : Nat → Block} {i : Nat} {block : BitVec 64}

/-- What the users of the cache rely on when buffers are written back. -/
structure WriteBacks (extra : Drive → Prop) (allowed : (Nat → Block) → (Nat → Block) → Prop) : Prop where
  syncDev : ∀ fuel, SyncSound (Drive.syncDev fuel) extra allowed
  sysSync : ∀ fuel s s' flat, Shows s flat → extra s → Drive.sysSync fuel s = .ok s' →
    ∃ flat', allowed flat flat' ∧ Shows s' flat' ∧ extra s' ∧ Steady s s'

/-- The block that an event asks for. -/
def CacheEvent.asks : CacheEvent → Option (BitVec 64)
  | .bread _ block => some block
  | .overwrite _ block _ => some block
  | _ => none

/-- Blocks that are asked for lie inside the ramdisk. -/
def CacheEvent.Inside (e : CacheEvent) (s : Session) : Prop :=
  ∀ block ∈ e.asks, (block.toNat + 1) * 1024 ≤ s.drive.length.toNat

/-- Blocks that are asked for have fewer than 255 users. -/
def CacheEvent.Allowed (e : CacheEvent) (s : Session) : Prop :=
  e.Inside s ∧ ∀ block ∈ e.asks, (s.held.countP fun r => r.2 = block) < 255

instance decidableAllAsked (p : BitVec 64 → Prop) [DecidablePred p] : (o : Option (BitVec 64)) → Decidable (∀ block ∈ o, p block)
  | none => isTrue nofun
  | some block =>
    if holds : p block then isTrue fun _ same => Option.some.inj same ▸ holds
    else isFalse fun all => holds (all block rfl)

instance (e : CacheEvent) (s : Session) : Decidable (e.Inside s) :=
  inferInstanceAs (Decidable (∀ block ∈ e.asks, _))

instance (e : CacheEvent) (s : Session) : Decidable (e.Allowed s) :=
  inferInstanceAs (Decidable (_ ∧ ∀ block ∈ e.asks, _))

theorem Steady.setHead (s : Drive) {head : BufferHead} (dev : head.dev = (s.cache.head i).dev)
    (blocknr : head.blocknr = (s.cache.head i).blocknr) (count : head.count = (s.cache.head i).count) :
    Steady s (s.setHead i head) := by
  have same (j : Nat) : ((s.setHead i head).cache.head j).dev = (s.cache.head j).dev ∧
      ((s.setHead i head).cache.head j).blocknr = (s.cache.head j).blocknr ∧
      ((s.setHead i head).cache.head j).count = (s.cache.head j).count := by
    simp only [Drive.setHead, Cache.setHead, Function.update_apply]
    split
    · rename_i here
      rw [here]
      exact ⟨dev, blocknr, count⟩
    · exact ⟨rfl, rfl, rfl⟩
  refine ⟨rfl, rfl, rfl, ⟨rfl, rfl⟩, fun j => (same j).2.2, fun j _ => ⟨(same j).1, (same j).2.1⟩, ?_⟩
  intro j used
  rw [(same j).1]
  exact used

/-- The flat disk after an event, by the block that a buffer really has. -/
def Session.onBuffer (s : Session) : CacheEvent → (Nat → Block) → Nat → Block
  | .overwrite _ block data, flat => Function.update flat block.toNat data
  | .store i _ data, flat => Function.update flat (s.drive.cache.head i).blocknr.toNat data
  | _, flat => flat

/-- The references lead to buffers of the ramdisk. -/
def InUse (s : Drive) (held : List (Nat × BitVec 64)) : Prop :=
  ∀ i block, (i, block) ∈ held → Mine s i

/-- What an event does to the references. -/
inductive References (s : Session) (e : CacheEvent) : Drive → List (Nat × BitVec 64) → Prop
  | more {drive : Drive} {i : Nat} {block : BitVec 64} : block ∈ e.asks → Acquired s.drive drive i block →
      References s e drive ((i, block) :: s.held)
  | same {drive : Drive} : Steady s.drive drive → References s e drive s.held
  | fewer {i : Nat} {block : BitVec 64} : (i, block) ∈ s.held →
      References s e (s.drive.setHead i { s.drive.cache.head i with count := (s.drive.cache.head i).count - 1 })
        (s.held.erase (i, block))

section

variable {extra : Drive → Prop} {allowed : (Nat → Block) → (Nat → Block) → Prop}

/-- What one event does. -/
theorem act_cases (writeBacks : WriteBacks extra allowed) {s : Session} {drive : Drive} {held : List (Nat × BitVec 64)}
    {e : CacheEvent} (shows : Shows s.drive flat) (kept : extra s.drive) (inUse : InUse s.drive s.held)
    (fits : e.Inside s) (acted : s.act e = some (drive, held)) :
    ∃ flat', allowed flat flat' ∧ Shows drive (s.onBuffer e flat') ∧ extra drive ∧ References s e drive held := by
  have same := (writeBacks.syncDev 0).refl flat
  have frame := (writeBacks.syncDev 0).frame
  cases e with
  | bread fuel block =>
    have inside := fits block rfl
    simp only [Session.act] at acted
    split at acted
    · rename_i i drive read
      cases acted
      rcases bread_spec (writeBacks.syncDev fuel) shows kept inside read with
        ⟨j, flat', found, change, shows', kept', acquired, -, -⟩
      cases found
      exact ⟨flat', change, shows', kept', .more rfl acquired⟩
    · rename_i read
      rcases bread_spec (writeBacks.syncDev fuel) shows kept inside read with ⟨j, flat', found, -⟩
      cases found
    · cases acted
  | overwrite fuel block data =>
    have inside := fits block rfl
    simp only [Session.act] at acted
    split at acted
    · rename_i i drive got
      cases acted
      rcases getblk_spec (writeBacks.syncDev fuel) shows kept (fun _ => inside) got with
        ⟨flat', change, shows', kept', acquired⟩
      have stored := shows'.store (acquired.mine inside) data
      rw [acquired.here.2] at stored
      exact ⟨flat', change, stored, frame drive _ drive.disk kept', .more rfl (acquired.setHead rfl rfl rfl)⟩
    · cases acted
  | store i block data =>
    simp only [Session.act] at acted
    split at acted
    · rename_i held
      cases acted
      have marked : ({ s.drive.cache.head i with data := data, dirt := true } : BufferHead) =
          { s.drive.cache.head i with data := data, dirt := true, uptodate := true } := by
        simp only [held.2]
      rw [marked]
      exact ⟨flat, same, shows.store (inUse i block held.1) data, frame s.drive _ s.drive.disk kept,
        .same (.setHead s.drive rfl rfl rfl)⟩
    · cases acted
  | brelse i block =>
    simp only [Session.act] at acted
    split at acted
    · rename_i member
      unfold Drive.brelse at acted
      split_ifs at acted
      cases acted
      exact ⟨flat, same, shows.setCount i _, frame s.drive _ s.drive.disk kept, .fewer member⟩
    · cases acted
  | syncDev fuel =>
    simp only [Session.act] at acted
    split at acted
    · rename_i drive synced
      cases acted
      rcases (writeBacks.syncDev fuel).sync _ _ _ flat shows kept synced with ⟨flat', change, shows', kept', steady⟩
      exact ⟨flat', change, shows', kept', .same steady⟩
    · cases acted
  | sysSync fuel =>
    simp only [Session.act] at acted
    split at acted
    · rename_i drive synced
      cases acted
      rcases writeBacks.sysSync fuel _ _ flat shows kept synced with ⟨flat', change, shows', kept', steady⟩
      exact ⟨flat', change, shows', kept', .same steady⟩
    · cases acted

end

theorem Referenced.inUse {held : List (Nat × BitVec 64)} (refs : Referenced s held) : InUse s held :=
  fun i block member => (refs.block i block member).1

theorem References.referenced {s : Session} {e : CacheEvent} {drive : Drive} {held : List (Nat × BitVec 64)}
    (references : References s e drive held) (refs : Referenced s.drive s.held) (fits : e.Allowed s) :
    Referenced drive held := by
  cases references with
  | more asked acquired => exact refs.acquire (fits.1 _ asked) (fits.2 _ asked) acquired
  | same steady => exact refs.steady steady
  | fewer member => exact refs.release member

/-- References lead to the blocks they were got for. -/
theorem onBuffer_eq {s : Session} {e : CacheEvent} {result : Drive × List (Nat × BitVec 64)}
    (refs : Referenced s.drive s.held) (acted : s.act e = some result) (flat : Nat → Block) :
    s.onBuffer e flat = e.onFlat flat := by
  cases e with
  | store i block data =>
    simp only [Session.act] at acted
    split at acted
    · rename_i held
      simp only [Session.onBuffer, CacheEvent.onFlat, (refs.block i block held.1).2]
    · cases acted
  | _ => rfl

def CleanInodes (s : Drive) : Prop := ∀ k, (s.inode k).dirt = false

theorem syncInodesFrom_clean (clean : CleanInodes s) (fuel k left : Nat) :
    Drive.syncInodesFrom fuel k left s = .ok s := by
  induction left generalizing k with
  | zero => rfl
  | succ left ih =>
    have one : Drive.syncInode fuel k s = .ok s := by simp [Drive.syncInode, clean k]
    rw [Drive.syncInodesFrom, bind_ok one]
    exact ih (k + 1)

/-- With no dirty inode, writing back leaves the flat disk as it is. -/
theorem writeBacks_clean : WriteBacks CleanInodes fun flat flat' => flat' = flat := by
  have swept (s : Drive) (flat : Nat → Block) (which : BufferHead → Bool) (byDevice : ByDevice which)
      (shows : Shows s flat) (clean : CleanInodes s) :
      Shows (s.sweep which) flat ∧ CleanInodes (s.sweep which) ∧ Steady s (s.sweep which) := by
    rcases shows.sweep which byDevice with ⟨shows', flushed, -⟩
    refine ⟨shows', ?_, flushed.steady⟩
    intro k
    rw [flushed.inode]
    exact clean k
  constructor
  · intro fuel
    refine ⟨fun _ => rfl, fun _ _ _ one two => two.trans one, fun _ _ _ clean => clean, ?_⟩
    intro dev s s' flat shows clean synced
    have byDevice : ByDevice fun bh => bh.dev = dev := fun _ _ same => by simp only [same]
    rcases swept s flat _ byDevice shows clean with ⟨shows₁, clean₁, steady₁⟩
    rw [Drive.syncDev, Drive.syncInodes, bind_ok (syncInodesFrom_clean clean₁ fuel 0 Drive.nrInode)] at synced
    cases synced
    rcases swept _ flat _ byDevice shows₁ clean₁ with ⟨shows₂, clean₂, steady₂⟩
    exact ⟨flat, rfl, shows₂, clean₂, steady₁.trans steady₂⟩
  · intro fuel s s' flat shows clean synced
    rw [Drive.sysSync, Drive.syncInodes, bind_ok (syncInodesFrom_clean clean fuel 0 Drive.nrInode)] at synced
    cases synced
    rcases swept s flat (fun _ => true) (fun _ _ _ => rfl) shows clean with ⟨shows₁, clean₁, steady₁⟩
    exact ⟨flat, rfl, shows₁, clean₁, steady₁⟩

/-- Nothing became dirty, and the ramdisk changed only where a buffer was dirty. -/
structure Quiet (s s' : Drive) : Prop where
  dirty : ∀ i, (s'.cache.head i).dirt = true →
    (s.cache.head i).dirt = true ∧ (s'.cache.head i).blocknr = (s.cache.head i).blocknr
  disk : ∀ b, (∀ i, (s.cache.head i).dirt = true → place (s.cache.head i).blocknr ≠ b) → s'.disk b = s.disk b

theorem Quiet.refl (s : Drive) : Quiet s s := ⟨fun _ dirty => ⟨dirty, rfl⟩, fun _ _ => rfl⟩

theorem Quiet.trans {s₁ : Drive} (one : Quiet s s₁) (two : Quiet s₁ s') : Quiet s s' where
  dirty i dirty := by
    rcases two.dirty i dirty with ⟨dirty₁, block₁⟩
    rcases one.dirty i dirty₁ with ⟨dirty₀, block₀⟩
    exact ⟨dirty₀, block₁.trans block₀⟩
  disk b apart := by
    rw [two.disk b ?_, one.disk b apart]
    intro i dirty₁
    rcases one.dirty i dirty₁ with ⟨dirty₀, block₀⟩
    rw [block₀]
    exact apart i dirty₀

theorem Quiet.setHead (s : Drive) {head : BufferHead}
    (same : head.dirt = true → (s.cache.head i).dirt = true ∧ head.blocknr = (s.cache.head i).blocknr) :
    Quiet s (s.setHead i head) := by
  refine ⟨?_, fun _ _ => rfl⟩
  intro j dirty
  simp only [Drive.setHead, Cache.setHead, Function.update_apply] at dirty ⊢
  split at dirty
  · rename_i here
    subst j
    rw [if_pos rfl]
    exact same dirty
  · rename_i other
    rw [if_neg other]
    exact ⟨dirty, rfl⟩

theorem quiet_llRwBlock (s : Drive) (write : Bool) (i : Nat) : Quiet s (s.llRwBlock write i) := by
  unfold Drive.llRwBlock
  simp only
  split
  · exact .refl s
  · split
    · exact .refl s
    · rename_i due
      split
      · exact .setHead s nofun
      · split
        · rename_i isWrite
          have dirty : (s.cache.head i).dirt = true := by simpa [isWrite] using due
          have clean : Quiet s (s.setHead i { s.cache.head i with dirt := false, uptodate := true }) := .setHead s nofun
          refine ⟨clean.dirty, ?_⟩
          intro b apart
          exact Function.update_of_ne (apart i dirty).symm ..
        · exact .setHead s nofun

/-- With no dirty inode, no move makes a buffer dirty. -/
theorem Quiet.moves {asks : BitVec 16 → BitVec 64 → Prop} {inodes : Prop} (clean : CleanInodes s) (moves : Moves asks inodes s s') :
    Quiet s s' := by
  have all : Quiet s s' ∧ CleanInodes s' := by
    refine moves.keeps (P := fun a => Quiet s a ∧ CleanInodes a) ?_ ⟨.refl s, clean⟩
    rintro a b ⟨quiet, clean⟩ move
    cases move with
    | request write i =>
      refine ⟨quiet.trans (quiet_llRwBlock a write i), ?_⟩
      intro k
      rw [(llRwBlock_flushed a write i).inode]
      exact clean k
    | count i count => exact ⟨quiet.trans (.setHead a fun dirty => ⟨dirty, rfl⟩), clean⟩
    | assign i dev block cache _ _ _ _ _ assigned =>
      refine ⟨quiet.trans ⟨?_, fun _ _ => rfl⟩, clean⟩
      intro k
      simp only [(assign_head assigned).1, Function.update_apply]
      split
      · nofun
      · exact fun dirty => ⟨dirty, rfl⟩
    | inode i k data _ dirty =>
      rw [clean k] at dirty
      cases dirty
  exact all.1

/-- No buffer is about to write block `b`, and it is on the ramdisk as it was. -/
def Untouched (b : Nat) (image : Block) (s : Drive) : Prop :=
  (∀ i, (s.cache.head i).dirt = true → place (s.cache.head i).blocknr ≠ b) ∧ s.disk b = image

theorem Untouched.quiet {b : Nat} {image : Block} (untouched : Untouched b image s) (quiet : Quiet s s') :
    Untouched b image s' := by
  refine ⟨?_, (quiet.disk b untouched.1).trans untouched.2⟩
  intro i dirty
  rcases quiet.dirty i dirty with ⟨before, block⟩
  rw [block]
  exact untouched.1 i before

theorem Untouched.mark {b : Nat} {image : Block} (untouched : Untouched b image s) {head : BufferHead}
    (other : place head.blocknr ≠ b) : Untouched b image (s.setHead i head) := by
  refine ⟨?_, untouched.2⟩
  intro j
  simp only [Drive.setHead, Cache.setHead, Function.update_apply]
  split
  · exact fun _ => other
  · exact untouched.1 j

def CacheEvent.Stores (b : Nat) : CacheEvent → Prop
  | .overwrite _ block _ => block.toNat = b
  | .store _ block _ => block.toNat = b
  | _ => False

/-- An event that does not store to a block leaves it alone. -/
theorem act_untouched {b : Nat} {image : Block} {s : Session} {drive : Drive} {held : List (Nat × BitVec 64)}
    {e : CacheEvent} (linked : Linked s.drive) (clean : CleanInodes s.drive) (refs : Referenced s.drive s.held)
    (fits : e.Inside s) (other : ¬ e.Stores b) (untouched : Untouched b image s.drive)
    (acted : s.act e = some (drive, held)) : Untouched b image drive := by
  have synced (fuel : Nat) : SyncMoves (Drive.syncDev fuel) (fun _ _ => True) True := syncDev_moves fuel
  cases e with
  | bread fuel block =>
    simp only [Session.act] at acted
    split at acted
    · rename_i read
      cases acted
      exact untouched.quiet (.moves clean (bread_moves (synced fuel) linked (.inl trivial) read).1)
    · rename_i read
      cases acted
      exact untouched.quiet (.moves clean (bread_moves (synced fuel) linked (.inl trivial) read).1)
    · cases acted
  | overwrite fuel block data =>
    have inside := fits block rfl
    simp only [Session.act] at acted
    split at acted
    · rename_i i drive got
      cases acted
      rcases getblk_moves (synced fuel) linked (.inl trivial) got with ⟨moves, -, here⟩
      apply (untouched.quiet (.moves clean moves)).mark
      change place (drive.cache.head i).blocknr ≠ b
      rw [here.2, place_eq inside]
      exact other
    · cases acted
  | store i block data =>
    simp only [Session.act] at acted
    split at acted
    · rename_i held
      cases acted
      rcases refs.block i block held.1 with ⟨mine, blocknr⟩
      apply untouched.mark
      change place (s.drive.cache.head i).blocknr ≠ b
      rw [place_eq mine.2.2, blocknr]
      exact other
    · cases acted
  | brelse i block =>
    simp only [Session.act] at acted
    split at acted
    · rename_i member
      rw [Drive.brelse, if_neg (refs.used member)] at acted
      cases acted
      exact untouched.quiet (.setHead _ fun dirty => ⟨dirty, rfl⟩)
    · cases acted
  | syncDev fuel =>
    simp only [Session.act] at acted
    split at acted
    · rename_i done
      cases acted
      exact untouched.quiet (.moves clean (synced fuel _ _ _ linked done))
    · cases acted
  | sysSync fuel =>
    simp only [Session.act] at acted
    split at acted
    · rename_i done
      cases acted
      have moves : Moves (fun _ _ => True) True s.drive drive := sysSync_moves linked done
      exact untouched.quiet (.moves clean moves)
    · cases acted

/-- The ramdisk after `buffer_init`, with nothing cached and no inode in use. -/
def Session.fresh (n : Nat) (blocknr : Nat → BitVec 64) (data : Nat → Block) (image : Nat → Block)
    (start length : BitVec 64) (imapBlocks zmapBlocks : BitVec 16) : Session where
  drive := {
    cache := bufferInit n blocknr data, disk := image, start, length, inode := fun _ => MInode.zero, imapBlocks, zmapBlocks }
  held := []
  contents := image

/-- The cache shows the contents that were stored last. -/
def Refines (s : Session) : Prop := Shows s.drive s.contents ∧ CleanInodes s.drive ∧ Referenced s.drive s.held

theorem fresh_refines {n : Nat} (room : 0 < n) (blocknr : Nat → BitVec 64) (data image : Nat → Block)
    {start length : BitVec 64} (memory : start.toNat + length.toNat < 2 ^ 64) (imapBlocks zmapBlocks : BitVec 16) :
    Refines (.fresh n blocknr data image start length imapBlocks zmapBlocks) := by
  have unused (i : Nat) : ¬ Mine (Session.fresh n blocknr data image start length imapBlocks zmapBlocks).drive i :=
    fun mine => mine.used rfl
  refine ⟨⟨memory, ⟨_, _, bufferInit_queues room blocknr data⟩, ?_, ?_, ?_, fun _ _ _ => rfl⟩, fun _ => rfl, ⟨?_, nofun⟩⟩
  · exact fun _ _ used => absurd used (show (0 : BitVec 16) ≠ ramdisk by decide)
  · exact fun i mine => absurd mine (unused i)
  · exact fun i mine => absurd mine (unused i)
  · exact fun _ => rfl

theorem step_refines {s s' : Session} {e : CacheEvent} (refines : Refines s) (fits : e.Allowed s)
    (stepped : Session.step e s = some s') : Refines s' := by
  rcases Option.map_eq_some_iff.1 stepped with ⟨⟨drive, held⟩, acted, rfl⟩
  rcases refines with ⟨shows, clean, refs⟩
  rcases act_cases writeBacks_clean shows clean refs.inUse fits.1 acted with ⟨flat, rfl, shows', clean', references⟩
  rw [onBuffer_eq refs acted] at shows'
  exact ⟨shows', clean', references.referenced refs fits⟩

theorem step_untouched {b : Nat} {image : Block} {s s' : Session} {e : CacheEvent} (refines : Refines s)
    (untouched : Untouched b image s.drive ∧ s.contents b = image) (fits : e.Allowed s) (other : ¬ e.Stores b)
    (stepped : Session.step e s = some s') : Untouched b image s'.drive ∧ s'.contents b = image := by
  rcases Option.map_eq_some_iff.1 stepped with ⟨⟨drive, held⟩, acted, rfl⟩
  refine ⟨act_untouched refines.1.queues refines.2.1 refines.2.2 fits.1 other untouched.1 acted, ?_⟩
  have same : e.onFlat s.contents b = s.contents b := by
    cases e with
    | overwrite fuel block data => exact Function.update_of_ne (Ne.symm other) ..
    | store i block data => exact Function.update_of_ne (Ne.symm other) ..
    | _ => rfl
  exact same.trans untouched.2

/-- What `bread` sees is what was stored last, and blocks that nobody stored to stay as they were. -/
theorem cache_refines_flat_disk {n : Nat} (room : 0 < n) (blocknr : Nat → BitVec 64) (data image : Nat → Block)
    {start length : BitVec 64} (memory : start.toNat + length.toNat < 2 ^ 64) (imapBlocks zmapBlocks : BitVec 16) {s : Session}
    (run : Run Session.step CacheEvent.Allowed (.fresh n blocknr data image start length imapBlocks zmapBlocks) s) :
    (∀ fuel block result drive, (block.toNat + 1) * 1024 ≤ s.drive.length.toNat →
      s.drive.bread fuel ramdisk block = .ok (result, drive) →
      ∃ i, result = some i ∧ (drive.cache.head i).data = s.contents block.toNat) ∧
    ∀ b, Run Session.step (fun e s => e.Allowed s ∧ ¬ e.Stores b)
        (.fresh n blocknr data image start length imapBlocks zmapBlocks) s →
      s.contents b = image b ∧ s.drive.disk b = image b := by
  have first := fresh_refines room blocknr data image memory imapBlocks zmapBlocks
  have refines : Refines s := run.invariant first fun _ _ _ before fits stepped => step_refines before fits stepped
  constructor
  · intro fuel block result drive fits read
    rcases bread_spec (writeBacks_clean.syncDev fuel) refines.1 refines.2.1 fits read with
      ⟨i, flat, found, rfl, -, -, -, -, contents⟩
    exact ⟨i, found, contents⟩
  · intro b apart
    have both : Refines s ∧ Untouched b (image b) s.drive ∧ s.contents b = image b := by
      refine apart.invariant (I := fun s => Refines s ∧ Untouched b (image b) s.drive ∧ s.contents b = image b)
        ⟨first, ⟨?_, rfl⟩, rfl⟩ ?_
      · exact fun _ dirty => nomatch dirty
      · rintro e s s' ⟨before, untouched⟩ ⟨fits, other⟩ stepped
        exact ⟨step_refines before fits stepped, step_untouched before untouched fits other stepped⟩
    exact ⟨both.2.2, both.2.1.2⟩

/-- A cache with one buffer, over a ramdisk of four blocks. -/
def oneBuffer : Session := .fresh 1 (fun _ => 0) (fun _ _ => 0) (fun b _ => BitVec.ofNat 8 b) 0x8007D000 4096 1 1

/-- A block is stored and evicted, and read back. -/
theorem stored_block_read_back :
    ∃ s, Run Session.step CacheEvent.Allowed oneBuffer s ∧ s.contents 0 0 = 7 ∧
      ∃ i drive, s.drive.bread 3 ramdisk 0 = .ok (some i, drive) ∧ (drive.cache.head i).data = s.contents 0 := by
  have test : ((runEvents Session.step CacheEvent.Allowed
      [.overwrite 3 0 fun _ => 7, .brelse 0 0, .bread 3 1, .brelse 0 1] oneBuffer).any fun s =>
        s.contents 0 0 == 7 && s.drive.length == 4096 && (s.drive.bread 3 ramdisk 0).isOk) = true := by decide +kernel
  rcases Run.of_test test with ⟨s, run, passed⟩
  simp only [Bool.and_eq_true, beq_iff_eq] at passed
  rcases passed with ⟨⟨seven, length⟩, returns⟩
  refine ⟨s, run, seven, ?_⟩
  cases read : s.drive.bread 3 ramdisk 0 with
  | error e =>
    rw [read] at returns
    cases returns
  | ok result =>
    have sees := (cache_refines_flat_disk (by decide) _ _ _ (by decide) _ _ run).1 3 0 result.1 result.2 (by rw [length]; decide) read
    rcases sees with ⟨i, found, contents⟩
    exact ⟨i, result.2, by rw [← found], contents⟩

/-- After 256 reads of a block its buffer seems to be free; another block gets it, and a store to the first
    block ends up in the other. -/
theorem wrapped_count_mixes_blocks :
    ∃ s, Run Session.step CacheEvent.Inside oneBuffer s ∧
      ∃ i drive, s.drive.bread 3 ramdisk 1 = .ok (some i, drive) ∧ (drive.cache.head i).data ≠ s.contents 1 := by
  have test : ((runEvents Session.step CacheEvent.Inside
      (List.replicate 256 (.bread 3 0) ++ [.bread 3 1, .store 0 0 fun _ => 7]) oneBuffer).any fun s =>
        (s.drive.bread 3 ramdisk 1).toOption.any fun r =>
          r.1.any fun i => (r.2.cache.head i).data 0 != s.contents 1 0) = true := by decide +kernel
  rcases Run.of_test test with ⟨s, run, passed⟩
  refine ⟨s, run, ?_⟩
  cases read : s.drive.bread 3 ramdisk 1 with
  | error halt =>
    rw [read] at passed
    cases passed
  | ok result =>
    rcases result with ⟨found, drive⟩
    rw [read] at passed
    cases found with
    | none => cases passed
    | some i =>
      refine ⟨i, drive, rfl, ?_⟩
      intro same
      simp [Except.toOption, same] at passed

end K210Linux.Buffer
