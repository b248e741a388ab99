import K210Linux.Fs.LinkCounts

namespace K210Linux.Fs

open Outcome

variable {fs fs₁ fs' : FileSystem} {late dir i : Nat} {name : List Byte} {time : BitVec 32} {p : Nat × Nat}

/-- `add_entry` found no room: at most a bit of the bitmap was set. -/
structure Marked (fs fs' : FileSystem) : Prop extends Marks fs fs' where
  inode : fs'.inode = fs.inode
  disk : ∀ b, b ≠ 0 → fs'.disk b = fs.disk b

theorem Marked.refl (fs : FileSystem) : Marked fs fs := ⟨⟨rfl, fun _ set => set⟩, rfl, fun _ _ => rfl⟩

theorem Marked.tree (marked : Marked fs fs') (n : Nat) : Kept fs fs' n where
  zone := by rw [marked.inode]
  disk b inside := by
    rcases inside with ⟨_, _, _, _, some⟩
    exact marked.disk b some

theorem Marked.directories (marked : Marked fs fs') : directories fs' = directories fs :=
  directories_congr (fun n => by rw [marked.inode]) fun n _ => by rw [marked.inode]

theorem Marked.links (marked : Marked fs fs') (linked : LinkedBut late fs) (n : Nat) : links fs' n = links fs n :=
  links_of_kept linked marked.directories (fun d _ => ⟨marked.tree d, by rw [marked.inode]⟩) n

theorem Marked.linked (marked : Marked fs fs') (linked : LinkedBut late fs) : LinkedBut late fs' := by
  have links_eq := marked.links linked
  have inUse : ∀ n, InUse fs' n ↔ InUse fs n := by
    intro n
    unfold InUse
    rw [marked.inode, links_eq]
  have live : ∀ n, Live fs' n ↔ Live fs n := by
    intro n
    unfold Live
    rw [marked.directories, marked.inode, inUse]
  have zones := linked.zones fs' (by
    intro r valid live' some
    have old := (live _).mp live'
    have same := (marked.tree _).zoneOf r valid rfl
    rw [same] at some
    exact ⟨old, same, marked.toMarks.used (linked.used r valid old some)⟩)
  constructor
  · exact marked.kept 0 linked.first
  · intro d isIn
    rw [marked.directories] at isIn
    unfold entriesOf
    rw [marked.inode]
    exact linked.sizes d isIn
  · exact zones.1
  · exact zones.2
  · intro n small other used notDir
    rw [marked.inode] at notDir ⊢
    rw [links_eq]
    exact linked.counted n small other ((inUse n).mp used) notDir
  · intro n other some
    rw [links_eq] at some
    rw [marked.inode]
    exact linked.named n other some

/-- `add_entry` took entry `i` of a directory, in the first block or as the first one of the second. -/
structure Entered (fs fs' : FileSystem) (dir i : Nat) (p : Nat × Nat) : Prop where
  marks : Marks fs fs'
  near : i < 65 ∧ i ≤ entriesOf fs dir
  others : ∀ n, n ≠ dir → fs'.inode n = fs.inode n
  mode : (fs'.inode dir).mode = (fs.inode dir).mode
  nlinks : (fs'.inode dir).nlinks = (fs.inode dir).nlinks
  count : (fs'.inode dir).count = (fs.inode dir).count
  size : entriesOf fs' dir = max (entriesOf fs dir) (i + 1) ∧ (fs'.inode dir).size.toNat = 16 * entriesOf fs' dir
  place : p.1 ≠ 0 ∧ p.2 = i % dirEntriesPerBlock
  slots : ∀ s, ((fs'.inode dir).zone s).toNat =
    if s = i / dirEntriesPerBlock then p.1 else ((fs.inode dir).zone s).toNat
  zone : ((fs.inode dir).zone (i / dirEntriesPerBlock)).toNat = p.1 ∨
    ((fs.inode dir).zone (i / dirEntriesPerBlock)).toNat = 0 ∧ ¬ zoneUsed fs.sb p.1 ∧ zoneUsed fs'.sb p.1 ∧
      entriesOf fs dir = i ∧ i % dirEntriesPerBlock = 0
  disk : ∀ b, b ≠ 0 → b ≠ p.1 → fs'.disk b = fs.disk b
  numbers : ∀ j, j ≠ p.2 → dirEntriesPerBlock * (i / dirEntriesPerBlock) + j < entriesOf fs dir →
    entryInode (fs'.disk p.1) j = entryInode (fs.disk p.1) j

section Add

theorem growDirectory_mode (inode : MInode) (i : Nat) (time : BitVec 32) :
    (growDirectory inode i time).mode = inode.mode ∧ (growDirectory inode i time).nlinks = inode.nlinks ∧
      (growDirectory inode i time).count = inode.count := by
  unfold growDirectory
  split <;> exact ⟨rfl, rfl, rfl⟩

/-- In the first block. -/
theorem Added.entered {f : Nat} (added : Added fs fs' dir f name time) (present : ((fs.inode dir).zone 0).toNat ≠ 0)
    (inBlock : f < 64) (last : f ≤ entriesOf fs dir) :
    Entered fs fs' dir f (((fs.inode dir).zone 0).toNat, f) := by
  have block : f / dirEntriesPerBlock = 0 ∧ f % dirEntriesPerBlock = f := by
    rw [dirEntriesPerBlock]
    omega
  have own : fs'.inode dir = { growDirectory (fs.inode dir) f time with mtime := time } := by
    rw [added.inode, Function.update_self]
  have grown := growDirectory_mode (fs.inode dir) f time
  constructor
  · exact ⟨by rw [added.sb], fun n set => by rw [added.sb]; exact set⟩
  · exact ⟨by omega, last⟩
  · intro n other
    rw [added.inode, Function.update_of_ne other]
  · rw [own]
    exact grown.1
  · rw [own]
    exact grown.2.1
  · rw [own]
    exact grown.2.2
  · exact added.size
  · exact ⟨present, block.2.symm⟩
  · intro s
    rw [added.zone, block.1]
    split
    · rename_i zero
      rw [zero]
    · rfl
  · rw [block.1]
    exact .inl rfl
  · intro b _ other
    exact added.blocks b other
  · intro j other _
    have number := added.numbers j other
    unfold dirBlock at number
    rw [added.zone] at number
    exact number

section Full

/-! The loop of `add_entry` behind a full first block. -/

variable (present : ((fs.inode dir).zone 0).toNat ≠ 0) (named : name.take nameLen ≠ [])
  (size : (fs.inode dir).size.toNat = 1024) (busy : ∀ j, j < 64 → entryInode (dirBlock fs dir) j ≠ 0)

include present named size busy

theorem addEntry_behind : addEntry fs dir name time =
    addLoop fs dir (name.take nameLen) time 64 64 ((fs.inode dir).zone 0).toNat 2 := by
  have called : ¬ (name.take nameLen = [] ∨ ((fs.inode dir).zone 0).toNat = 0) := not_or.mpr ⟨named, present⟩
  unfold addEntry
  dsimp only
  rw [if_neg called, size, addLoop_over fs _ _ (Nat.zero_le _) (by decide)]
  intro j _ below
  exact tryEntry_of_live (by omega) (busy j below)

theorem addEntry_full {z : Nat} (run : inodeZone fs dir 1 true time = .ok (z, fs₁))
    (same : (fs₁.inode dir).size = (fs.inode dir).size) : addEntry fs dir name time =
      if z = 0 then .ok (none, fs₁) else .ok (some (z, 0), (tryEntry fs₁ dir (name.take nameLen) time 64 0 z).2) := by
  have new₁ : (fs₁.inode dir).size.toNat ≤ 64 * 16 := by
    rw [same, size]
  have took := tryEntry_of_free (j := 0) (z := z) (name.take nameLen) time (.inl new₁)
  rw [addEntry_behind present named size busy]
  unfold addLoop
  rw [if_pos (by decide)]
  change (inodeZone fs dir 1 true time >>= _) = _
  rw [bind_ok run]
  dsimp only
  split
  · rfl
  · rw [took, if_pos rfl]

/-- It can only return if the second block can be looked up. -/
theorem of_addEntry_full {r : Option (Nat × Nat) × FileSystem} (run : addEntry fs dir name time = .ok r) :
    ∃ z fs₁, inodeZone fs dir 1 true time = .ok (z, fs₁) := by
  rw [addEntry_behind present named size busy] at run
  unfold addLoop at run
  rw [if_pos (by decide)] at run
  change (inodeZone fs dir 1 true time >>= _) = _ at run
  rcases of_bind run with ⟨⟨z, fs₁⟩, found, -⟩
  exact ⟨z, fs₁, found⟩

end Full

/-- The new entry at the start of the second block. -/
theorem spill_entered {z : Nat} (count : entriesOf fs dir = 64) (some : z ≠ 0)
    (marks : Marks fs fs₁) (inode : ∀ n, n ≠ dir → fs₁.inode n = fs.inode n)
    (own : (fs₁.inode dir).mode = (fs.inode dir).mode ∧ (fs₁.inode dir).nlinks = (fs.inode dir).nlinks ∧
      (fs₁.inode dir).count = (fs.inode dir).count ∧ (fs₁.inode dir).size = (fs.inode dir).size)
    (size : (fs.inode dir).size.toNat = 1024)
    (slots : ∀ s, ((fs₁.inode dir).zone s).toNat = if s = 1 then z else ((fs.inode dir).zone s).toNat)
    (zone : ((fs.inode dir).zone 1).toNat = z ∨
      ((fs.inode dir).zone 1).toNat = 0 ∧ ¬ zoneUsed fs.sb z ∧ zoneUsed fs₁.sb z)
    (disk : ∀ b, b ≠ 0 → b ≠ z → fs₁.disk b = fs.disk b) :
    Entered fs (tryEntry fs₁ dir (name.take nameLen) time 64 0 z).2 dir 64 (z, 0) := by
  have new₁ : (fs₁.inode dir).size.toNat ≤ 64 * 16 := by
    rw [own.2.2.2, size]
  rw [tryEntry_of_free (j := 0) (z := z) (name.take nameLen) time (.inl new₁)]
  have grown := growDirectory_mode (fs₁.inode dir) 64 time
  change Entered fs (FileSystem.setBlock _ z _) dir 64 (z, 0)
  generalize after : (fs₁.setInode dir { growDirectory (fs₁.inode dir) 64 time with mtime := time }).setBlock z _ = fs₂
  have inode₂ : fs₂.inode dir = { growDirectory (fs₁.inode dir) 64 time with mtime := time } := by
    rw [← after]
    simp only [FileSystem.setBlock, FileSystem.setInode, Function.update_self]
  have large : (fs₂.inode dir).size.toNat = 1040 := by
    rw [inode₂, growDirectory, if_pos new₁]
    change (BitVec.ofNat 32 ((64 + 1) * 16)).toNat = 1040
    decide
  have count₂ : entriesOf fs₂ dir = 65 := by
    unfold entriesOf
    rw [large]
  constructor
  · rw [← after]
    exact ⟨marks.firstdatazone, marks.kept⟩
  · exact ⟨by decide, by rw [count]⟩
  · intro n other
    rw [← after, ← inode n other]
    simp only [FileSystem.setBlock, FileSystem.setInode, Function.update_of_ne other]
  · rw [inode₂]
    exact grown.1.trans own.1
  · rw [inode₂]
    exact grown.2.1.trans own.2.1
  · rw [inode₂]
    exact grown.2.2.trans own.2.2.1
  · rw [count₂, count, large]
    exact ⟨rfl, rfl⟩
  · exact ⟨some, rfl⟩
  · intro s
    rw [inode₂]
    change ((growDirectory (fs₁.inode dir) 64 time).zone s).toNat = _
    rw [growDirectory_zone]
    exact slots s
  · rw [← after]
    rcases zone with old | ⟨none, fresh, used⟩
    · exact .inl old
    · exact .inr ⟨none, fresh, used, count, rfl⟩
  · intro b positive other
    rw [← after, FileSystem.setBlock_of_ne _ _ other]
    exact disk b positive other
  · intro j other below
    rw [count, dirEntriesPerBlock] at below
    omega

theorem addEntry_cases (linked : LinkedBut late fs) (isIn : dir ∈ directories fs)
    (few : ((fs.inode dir).zone 0).toNat ≠ 0 → name.take nameLen ≠ [] → entriesOf fs dir ≤ 64)
    {place : Option (Nat × Nat)} (run : addEntry fs dir name time = .ok (place, fs')) :
    (place = none ∧ Marked fs fs') ∨ ∃ p i, place = some p ∧ Entered fs fs' dir i p ∧
      entriesOf fs dir ≤ 64 ∧ (i < entriesOf fs dir → entryInode (fs.disk p.1) p.2 = 0) := by
  by_cases called : name.take nameLen = [] ∨ ((fs.inode dir).zone 0).toNat = 0
  · unfold addEntry at run
    dsimp only at run
    rw [if_pos called] at run
    cases run
    exact .inl ⟨rfl, .refl fs⟩
  · rw [not_or] at called
    have exact_ := (linked.sizes dir isIn).1
    have few := few called.2 called.1
    by_cases room : Room dir fs
    · rcases add_entry called.2 exact_ few room called.1 time with ⟨f, fs₂, inBlock, last, free, add, added⟩
      rw [add] at run
      cases run
      exact .inr ⟨_, f, rfl, added.entered called.2 inBlock last, few, free⟩
    · unfold Room at room
      rw [not_or, not_lt] at room
      have count : entriesOf fs dir = 64 := le_antisymm few room.1
      have size : (fs.inode dir).size.toNat = 1024 := by
        rw [exact_, count]
      have busy : ∀ j, j < 64 → entryInode (dirBlock fs dir) j ≠ 0 := by
        intro j below dead
        exact room.2 ⟨j, by omega, dead⟩
      by_cases second : ((fs.inode dir).zone 1).toNat = 0
      · have looked : ∃ z fs₀, newBlock fs = .ok (z, fs₀) := by
          rcases of_addEntry_full called.2 called.1 size busy run with ⟨z, fs₁, found⟩
          rw [inodeZone, if_pos ⟨rfl, second⟩] at found
          rcases of_bind found with ⟨⟨z₀, fs₀⟩, new, -⟩
          exact ⟨z₀, fs₀, new⟩
        rcases looked with ⟨z, fs₀, new⟩
        have spec := newBlock_spec linked.first new
        have marks : Marks fs fs₀ := ⟨spec.firstdatazone, spec.kept⟩
        by_cases full : z = 0
        · subst full
          have zone : inodeZone fs dir 1 true time = .ok (0, fs₀) := by
            rw [inodeZone, if_pos ⟨rfl, second⟩, bind_ok new]
            exact if_pos rfl
          rw [addEntry_full called.2 called.1 size busy zone (by rw [spec.inode]), if_pos rfl] at run
          cases run
          exact .inl ⟨rfl, ⟨marks, spec.inode, spec.disk⟩⟩
        · have zone : inodeZone fs dir 1 true time = .ok (z, fs₀.setInode dir { fs₀.inode dir with
              zone := Function.update (fs₀.inode dir).zone 1 (BitVec.ofNat 16 z), ctime := time, dirt := true }) := by
            rw [inodeZone, if_pos ⟨rfl, second⟩, bind_ok new]
            exact if_neg full
          have own : (fs₀.setInode dir { fs₀.inode dir with
              zone := Function.update (fs₀.inode dir).zone 1 (BitVec.ofNat 16 z), ctime := time, dirt := true }).inode dir =
              { fs.inode dir with
                zone := Function.update (fs.inode dir).zone 1 (BitVec.ofNat 16 z), ctime := time, dirt := true } := by
            simp only [FileSystem.setInode, Function.update_self, spec.inode]
          rw [addEntry_full called.2 called.1 size busy zone (by rw [own]), if_neg full] at run
          cases run
          refine .inr ⟨_, 64, rfl, spill_entered count full ⟨marks.firstdatazone, marks.kept⟩ ?_ ?_ size ?_
            (.inr ⟨second, spec.fresh full, spec.marked full⟩) ?_, few, fun below => by omega⟩
          · intro n other
            simp only [FileSystem.setInode, Function.update_of_ne other, spec.inode]
          · rw [own]
            exact ⟨rfl, rfl, rfl, rfl⟩
          · intro s
            rw [own]
            by_cases one : s = 1
            · subst one
              simp only [Function.update_self, if_true, BitVec.toNat_ofNat]
              exact Nat.mod_eq_of_lt spec.small
            · simp only [Function.update_of_ne one, if_neg one]
          · intro b _ other
            exact spec.disk b other
      · have zone : inodeZone fs dir 1 true time = .ok (((fs.inode dir).zone 1).toNat, fs) := by
          rw [inodeZone, if_neg fun both => second both.2]
        rw [addEntry_full called.2 called.1 size busy zone rfl, if_neg second] at run
        cases run
        refine .inr ⟨_, 64, rfl, spill_entered count second ⟨rfl, fun _ set => set⟩ (fun _ _ => rfl)
          ⟨rfl, rfl, rfl, rfl⟩ size ?_ (.inl rfl) (fun _ _ _ => rfl), few, fun below => by omega⟩
        intro s
        split
        · rename_i one
          rw [one]
        · rfl

end Add

section Store

variable {v : BitVec 16}

/-- An entry of the first block, as `sys_unlink` finds it. -/
theorem Entered.here (linked : LinkedBut late fs) (isIn : dir ∈ directories fs)
    (present : ((fs.inode dir).zone 0).toNat ≠ 0) (inBlock : i < 64) (below : i < entriesOf fs dir) :
    Entered fs fs dir i (((fs.inode dir).zone 0).toNat, i) := by
  have block : i / dirEntriesPerBlock = 0 ∧ i % dirEntriesPerBlock = i := by
    rw [dirEntriesPerBlock]
    omega
  constructor
  · exact ⟨rfl, fun _ set => set⟩
  · exact ⟨by omega, le_of_lt below⟩
  · exact fun _ _ => rfl
  · rfl
  · rfl
  · rfl
  · exact ⟨(max_eq_left below).symm, (linked.sizes dir isIn).1⟩
  · exact ⟨present, block.2.symm⟩
  · intro s
    rw [block.1]
    split
    · rename_i zero
      rw [zero]
    · rfl
  · rw [block.1]
    exact .inl rfl
  · exact fun _ _ _ => rfl
  · exact fun _ _ _ => rfl

theorem Entered.blockRef (entered : Entered fs fs₁ dir i p) :
    blockRef dir (i / dirEntriesPerBlock) = ⟨dir, i / dirEntriesPerBlock, []⟩ := by
  have near := entered.near.1
  exact if_pos (by rw [dirEntriesPerBlock]; omega)

theorem Entered.valid (entered : Entered fs fs₁ dir i p) : Ref.Valid ⟨dir, i / dirEntriesPerBlock, []⟩ := by
  have near := entered.near.1
  exact ⟨by simp only [dirEntriesPerBlock]; omega, Nat.zero_le _, nofun⟩

/-- No other place names the zone of the entry. -/
theorem Entered.apart (entered : Entered fs fs₁ dir i p) (linked : LinkedBut late fs) (isIn : dir ∈ directories fs)
    (q : Ref) (valid : q.Valid) (live : Live fs q.ino) (some : fs.zoneOf q ≠ 0)
    (other : q ≠ ⟨dir, i / dirEntriesPerBlock, []⟩) : fs.zoneOf q ≠ p.1 := by
  intro same
  rcases entered.zone with old | ⟨_, fresh, _⟩
  · exact other (linked.once q _ valid entered.valid live (.inl isIn) (same.trans old.symm) some)
  · have used := linked.used q valid live some
    rw [same] at used
    exact fresh used

theorem Entered.slot (entered : Entered fs fs₁ dir i p) (n s : Nat) : ((fs₁.inode n).zone s).toNat =
    if (⟨n, s, []⟩ : Ref) = ⟨dir, i / dirEntriesPerBlock, []⟩ then p.1 else ((fs.inode n).zone s).toNat := by
  by_cases own : n = dir
  · subst own
    rw [entered.slots s]
    simp only [Ref.mk.injEq, true_and, and_true]
  · rw [entered.others n own, if_neg fun same => own (Ref.mk.inj same).1]

theorem Entered.zoneOf (entered : Entered fs fs₁ dir i p) (linked : LinkedBut late fs) (isIn : dir ∈ directories fs)
    (v : BitVec 16) (r : Ref) (valid : r.Valid) (live : Live fs r.ino) : (storeEntry fs₁ p v).zoneOf r =
      if r = ⟨dir, i / dirEntriesPerBlock, []⟩ then p.1 else fs.zoneOf r := by
  rcases r with ⟨n, s, path⟩
  induction path with
  | nil => exact entered.slot n s
  | cons k path ih =>
    have child : (⟨n, s, k :: path⟩ : Ref) ≠ ⟨dir, i / dirEntriesPerBlock, []⟩ := by
      intro same
      cases (Ref.mk.inj same).2.2
    have parent : (⟨n, s, path⟩ : Ref) ≠ ⟨dir, i / dirEntriesPerBlock, []⟩ := by
      -- a direct zone has no entries
      intro same
      rcases Ref.mk.inj same with ⟨_, slot, _⟩
      have length := valid.length
      have near := entered.near.1
      simp only [List.length_cons, depth, slot, dirEntriesPerBlock] at length
      omega
    rw [zoneOf_cons, zoneOf_cons, ih valid.parent live, if_neg parent, if_neg child]
    by_cases none : fs.zoneOf ⟨n, s, path⟩ = 0
    · rw [if_pos none, if_pos none]
    · have apart := entered.apart linked isIn _ valid.parent live none parent
      have disk : (storeEntry fs₁ p v).disk (fs.zoneOf ⟨n, s, path⟩) = fs.disk (fs.zoneOf ⟨n, s, path⟩) :=
        (FileSystem.setBlock_of_ne _ _ apart).trans (entered.disk _ none apart)
      rw [if_neg none, if_neg none, disk]

theorem Entered.entriesOf_other (entered : Entered fs fs₁ dir i p) {d : Nat} (other : d ≠ dir) :
    entriesOf (storeEntry fs₁ p v) d = entriesOf fs d := by
  unfold entriesOf
  change (fs₁.inode d).size.toNat / 16 = _
  rw [entered.others d other]

theorem Entered.entryNumber (entered : Entered fs fs₁ dir i p) (linked : LinkedBut late fs)
    (isIn : dir ∈ directories fs) (v : BitVec 16) {d i' : Nat} (isIn' : d ∈ directories fs)
    (below : i' < entriesOf fs d ∨ d = dir ∧ i' = i) : Fs.entryNumber (storeEntry fs₁ p v) d i' =
      if d = dir ∧ i' = i then v.toNat else Fs.entryNumber fs d i' := by
  have bound : i' / dirEntriesPerBlock < bigBlock := by
    apply Nat.div_lt_of_lt_mul
    rcases below with inside | ⟨_, same⟩
    · have := (linked.sizes d isIn').2
      omega
    · have near := entered.near.1
      rw [same, dirEntriesPerBlock, bigBlock]
      omega
  have leaf := blockRef_leaf d bound
  have live : Live fs (Fs.blockRef d (i' / dirEntriesPerBlock)).ino := .inl (by rwa [blockRef_ino])
  have zone := entered.zoneOf linked isIn v _ leaf.toValid live
  have iff : Fs.blockRef d (i' / dirEntriesPerBlock) = ⟨dir, i / dirEntriesPerBlock, []⟩ ↔
      d = dir ∧ i' / dirEntriesPerBlock = i / dirEntriesPerBlock := by
    rw [← entered.blockRef]
    constructor
    · exact blockRef_inj
    · intro both
      rw [both.1, both.2]
  unfold Fs.entryNumber entryBlock
  rw [zone]
  by_cases block : d = dir ∧ i' / dirEntriesPerBlock = i / dirEntriesPerBlock
  · rw [if_pos (iff.mpr block), if_neg entered.place.1]
    have stored : (storeEntry fs₁ p v).disk p.1 = setEntryInode (fs₁.disk p.1) p.2 v := FileSystem.setBlock_self ..
    rw [stored, entryInode_setEntryInode, entered.place.2]
    by_cases same : i' % dirEntriesPerBlock = i % dirEntriesPerBlock
    · have index : i' = i := by
        rw [dirEntriesPerBlock] at *
        omega
      rw [if_pos same, if_pos ⟨block.1, index⟩]
    · have index : i' ≠ i := fun equal => same (by rw [equal])
      rw [if_neg same, if_neg fun both => index both.2]
      have inside : i' < entriesOf fs dir := by
        rcases below with inside | both
        · rw [← block.1]
          exact inside
        · exact absurd both.2 index
      have place : dirEntriesPerBlock * (i / dirEntriesPerBlock) + i' % dirEntriesPerBlock = i' := by
        rw [← block.2]
        exact Nat.div_add_mod ..
      have old := entered.numbers (i' % dirEntriesPerBlock) (by rw [entered.place.2]; exact same) (by rw [place]; exact inside)
      have before : fs.zoneOf (Fs.blockRef d (i' / dirEntriesPerBlock)) = p.1 := by
        rw [iff.mpr block]
        rcases entered.zone with same' | ⟨_, _, _, count, first⟩
        · exact same'
        · -- a new block comes behind all entries
          rw [dirEntriesPerBlock] at *
          omega
      rw [before, if_neg entered.place.1, old]
  · have other : ¬ (d = dir ∧ i' = i) := fun both => block ⟨both.1, by rw [both.2]⟩
    have apart := entered.apart linked isIn _ leaf.toValid live
    rw [if_neg (mt iff.mp block), if_neg other]
    by_cases none : fs.zoneOf (Fs.blockRef d (i' / dirEntriesPerBlock)) = 0
    · rw [if_pos none, if_pos none]
    · have different := apart none (mt iff.mp block)
      have disk : (storeEntry fs₁ p v).disk (fs.zoneOf (Fs.blockRef d (i' / dirEntriesPerBlock))) =
          fs.disk (fs.zoneOf (Fs.blockRef d (i' / dirEntriesPerBlock))) :=
        (FileSystem.setBlock_of_ne _ _ different).trans (entered.disk _ none different)
      rw [if_neg none, if_neg none, disk]

theorem Entered.directories (entered : Entered fs fs₁ dir i p) (v : BitVec 16) :
    directories (storeEntry fs₁ p v) = Fs.directories fs := by
  have field : ∀ {α : Type} (f : MInode → α), f (fs₁.inode dir) = f (fs.inode dir) → ∀ n,
      f (fs₁.inode n) = f (fs.inode n) := by
    intro α f same n
    by_cases own : n = dir
    · rw [own, same]
    · rw [entered.others n own]
  apply directories_congr
  · intro n
    exact congrArg isDir (field MInode.mode entered.mode n)
  · intro n _
    exact field MInode.nlinks entered.nlinks n

/-- The entries that name `n` after an entry was set. -/
theorem Entered.mem_liveEntries (entered : Entered fs fs₁ dir i p) (linked : LinkedBut late fs)
    (isIn : dir ∈ Fs.directories fs) (v : BitVec 16) (n : Nat) (e : Σ _ : Nat, Nat) :
    e ∈ liveEntries (storeEntry fs₁ p v) n ↔
      if e.1 = dir ∧ e.2 = i then n ≠ 0 ∧ v.toNat = n else e ∈ liveEntries fs n := by
  rw [Fs.mem_liveEntries, Fs.mem_liveEntries, entered.directories]
  have count : entriesOf (storeEntry fs₁ p v) dir = max (entriesOf fs dir) (i + 1) := entered.size.1
  have near := entered.near.2
  by_cases here : e.1 = dir ∧ e.2 = i
  · have inside : e.2 < entriesOf (storeEntry fs₁ p v) e.1 := by
      rw [here.1, here.2, count]
      omega
    have dir_ : e.1 ∈ Fs.directories fs := by
      rw [here.1]
      exact isIn
    rw [if_pos here, entered.entryNumber linked isIn v dir_ (.inr here), if_pos here]
    constructor
    · exact fun all => all.2.2
    · exact fun both => ⟨dir_, inside, both⟩
  · rw [if_neg here]
    apply and_congr_right
    intro dir_
    have bound : e.2 < entriesOf (storeEntry fs₁ p v) e.1 ↔ e.2 < entriesOf fs e.1 := by
      by_cases own : e.1 = dir
      · have index : e.2 ≠ i := fun same => here ⟨own, same⟩
        rw [own, count]
        omega
      · rw [entered.entriesOf_other own]
    rw [bound]
    apply and_congr_right
    intro below
    rw [entered.entryNumber linked isIn v dir_ (.inl below), if_neg here]

theorem Entered.links_add (entered : Entered fs fs₁ dir i p) (linked : LinkedBut late fs)
    (isIn : dir ∈ Fs.directories fs) (free : i < entriesOf fs dir → entryInode (fs.disk p.1) p.2 = 0)
    (some : v ≠ 0) (n : Nat) : links (storeEntry fs₁ p v) n = links fs n + if n = v.toNat then 1 else 0 := by
  have value : v.toNat ≠ 0 := fun zero => some (BitVec.eq_of_toNat_eq zero)
  have absent : (⟨dir, i⟩ : Σ _ : Nat, Nat) ∉ liveEntries fs n := by
    intro old
    rcases Fs.mem_liveEntries.mp old with ⟨_, below, positive, number⟩
    apply positive
    rw [← number]
    change Fs.entryNumber fs dir i = 0
    unfold Fs.entryNumber entryBlock
    rw [entered.blockRef]
    split
    · rfl
    · rename_i present
      rcases entered.zone with old | ⟨none, _⟩
      · have zone : fs.zoneOf ⟨dir, i / dirEntriesPerBlock, []⟩ = p.1 := old
        rw [zone, ← entered.place.2, free below]
        rfl
      · exact absurd none present
  unfold links
  by_cases own : n = v.toNat
  · rw [if_pos own]
    have inserted : liveEntries (storeEntry fs₁ p v) n = insert ⟨dir, i⟩ (liveEntries fs n) := by
      ext e
      rw [entered.mem_liveEntries linked isIn, Finset.mem_insert]
      split
      · rename_i here
        have same : e = ⟨dir, i⟩ := Sigma.ext here.1 (heq_of_eq here.2)
        exact ⟨fun _ => .inl same, fun _ => ⟨own ▸ value, own.symm⟩⟩
      · rename_i other
        constructor
        · exact .inr
        · intro either
          rcases either with same | old
          · rw [same] at other
            exact absurd ⟨rfl, rfl⟩ other
          · exact old
    rw [inserted, Finset.card_insert_of_notMem absent]
  · rw [if_neg own, Nat.add_zero]
    congr 1
    ext e
    rw [entered.mem_liveEntries linked isIn]
    split
    · rename_i here
      have same : e = ⟨dir, i⟩ := Sigma.ext here.1 (heq_of_eq here.2)
      rw [same]
      exact ⟨fun both => absurd both.2.symm own, fun old => absurd old absent⟩
    · rfl

theorem Entered.links_clear (entered : Entered fs fs₁ dir i p) (linked : LinkedBut late fs)
    (isIn : dir ∈ Fs.directories fs) (below : i < entriesOf fs dir) (number : Fs.entryNumber fs dir i = v.toNat)
    (some : v ≠ 0) (n : Nat) : links (storeEntry fs₁ p 0) n = links fs n - if n = v.toNat then 1 else 0 := by
  have value : v.toNat ≠ 0 := fun zero => some (BitVec.eq_of_toNat_eq zero)
  have erased : liveEntries (storeEntry fs₁ p 0) n = (liveEntries fs n).erase ⟨dir, i⟩ := by
    ext e
    rw [entered.mem_liveEntries linked isIn, Finset.mem_erase]
    split
    · rename_i here
      have same : e = ⟨dir, i⟩ := Sigma.ext here.1 (heq_of_eq here.2)
      constructor
      · exact fun both => absurd both.2.symm both.1
      · exact fun both => absurd same both.1
    · rename_i other
      have different : e ≠ ⟨dir, i⟩ := by
        intro same
        rw [same] at other
        exact other ⟨rfl, rfl⟩
      exact ⟨fun old => ⟨different, old⟩, fun both => both.2⟩
  unfold links
  rw [erased]
  by_cases own : n = v.toNat
  · have present : (⟨dir, i⟩ : Σ _ : Nat, Nat) ∈ liveEntries fs n :=
      Fs.mem_liveEntries.mpr ⟨isIn, below, own ▸ value, number.trans own.symm⟩
    rw [if_pos own, Finset.card_erase_of_mem present]
  · have absent : (⟨dir, i⟩ : Σ _ : Nat, Nat) ∉ liveEntries fs n := by
      intro old
      exact own ((Fs.mem_liveEntries.mp old).2.2.2.symm.trans number)
    rw [if_neg own, Finset.erase_eq_of_notMem absent, Nat.sub_zero]

/-- The zones stay well formed, and what is left of the link counts decides about the rest. -/
theorem Entered.linked {late' : Nat} (entered : Entered fs fs₁ dir i p) (linked : LinkedBut late fs)
    (isIn : dir ∈ Fs.directories fs) (few : entriesOf fs dir ≤ 64 ∨ i < entriesOf fs dir)
    (uses : ∀ n, InUse (storeEntry fs₁ p v) n → InUse fs n)
    (counted : ∀ n, n < noInode → n ≠ late' → InUse fs n → ¬ isDir (fs.inode n).mode →
      (fs.inode n).nlinks.toNat = links (storeEntry fs₁ p v) n)
    (named : ∀ n, n ≠ late' → links (storeEntry fs₁ p v) n ≠ 0 → (fs.inode n).nlinks ≠ 0) :
    LinkedBut late' (storeEntry fs₁ p v) := by
  have field : ∀ {α : Type} (f : MInode → α), f (fs₁.inode dir) = f (fs.inode dir) → ∀ n,
      f ((storeEntry fs₁ p v).inode n) = f (fs.inode n) := by
    intro α f same n
    change f (fs₁.inode n) = _
    by_cases own : n = dir
    · rw [own, same]
    · rw [entered.others n own]
  have mode := field MInode.mode entered.mode
  have nlinks := field MInode.nlinks entered.nlinks
  have dirs := entered.directories v
  have live : ∀ n, Live (storeEntry fs₁ p v) n → Live fs n := by
    intro n either
    rcases either with dir_ | ⟨reg, used⟩
    · exact .inl (dirs ▸ dir_)
    · rw [mode] at reg
      exact .inr ⟨reg, uses n used⟩
  have zone := fun r valid live' => entered.zoneOf linked isIn v r valid (live _ live')
  have marks : Marks fs (storeEntry fs₁ p v) := ⟨entered.marks.firstdatazone, entered.marks.kept⟩
  have own : ∀ r r' : Ref, r.Valid → r'.Valid → Live (storeEntry fs₁ p v) r.ino → Live (storeEntry fs₁ p v) r'.ino →
      (storeEntry fs₁ p v).zoneOf r = (storeEntry fs₁ p v).zoneOf r' → (storeEntry fs₁ p v).zoneOf r ≠ 0 →
      r = ⟨dir, i / dirEntriesPerBlock, []⟩ → r = r' := by
    intro r r' valid valid' live₁ live₂ same some here
    by_contra different
    have other : r' ≠ ⟨dir, i / dirEntriesPerBlock, []⟩ := fun same => different (here.trans same.symm)
    rw [same] at some
    rw [zone r valid live₁, if_pos here, zone r' valid' live₂, if_neg other] at same
    rw [zone r' valid' live₂, if_neg other] at some
    exact entered.apart linked isIn r' valid' (live _ live₂) some other same.symm
  constructor
  · exact entered.marks.kept 0 linked.first
  · intro d isIn'
    rw [dirs] at isIn'
    by_cases here : d = dir
    · subst here
      have size := entered.size
      have near := entered.near.2
      have count : entriesOf (storeEntry fs₁ p v) d = max (entriesOf fs d) (i + 1) := size.1
      have bound := (linked.sizes d isIn).2
      have positive : 65 ≤ dirEntriesPerBlock * bigBlock := by decide
      refine ⟨size.2, ?_⟩
      rw [count]
      omega
    · rw [entered.entriesOf_other here]
      change (fs₁.inode d).size.toNat = _ ∧ _
      rw [entered.others d here]
      exact linked.sizes d isIn'
  · intro r r' valid valid' live₁ live₂ same some
    by_cases first : r = ⟨dir, i / dirEntriesPerBlock, []⟩
    · exact own r r' valid valid' live₁ live₂ same some first
    · by_cases second : r' = ⟨dir, i / dirEntriesPerBlock, []⟩
      · exact (own r' r valid' valid live₂ live₁ same.symm (same ▸ some) second).symm
      · rw [zone r valid live₁, if_neg first] at same some
        rw [zone r' valid' live₂, if_neg second] at same
        exact linked.once r r' valid valid' (live _ live₁) (live _ live₂) same some
  · intro r valid live' some
    rw [zone r valid live'] at some ⊢
    by_cases here : r = ⟨dir, i / dirEntriesPerBlock, []⟩
    · rw [if_pos here]
      rcases entered.zone with old | ⟨_, _, used, _⟩
      · have present : fs.zoneOf ⟨dir, i / dirEntriesPerBlock, []⟩ = p.1 := old
        rw [← present]
        exact marks.used (linked.used _ entered.valid (.inl isIn) (by rw [present]; exact entered.place.1))
      · exact used
    · rw [if_neg here] at some ⊢
      exact marks.used (linked.used r valid (live _ live') some)
  · intro n small other used notDir
    rw [mode] at notDir
    rw [nlinks]
    exact counted n small other (uses n used) notDir
  · intro n other some
    rw [nlinks]
    exact named n other some

end Store

end K210Linux.Fs
