import K210Linux.Fs.LinkHistory

/-! `add_entry` in a directory of any length. -/

namespace K210Linux.Fs

open Outcome

variable {fs fs' fs₁ : FileSystem} {dir : Nat} {name : List Byte} {time : BitVec 32}

/-- Byte `k` of entry `i` of a directory. -/
def entryByte (fs : FileSystem) (dir i k : Nat) : Byte :=
  fs.dataAt (blockRef dir (i / dirEntriesPerBlock)) (16 * (i % dirEntriesPerBlock) + k)

/-- The fields of entry `i`. -/
def slotInode (fs : FileSystem) (dir i : Nat) : BitVec 16 := entryByte fs dir i 1 ++ entryByte fs dir i 0
def slotName (fs : FileSystem) (dir i k : Nat) : Byte := entryByte fs dir i (2 + k)

/-- Every block below the size has a zone. -/
def NoHoles (fs : FileSystem) (dir : Nat) : Prop :=
  ∀ b, b * blockSize < (fs.inode dir).size.toNat → b < bigBlock ∧ fs.zoneOf (blockRef dir b) ≠ 0

theorem slot_eq {i : Nat} (present : fs.zoneOf (blockRef dir (i / dirEntriesPerBlock)) ≠ 0) :
    slotInode fs dir i = entryInode (fs.disk (fs.zoneOf (blockRef dir (i / dirEntriesPerBlock)))) (i % dirEntriesPerBlock) := by
  unfold slotInode entryByte FileSystem.dataAt
  rw [if_neg present, if_neg present]
  rfl

theorem zoneOf_lt (fs : FileSystem) (r : Ref) : fs.zoneOf r < 2 ^ 16 := by
  rcases r with ⟨ino, slot, path⟩
  cases path with
  | nil => exact ((fs.inode ino).zone slot).isLt
  | cons k path =>
    rw [zoneOf_cons]
    split
    · decide
    · have low := (fs.disk (fs.zoneOf ⟨ino, slot, path⟩) (2 * k)).isLt
      have high := (fs.disk (fs.zoneOf ⟨ino, slot, path⟩) (2 * k + 1)).isLt
      unfold entryAt
      omega

/-- The blocks of a file are different zones, so there are fewer than numbers of zones. -/
theorem NoHoles.few (wf : fs.Wf) (noHoles : NoHoles fs dir) {n : Nat}
    (below : ∀ b, b < n → b * blockSize < (fs.inode dir).size.toNat) : n < 2 ^ 16 := by
  have zones : Set.MapsTo (fun b => fs.zoneOf (blockRef dir b)) (Finset.range n) (Finset.Ico 1 (2 ^ 16)) := by
    intro b inside
    have some := (noHoles b (below b (Finset.mem_range.mp inside))).2
    have small := zoneOf_lt fs (blockRef dir b)
    simp only [Finset.coe_Ico, Set.mem_Ico]
    omega
  have apart : Set.InjOn (fun b => fs.zoneOf (blockRef dir b)) (Finset.range n) := by
    intro b inside b' inside' same
    have here := noHoles b (below b (Finset.mem_range.mp inside))
    have there := noHoles b' (below b' (Finset.mem_range.mp inside'))
    have equal := wf.once _ _ (blockRef_leaf dir here.1).toValid (blockRef_leaf dir there.1).toValid same here.2
    exact (blockRef_inj equal).2
  have card := Finset.card_le_card_of_injOn _ zones apart
  rw [Finset.card_range, Nat.card_Ico] at card
  omega

/-- Nothing that a directory holds is different. -/
structure SameEntries (fs fs' : FileSystem) (dir : Nat) : Prop where
  size : (fs'.inode dir).size = (fs.inode dir).size
  bytes : ∀ i, i < entriesOf fs dir → ∀ k, k < 16 → entryByte fs' dir i k = entryByte fs dir i k

/-- Entry `k` was taken for a name: it is the first that is free, or the one behind the last. -/
structure TookSlot (fs fs' : FileSystem) (dir : Nat) (name : List Byte) (k : Nat) (place : Nat × Nat) : Prop where
  last : k ≤ entriesOf fs dir
  free : k < entriesOf fs dir → slotInode fs dir k = 0
  taken : ∀ i, i < k → slotInode fs dir i ≠ 0
  located : place = (fs'.zoneOf (blockRef dir (k / dirEntriesPerBlock)), k % dirEntriesPerBlock)
  present : place.1 ≠ 0
  name : ∀ i, i < nameLen → slotName fs' dir k i = (name.take nameLen).getD i 0
  inode : slotInode fs' dir k = 0
  size : (fs'.inode dir).size.toNat = max (fs.inode dir).size.toNat (16 * (k + 1))
  others : ∀ i, i < entriesOf fs dir → i ≠ k → ∀ b, b < 16 → entryByte fs' dir i b = entryByte fs dir i b

section Round

variable {i : Nat}

/-- What a round of `add_entry` that takes entry `i` does to the directory. -/
structure TookEntry (fs fs' : FileSystem) (dir : Nat) (name : List Byte) (i : Nat) : Prop where
  zone : fs'.zoneOf (blockRef dir (i / dirEntriesPerBlock)) = fs.zoneOf (blockRef dir (i / dirEntriesPerBlock))
  inode : slotInode fs' dir i = 0
  name : ∀ k, k < nameLen → slotName fs' dir i k = name.getD k 0
  size : (fs'.inode dir).size.toNat = if (fs.inode dir).size.toNat ≤ i * 16 then 16 * (i + 1) else (fs.inode dir).size.toNat
  others : ∀ i', i' / dirEntriesPerBlock < bigBlock → i' ≠ i → ∀ k, k < 16 → entryByte fs' dir i' k = entryByte fs dir i' k

theorem tryEntry_took (wf : fs.Wf) (bound : i / dirEntriesPerBlock < bigBlock)
    (present : fs.zoneOf (blockRef dir (i / dirEntriesPerBlock)) ≠ 0)
    (free : (fs.inode dir).size.toNat ≤ i * 16 ∨ slotInode fs dir i = 0) (name : List Byte) (time : BitVec 32) :
    ∃ fs', tryEntry fs dir name time i (i % dirEntriesPerBlock) (fs.zoneOf (blockRef dir (i / dirEntriesPerBlock))) =
      (true, fs') ∧ TookEntry fs fs' dir name i := by
  have leaf := blockRef_leaf dir bound
  have below : i % dirEntriesPerBlock < 64 := Nat.mod_lt _ (by decide)
  rw [slot_eq present] at free
  rw [tryEntry_of_free name time free]
  refine ⟨_, rfl, ?_⟩
  have tree : SameTree fs (fs.setInode dir { growDirectory (fs.inode dir) i time with mtime := time }) :=
    SameTree.setInode (growDirectory_zone ..)
  generalize sized : fs.setInode dir { growDirectory (fs.inode dir) i time with mtime := time } = fs₁ at tree
  generalize fresh : (if (fs.inode dir).size.toNat ≤ i * 16 then
    setEntryInode (fs.disk (fs.zoneOf (blockRef dir (i / dirEntriesPerBlock)))) (i % dirEntriesPerBlock) 0
    else fs.disk (fs.zoneOf (blockRef dir (i / dirEntriesPerBlock)))) = block
  have zero : entryInode block (i % dirEntriesPerBlock) = 0 := by
    rw [← fresh]
    split
    · rw [entryInode_setEntryInode, if_pos rfl]
    · rename_i old
      exact free.resolve_left old
  rw [← tree.zoneOf] at present fresh ⊢
  have wf₁ := tree.wf wf
  have data (q : Ref) (valid : q.Valid) (k : Nat) : (fs₁.setBlock (fs₁.zoneOf (blockRef dir (i / dirEntriesPerBlock)))
      (setEntryName block (i % dirEntriesPerBlock) name)).dataAt q k =
      if q = blockRef dir (i / dirEntriesPerBlock) then setEntryName block (i % dirEntriesPerBlock) name k
      else fs₁.dataAt q k :=
    dataAt_setData wf₁ leaf present q valid k
  have own : ∀ k, entryByte (fs₁.setBlock (fs₁.zoneOf (blockRef dir (i / dirEntriesPerBlock)))
      (setEntryName block (i % dirEntriesPerBlock) name)) dir i k =
      setEntryName block (i % dirEntriesPerBlock) name (16 * (i % dirEntriesPerBlock) + k) := by
    intro k
    unfold entryByte
    rw [data _ leaf.toValid, if_pos rfl]
  refine ⟨?_, ?_, ?_, ?_, ?_⟩
  · rw [zoneOf_setData wf₁ leaf present _ leaf.toValid, tree.zoneOf]
  · unfold slotInode
    rw [own, own]
    exact (entryInode_setEntryName ..).trans zero
  · intro k small
    unfold slotName
    rw [own, ← Nat.add_assoc]
    exact (entryName_setEntryName block _ name _ small).trans (if_pos rfl)
  · change (fs₁.inode dir).size.toNat = _
    rw [← sized]
    simp only [FileSystem.setInode, Function.update_self]
    unfold growDirectory
    split
    · change (BitVec.ofNat 32 ((i + 1) * 16)).toNat = _
      rw [BitVec.toNat_ofNat, bigBlock, dirEntriesPerBlock] at *
      omega
    · rfl
  · intro i' bound' other k small
    have leaf' := blockRef_leaf dir bound'
    unfold entryByte
    rw [data _ leaf'.toValid, tree.dataAt]
    split
    · rename_i same
      have blocks := (blockRef_inj same).2
      have apart : i' % dirEntriesPerBlock ≠ i % dirEntriesPerBlock := by
        intro equal
        apply other
        rw [← Nat.div_add_mod i' dirEntriesPerBlock, ← Nat.div_add_mod i dirEntriesPerBlock, blocks, equal]
      have kept : fs.dataAt (blockRef dir (i' / dirEntriesPerBlock)) (16 * (i' % dirEntriesPerBlock) + k) =
          fs₁.disk (fs₁.zoneOf (blockRef dir (i / dirEntriesPerBlock))) (16 * (i' % dirEntriesPerBlock) + k) := by
        rw [← tree.dataAt, same]
        exact if_neg present
      rw [kept]
      unfold setEntryName
      rw [if_neg (by omega), ← fresh, tree.disk]
      split
      · unfold setEntryInode
        rw [Function.update_of_ne (by omega), Function.update_of_ne (by omega)]
      · rfl
    · rfl

theorem tryEntry_live {j z : Nat} (inside : i * 16 < (fs.inode dir).size.toNat) (live : entryInode (fs.disk z) j ≠ 0) :
    tryEntry fs dir name time i j z = (false, fs) := by
  unfold tryEntry
  simp only [if_neg (not_le.mpr inside), if_neg live]

end Round

section Scan

/-- A directory that `add_entry` can be called for. -/
structure IsDirectory (fs : FileSystem) (dir : Nat) : Prop where
  noHoles : NoHoles fs dir
  positive : 0 < (fs.inode dir).size.toNat
  whole : (fs.inode dir).size.toNat % 16 = 0

variable {i j z fuel : Nat}

theorem IsDirectory.size (isDir : IsDirectory fs dir) : (fs.inode dir).size.toNat = 16 * entriesOf fs dir := by
  have whole := isDir.whole
  unfold entriesOf
  omega

theorem IsDirectory.block (isDir : IsDirectory fs dir) (inside : i < entriesOf fs dir) :
    i / dirEntriesPerBlock < bigBlock ∧ fs.zoneOf (blockRef dir (i / dirEntriesPerBlock)) ≠ 0 := by
  have size := isDir.size
  apply isDir.noHoles
  rw [blockSize, dirEntriesPerBlock]
  omega

/-- Where the loop stands: at entry `j` of block `z`, or behind the last entry of a block. -/
inductive Position (fs : FileSystem) (dir i : Nat) : Nat → Nat → Prop
  | inside (bound : i / dirEntriesPerBlock < bigBlock) (present : fs.zoneOf (blockRef dir (i / dirEntriesPerBlock)) ≠ 0)
      (old : i < entriesOf fs dir ∨ i % dirEntriesPerBlock ≠ 0) :
      Position fs dir i (i % dirEntriesPerBlock) (fs.zoneOf (blockRef dir (i / dirEntriesPerBlock)))
  | behind (z : Nat) (edge : i % dirEntriesPerBlock = 0) : Position fs dir i dirEntriesPerBlock z

theorem Position.next (bound : i / dirEntriesPerBlock < bigBlock)
    (present : fs.zoneOf (blockRef dir (i / dirEntriesPerBlock)) ≠ 0) :
    Position fs dir (i + 1) (i % dirEntriesPerBlock + 1) (fs.zoneOf (blockRef dir (i / dirEntriesPerBlock))) := by
  by_cases edge : i % dirEntriesPerBlock + 1 = dirEntriesPerBlock
  · rw [edge]
    refine .behind _ ?_
    rw [dirEntriesPerBlock] at *
    omega
  · have block : (i + 1) / dirEntriesPerBlock = i / dirEntriesPerBlock := by
      rw [dirEntriesPerBlock] at *
      omega
    have index : (i + 1) % dirEntriesPerBlock = i % dirEntriesPerBlock + 1 := by
      rw [dirEntriesPerBlock] at *
      omega
    have here : Position fs dir (i + 1) ((i + 1) % dirEntriesPerBlock)
        (fs.zoneOf (blockRef dir ((i + 1) / dirEntriesPerBlock))) := by
      refine .inside ?_ ?_ (.inr ?_)
      · rwa [block]
      · rwa [block]
      · rw [index]
        exact Nat.succ_ne_zero _
    rwa [block, index] at here

/-- What the scan comes to: it takes an entry, or no block is left for one behind the last. -/
inductive Scanned (fs : FileSystem) (dir : Nat) (name : List Byte) (time : BitVec 32) :
    Option (Nat × Nat) → FileSystem → Prop
  | took {fs' : FileSystem} {k : Nat} {place : Nat × Nat} (slot : TookSlot fs fs' dir name k place) :
      Scanned fs dir name time (some place) fs'
  | full {fs' : FileSystem} (same : SameEntries fs fs' dir) (live : ∀ i, i < entriesOf fs dir → slotInode fs dir i ≠ 0)
      (noBlock : createBlock fs dir (entriesOf fs dir / dirEntriesPerBlock) time = .ok (0, fs')) :
      Scanned fs dir name time none fs'

/-- The directory has a free entry, or one behind the last in its last block, or `new_block` finds the zones of the next
    block before it comes to a bit that is not aligned. -/
def EntryRoom (fs : FileSystem) (dir : Nat) : Prop :=
  (∃ i, i < entriesOf fs dir ∧ slotInode fs dir i = 0) ∨ entriesOf fs dir % dirEntriesPerBlock ≠ 0 ∨
    AlignedFor fs.sb (absent fs (blockRef dir (entriesOf fs dir / dirEntriesPerBlock)).way).card

/-- The scan returns, or it stops in `create_block` behind a last block that is full. -/
inductive ScanResult (fs : FileSystem) (dir : Nat) (name : List Byte) (time : BitVec 32) :
    Except String (Option (Nat × Nat) × FileSystem) → Prop
  | returned {r : Option (Nat × Nat)} {fs' : FileSystem} (scanned : Scanned fs dir name time r fs')
      (room : EntryRoom fs dir) : ScanResult fs dir name time (.ok (r, fs'))
  | stopped {message : String} (live : ∀ i, i < entriesOf fs dir → slotInode fs dir i ≠ 0)
      (edge : entriesOf fs dir % dirEntriesPerBlock = 0)
      (noBlock : createBlock fs dir (entriesOf fs dir / dirEntriesPerBlock) time = .error message) :
      ScanResult fs dir name time (.error message)

theorem entryByte_extends (grown : Extends fs fs₁) (bound : i / dirEntriesPerBlock < bigBlock) {k : Nat} (small : k < 16) :
    entryByte fs₁ dir i k = entryByte fs dir i k := by
  refine grown.data _ (blockRef_leaf dir bound) _ ?_
  have index : i % dirEntriesPerBlock < 64 := Nat.mod_lt _ (by decide)
  rw [blockSize]
  omega

/-- A round that takes entry `i`, after a block was looked up or created for it. -/
theorem TookEntry.slot (isDir : IsDirectory fs dir) (grown : Extends fs fs₁) (last : i ≤ entriesOf fs dir)
    (taken : ∀ k, k < i → slotInode fs dir k ≠ 0) (free : i < entriesOf fs dir → slotInode fs dir i = 0)
    (present : fs₁.zoneOf (blockRef dir (i / dirEntriesPerBlock)) ≠ 0)
    (took : TookEntry fs₁ fs' dir (name.take nameLen) i) :
    TookSlot fs fs' dir name i (fs₁.zoneOf (blockRef dir (i / dirEntriesPerBlock)), i % dirEntriesPerBlock) where
  last := last
  free := free
  taken := taken
  located := by rw [took.zone]
  present := present
  name := took.name
  inode := took.inode
  size := by
    have size := isDir.size
    rw [took.size, grown.size]
    split <;> omega
  others k inside other b small := by
    have bound := (isDir.block inside).1
    rw [took.others k bound other b small, entryByte_extends grown bound small]

/-- One round inside a block: the entry is taken, or the scan goes on. -/
theorem addLoop_round (wf : fs.Wf) (isDir : IsDirectory fs dir) (last : i ≤ entriesOf fs dir)
    (taken : ∀ k, k < i → slotInode fs dir k ≠ 0) (bound : i / dirEntriesPerBlock < bigBlock)
    (present : fs.zoneOf (blockRef dir (i / dirEntriesPerBlock)) ≠ 0)
    (old : i < entriesOf fs dir ∨ i % dirEntriesPerBlock ≠ 0)
    (rest : i < entriesOf fs dir → slotInode fs dir i ≠ 0 → ScanResult fs dir name time (addLoop fs dir (name.take nameLen)
      time (i + 1) (i % dirEntriesPerBlock + 1) (fs.zoneOf (blockRef dir (i / dirEntriesPerBlock))) fuel)) :
    ScanResult fs dir name time (if (tryEntry fs dir (name.take nameLen) time i (i % dirEntriesPerBlock)
        (fs.zoneOf (blockRef dir (i / dirEntriesPerBlock)))).1 then
      .ok (some (fs.zoneOf (blockRef dir (i / dirEntriesPerBlock)), i % dirEntriesPerBlock),
        (tryEntry fs dir (name.take nameLen) time i (i % dirEntriesPerBlock)
          (fs.zoneOf (blockRef dir (i / dirEntriesPerBlock)))).2)
      else addLoop fs dir (name.take nameLen) time (i + 1) (i % dirEntriesPerBlock + 1)
        (fs.zoneOf (blockRef dir (i / dirEntriesPerBlock))) fuel) := by
  have size := isDir.size
  by_cases free : (fs.inode dir).size.toNat ≤ i * 16 ∨ slotInode fs dir i = 0
  · rcases tryEntry_took wf bound present free (name.take nameLen) time with ⟨fs', round, took⟩
    rw [round]
    have empty : i < entriesOf fs dir → slotInode fs dir i = 0 := fun inside => free.resolve_left (by omega)
    refine .returned (.took (took.slot isDir (.refl wf) last taken empty present)) ?_
    by_cases inside : i < entriesOf fs dir
    · exact .inl ⟨i, inside, empty inside⟩
    · have all : i = entriesOf fs dir := by omega
      exact .inr (.inl (all ▸ old.resolve_left inside))
  · rcases not_or.mp free with ⟨inside, live⟩
    have entry := live
    rw [slot_eq present] at entry
    rw [tryEntry_live (not_le.mp inside) entry]
    exact rest (by omega) live

/-- A directory without holes has so few blocks that the next one is no block behind the limit of a file. -/
theorem IsDirectory.bound (wf : fs.Wf) (isDir : IsDirectory fs dir) : entriesOf fs dir / dirEntriesPerBlock < bigBlock := by
  have size := isDir.size
  have few : entriesOf fs dir / dirEntriesPerBlock < 2 ^ 16 := by
    apply isDir.noHoles.few wf
    intro b below
    rw [size, blockSize]
    rw [dirEntriesPerBlock] at below
    omega
  exact few.trans (by decide)

theorem addLoop_scanned (wf : fs.Wf) (isDir : IsDirectory fs dir) (name : List Byte) (time : BitVec 32)
    (last : i ≤ entriesOf fs dir) (taken : ∀ k, k < i → slotInode fs dir k ≠ 0) (position : Position fs dir i j z)
    (enough : entriesOf fs dir - i < fuel) :
    ScanResult fs dir name time (addLoop fs dir (name.take nameLen) time i j z fuel) := by
  induction fuel generalizing i j z with
  | zero => omega
  | succ fuel ih =>
    have size := isDir.size
    have next : ∀ (bound : i / dirEntriesPerBlock < bigBlock)
        (present : fs.zoneOf (blockRef dir (i / dirEntriesPerBlock)) ≠ 0), i < entriesOf fs dir →
        slotInode fs dir i ≠ 0 → ScanResult fs dir name time (addLoop fs dir (name.take nameLen) time (i + 1)
          (i % dirEntriesPerBlock + 1) (fs.zoneOf (blockRef dir (i / dirEntriesPerBlock))) fuel) := by
      intro bound present inside live
      refine ih (by omega) ?_ (.next bound present) (by omega)
      intro k below
      by_cases same : k = i
      · rw [same]
        exact live
      · exact taken k (by omega)
    unfold addLoop
    cases position with
    | inside bound present old =>
      have index : ¬ dirEntriesPerBlock ≤ i % dirEntriesPerBlock := not_le.mpr (Nat.mod_lt _ (by decide))
      rw [if_neg index]
      exact addLoop_round wf isDir last taken bound present old (next bound present)
    | behind z edge =>
      rw [if_pos (le_refl _)]
      by_cases inside : i < entriesOf fs dir
      · rcases isDir.block inside with ⟨bound, present⟩
        rw [bind_ok (createBlock_present bound present time)]
        simp only [present, if_false]
        have round := addLoop_round wf isDir last taken bound present (.inl inside) (next bound present)
        rw [edge] at round
        exact round
      · -- every entry is taken, and the next one would be the first of a new block
        have all : i = entriesOf fs dir := by omega
        have live : ∀ k, k < entriesOf fs dir → slotInode fs dir k ≠ 0 := fun k below => taken k (by omega)
        have bound : i / dirEntriesPerBlock < bigBlock := all ▸ isDir.bound wf
        cases run : createBlock fs dir (i / dirEntriesPerBlock) time with
        | error message =>
          rw [all] at run edge
          exact .stopped live edge run
        | ok result =>
          rcases result with ⟨z, fs₁⟩
          rcases createBlock_spec wf bound run with ⟨grown, here, -, -⟩
          have room : EntryRoom fs dir :=
            .inr (.inr ((createBlock_allots wf dir (isDir.bound wf) time).returns_iff.mpr ⟨z, fs₁, all ▸ run⟩))
          rw [bind_ok rfl]
          by_cases none : z = 0
          · simp only [none, if_true]
            rw [none, all] at run
            refine .returned (.full ⟨grown.size dir, ?_⟩ live run) room
            intro k below b small
            exact entryByte_extends grown (isDir.block below).1 small
          · simp only [none, if_false]
            subst here
            have fresh : (fs₁.inode dir).size.toNat ≤ i * 16 ∨ slotInode fs₁ dir i = 0 := by
              left
              rw [grown.size]
              omega
            rcases tryEntry_took grown.wf bound none fresh (name.take nameLen) time with ⟨fs', round, took⟩
            rw [edge] at round
            rw [round]
            have slot := took.slot isDir grown last taken (fun below => absurd below inside) none
            rw [edge] at slot
            exact .returned (.took slot) room

end Scan

theorem addEntry_result (wf : fs.Wf) (isDir : IsDirectory fs dir) {name : List Byte} (named : 1 ≤ name.length)
    (time : BitVec 32) : ScanResult fs dir name time (addEntry fs dir name time) := by
  have some : 0 < entriesOf fs dir := by
    have size := isDir.size
    have positive := isDir.positive
    omega
  rcases isDir.block some with ⟨bound, present⟩
  have cut : name.take nameLen ≠ [] := by
    rw [Ne, List.take_eq_nil_iff]
    rintro (zero | empty)
    · cases zero
    · rw [empty] at named
      cases named
  have zone : ((fs.inode dir).zone 0).toNat ≠ 0 := present
  unfold addEntry
  dsimp only
  rw [if_neg (not_or.mpr ⟨cut, zone⟩)]
  have enough : entriesOf fs dir - 0 < (fs.inode dir).size.toNat / 16 + 2 := by
    unfold entriesOf
    omega
  exact addLoop_scanned wf isDir name time (Nat.zero_le _) (by omega) (.inside bound present (.inl some)) enough

/-- `add_entry` takes the first free entry of a directory or the one behind its end, or changes nothing in it; it does not
    return where `create_block` stops. -/
theorem add_entry_takes_first_free (wf : fs.Wf) (isDir : IsDirectory fs dir) {name : List Byte} (named : 1 ≤ name.length)
    (time : BitVec 32) :
    (∀ r fs', addEntry fs dir name time = .ok (r, fs') → Scanned fs dir name time r fs') ∧
    ((∃ r fs', addEntry fs dir name time = .ok (r, fs') ∧ Scanned fs dir name time r fs') ↔ EntryRoom fs dir) := by
  have result := addEntry_result wf isDir named time
  have allots := (createBlock_allots wf dir (isDir.bound wf) time).returns_iff
  generalize addEntry fs dir name time = reply at result
  constructor
  · rintro r fs' rfl
    cases result with
    | returned scanned room => exact scanned
  · cases result with
    | returned scanned room => exact iff_of_true ⟨_, _, rfl, scanned⟩ room
    | stopped live edge noBlock =>
      refine iff_of_false ?_ ?_
      · rintro ⟨r, fs', lost, -⟩
        cases lost
      · rintro (⟨i, inside, free⟩ | notEdge | aligned)
        · exact live i inside free
        · exact notEdge edge
        · rcases allots.mp aligned with ⟨z, fs₁, run⟩
          rw [noBlock] at run
          cases run

theorem crowded_isDirectory {d : Nat} (small : 0 < d ∧ d < 7) : IsDirectory crowded d := by
  rcases crowded_entriesOf small with ⟨-, size, few⟩
  have some : 0 < crowdedEntries d := by
    unfold crowdedEntries
    split_ifs <;> decide
  refine ⟨?_, by omega, by omega⟩
  intro b below
  have first : b = 0 := by
    rw [blockSize] at below
    omega
  subst first
  refine ⟨by decide, ?_⟩
  change ((crowded.inode d).zone 0).toNat ≠ 0
  rw [crowded_inode small]
  change (BitVec.ofNat 16 (20 + d)).toNat ≠ 0
  rw [BitVec.toNat_ofNat]
  omega

/-- The 65th entry of a directory, for which a block is created. -/
theorem crowded_new_block : ∃ r fs', addEntry crowded 2 [90] 0 = .ok (r, fs') ∧ Scanned crowded 2 [90] 0 r fs' := by
  have isDir := crowded_isDirectory (by decide : 0 < 2 ∧ 2 < 7)
  have room : EntryRoom crowded 2 := by
    refine .inr (.inr ((createBlock_allots crowded_wf 2 (isDir.bound crowded_wf) 0).returns_iff.mpr ?_))
    have created : (createBlock crowded 2 1 0).map Prod.fst = .ok 10 := by decide +kernel
    rcases of_map created with ⟨⟨z, fs'⟩, run, -⟩
    exact ⟨z, fs', run⟩
  exact (add_entry_takes_first_free crowded_wf isDir (by decide : 1 ≤ [(90 : Byte)].length) 0).2.mpr room

/-- The device with the zones 10 to 16 in use too. -/
def packed : FileSystem :=
  { crowded with sb := { crowded.sb with
      zmap := fun i => if i = 0 then
        some ⟨fun k => if k = 0 then 0xFF else if k = 1 then 0xF0 else if k = 2 then 3 else 0, false⟩ else none } }

theorem packed_zoneOf (r : Ref) : packed.zoneOf r = crowded.zoneOf r := by
  apply FileSystem.zoneOf_congr
  · exact fun _ _ => rfl
  · exact fun _ _ => rfl

theorem packed_wf : packed.Wf := by
  constructor
  · decide
  · intro r r' valid valid'
    rw [packed_zoneOf, packed_zoneOf]
    exact crowded_wf.once r r' valid valid'
  · intro r valid some
    rw [packed_zoneOf] at some ⊢
    rcases crowded_zoneOf r valid some with ⟨small, _, zone⟩
    rw [zone]
    rcases small with ⟨positive, below⟩
    generalize r.ino = n at *
    interval_cases n <;> exact ⟨by decide, by decide⟩

/-- The block for the 65th entry would be the one of bit 8. -/
theorem full_block_halts : packed.Wf ∧ IsDirectory packed 2 ∧
    ¬ ∃ r fs', addEntry packed 2 [90] 0 = .ok (r, fs') ∧ Scanned packed 2 [90] 0 r fs' := by
  have isDir := crowded_isDirectory (by decide : 0 < 2 ∧ 2 < 7)
  refine ⟨packed_wf, ⟨?_, isDir.positive, isDir.whole⟩, ?_⟩
  · intro b below
    rw [packed_zoneOf]
    exact isDir.noHoles b below
  · rintro ⟨r, fs', run, -⟩
    have halts : (addEntry packed 2 [90] 0).map (fun _ => 0) = .error misaligned := by decide +kernel
    rw [run] at halts
    cases halts

end K210Linux.Fs
