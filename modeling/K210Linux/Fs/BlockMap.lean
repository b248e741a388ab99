import K210Linux.Fs.ZoneTree

namespace K210Linux.Fs

open Outcome

variable {fs fs' : FileSystem} {ino slot k z : Nat} {path : List Nat} {time : BitVec 32}

/-- `new_block` takes a zone that no place of a well formed file system names. -/
theorem NewBlock.unnamed (new : NewBlock fs fs' z) (wf : fs.Wf) (some : z ≠ 0) (q : Ref) (valid : q.Valid)
    (present : fs.zoneOf q ≠ 0) : fs.zoneOf q ≠ z := by
  intro same
  have used := wf.used q valid present
  rw [same] at used
  exact new.fresh some used

theorem inodeZone_create (wf : fs.Wf) (valid : Ref.Valid ⟨ino, slot, []⟩)
    (run : inodeZone fs ino slot true time = .ok (z, fs')) :
    Extends fs fs' ∧ fs'.zoneOf ⟨ino, slot, []⟩ = z ∧ Touches fs fs' ⟨ino, slot, []⟩ := by
  unfold inodeZone at run
  by_cases present : ((fs.inode ino).zone slot).toNat = 0
  · simp only [present, and_self, if_true] at run
    rcases of_bind run with ⟨⟨z₁, fs₁⟩, took, rest⟩
    have new := newBlock_spec wf.first took
    by_cases full : z₁ = 0
    · subst full
      cases rest
      have grown := Extends.of_full wf new
      refine ⟨grown, ?_, fun q _ _ => new.zoneOf q, fun some => absurd present some⟩
      change ((fs₁.inode ino).zone slot).toNat = 0
      rw [new.inode]
      exact present
    · simp only [full, if_false] at rest
      cases rest
      apply Placed.extends _ wf valid present
      · intro k path split
        cases split
      · exact ⟨new.firstdatazone, new.kept⟩
      · exact new.marked full
      · intro ino'
        by_cases same : ino' = ino
        · subst same
          simp only [FileSystem.setInode, Function.update_self, new.inode]
        · simp only [FileSystem.setInode, Function.update_of_ne same, new.inode]
      · constructor
        · exact full
        · exact new.unnamed wf full
        · exact new.cleared full
        · intro ino' slot'
          by_cases same : ino' = ino
          · subst same
            by_cases here : slot' = slot
            · subst here
              simpa [FileSystem.setInode] using new.small
            · simp [FileSystem.setInode, here, Ne.symm here, new.inode]
          · simp [FileSystem.setInode, same, Ne.symm same, new.inode]
        · intro b other _
          exact new.disk b other
        · intro k path split
          cases split
  · simp only [present, and_false, if_false] at run
    cases run
    exact ⟨Extends.refl wf, rfl, .refl fs _⟩

theorem blockEntry_create (wf : fs.Wf) (valid : Ref.Valid ⟨ino, slot, k :: path⟩)
    (parent : fs.zoneOf ⟨ino, slot, path⟩ ≠ 0)
    (run : blockEntry fs (fs.zoneOf ⟨ino, slot, path⟩) k true = .ok (z, fs')) :
    Extends fs fs' ∧ fs'.zoneOf ⟨ino, slot, k :: path⟩ = z ∧ Touches fs fs' ⟨ino, slot, k :: path⟩ := by
  have here : fs.zoneOf ⟨ino, slot, k :: path⟩ = entryAt (fs.disk (fs.zoneOf ⟨ino, slot, path⟩)) k :=
    if_neg parent
  unfold blockEntry at run
  by_cases present : entryAt (fs.disk (fs.zoneOf ⟨ino, slot, path⟩)) k = 0
  · simp only [present, and_self, if_true] at run
    rcases of_bind run with ⟨⟨z₁, fs₁⟩, took, rest⟩
    have new := newBlock_spec wf.first took
    by_cases full : z₁ = 0
    · subst full
      cases rest
      refine ⟨Extends.of_full wf new, ?_, fun q _ _ => new.zoneOf q, fun some => absurd (here.trans present) some⟩
      rw [new.zoneOf, here]
      exact present
    · simp only [full, if_false] at rest
      cases rest
      have other := new.unnamed wf full _ valid.parent parent
      apply Placed.extends _ wf valid (here.trans present)
      · intro k₀ path₀ split
        cases split
        exact parent
      · exact ⟨new.firstdatazone, new.kept⟩
      · exact new.marked full
      · intro ino'
        exact congrArg (fun inode : Nat → MInode => (inode ino').size) new.inode
      · constructor
        · exact full
        · exact new.unnamed wf full
        · intro i bound
          simp only [FileSystem.setBlock, Function.update_of_ne other.symm]
          exact new.cleared full i bound
        · intro ino' slot'
          rw [if_neg (by simp)]
          exact congrArg (fun inode : Nat → MInode => ((inode ino').zone slot').toNat) new.inode
        · intro b notNew notHeld
          have apart : b ≠ fs.zoneOf ⟨ino, slot, path⟩ := fun same => notHeld ⟨k, path, rfl, same⟩
          simp only [FileSystem.setBlock, Function.update_of_ne apart]
          exact new.disk b notNew
        · intro k₀ path₀ split k'
          cases split
          simp only [FileSystem.setBlock, Function.update_self]
          rw [entryAt_setEntryAt _ _ new.small, new.disk _ other]
  · simp only [present, and_false, if_false] at run
    cases run
    exact ⟨Extends.refl wf, here, .refl fs _⟩

section Way

/-- The places on the way to a block, the index blocks first. -/
def wayTo (ino slot : Nat) : List Nat → Finset Ref
  | [] => {⟨ino, slot, []⟩}
  | k :: path => insert ⟨ino, slot, k :: path⟩ (wayTo ino slot path)

def Ref.way (r : Ref) : Finset Ref := wayTo r.ino r.slot r.path

variable {ino slot k : Nat} {path : List Nat}

theorem Ref.way_nil (ino slot : Nat) : Ref.way ⟨ino, slot, []⟩ = {⟨ino, slot, []⟩} := rfl

theorem Ref.way_cons (ino slot k : Nat) (path : List Nat) :
    Ref.way ⟨ino, slot, k :: path⟩ = insert ⟨ino, slot, k :: path⟩ (Ref.way ⟨ino, slot, path⟩) := rfl

theorem Ref.mem_way_self (r : Ref) : r ∈ r.way := by
  rcases r with ⟨ino, slot, path⟩
  cases path with
  | nil => exact Finset.mem_singleton_self _
  | cons k path => exact Finset.mem_insert_self ..

theorem Ref.length_of_mem_way {q : Ref} (isIn : q ∈ Ref.way ⟨ino, slot, path⟩) : q.path.length ≤ path.length := by
  induction path with
  | nil =>
    rw [Ref.way_nil, Finset.mem_singleton] at isIn
    rw [isIn]
  | cons k path ih =>
    rw [Ref.way_cons, Finset.mem_insert] at isIn
    rcases isIn with rfl | isIn
    · exact le_refl _
    · exact (ih isIn).trans (Nat.le_succ _)

theorem Ref.notMem_way (ino slot k : Nat) (path : List Nat) :
    (⟨ino, slot, k :: path⟩ : Ref) ∉ Ref.way ⟨ino, slot, path⟩ := by
  intro isIn
  have short := Ref.length_of_mem_way isIn
  rw [List.length_cons] at short
  omega

theorem Ref.Valid.way {q : Ref} (valid : Ref.Valid ⟨ino, slot, path⟩) (isIn : q ∈ Ref.way ⟨ino, slot, path⟩) : q.Valid := by
  induction path with
  | nil =>
    rw [Ref.way_nil, Finset.mem_singleton] at isIn
    rwa [isIn]
  | cons k path ih =>
    rw [Ref.way_cons, Finset.mem_insert] at isIn
    rcases isIn with rfl | isIn
    · exact valid
    · exact ih valid.parent isIn

end Way

section Missing

variable {r : Ref}

/-- The places that name no zone. -/
def absent (fs : FileSystem) (places : Finset Ref) : Finset Ref := places.filter fun q => fs.zoneOf q = 0

theorem mem_absent {places : Finset Ref} {q : Ref} : q ∈ absent fs places ↔ q ∈ places ∧ fs.zoneOf q = 0 :=
  Finset.mem_filter

theorem absent_insert_of_zero {places : Finset Ref} (notIn : r ∉ places) (none : fs.zoneOf r = 0) :
    (absent fs (insert r places)).card = (absent fs places).card + 1 := by
  unfold absent
  rw [Finset.filter_insert, if_pos none]
  exact Finset.card_insert_of_notMem fun isIn => notIn (Finset.mem_filter.mp isIn).1

theorem absent_insert_of_ne {places : Finset Ref} (some : fs.zoneOf r ≠ 0) :
    absent fs (insert r places) = absent fs places := by
  unfold absent
  rw [Finset.filter_insert, if_neg some]

/-- The places on the way to an entry that name no zone: those on the way to its index block, and the entry. -/
theorem absent_way_cons (fs : FileSystem) (ino slot k : Nat) (path : List Nat) :
    (absent fs (Ref.way ⟨ino, slot, k :: path⟩)).card =
      (absent fs (Ref.way ⟨ino, slot, path⟩)).card + if fs.zoneOf ⟨ino, slot, k :: path⟩ = 0 then 1 else 0 := by
  rw [Ref.way_cons]
  split
  · exact absent_insert_of_zero (Ref.notMem_way ino slot k path) ‹_›
  · rw [absent_insert_of_ne ‹_›, Nat.add_zero]

theorem absent_way_nil (fs : FileSystem) (ino slot : Nat) :
    (absent fs (Ref.way ⟨ino, slot, []⟩)).card = if fs.zoneOf ⟨ino, slot, []⟩ = 0 then 1 else 0 := by
  rw [Ref.way_nil, absent, Finset.filter_singleton]
  split <;> rfl

end Missing

/-- The number of blocks that a file can have. -/
def bigBlock : Nat := 7 + 512 + 512 * 512

/-- The place of a block of data, as `_bmap` finds it. -/
def blockRef (ino block : Nat) : Ref :=
  if block < 7 then ⟨ino, block, []⟩
  else if block - 7 < 512 then ⟨ino, 7, [block - 7]⟩
  else ⟨ino, 8, [(block - 7 - 512) % 512, (block - 7 - 512) / 512]⟩

theorem blockRef_leaf (ino : Nat) {block : Nat} (bound : block < bigBlock) : (blockRef ino block).Leaf := by
  rw [bigBlock] at bound
  unfold blockRef
  split
  · rename_i direct
    refine ⟨⟨by simp only; omega, by simp, by simp⟩, ?_⟩
    simp only [depth, List.length_nil]
    omega
  · split
    · rename_i single
      exact ⟨⟨(by decide : 7 < 9), by simp [depth], by simpa using single⟩, rfl⟩
    · rename_i double
      refine ⟨⟨(by decide : 8 < 9), by simp [depth], ?_⟩, rfl⟩
      intro k isIn
      simp only [List.mem_cons, List.not_mem_nil, or_false] at isIn
      rcases isIn with same | same
      · rw [same]
        exact Nat.mod_lt _ (by decide)
      · rw [same, Nat.div_lt_iff_lt_mul (by decide)]
        omega

theorem blockRef_inj {ino ino' block block' : Nat} (same : blockRef ino block = blockRef ino' block') :
    ino = ino' ∧ block = block' := by
  unfold blockRef at same
  split at same <;> split at same <;> try split at same <;> try split at same
  all_goals
    simp only [Ref.mk.injEq, List.cons.injEq, and_true, reduceCtorEq, and_false] at same
    try omega

/-- What `create_block` does to the places of the file system: the one it was asked for gets `z`, and the other
    blocks of data stay where they are. -/
structure BlockCreated (fs fs' : FileSystem) (r : Ref) (z : Nat) : Prop where
  grown : Extends fs fs'
  here : fs'.zoneOf r = z
  others : ∀ q : Ref, q.Leaf → q ≠ r → fs'.zoneOf q = fs.zoneOf q
  present : fs.zoneOf r ≠ 0 → fs' = fs

theorem Touches.created {r : Ref} (grown : Extends fs fs') (here : fs'.zoneOf r = z) (touches : Touches fs fs' r) :
    BlockCreated fs fs' r z :=
  ⟨grown, here, fun q leaf => touches.others q leaf.toValid, touches.present⟩

/-- An index block is put in place first. -/
theorem BlockCreated.after {fs₁ : FileSystem} {r r₁ : Ref} (grown : Extends fs fs₁) (touches : Touches fs fs₁ r₁)
    (index : ¬ r₁.Leaf) (missing : fs.zoneOf r₁ = 0 → fs.zoneOf r = 0) (created : BlockCreated fs₁ fs' r z) :
    BlockCreated fs fs' r z where
  grown := grown.trans created.grown
  here := created.here
  others q leaf other := by
    rw [created.others q leaf other, touches.others q leaf.toValid]
    rintro rfl
    exact index leaf
  present some := by
    have same : fs₁ = fs := touches.present fun none => some (missing none)
    rw [same] at created
    exact created.present some

/-- The index block is missing, and there is no room for it. -/
theorem BlockCreated.none {r r₁ : Ref} (grown : Extends fs fs') (touches : Touches fs fs' r₁) (index : ¬ r₁.Leaf)
    (missing : fs.zoneOf r₁ = 0 → fs.zoneOf r = 0) (here : fs'.zoneOf r = 0) : BlockCreated fs fs' r 0 where
  grown := grown
  here := here
  others q leaf _ := touches.others q leaf.toValid fun same => index (same ▸ leaf)
  present some := touches.present fun none => some (missing none)

theorem not_leaf_of_short {ino slot : Nat} {path : List Nat} (short : path.length < depth slot) :
    ¬ Ref.Leaf ⟨ino, slot, path⟩ := by
  intro leaf
  have full := leaf.full
  simp only at full
  omega

theorem zoneOf_cons (fs : FileSystem) (ino slot k : Nat) (path : List Nat) : fs.zoneOf ⟨ino, slot, k :: path⟩ =
    if fs.zoneOf ⟨ino, slot, path⟩ = 0 then 0 else entryAt (fs.disk (fs.zoneOf ⟨ino, slot, path⟩)) k := rfl

theorem zoneOf_below {ino slot k : Nat} {path : List Nat} (none : fs.zoneOf ⟨ino, slot, path⟩ = 0) :
    fs.zoneOf ⟨ino, slot, k :: path⟩ = 0 := by
  rw [zoneOf_cons, if_pos none]

theorem createBlock_spec (wf : fs.Wf) {ino block : Nat} (bound : block < bigBlock)
    (run : createBlock fs ino block time = .ok (z, fs')) : BlockCreated fs fs' (blockRef ino block) z := by
  have leaf := blockRef_leaf ino bound
  have inRange : ¬ 7 + 512 + 512 * 512 ≤ block := not_le.mpr bound
  unfold createBlock bmapWith at run
  unfold blockRef at leaf ⊢
  rw [if_neg inRange] at run
  split_ifs at leaf run ⊢ with direct single
  · rcases inodeZone_create wf leaf.toValid run with ⟨grown, here, touches⟩
    exact touches.created grown here
  · rcases of_bind run with ⟨⟨z₁, fs₁⟩, first, rest⟩
    rcases inodeZone_create wf leaf.toValid.parent first with ⟨grown, here, touches⟩
    have index : ¬ Ref.Leaf ⟨ino, 7, []⟩ := not_leaf_of_short (by decide)
    subst here
    by_cases none : fs₁.zoneOf ⟨ino, 7, []⟩ = 0
    · simp only [none, if_true] at rest
      cases rest
      exact .none grown touches index zoneOf_below (zoneOf_below none)
    · simp only [none, if_false] at rest
      rcases blockEntry_create grown.wf leaf.toValid none rest with ⟨grown₂, there, touches₂⟩
      exact .after grown touches index zoneOf_below (touches₂.created grown₂ there)
  · rcases of_bind run with ⟨⟨z₁, fs₁⟩, first, rest⟩
    rcases inodeZone_create wf leaf.toValid.parent.parent first with ⟨grown, here, touches⟩
    have index : ¬ Ref.Leaf ⟨ino, 8, []⟩ := not_leaf_of_short (by decide)
    have index₂ : ¬ Ref.Leaf ⟨ino, 8, [(block - 7 - 512) / 512]⟩ := not_leaf_of_short (by decide : 1 < 2)
    subst here
    by_cases none : fs₁.zoneOf ⟨ino, 8, []⟩ = 0
    · simp only [none, if_true] at rest
      cases rest
      exact .none grown touches index (fun none => zoneOf_below (zoneOf_below none)) (zoneOf_below (zoneOf_below none))
    · simp only [none, if_false] at rest
      rcases of_bind rest with ⟨⟨z₂, fs₂⟩, second, rest₂⟩
      rcases blockEntry_create grown.wf leaf.toValid.parent none second with ⟨grown₂, there, touches₂⟩
      subst there
      by_cases empty : fs₂.zoneOf ⟨ino, 8, [(block - 7 - 512) / 512]⟩ = 0
      · simp only [empty, if_true] at rest₂
        cases rest₂
        refine .after grown touches index (fun none => zoneOf_below (zoneOf_below none)) ?_
        exact .none grown₂ touches₂ index₂ zoneOf_below (zoneOf_below empty)
      · simp only [empty, if_false] at rest₂
        rcases blockEntry_create grown₂.wf leaf.toValid empty rest₂ with ⟨grown₃, last, touches₃⟩
        refine .after grown touches index (fun none => zoneOf_below (zoneOf_below none)) ?_
        exact .after grown₂ touches₂ index₂ zoneOf_below (touches₃.created grown₃ last)

theorem inodeZone_present {ino slot : Nat} (present : fs.zoneOf ⟨ino, slot, []⟩ ≠ 0) (time : BitVec 32) :
    inodeZone fs ino slot true time = .ok (fs.zoneOf ⟨ino, slot, []⟩, fs) := by
  unfold inodeZone
  simp only
  rw [if_neg (fun both => present both.2)]
  rfl

theorem blockEntry_present {ino slot k : Nat} {path : List Nat} (parent : fs.zoneOf ⟨ino, slot, path⟩ ≠ 0)
    (present : fs.zoneOf ⟨ino, slot, k :: path⟩ ≠ 0) :
    blockEntry fs (fs.zoneOf ⟨ino, slot, path⟩) k true = .ok (fs.zoneOf ⟨ino, slot, k :: path⟩, fs) := by
  have here : fs.zoneOf ⟨ino, slot, k :: path⟩ = entryAt (fs.disk (fs.zoneOf ⟨ino, slot, path⟩)) k :=
    if_neg parent
  rw [here] at present ⊢
  unfold blockEntry
  simp only
  rw [if_neg (fun both => present both.2)]

/-- A block that is there is returned as it is. -/
theorem createBlock_present {ino block : Nat} (bound : block < bigBlock) (present : fs.zoneOf (blockRef ino block) ≠ 0)
    (time : BitVec 32) : createBlock fs ino block time = .ok (fs.zoneOf (blockRef ino block), fs) := by
  have inRange : ¬ 7 + 512 + 512 * 512 ≤ block := not_le.mpr bound
  unfold createBlock bmapWith
  unfold blockRef at present ⊢
  rw [if_neg inRange]
  split_ifs at present ⊢ with direct single
  · exact inodeZone_present present time
  · have index : fs.zoneOf ⟨ino, 7, []⟩ ≠ 0 := fun none => present (zoneOf_below none)
    rw [bind_ok (inodeZone_present index time)]
    simp only [index, if_false]
    exact blockEntry_present index present
  · have second : fs.zoneOf ⟨ino, 8, [(block - 7 - 512) / 512]⟩ ≠ 0 := fun none => present (zoneOf_below none)
    have index : fs.zoneOf ⟨ino, 8, []⟩ ≠ 0 := fun none => second (zoneOf_below none)
    rw [bind_ok (inodeZone_present index time)]
    simp only [index, if_false]
    rw [bind_ok (blockEntry_present index second)]
    simp only [second, if_false]
    exact blockEntry_present second present

theorem inodeZone_look (fs : FileSystem) (ino slot : Nat) (time : BitVec 32) :
    inodeZone fs ino slot false time = .ok (fs.zoneOf ⟨ino, slot, []⟩, fs) := by
  unfold inodeZone
  rw [if_neg (fun both => Bool.false_ne_true both.1)]
  rfl

theorem blockEntry_look (fs : FileSystem) (b k : Nat) :
    blockEntry fs b k false = .ok (entryAt (fs.disk b) k, fs) := by
  unfold blockEntry
  rw [if_neg (fun both => Bool.false_ne_true both.1)]

theorem bmapWith_look (fs : FileSystem) (ino : Nat) {block : Nat} (bound : block < bigBlock) (time : BitVec 32) :
    bmapWith fs ino block false time = .ok (fs.zoneOf (blockRef ino block), fs) := by
  have inRange : ¬ 7 + 512 + 512 * 512 ≤ block := not_le.mpr bound
  unfold bmapWith blockRef
  rw [if_neg inRange]
  simp only [inodeZone_look, blockEntry_look]
  split_ifs with direct single
  · rfl
  · rw [bind_ok rfl, zoneOf_cons]
    split <;> rename_i none <;> simp only [none, if_true, if_false]
  · rw [bind_ok rfl, zoneOf_cons, zoneOf_cons]
    by_cases none : fs.zoneOf ⟨ino, 8, []⟩ = 0
    · simp only [none, if_true]
    · simp only [none, if_false]
      rw [bind_ok rfl]
      dsimp only
      split <;> rfl

theorem bmap_eq (fs : FileSystem) (ino : Nat) {block : Nat} (bound : block < bigBlock) :
    bmap fs ino block = .ok (fs.zoneOf (blockRef ino block)) := by
  rw [bmap, bmapWith_look fs ino bound]
  rfl

theorem bmap_big (fs : FileSystem) (ino : Nat) {block : Nat} (large : bigBlock ≤ block) :
    bmap fs ino block = .error "_bmap: block > big" := by
  have outside : 7 + 512 + 512 * 512 ≤ block := large
  unfold bmap bmapWith
  rw [if_pos outside]
  rfl

/-- Zones are wanted where none is named. -/
def wanted (fs : FileSystem) (r : Ref) : Nat := if fs.zoneOf r = 0 then 1 else 0

theorem Touches.wanted {r q : Ref} (touches : Touches fs fs' r) (valid : q.Valid) (other : q ≠ r) :
    wanted fs' q = wanted fs q := by
  unfold K210Linux.Fs.wanted
  rw [touches.others q valid other]

theorem inodeZone_allots (first : mapBit fs.sb.zmap 0 = true) (ino slot : Nat) (time : BitVec 32) :
    Allots fs (wanted fs ⟨ino, slot, []⟩) (inodeZone fs ino slot true time) := by
  unfold wanted
  by_cases present : fs.zoneOf ⟨ino, slot, []⟩ = 0
  · have zero : ((fs.inode ino).zone slot).toNat = 0 := present
    unfold inodeZone
    simp only [present, zero, and_self, if_true]
    refine (Allots.newBlock first).bind (n := 0) (fun _ => rfl) ?_
    intro z fs₁ _ some
    simp only [some, if_false]
    exact .done rfl some
  · rw [if_neg present, inodeZone_present present]
    exact .done rfl present

theorem blockEntry_allots (first : mapBit fs.sb.zmap 0 = true) (parent : fs.zoneOf ⟨ino, slot, path⟩ ≠ 0) :
    Allots fs (wanted fs ⟨ino, slot, k :: path⟩) (blockEntry fs (fs.zoneOf ⟨ino, slot, path⟩) k true) := by
  unfold wanted
  by_cases present : fs.zoneOf ⟨ino, slot, k :: path⟩ = 0
  · have zero : entryAt (fs.disk (fs.zoneOf ⟨ino, slot, path⟩)) k = 0 := by
      rw [zoneOf_cons, if_neg parent] at present
      exact present
    unfold blockEntry
    simp only [present, zero, and_self, if_true]
    refine (Allots.newBlock first).bind (n := 0) (fun _ => rfl) ?_
    intro z fs₁ _ some
    simp only [some, if_false]
    exact .done rfl some
  · rw [if_neg present, blockEntry_present parent present]
    exact .done rfl present

/-- `create_block` takes a zone for every place on the way to the block that names none. -/
theorem createBlock_allots (wf : fs.Wf) (ino : Nat) {block : Nat} (bound : block < bigBlock) (time : BitVec 32) :
    Allots fs (absent fs (blockRef ino block).way).card (createBlock fs ino block time) := by
  have leaf := blockRef_leaf ino bound
  have inRange : ¬ 7 + 512 + 512 * 512 ≤ block := not_le.mpr bound
  unfold createBlock bmapWith
  unfold blockRef at leaf ⊢
  rw [if_neg inRange]
  split_ifs at leaf ⊢ with direct single
  · rw [absent_way_nil]
    exact inodeZone_allots wf.first ino block time
  · rw [absent_way_cons, absent_way_nil]
    refine (inodeZone_allots wf.first ino 7 time).bind (fun _ => rfl) ?_
    intro z fs₁ run some
    rcases inodeZone_create wf leaf.toValid.parent run with ⟨grown, here, touches⟩
    subst here
    simp only [some, if_false]
    change Allots fs₁ (wanted fs _) _
    rw [← touches.wanted leaf.toValid (by simp)]
    exact blockEntry_allots grown.wf.first some
  · rw [absent_way_cons, absent_way_cons, absent_way_nil, Nat.add_assoc]
    refine (inodeZone_allots wf.first ino 8 time).bind (fun _ => rfl) ?_
    intro z fs₁ run some
    rcases inodeZone_create wf leaf.toValid.parent.parent run with ⟨grown, here, touches⟩
    subst here
    simp only [some, if_false]
    change Allots fs₁ (wanted fs _ + wanted fs _) _
    rw [← touches.wanted leaf.toValid (by simp), ← touches.wanted leaf.toValid.parent (by simp)]
    refine (blockEntry_allots grown.wf.first some).bind (fun _ => rfl) ?_
    intro z fs₂ run₂ some₂
    rcases blockEntry_create grown.wf leaf.toValid.parent some run₂ with ⟨grown₂, there, touches₂⟩
    subst there
    simp only [some₂, if_false]
    rw [← touches₂.wanted leaf.toValid (by simp)]
    exact blockEntry_allots grown₂.wf.first some₂

/-- `create_block` keeps the blocks of the files a tree and adds to it at one place, just if it meets no bit of the bitmap
    whose doubleword is not aligned. -/
theorem create_block_extends_tree (wf : fs.Wf) (ino : Nat) {block : Nat} (bound : block < 7 + 512 + 512 * 512)
    (time : BitVec 32) :
    (∀ ino' block', block' < 7 + 512 + 512 * 512 → ∃ z, bmapWith fs ino' block' false time = .ok (z, fs)) ∧
    ((∃ z fs', createBlock fs ino block time = .ok (z, fs') ∧ fs'.Wf ∧
        (z ≠ 0 → bmap fs' ino block = .ok z) ∧
        (∀ old, bmap fs ino block = .ok old → old ≠ 0 → z = old ∧ fs' = fs) ∧
        (∀ ino' block', (ino', block') ≠ (ino, block) → bmap fs' ino' block' = bmap fs ino' block') ∧
        (z = 0 → ∀ ino' block', bmap fs' ino' block' = bmap fs ino' block')) ↔
      AlignedFor fs.sb (absent fs (blockRef ino block).way).card) := by
  refine ⟨fun ino' block' bound' => ⟨_, bmapWith_look fs ino' bound' time⟩, ?_⟩
  rw [(createBlock_allots wf ino bound time).returns_iff]
  constructor
  · rintro ⟨z, fs', run, -⟩
    exact ⟨z, fs', run⟩
  rintro ⟨z, fs', run⟩
  have created := createBlock_spec wf bound run
  have others (ino' block' : Nat) (other : (ino', block') ≠ (ino, block)) : bmap fs' ino' block' = bmap fs ino' block' := by
    by_cases inRange : block' < bigBlock
    · rw [bmap_eq fs' ino' inRange, bmap_eq fs ino' inRange, created.others _ (blockRef_leaf ino' inRange)]
      intro same
      rcases blockRef_inj same with ⟨rfl, rfl⟩
      exact other rfl
    · rw [bmap_big fs' ino' (not_lt.mp inRange), bmap_big fs ino' (not_lt.mp inRange)]
  have here : bmap fs' ino block = .ok z := by rw [bmap_eq fs' ino bound, created.here]
  refine ⟨z, fs', run, created.grown.wf, fun _ => here, ?_, others, ?_⟩
  · intro old before some
    rw [bmap_eq fs ino bound] at before
    cases before
    have same := created.present some
    rw [← created.here, same]
    exact ⟨rfl, rfl⟩
  · intro none ino' block'
    by_cases other : (ino', block') = (ino, block)
    · cases other
      rw [here, none, bmap_eq fs ino bound]
      -- a zone that was there before would have been returned
      by_contra some
      have before : fs.zoneOf (blockRef ino block) ≠ 0 := fun zero => some (by rw [zero])
      have same := created.grown.kept _ (blockRef_leaf ino bound).toValid before
      rw [created.here, none] at same
      exact before same.symm
    · exact others ino' block' other

/-- A device with no files, as it is mounted. -/
def blankDevice : FileSystem where
  sb := {
    ninodes := 32
    nzones := 100
    imapBlocks := 1
    zmapBlocks := 1
    firstdatazone := 10
    dev := 1
    imap := fun _ => none
    zmap := fun i => if i = 0 then some ⟨fun k => if k = 0 then 1 else 0, false⟩ else none }
  disk := fun _ _ => 0
  inode := fun _ => MInode.zero

theorem blankDevice_zoneOf (r : Ref) : blankDevice.zoneOf r = 0 := by
  rcases r with ⟨ino, slot, path⟩
  induction path with
  | nil => rfl
  | cons k path ih => rw [zoneOf_cons, if_pos ih]

theorem blankDevice_wf : blankDevice.Wf where
  first := by decide
  once r _ _ _ _ some := absurd (blankDevice_zoneOf r) some
  used r _ some := absurd (blankDevice_zoneOf r) some

/-- A block behind two index blocks: bits 1 to 3 of the bitmap are taken. -/
theorem blankDevice_block : ∃ fs', createBlock blankDevice 1 600 0 = .ok (12, fs') ∧ bmap fs' 1 600 = .ok 12 := by
  have aligned : AlignedFor blankDevice.sb (absent blankDevice (blockRef 1 600).way).card := by
    rw [(createBlock_allots blankDevice_wf 1 (by decide : 600 < bigBlock) 0).returns_iff]
    have returns : (createBlock blankDevice 1 600 0).map Prod.fst = .ok 12 := by decide +kernel
    rcases of_map returns with ⟨⟨z, fs'⟩, run, -⟩
    exact ⟨z, fs', run⟩
  rcases (create_block_extends_tree blankDevice_wf 1 (by decide : 600 < 7 + 512 + 512 * 512) 0).2.mpr aligned with
    ⟨z, fs', run, -, here, -⟩
  have twelve : (createBlock blankDevice 1 600 0).map Prod.fst = .ok 12 := by decide +kernel
  rw [run] at twelve
  cases twelve
  exact ⟨fs', run, here (by decide)⟩

/-- A device whose zones 10 to 16 are in use. -/
def sevenUsed : FileSystem :=
  { blankDevice with sb.zmap := fun i => if i = 0 then some ⟨fun k => if k = 0 then 0xFF else 0, false⟩ else none }

/-- The next bit is bit 8, in byte 1. -/
theorem eighth_zone_halts : sevenUsed.Wf ∧ ¬ ∃ z fs', createBlock sevenUsed 1 0 0 = .ok (z, fs') := by
  have zones : ∀ r, sevenUsed.zoneOf r = 0 := by
    intro r
    have same : sevenUsed.zoneOf r = blankDevice.zoneOf r := by
      apply FileSystem.zoneOf_congr
      · exact fun _ _ => rfl
      · exact fun _ _ => rfl
    rw [same, blankDevice_zoneOf]
  refine ⟨⟨by decide, fun r _ _ _ _ some => absurd (zones r) some, fun r _ some => absurd (zones r) some⟩, ?_⟩
  rintro ⟨z, fs', run⟩
  have halts : (createBlock sevenUsed 1 0 0).map Prod.fst = .error misaligned := by decide +kernel
  rw [run] at halts
  cases halts

end K210Linux.Fs
