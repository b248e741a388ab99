import K210Linux.Fs.FreeZones

namespace K210Linux.Fs

open Outcome

/-- A place that can name a zone: `i_zone[slot]` of an inode for the empty path, and else an entry of the
    index block that the rest of the path leads to. -/
structure Ref where
  ino : Nat
  slot : Nat
  path : List Nat
  deriving DecidableEq

/-- The number of index blocks between a slot of `i_zone` and the data. -/
def depth (slot : Nat) : Nat := slot - 6

structure Ref.Valid (r : Ref) : Prop where
  slot : r.slot < 9
  length : r.path.length ≤ depth r.slot
  entries : ∀ k ∈ r.path, k < 512

/-- A place that names a block of data. -/
structure Ref.Leaf (r : Ref) : Prop extends r.Valid where
  full : r.path.length = depth r.slot

def resolve (fs : FileSystem) (ino slot : Nat) : List Nat → Nat
  | [] => ((fs.inode ino).zone slot).toNat
  | k :: path =>
    let z := resolve fs ino slot path
    if z = 0 then 0 else entryAt (fs.disk z) k

def FileSystem.zoneOf (fs : FileSystem) (r : Ref) : Nat := resolve fs r.ino r.slot r.path

/-- Byte `i` of the block of data at a place, 0 where there is none. -/
def FileSystem.dataAt (fs : FileSystem) (r : Ref) (i : Nat) : Byte :=
  if fs.zoneOf r = 0 then 0 else fs.disk (fs.zoneOf r) i

/-- The zone `z` is marked in the bitmap. -/
def zoneUsed (sb : SuperBlock) (z : Nat) : Prop :=
  sb.firstdatazone.toNat ≤ z ∧ mapBit sb.zmap (z + 1 - sb.firstdatazone.toNat) = true

/-- Every zone that is reachable is reachable once, and marked; bit 0 of the bitmap is set by the mount. -/
structure FileSystem.Wf (fs : FileSystem) : Prop where
  first : mapBit fs.sb.zmap 0 = true
  once : ∀ r r' : Ref, r.Valid → r'.Valid → fs.zoneOf r = fs.zoneOf r' → fs.zoneOf r ≠ 0 → r = r'
  used : ∀ r : Ref, r.Valid → fs.zoneOf r ≠ 0 → zoneUsed fs.sb (fs.zoneOf r)

/-- What `new_block` did when it returned `z`. -/
structure NewBlock (fs fs' : FileSystem) (z : Nat) : Prop where
  inode : fs'.inode = fs.inode
  firstdatazone : fs'.sb.firstdatazone = fs.sb.firstdatazone
  nzones : fs'.sb.nzones = fs.sb.nzones
  disk : ∀ b, b ≠ z → fs'.disk b = fs.disk b
  cleared : z ≠ 0 → ∀ i, i < blockSize → fs'.disk z i = 0
  fresh : z ≠ 0 → ¬ zoneUsed fs.sb z
  marked : z ≠ 0 → zoneUsed fs'.sb z
  small : z < 2 ^ 16
  kept : ∀ n, mapBit fs.sb.zmap n = true → mapBit fs'.sb.zmap n = true

theorem newBlock_spec {fs fs' : FileSystem} {z : Nat} (first : mapBit fs.sb.zmap 0 = true)
    (run : newBlock fs = .ok (z, fs')) : NewBlock fs fs' z := by
  have took := newBlock_taking fs
  rw [run] at took
  cases took with
  | full none =>
    exact ⟨rfl, rfl, rfl, fun _ _ => rfl, fun some => absurd rfl some, fun some => absurd rfl some,
      fun some => absurd rfl some, by decide, fun _ set => set⟩
  | behind marked outside =>
    refine ⟨rfl, rfl, rfl, fun _ _ => rfl, fun some => absurd rfl some, fun some => absurd rfl some,
      fun some => absurd rfl some, by decide, ?_⟩
    intro n set
    exact (marked.bits n).trans (by rw [set, Bool.true_or])
  | @taken n _ zmap marked zone inside =>
    have positive := marked.positive first
    have index : z + 1 - fs.sb.firstdatazone.toNat = n ∧ fs.sb.firstdatazone.toNat ≤ z := by omega
    refine ⟨rfl, rfl, rfl, ?_, ?_, ?_, ?_, ?_, ?_⟩
    · intro b other
      exact Function.update_of_ne other ..
    · intro _ k bound
      simp only [FileSystem.setBlock, Function.update_self, clearBlock, bound, if_true]
    · rintro _ ⟨-, set⟩
      rw [index.1, marked.clear] at set
      cases set
    · intro _
      have set : mapBit zmap n = true := by rw [marked.bits, decide_eq_true rfl, Bool.or_true]
      exact ⟨index.2, (congrArg (mapBit zmap) index.1).trans set⟩
    · have := fs.sb.nzones.isLt
      omega
    · intro n set
      exact (marked.bits n).trans (by rw [set, Bool.true_or])

theorem entryAt_cleared {block : Block} {k : Nat} (bound : k < 512) (zero : ∀ i, i < blockSize → block i = 0) :
    entryAt block k = 0 := by
  rw [blockSize] at zero
  rw [entryAt, zero _ (by omega), zero _ (by omega)]
  rfl

theorem entryAt_setEntryAt (block : Block) (k : Nat) {z : Nat} (small : z < 2 ^ 16) (k' : Nat) :
    entryAt (setEntryAt block k z) k' = if k' = k then z else entryAt block k' := by
  unfold entryAt setEntryAt
  split
  · rename_i same
    subst same
    rw [Function.update_self, Function.update_of_ne (by omega), Function.update_self, BitVec.toNat_ofNat,
      BitVec.toNat_ofNat]
    omega
  · rename_i other
    rw [Function.update_of_ne (by omega), Function.update_of_ne (by omega), Function.update_of_ne (by omega),
      Function.update_of_ne (by omega)]

section Grow

variable {fs fs₁ fs' : FileSystem} {r : Ref} {z : Nat}

theorem Ref.Valid.parent {ino slot k : Nat} {path : List Nat} (valid : Ref.Valid ⟨ino, slot, k :: path⟩) :
    Ref.Valid ⟨ino, slot, path⟩ where
  slot := valid.slot
  length := (Nat.le_succ _).trans valid.length
  entries k' isIn := valid.entries k' (List.mem_cons_of_mem _ isIn)

/-- The index block that holds a place, if any. -/
def Ref.HeldIn (fs : FileSystem) (r : Ref) (b : Nat) : Prop :=
  ∃ k path, r.path = k :: path ∧ b = fs.zoneOf ⟨r.ino, r.slot, path⟩

/-- A new, cleared zone was written down at a place. -/
structure Placed (fs fs' : FileSystem) (r : Ref) (z : Nat) : Prop where
  some : z ≠ 0
  fresh : ∀ q : Ref, q.Valid → fs.zoneOf q ≠ 0 → fs.zoneOf q ≠ z
  cleared : ∀ i, i < blockSize → fs'.disk z i = 0
  slots : ∀ ino slot, ((fs'.inode ino).zone slot).toNat =
    if r = ⟨ino, slot, []⟩ then z else ((fs.inode ino).zone slot).toNat
  disk : ∀ b, b ≠ z → ¬ r.HeldIn fs b → fs'.disk b = fs.disk b
  entry : ∀ k₀ path, r.path = k₀ :: path → ∀ k, entryAt (fs'.disk (fs.zoneOf ⟨r.ino, r.slot, path⟩)) k =
    if k = k₀ then z else entryAt (fs.disk (fs.zoneOf ⟨r.ino, r.slot, path⟩)) k

/-- Only the place itself then names another zone. -/
theorem Placed.zoneOf (placed : Placed fs fs' r z) (wf : fs.Wf) (valid : r.Valid) (missing : fs.zoneOf r = 0)
    (parent : ∀ k path, r.path = k :: path → fs.zoneOf ⟨r.ino, r.slot, path⟩ ≠ 0) (r' : Ref) (valid' : r'.Valid) :
    fs'.zoneOf r' = if r' = r then z else fs.zoneOf r' := by
  obtain ⟨ino, slot, path⟩ := r'
  induction path with
  | nil =>
    refine (placed.slots ino slot).trans ?_
    simp only [eq_comm (a := r)]
    rfl
  | cons k path ih =>
    have above := ih valid'.parent
    have bound : k < 512 := valid'.entries k (List.mem_cons_self ..)
    have here : fs'.zoneOf ⟨ino, slot, k :: path⟩ = if fs'.zoneOf ⟨ino, slot, path⟩ = 0 then 0 else
        entryAt (fs'.disk (fs'.zoneOf ⟨ino, slot, path⟩)) k := rfl
    have before : fs.zoneOf ⟨ino, slot, k :: path⟩ = if fs.zoneOf ⟨ino, slot, path⟩ = 0 then 0 else
        entryAt (fs.disk (fs.zoneOf ⟨ino, slot, path⟩)) k := rfl
    rw [here, above]
    by_cases below : (⟨ino, slot, path⟩ : Ref) = r
    · -- the new zone has no entries yet
      have other : (⟨ino, slot, k :: path⟩ : Ref) ≠ r := by
        rw [← below]
        simp
      rw [if_pos below, if_neg placed.some, if_neg other, before, below, missing, if_pos rfl]
      exact entryAt_cleared bound placed.cleared
    · rw [if_neg below]
      by_cases none : fs.zoneOf ⟨ino, slot, path⟩ = 0
      · have other : (⟨ino, slot, k :: path⟩ : Ref) ≠ r := by
          intro same
          subst same
          exact parent k path rfl none
        rw [if_pos none, if_neg other, before, if_pos none]
      · rw [if_neg none]
        by_cases held : r.HeldIn fs (fs.zoneOf ⟨ino, slot, path⟩)
        · obtain ⟨k₀, path₀, split, same⟩ := held
          have parentValid : Ref.Valid ⟨r.ino, r.slot, path₀⟩ := by
            apply Ref.Valid.parent (k := k₀)
            rw [← split]
            exact valid
          have equal := wf.once _ _ valid'.parent parentValid same none
          obtain ⟨rfl, rfl, rfl⟩ := Ref.mk.inj equal
          have iff : (⟨r.ino, r.slot, k :: path⟩ : Ref) = r ↔ k = k₀ := by
            obtain ⟨ino, slot, rpath⟩ := r
            simp only at split
            simp [split]
          rw [placed.entry k₀ path split k, before, if_neg none]
          simp only [iff]
        · have other : (⟨ino, slot, k :: path⟩ : Ref) ≠ r := by
            intro same
            subst same
            exact held ⟨k, path, rfl, rfl⟩
          rw [if_neg other, before, if_neg none,
            placed.disk _ (placed.fresh _ valid'.parent none) held]

theorem FileSystem.zoneOf_congr (slots : ∀ ino slot, (fs'.inode ino).zone slot = (fs.inode ino).zone slot)
    (disk : ∀ b, b ≠ 0 → fs'.disk b = fs.disk b) (r : Ref) : fs'.zoneOf r = fs.zoneOf r := by
  rcases r with ⟨ino, slot, path⟩
  unfold FileSystem.zoneOf
  induction path with
  | nil =>
    simp only [resolve]
    rw [slots]
  | cons k path ih =>
    simp only [resolve] at ih ⊢
    rw [ih]
    by_cases none : resolve fs ino slot path = 0
    · rw [if_pos none, if_pos none]
    · rw [if_neg none, if_neg none, disk _ none]

/-- Zones were added to a file system, all of them cleared. -/
structure Extends (fs fs' : FileSystem) : Prop where
  wf : fs'.Wf
  kept : ∀ r : Ref, r.Valid → fs.zoneOf r ≠ 0 → fs'.zoneOf r = fs.zoneOf r
  data : ∀ r : Ref, r.Leaf → ∀ i, i < blockSize → fs'.dataAt r i = fs.dataAt r i
  size : ∀ ino, (fs'.inode ino).size = (fs.inode ino).size

theorem Extends.refl (wf : fs.Wf) : Extends fs fs :=
  ⟨wf, fun _ _ _ => rfl, fun _ _ _ _ => rfl, fun _ => rfl⟩

theorem Extends.trans (one : Extends fs fs₁) (two : Extends fs₁ fs') : Extends fs fs' where
  wf := two.wf
  kept r valid some := by
    have same := one.kept r valid some
    rw [two.kept r valid (by rwa [same]), same]
  data r leaf i bound := (two.data r leaf i bound).trans (one.data r leaf i bound)
  size ino := (two.size ino).trans (one.size ino)

/-- The bits that a change of the bitmap keeps. -/
structure Marks (fs fs' : FileSystem) : Prop where
  firstdatazone : fs'.sb.firstdatazone = fs.sb.firstdatazone
  kept : ∀ n, mapBit fs.sb.zmap n = true → mapBit fs'.sb.zmap n = true

theorem Marks.used (marks : Marks fs fs') (used : zoneUsed fs.sb z) : zoneUsed fs'.sb z := by
  rcases used with ⟨above, set⟩
  rw [← marks.firstdatazone] at above set
  exact ⟨above, marks.kept _ set⟩

/-- No place but `r` names another zone, and nothing at all is changed if `r` names one already. -/
structure Touches (fs fs' : FileSystem) (r : Ref) : Prop where
  others : ∀ q : Ref, q.Valid → q ≠ r → fs'.zoneOf q = fs.zoneOf q
  present : fs.zoneOf r ≠ 0 → fs' = fs

theorem Touches.refl (fs : FileSystem) (r : Ref) : Touches fs fs r := ⟨fun _ _ _ => rfl, fun _ => rfl⟩

theorem NewBlock.zoneOf (full : NewBlock fs fs' 0) (r : Ref) : fs'.zoneOf r = fs.zoneOf r :=
  FileSystem.zoneOf_congr (fun ino slot => by rw [full.inode]) full.disk r

/-- A full device: nothing is placed. -/
theorem Extends.of_full (wf : fs.Wf) (full : NewBlock fs fs' 0) : Extends fs fs' := by
  have marks : Marks fs fs' := ⟨full.firstdatazone, full.kept⟩
  have zones := full.zoneOf
  constructor
  · constructor
    · exact full.kept 0 wf.first
    · intro r r' valid valid'
      rw [zones, zones]
      exact wf.once r r' valid valid'
    · intro r valid
      rw [zones]
      intro some
      exact marks.used (wf.used r valid some)
  · intro r _ _
    exact zones r
  · intro r _ i _
    unfold FileSystem.dataAt
    rw [zones]
    by_cases none : fs.zoneOf r = 0
    · rw [if_pos none, if_pos none]
    · rw [if_neg none, if_neg none, full.disk _ none]
  · intro ino
    rw [full.inode]

/-- The block that holds a place is an index block. -/
theorem Ref.HeldIn.not_data {b : Nat} (held : r.HeldIn fs b) (wf : fs.Wf) (valid : r.Valid) {q : Ref} (leaf : q.Leaf)
    (some : fs.zoneOf q ≠ 0) : fs.zoneOf q ≠ b := by
  intro same
  rcases held with ⟨k, path, split, here⟩
  rcases r with ⟨ino, slot, rpath⟩
  simp only at split here
  subst split
  have equal := wf.once q _ leaf.toValid valid.parent (same.trans here) some
  subst equal
  have full := leaf.full
  have length := valid.length
  simp only [List.length_cons] at full length
  omega

theorem Placed.extends (placed : Placed fs fs' r z) (wf : fs.Wf) (valid : r.Valid) (missing : fs.zoneOf r = 0)
    (parent : ∀ k path, r.path = k :: path → fs.zoneOf ⟨r.ino, r.slot, path⟩ ≠ 0) (marks : Marks fs fs')
    (marked : zoneUsed fs'.sb z) (size : ∀ ino, (fs'.inode ino).size = (fs.inode ino).size) :
    Extends fs fs' ∧ fs'.zoneOf r = z ∧ Touches fs fs' r := by
  have zones := placed.zoneOf wf valid missing parent
  have here : fs'.zoneOf r = z := (zones r valid).trans (if_pos rfl)
  have elsewhere : ∀ q : Ref, q.Valid → q ≠ r → fs'.zoneOf q = fs.zoneOf q := fun q valid' other =>
    (zones q valid').trans (if_neg other)
  have kept : ∀ q : Ref, q.Valid → fs.zoneOf q ≠ 0 → fs'.zoneOf q = fs.zoneOf q := by
    intro q valid' some
    apply elsewhere q valid'
    intro same
    subst same
    exact some missing
  refine ⟨⟨⟨marks.kept 0 wf.first, ?_, ?_⟩, kept, ?_, size⟩, here, elsewhere, fun some => absurd missing some⟩
  · intro q q' valid₁ valid₂ same some
    by_cases first : q = r
    · by_cases second : q' = r
      · rw [first, second]
      · -- the new zone is nowhere else
        rw [first, here, elsewhere q' valid₂ second] at same
        exact absurd same.symm (placed.fresh q' valid₂ (by rw [← same]; exact placed.some))
    · rw [elsewhere q valid₁ first] at same some
      by_cases second : q' = r
      · rw [second, here] at same
        exact absurd same (placed.fresh q valid₁ some)
      · rw [elsewhere q' valid₂ second] at same
        exact wf.once q q' valid₁ valid₂ same some
  · intro q valid' some
    by_cases same : q = r
    · rw [same, here]
      exact marked
    · rw [elsewhere q valid' same] at some ⊢
      exact marks.used (wf.used q valid' some)
  · intro q leaf i bound
    unfold FileSystem.dataAt
    by_cases same : q = r
    · subst same
      rw [here, if_neg placed.some, missing, if_pos rfl]
      exact placed.cleared i bound
    · rw [elsewhere q leaf.toValid same]
      by_cases none : fs.zoneOf q = 0
      · rw [if_pos none, if_pos none]
      · rw [if_neg none, if_neg none, placed.disk _ (placed.fresh q leaf.toValid none)]
        intro held
        exact held.not_data wf valid leaf none rfl

end Grow

end K210Linux.Fs
