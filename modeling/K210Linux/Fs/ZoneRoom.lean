import K210Linux.Fs.Space

/-! For how many blocks of a file the free zones of its device last. -/

namespace K210Linux.Fs

open Outcome

variable {fs fs' fs₁ : FileSystem} {r : Ref}

section Free

/-- So many times `new_block` finds a zone: not once where zone 0 is free, because its number means that there is none. -/
def zoneRoom (sb : SuperBlock) : Nat := if 0 ∈ freeZones sb then 0 else (freeZones sb).card

theorem zoneRoom_eq_zero_iff (sb : SuperBlock) : zoneRoom sb = 0 ↔ ¬ ZoneInReach sb := by
  have some : (freeZones sb).card = 0 ↔ ¬ ∃ z, sb.firstdatazone.toNat ≤ z ∧ z < sb.nzones.toNat ∧
      Findable sb.zmap (z + 1 - sb.firstdatazone.toNat) := by
    rw [Finset.card_eq_zero, Finset.eq_empty_iff_forall_notMem]
    simp only [mem_freeZones, not_exists]
  have zero : 0 ∈ freeZones sb ↔ 0 < sb.nzones.toNat ∧ sb.firstdatazone = 0 ∧ Findable sb.zmap 1 := by
    rw [mem_freeZones, Nat.le_zero]
    constructor
    · rintro ⟨none, below, found⟩
      rw [none] at found
      exact ⟨below, BitVec.eq_of_toNat_eq none, found⟩
    · rintro ⟨below, first, found⟩
      rw [first]
      exact ⟨rfl, below, found⟩
  unfold zoneRoom ZoneInReach
  split
  · rename_i isIn
    rw [zero] at isIn
    exact iff_of_true rfl fun reach => reach.2 isIn.2
  · rename_i notIn
    rw [some]
    constructor
    · intro none reach
      exact none reach.1
    · rintro unreached ⟨z, above, below, found⟩
      have first : ¬ (sb.firstdatazone = 0 ∧ Findable sb.zmap 1) := by
        intro both
        exact notIn (zero.mpr ⟨by omega, both⟩)
      exact unreached ⟨⟨z, above, below, found⟩, first⟩

theorem newBlock_takes (first : mapBit fs.sb.zmap 0 = true) {z : Nat} (run : newBlock fs = .ok (z, fs')) (some : z ≠ 0) :
    z ∈ freeZones fs.sb ∧ freeZones fs'.sb = (freeZones fs.sb).erase z := by
  have took := newBlock_taking fs
  rw [run] at took
  cases took with
  | full none => exact absurd rfl some
  | behind marked outside => exact absurd rfl some
  | @taken n _ zmap marked zone inside =>
    have positive := marked.positive first
    have number : z + 1 - fs.sb.firstdatazone.toNat = n := by omega
    constructor
    · rw [mem_freeZones, number]
      exact ⟨by omega, inside, marked.next.found⟩
    · rw [zone]
      exact marked.freeZones first

/-- `new_block` takes one of the free zones, as long as there is room. -/
theorem newBlock_room (first : mapBit fs.sb.zmap 0 = true) {z : Nat} (run : newBlock fs = .ok (z, fs')) :
    (z = 0 ↔ zoneRoom fs.sb = 0) ∧ (z ≠ 0 → zoneRoom fs'.sb + 1 = zoneRoom fs.sb) := by
  have none : z = 0 ↔ zoneRoom fs.sb = 0 := by
    have zero := newBlock_zero_iff first
    rw [run] at zero
    rw [zoneRoom_eq_zero_iff]
    constructor
    · rintro rfl
      exact (zero.mp ⟨fs', rfl⟩).1
    · intro unreached
      have aligned : ¬ NextHalts fs.sb := by
        rintro ⟨n, next, bad⟩
        have took := newBlock_taking fs
        rw [run] at took
        cases took with
        | full none => exact none n next.slot next.found
        | behind marked outside => exact marked.not_nextHalts ⟨n, next, bad⟩
        | taken marked zone inside => exact marked.not_nextHalts ⟨n, next, bad⟩
      rcases zero.mpr ⟨unreached, aligned⟩ with ⟨fs₀, same⟩
      exact (Prod.mk.inj (Except.ok.inj same)).1
  refine ⟨none, ?_⟩
  intro some
  have room : 0 ∉ freeZones fs.sb := by
    intro isIn
    exact some (none.mpr (if_pos isIn))
  have taken := newBlock_takes first run some
  have later : 0 ∉ freeZones fs'.sb := by
    rw [taken.2]
    exact fun isIn => room (Finset.mem_of_mem_erase isIn)
  unfold zoneRoom
  rw [if_neg room, if_neg later, taken.2]
  exact Finset.card_erase_add_one taken.1

end Free

section Fill

/-- All the places name zones, which were free where they had none. -/
structure GotZones (fs fs' : FileSystem) (places : Finset Ref) : Prop where
  present : ∀ q ∈ places, fs'.zoneOf q ≠ 0
  others : ∀ q : Ref, q.Valid → q ∉ places → fs'.zoneOf q = fs.zoneOf q
  room : zoneRoom fs'.sb + (absent fs places).card = zoneRoom fs.sb

/-- `_bmap` went as far as `r`: it has all the places up to there, or there was no room for them. -/
structure Reached (fs fs' : FileSystem) (r : Ref) : Prop where
  grown : Extends fs fs'
  took : fs'.zoneOf r ≠ 0 → GotZones fs fs' r.way
  full : fs'.zoneOf r = 0 → zoneRoom fs.sb < (absent fs r.way).card

/-- What one call of `new_block` decides about a place. -/
structure Tried (fs fs' : FileSystem) (r : Ref) : Prop extends Touches fs fs' r where
  full : fs'.zoneOf r = 0 → fs.zoneOf r = 0 ∧ zoneRoom fs.sb = 0
  took : fs.zoneOf r = 0 → fs'.zoneOf r ≠ 0 → zoneRoom fs'.sb + 1 = zoneRoom fs.sb

theorem Touches.tried (touches : Touches fs fs' r) (first : mapBit fs.sb.zmap 0 = true)
    (new : fs.zoneOf r = 0 → ∃ fs₀, newBlock fs = .ok (fs'.zoneOf r, fs₀) ∧ fs'.sb = fs₀.sb) : Tried fs fs' r := by
  refine ⟨touches, ?_, ?_⟩
  · intro zero
    have missing : fs.zoneOf r = 0 := by
      by_contra present
      rw [touches.present present] at zero
      exact present zero
    rcases new missing with ⟨fs₀, run₀, -⟩
    exact ⟨missing, (newBlock_room first run₀).1.mp zero⟩
  · intro missing present
    rcases new missing with ⟨fs₀, run₀, sb⟩
    rw [sb]
    exact (newBlock_room first run₀).2 present

theorem GotZones.none (fs : FileSystem) : GotZones fs fs ∅ :=
  ⟨fun _ isIn => absurd isIn (Finset.notMem_empty _), fun _ _ _ => rfl, rfl⟩

section Next

variable {places : Finset Ref} (taken : GotZones fs fs₁ places) (valid : r.Valid) (notIn : r ∉ places)
  (tried : Tried fs₁ fs' r)

include taken valid notIn tried

theorem GotZones.insert (inside : ∀ q ∈ places, q.Valid) (some : fs'.zoneOf r ≠ 0) : GotZones fs fs' (insert r places) := by
  have before : fs₁.zoneOf r = fs.zoneOf r := taken.others r valid notIn
  have apart : ∀ q ∈ places, q ≠ r := by
    rintro q isIn rfl
    exact notIn isIn
  constructor
  · intro q isIn
    rcases Finset.mem_insert.mp isIn with rfl | isIn
    · exact some
    · rw [tried.others q (inside q isIn) (apart q isIn)]
      exact taken.present q isIn
  · intro q validQ notInQ
    rw [Finset.mem_insert, not_or] at notInQ
    rw [tried.others q validQ notInQ.1]
    exact taken.others q validQ notInQ.2
  · have room := taken.room
    by_cases missing : fs.zoneOf r = 0
    · have one := tried.took (before.trans missing) some
      rw [absent_insert_of_zero notIn missing]
      omega
    · rw [absent_insert_of_ne missing, tried.present (by rwa [before])]
      exact room

theorem GotZones.full (none : fs'.zoneOf r = 0) : zoneRoom fs.sb < (absent fs (Insert.insert r places)).card := by
  rcases tried.full none with ⟨missing, empty⟩
  rw [taken.others r valid notIn] at missing
  have room := taken.room
  rw [absent_insert_of_zero notIn missing]
  omega

end Next

variable {ino slot k : Nat} {path : List Nat} {time : BitVec 32}

theorem Reached.first (valid : Ref.Valid ⟨ino, slot, []⟩) (grown : Extends fs fs') (tried : Tried fs fs' ⟨ino, slot, []⟩) :
    Reached fs fs' ⟨ino, slot, []⟩ where
  grown := grown
  took some := (GotZones.none fs).insert valid (Finset.notMem_empty _) tried (fun _ isIn => absurd isIn (Finset.notMem_empty _)) some
  full none := (GotZones.none fs).full valid (Finset.notMem_empty _) tried none

theorem Reached.next (filled : Reached fs fs₁ ⟨ino, slot, path⟩) (some : fs₁.zoneOf ⟨ino, slot, path⟩ ≠ 0)
    (valid : Ref.Valid ⟨ino, slot, k :: path⟩) (grown : Extends fs₁ fs') (tried : Tried fs₁ fs' ⟨ino, slot, k :: path⟩) :
    Reached fs fs' ⟨ino, slot, k :: path⟩ where
  grown := filled.grown.trans grown
  took present := (filled.took some).insert valid (Ref.notMem_way ino slot k path) tried (fun _ isIn => valid.parent.way isIn) present
  full none := (filled.took some).full valid (Ref.notMem_way ino slot k path) tried none

/-- Without the index block nothing is looked for in it. -/
theorem Reached.stop (filled : Reached fs fs' ⟨ino, slot, path⟩) (none : fs'.zoneOf ⟨ino, slot, path⟩ = 0) (k : Nat) :
    Reached fs fs' ⟨ino, slot, k :: path⟩ where
  grown := filled.grown
  took some := absurd (zoneOf_below none) some
  full _ := by
    have more : (absent fs (Ref.way ⟨ino, slot, path⟩)).card ≤ (absent fs (Ref.way ⟨ino, slot, k :: path⟩)).card :=
      Finset.card_le_card (Finset.filter_subset_filter _ (Finset.subset_insert ..))
    exact lt_of_lt_of_le (filled.full none) more

variable {z : Nat}

theorem inodeZone_fills (wf : fs.Wf) (valid : Ref.Valid ⟨ino, slot, []⟩) (run : inodeZone fs ino slot true time = .ok (z, fs')) :
    fs'.zoneOf ⟨ino, slot, []⟩ = z ∧ Reached fs fs' ⟨ino, slot, []⟩ := by
  rcases inodeZone_create wf valid run with ⟨grown, here, touches⟩
  refine ⟨here, Reached.first valid grown (touches.tried wf.first ?_)⟩
  intro missing
  have none : ((fs.inode ino).zone slot).toNat = 0 := missing
  rw [here]
  unfold inodeZone at run
  simp only [none, and_self, if_true] at run
  rcases of_bind run with ⟨⟨z', fs₀⟩, new, rest⟩
  dsimp only at rest
  split at rest
  · rename_i full
    cases rest
    rw [full] at new
    exact ⟨fs', new, rfl⟩
  · cases rest
    exact ⟨fs₀, new, rfl⟩

theorem Reached.entry (filled : Reached fs fs₁ ⟨ino, slot, path⟩) (some : fs₁.zoneOf ⟨ino, slot, path⟩ ≠ 0)
    (valid : Ref.Valid ⟨ino, slot, k :: path⟩)
    (run : blockEntry fs₁ (fs₁.zoneOf ⟨ino, slot, path⟩) k true = .ok (z, fs')) :
    fs'.zoneOf ⟨ino, slot, k :: path⟩ = z ∧ Reached fs fs' ⟨ino, slot, k :: path⟩ := by
  rcases blockEntry_create filled.grown.wf valid some run with ⟨grown, here, touches⟩
  refine ⟨here, filled.next some valid grown (touches.tried filled.grown.wf.first ?_)⟩
  intro missing
  rw [zoneOf_cons, if_neg some] at missing
  rw [here]
  unfold blockEntry at run
  simp only [missing, and_self, if_true] at run
  rcases of_bind run with ⟨⟨z', fs₀⟩, new, rest⟩
  dsimp only at rest
  split at rest
  · rename_i full
    cases rest
    rw [full] at new
    exact ⟨fs', new, rfl⟩
  · cases rest
    exact ⟨fs₀, new, rfl⟩

theorem createBlock_fills (wf : fs.Wf) {block : Nat} (bound : block < bigBlock)
    (run : createBlock fs ino block time = .ok (z, fs')) :
    fs'.zoneOf (blockRef ino block) = z ∧ Reached fs fs' (blockRef ino block) := by
  have leaf := blockRef_leaf ino bound
  have inRange : ¬ 7 + 512 + 512 * 512 ≤ block := not_le.mpr bound
  unfold createBlock bmapWith at run
  unfold blockRef at leaf ⊢
  rw [if_neg inRange] at run
  split_ifs at leaf run ⊢ with direct single
  · exact inodeZone_fills wf leaf.toValid run
  · rcases of_bind run with ⟨⟨z₁, fs₁⟩, first, rest⟩
    rcases inodeZone_fills wf leaf.toValid.parent first with ⟨here, filled⟩
    subst here
    by_cases none : fs₁.zoneOf ⟨ino, 7, []⟩ = 0
    · simp only [none, if_true] at rest
      cases rest
      exact ⟨zoneOf_below none, filled.stop none _⟩
    · simp only [none, if_false] at rest
      exact filled.entry none leaf.toValid rest
  · rcases of_bind run with ⟨⟨z₁, fs₁⟩, first, rest⟩
    rcases inodeZone_fills wf leaf.toValid.parent.parent first with ⟨here, filled⟩
    subst here
    by_cases none : fs₁.zoneOf ⟨ino, 8, []⟩ = 0
    · simp only [none, if_true] at rest
      cases rest
      exact ⟨zoneOf_below (zoneOf_below none), (filled.stop none _).stop (zoneOf_below none) _⟩
    · simp only [none, if_false] at rest
      rcases of_bind rest with ⟨⟨z₂, fs₂⟩, second, rest₂⟩
      rcases filled.entry none leaf.toValid.parent second with ⟨here₂, filled₂⟩
      subst here₂
      by_cases empty : fs₂.zoneOf ⟨ino, 8, [(block - 7 - 512) / 512]⟩ = 0
      · simp only [empty, if_true] at rest₂
        cases rest₂
        exact ⟨zoneOf_below empty, filled₂.stop empty _⟩
      · simp only [empty, if_false] at rest₂
        exact filled₂.entry empty leaf.toValid rest₂

end Fill

section Lasts

variable {ino block : Nat}

/-- The places that the blocks of a file from `a` up to `b` need. -/
def placesIn (ino a b : Nat) : Finset Ref := (Finset.Ico a b).biUnion fun n => (blockRef ino n).way

/-- The places that the blocks of a file from `block` on need. -/
def placesFrom (ino block : Nat) : Finset Ref := placesIn ino block bigBlock

/-- The free zones are enough for all blocks of the file from `block` on. -/
def Lasts (fs : FileSystem) (ino block : Nat) : Prop := (absent fs (placesFrom ino block)).card ≤ zoneRoom fs.sb

section Places

variable {a b : Nat}

theorem placesIn_valid {q : Ref} (bound : b ≤ bigBlock) (isIn : q ∈ placesIn ino a b) : q.Valid := by
  rcases Finset.mem_biUnion.mp isIn with ⟨n, inside, isIn⟩
  have below := (Finset.mem_Ico.mp inside).2
  exact (blockRef_leaf ino (by omega)).toValid.way isIn

theorem placesIn_succ (before : a < b) : placesIn ino a b = (blockRef ino a).way ∪ placesIn ino (a + 1) b := by
  unfold placesIn
  rw [← Finset.insert_Ico_succ_left_eq_Ico before, Finset.biUnion_insert]
  rfl

theorem placesIn_self (ino : Nat) (large : b ≤ a) : placesIn ino a b = ∅ := by
  unfold placesIn
  rw [Finset.Ico_eq_empty_of_le large]
  rfl

theorem absent_congr (bound : b ≤ bigBlock) (zones : ∀ q : Ref, q.Valid → fs'.zoneOf q = fs.zoneOf q) :
    absent fs' (placesIn ino a b) = absent fs (placesIn ino a b) := by
  apply Finset.filter_congr
  intro q isIn
  rw [zones q (placesIn_valid bound isIn)]

theorem absent_way_le (before : a < b) :
    (absent fs (blockRef ino a).way).card ≤ (absent fs (placesIn ino a b)).card := by
  rw [placesIn_succ before]
  exact Finset.card_le_card (Finset.filter_subset_filter _ Finset.subset_union_left)

/-- The zones of a block are counted once. -/
theorem Reached.count (filled : Reached fs fs' (blockRef ino a)) (before : a < b) (bound : b ≤ bigBlock)
    (some : fs'.zoneOf (blockRef ino a) ≠ 0) : (absent fs (placesIn ino a b)).card =
      (absent fs (blockRef ino a).way).card + (absent fs' (placesIn ino (a + 1) b)).card := by
  have taken := filled.took some
  have parts : absent fs (placesIn ino a b) = absent fs (blockRef ino a).way ∪ absent fs' (placesIn ino (a + 1) b) := by
    ext q
    rw [placesIn_succ before, Finset.mem_union, mem_absent, mem_absent, mem_absent, Finset.mem_union]
    constructor
    · rintro ⟨isIn, none⟩
      by_cases way : q ∈ (blockRef ino a).way
      · exact .inl ⟨way, none⟩
      · have later := isIn.resolve_left way
        rw [← taken.others q (placesIn_valid bound later) way] at none
        exact .inr ⟨later, none⟩
    · rintro (⟨way, none⟩ | ⟨later, none⟩)
      · exact ⟨.inl way, none⟩
      · rw [taken.others q (placesIn_valid bound later) fun way => taken.present q way none] at none
        exact ⟨.inr later, none⟩
  have apart : Disjoint (absent fs (blockRef ino a).way) (absent fs' (placesIn ino (a + 1) b)) := by
    rw [Finset.disjoint_left]
    intro q way later
    exact taken.present q (mem_absent.mp way).1 (mem_absent.mp later).2
  rw [parts, Finset.card_union_of_disjoint apart]

/-- The zones of the first block, and then those of the others. -/
theorem createBlock_aligned (wf : fs.Wf) (before : a < b) (bound : b ≤ bigBlock) (time : BitVec 32) :
    AlignedFor fs.sb (absent fs (placesIn ino a b)).card ↔ ∃ z fs₁, createBlock fs ino a time = .ok (z, fs₁) ∧
      (z ≠ 0 → AlignedFor fs₁.sb (absent fs₁ (placesIn ino (a + 1) b)).card) := by
  have inRange : a < bigBlock := lt_of_lt_of_le before bound
  have fewer : (absent fs (blockRef ino a).way).card ≤ (absent fs (placesIn ino a b)).card := absent_way_le before
  have parts := Nat.add_sub_of_le fewer
  rw [← parts, createBlock_allots wf ino inRange time]
  have rest : ∀ z fs₁, createBlock fs ino a time = .ok (z, fs₁) → z ≠ 0 →
      (absent fs (placesIn ino a b)).card - (absent fs (blockRef ino a).way).card =
        (absent fs₁ (placesIn ino (a + 1) b)).card := by
    intro z fs₁ run some
    rcases createBlock_fills wf inRange run with ⟨here, reached⟩
    rw [reached.count before bound (by rwa [here]), Nat.add_sub_cancel_left]
  constructor
  · rintro ⟨z, fs₁, run, aligned⟩
    exact ⟨z, fs₁, run, fun some => rest z fs₁ run some ▸ aligned some⟩
  · rintro ⟨z, fs₁, run, aligned⟩
    exact ⟨z, fs₁, run, fun some => (rest z fs₁ run some).symm ▸ aligned some⟩

end Places

theorem lasts_of_big (fs : FileSystem) (ino : Nat) (large : bigBlock ≤ block) : Lasts fs ino block := by
  unfold Lasts placesFrom
  rw [placesIn_self ino large]
  exact Nat.zero_le _

theorem Lasts.congr (sb : fs'.sb = fs.sb) (zones : ∀ q : Ref, q.Valid → fs'.zoneOf q = fs.zoneOf q) :
    Lasts fs' ino block ↔ Lasts fs ino block := by
  unfold Lasts placesFrom
  rw [absent_congr (le_refl _) zones, sb]

theorem Reached.lasts_iff (filled : Reached fs fs' (blockRef ino block)) (bound : block < bigBlock)
    (some : fs'.zoneOf (blockRef ino block) ≠ 0) : Lasts fs ino block ↔ Lasts fs' ino (block + 1) := by
  have room := (filled.took some).room
  unfold Lasts placesFrom
  rw [filled.count bound (le_refl _) some]
  omega

theorem Reached.not_lasts (filled : Reached fs fs' (blockRef ino block)) (bound : block < bigBlock)
    (none : fs'.zoneOf (blockRef ino block) = 0) : ¬ Lasts fs ino block :=
  not_le.mpr (lt_of_lt_of_le (filled.full none) (absent_way_le bound))

end Lasts

end K210Linux.Fs
