import K210Linux.Fs.BlockMap
import K210Linux.Fs.Files

namespace K210Linux.Fs

open Outcome

/-- `free_block`. The buffer of the block is dropped, so a later read finds what the device holds, `stale`. -/
def freeBlock (fs : FileSystem) (stale : Nat → Block) (block : Nat) : Except String FileSystem :=
  if block < fs.sb.firstdatazone.toNat ∨ fs.sb.nzones.toNat ≤ block then
    .error "trying to free block not in datazone"
  else
    let nr := block + 1 - fs.sb.firstdatazone.toNat
    match fs.sb.zmap (nr / bitsPerBlock) with
    | none => .error "s_zmap is NULL"
    | some bh => do
      let (clear, data) ← clearBit (nr % bitsPerBlock) bh.data
      if clear then .error "free_block: bit already cleared"
      else .ok { fs with
        sb.zmap := Function.update fs.sb.zmap (nr / bitsPerBlock) (some ⟨data, true⟩)
        disk := Function.update fs.disk block (stale block) }

/-- The loop of `free_ind` from entry `k` on. `free_block` leaves the index block itself, whose buffer is in
    use twice then. -/
def freeEntries (fs : FileSystem) (stale : Nat → Block) (block : Nat) (data : Block) (k : Nat) :
    Nat → Except String FileSystem
  | 0 => .ok fs
  | left + 1 =>
    let z := entryAt data k
    if z = 0 ∨ z = block then freeEntries fs stale block data (k + 1) left
    else do
      let fs ← freeBlock fs stale z
      freeEntries fs stale block data (k + 1) left

/-- `free_ind`. -/
def freeInd (fs : FileSystem) (stale : Nat → Block) (block : Nat) : Except String FileSystem :=
  if block = 0 then .ok fs
  else do
    let fs ← freeEntries fs stale block (fs.disk block) 0 512
    freeBlock fs stale block

/-- The loop of `truncate` over `i_zone` from slot `i` on. -/
def freeDirect (fs : FileSystem) (stale : Nat → Block) (ino i : Nat) : Nat → Except String FileSystem
  | 0 => .ok fs
  | left + 1 =>
    let z := ((fs.inode ino).zone i).toNat
    if z = 0 then freeDirect fs stale ino (i + 1) left
    else do
      let fs ← freeBlock fs stale z
      let inode := fs.inode ino
      freeDirect (fs.setInode ino { inode with zone := Function.update inode.zone i 0 }) stale ino (i + 1) left

/-- `truncate`, which hands `i_zone[8]` to `free_ind` as well. -/
def truncate (fs : FileSystem) (stale : Nat → Block) (ino : Nat) (time : BitVec 32) : Except String FileSystem :=
  if ¬ isReg (fs.inode ino).mode ∨ isDir (fs.inode ino).mode then .ok fs
  else do
    let fs ← freeDirect fs stale ino 0 7
    let fs ← freeInd fs stale ((fs.inode ino).zone 7).toNat
    let fs ← freeInd fs stale ((fs.inode ino).zone 8).toNat
    let inode := fs.inode ino
    .ok (fs.setInode ino { inode with
      zone := Function.update (Function.update inode.zone 7 0) 8 0
      size := 0, dirt := true, mtime := time, ctime := time })

section Freed

variable {fs fs₁ fs' : FileSystem} {stale : Nat → Block} {zones : Nat → Prop}

/-- Only zones among `zones` were freed, and only ones whose bits are aligned. -/
structure Freed (fs fs' : FileSystem) (zones : Nat → Prop) : Prop where
  sb : fs'.sb = { fs.sb with zmap := fs'.sb.zmap }
  disk : ∀ b, ¬ zones b → fs'.disk b = fs.disk b
  used : ∀ b, ¬ zones b → zoneUsed fs.sb b → zoneUsed fs'.sb b
  first : mapBit fs.sb.zmap 0 = true → mapBit fs'.sb.zmap 0 = true
  kept : ∀ n, ¬ BitAligned n → mapBit fs.sb.zmap n = true → mapBit fs'.sb.zmap n = true

theorem Freed.refl (fs : FileSystem) (zones : Nat → Prop) : Freed fs fs zones :=
  ⟨rfl, fun _ _ => rfl, fun _ _ used => used, fun set => set, fun _ _ set => set⟩

theorem Freed.trans (one : Freed fs fs₁ zones) (two : Freed fs₁ fs' zones) : Freed fs fs' zones where
  sb := by
    rw [two.sb, one.sb]
  disk b outside := (two.disk b outside).trans (one.disk b outside)
  used b outside used := two.used b outside (one.used b outside used)
  first set := two.first (one.first set)
  kept n bad set := two.kept n bad (one.kept n bad set)

theorem Freed.mono {more : Nat → Prop} (freed : Freed fs fs' zones) (among : ∀ b, zones b → more b) :
    Freed fs fs' more where
  sb := freed.sb
  disk b outside := freed.disk b fun inside => outside (among b inside)
  used b outside := freed.used b fun inside => outside (among b inside)
  first := freed.first
  kept := freed.kept

theorem Freed.setInode (freed : Freed fs fs' zones) (ino : Nat) (inode : MInode) :
    Freed fs (fs'.setInode ino inode) zones :=
  ⟨freed.sb, freed.disk, freed.used, freed.first, freed.kept⟩

theorem freeBlock_spec {block : Nat} (run : freeBlock fs stale block = .ok fs') (among : zones block) :
    Freed fs fs' zones ∧ fs'.inode = fs.inode := by
  unfold freeBlock at run
  split at run
  · cases run
  · rename_i inZones
    rw [not_or, not_lt, not_le] at inZones
    dsimp only at run
    split at run
    · cases run
    · rename_i bh present
      rcases of_bind run with ⟨⟨clear, data⟩, bit, rest⟩
      rcases of_clearBit bit with ⟨aligned, rfl, rfl⟩
      dsimp only at rest
      split at rest
      · cases rest
      · cases rest
        have inside : (block + 1 - fs.sb.firstdatazone.toNat) % bitsPerBlock < bitsPerBlock :=
          Nat.mod_lt _ (by decide)
        have number : (block + 1 - fs.sb.firstdatazone.toNat) % bitsPerBlock +
            (block + 1 - fs.sb.firstdatazone.toNat) / bitsPerBlock * bitsPerBlock =
            block + 1 - fs.sb.firstdatazone.toNat := by
          rw [bitsPerBlock]
          omega
        have bits := fun n => mapBit_unmarkBit (n := n) present inside
        rw [number] at bits
        have stays : ∀ n, n ≠ block + 1 - fs.sb.firstdatazone.toNat → mapBit fs.sb.zmap n = true →
            mapBit (Function.update fs.sb.zmap ((block + 1 - fs.sb.firstdatazone.toNat) / bitsPerBlock)
              (some ⟨unmarkBit ((block + 1 - fs.sb.firstdatazone.toNat) % bitsPerBlock) bh.data, true⟩)) n = true := by
          intro n apart set
          rw [bits n, set, decide_eq_true apart]
          rfl
        refine ⟨⟨rfl, ?_, ?_, ?_, ?_⟩, rfl⟩
        · intro b outside
          have other : b ≠ block := fun same => outside (same ▸ among)
          exact Function.update_of_ne other ..
        · intro b outside used
          have other : b ≠ block := fun same => outside (same ▸ among)
          have apart : b + 1 - fs.sb.firstdatazone.toNat ≠ block + 1 - fs.sb.firstdatazone.toNat := by
            have := used.1
            omega
          exact ⟨used.1, stays _ apart used.2⟩
        · exact stays 0 (by omega)
        · intro n bad
          refine stays n ?_
          rintro rfl
          exact bad ((bitAligned_mod _).mp aligned)

theorem freeEntries_spec {block k left : Nat} {data : Block}
    (run : freeEntries fs stale block data k left = .ok fs')
    (among : ∀ k', k ≤ k' → k' < k + left → entryAt data k' ≠ 0 → zones (entryAt data k')) :
    Freed fs fs' zones ∧ fs'.inode = fs.inode := by
  induction left generalizing fs k with
  | zero =>
    cases run
    exact ⟨Freed.refl _ _, rfl⟩
  | succ left ih =>
    unfold freeEntries at run
    dsimp only at run
    have later : ∀ k', k + 1 ≤ k' → k' < k + 1 + left → entryAt data k' ≠ 0 → zones (entryAt data k') :=
      fun k' above below => among k' (by omega) (by omega)
    split at run
    · exact ih run later
    · rename_i some
      rcases of_bind run with ⟨fs₁, free, rest⟩
      have here := among k (le_refl _) (by omega) fun none => some (.inl none)
      rcases freeBlock_spec free here with ⟨freed, inode⟩
      rcases ih rest later with ⟨freed', inode'⟩
      exact ⟨freed.trans freed', inode'.trans inode⟩

theorem freeInd_spec {block : Nat} (zones : Nat → Prop) (run : freeInd fs stale block = .ok fs')
    (own : block ≠ 0 → zones block)
    (among : block ≠ 0 → ∀ k, k < 512 → entryAt (fs.disk block) k ≠ 0 → zones (entryAt (fs.disk block) k)) :
    Freed fs fs' zones ∧ fs'.inode = fs.inode := by
  unfold freeInd at run
  split at run
  · cases run
    exact ⟨Freed.refl _ _, rfl⟩
  · rename_i some
    rcases of_bind run with ⟨fs₁, entries, last⟩
    rcases freeEntries_spec entries (fun k _ below => among some k (by omega)) with ⟨freed, inode⟩
    rcases freeBlock_spec last (own some) with ⟨freed', inode'⟩
    exact ⟨freed.trans freed', inode'.trans inode⟩

/-- The inodes differ in the zones of one of them. -/
structure Unzoned (fs fs' : FileSystem) (ino : Nat) : Prop where
  others : ∀ n, n ≠ ino → fs'.inode n = fs.inode n
  own : fs'.inode ino = { fs.inode ino with zone := (fs'.inode ino).zone }

theorem freeDirect_spec {ino i left : Nat} (zones : Nat → Prop) (run : freeDirect fs stale ino i left = .ok fs')
    (among : ∀ s, i ≤ s → s < i + left → ((fs.inode ino).zone s).toNat ≠ 0 → zones ((fs.inode ino).zone s).toNat) :
    Freed fs fs' zones ∧ Unzoned fs fs' ino ∧
      ∀ s, (fs'.inode ino).zone s = if i ≤ s ∧ s < i + left then 0 else (fs.inode ino).zone s := by
  induction left generalizing fs i with
  | zero =>
    cases run
    refine ⟨Freed.refl _ _, ⟨fun _ _ => rfl, rfl⟩, ?_⟩
    intro s
    rw [if_neg (by omega)]
  | succ left ih =>
    unfold freeDirect at run
    dsimp only at run
    split at run
    · rename_i none
      rcases ih run (fun s above below => among s (by omega) (by omega)) with ⟨freed, unzoned, slots⟩
      refine ⟨freed, unzoned, ?_⟩
      intro s
      rw [slots s]
      by_cases here : s = i
      · subst here
        rw [if_neg (by omega), if_pos ⟨le_refl _, by omega⟩]
        exact BitVec.eq_of_toNat_eq none
      · have same : (i + 1 ≤ s ∧ s < i + 1 + left) = (i ≤ s ∧ s < i + (left + 1)) := by
          apply propext
          omega
        simp only [same]
    · rename_i some
      rcases of_bind run with ⟨fs₁, free, rest⟩
      rcases freeBlock_spec free (among i (le_refl _) (by omega) some) with ⟨freed, inode⟩
      have zone : ∀ s, s ≠ i → ((fs₁.setInode ino { fs₁.inode ino with
          zone := Function.update (fs₁.inode ino).zone i 0 }).inode ino).zone s = (fs.inode ino).zone s := by
        intro s other
        simp only [FileSystem.setInode, Function.update_self, inode]
        exact Function.update_of_ne other ..
      rcases ih rest (by
        intro s above below
        rw [zone s (by omega)]
        exact among s (by omega) (by omega)) with ⟨freed', unzoned, slots⟩
      refine ⟨(freed.setInode ino _).trans freed', ⟨?_, ?_⟩, ?_⟩
      · intro n other
        rw [unzoned.others n other]
        simp only [FileSystem.setInode, Function.update_of_ne other, inode]
      · rw [unzoned.own]
        simp only [FileSystem.setInode, Function.update_self, inode]
      · intro s
        rw [slots s]
        by_cases here : s = i
        · subst here
          rw [if_neg (by omega), if_pos ⟨le_refl _, by omega⟩]
          simp only [FileSystem.setInode, Function.update_self]
        · have same : (i + 1 ≤ s ∧ s < i + 1 + left) = (i ≤ s ∧ s < i + (left + 1)) := by
            apply propext
            omega
          simp only [same, zone s here]

/-- The zones of an inode. -/
def ZoneIn (fs : FileSystem) (ino b : Nat) : Prop := ∃ r : Ref, r.Valid ∧ r.ino = ino ∧ fs.zoneOf r = b ∧ b ≠ 0

/-- Every zone of the inode is named once in it. -/
def OnceIn (fs : FileSystem) (ino : Nat) : Prop := ∀ r r' : Ref, r.Valid → r'.Valid → r.ino = ino → r'.ino = ino →
  fs.zoneOf r = fs.zoneOf r' → fs.zoneOf r ≠ 0 → r = r'

/-- What `truncate` did to an inode that is no regular file, or is one. -/
structure Truncated (fs fs' : FileSystem) (ino : Nat) (time : BitVec 32) : Prop where
  freed : Freed fs fs' (ZoneIn fs ino)
  others : ∀ n, n ≠ ino → fs'.inode n = fs.inode n
  own : fs'.inode ino = { fs.inode ino with
    zone := (fs'.inode ino).zone, size := 0, dirt := true, mtime := time, ctime := time }
  slots : ∀ s, s < 9 → (fs'.inode ino).zone s = 0

theorem truncate_other {ino : Nat} {time : BitVec 32} (other : ¬ isReg (fs.inode ino).mode) :
    truncate fs stale ino time = .ok fs := if_pos (.inl other)

theorem not_isDir_of_isReg {mode : BitVec 16} (reg : isReg mode) : ¬ isDir mode := by
  have same : mode &&& 0o170000 = 0o100000 := of_decide_eq_true reg
  unfold isDir
  rw [same]
  decide

theorem truncate_spec {ino : Nat} {time : BitVec 32} (reg : isReg (fs.inode ino).mode) (once : OnceIn fs ino)
    (run : truncate fs stale ino time = .ok fs') : Truncated fs fs' ino time := by
  have called : ¬ (¬ isReg (fs.inode ino).mode ∨ isDir (fs.inode ino).mode) := by
    rw [not_or, not_not]
    exact ⟨reg, not_isDir_of_isReg reg⟩
  unfold truncate at run
  rw [if_neg called] at run
  rcases of_bind run with ⟨fs₁, direct, run₁⟩
  rcases of_bind run₁ with ⟨fs₂, single, run₂⟩
  rcases of_bind run₂ with ⟨fs₃, double, last⟩
  cases last
  have direct_valid : ∀ s, s < 9 → Ref.Valid ⟨ino, s, []⟩ := fun s small => ⟨small, Nat.zero_le _, nofun⟩
  have entry_valid : ∀ s k, 7 ≤ s → s < 9 → k < 512 → Ref.Valid ⟨ino, s, [k]⟩ := by
    intro s k large small bound
    refine ⟨small, ?_, ?_⟩
    · simp only [List.length_cons, List.length_nil, depth]
      omega
    · intro k' isIn
      rw [List.mem_singleton.mp isIn]
      exact bound
  have slot_zone : ∀ s, s < 9 → ((fs.inode ino).zone s).toNat ≠ 0 → ZoneIn fs ino ((fs.inode ino).zone s).toNat :=
    fun s small some => ⟨⟨ino, s, []⟩, direct_valid s small, rfl, rfl, some⟩
  have entry_eq : ∀ s k, ((fs.inode ino).zone s).toNat ≠ 0 → fs.zoneOf ⟨ino, s, [k]⟩ =
      entryAt (fs.disk ((fs.inode ino).zone s).toNat) k := fun s k some => if_neg some
  rcases freeDirect_spec (fun b => ∃ s, s < 7 ∧ ((fs.inode ino).zone s).toNat = b ∧ b ≠ 0) direct
    (fun s _ below some => ⟨s, by omega, rfl, some⟩) with ⟨freed₁, unzoned, slots⟩
  have kept : ∀ s, 7 ≤ s → (fs₁.inode ino).zone s = (fs.inode ino).zone s := by
    intro s above
    rw [slots s, if_neg (by omega)]
  -- the index blocks are none of the zones that were freed before them
  have apart₁ : ∀ s, 7 ≤ s → s < 9 → ((fs.inode ino).zone s).toNat ≠ 0 →
      fs₁.disk ((fs.inode ino).zone s).toNat = fs.disk ((fs.inode ino).zone s).toNat := by
    intro s above small some
    apply freed₁.disk
    intro inside
    rcases inside with ⟨s', below, same, _⟩
    have equal := once ⟨ino, s, []⟩ ⟨ino, s', []⟩ (direct_valid s small) (direct_valid s' (by omega)) rfl rfl
      same.symm some
    have slot := (Ref.mk.inj equal).2.1
    omega
  rcases freeInd_spec (fun b => b ≠ 0 ∧ (((fs.inode ino).zone 7).toNat = b ∨
      ∃ k, k < 512 ∧ fs.zoneOf ⟨ino, 7, [k]⟩ = b)) single
    (by rw [kept 7 (le_refl _)]; exact fun some => ⟨some, .inl rfl⟩)
    (by
      rw [kept 7 (le_refl _)]
      intro some k bound present
      rw [apart₁ 7 (le_refl _) (by decide) some] at present ⊢
      exact ⟨present, .inr ⟨k, bound, entry_eq 7 k some⟩⟩) with ⟨freed₂, inode₂⟩
  have kept₂ : (fs₂.inode ino).zone 8 = (fs.inode ino).zone 8 := by
    rw [inode₂]
    exact kept 8 (by decide)
  have apart₂ : ((fs.inode ino).zone 8).toNat ≠ 0 →
      fs₂.disk ((fs.inode ino).zone 8).toNat = fs.disk ((fs.inode ino).zone 8).toNat := by
    intro some
    rw [← apart₁ 8 (by decide) (by decide) some]
    apply freed₂.disk
    intro inside
    rcases inside with ⟨_, same | ⟨k, bound, same⟩⟩
    · have equal := once ⟨ino, 8, []⟩ ⟨ino, 7, []⟩ (direct_valid 8 (by decide)) (direct_valid 7 (by decide)) rfl rfl
        same.symm some
      exact absurd (Ref.mk.inj equal).2.1 (by decide)
    · have equal := once ⟨ino, 8, []⟩ ⟨ino, 7, [k]⟩ (direct_valid 8 (by decide))
        (entry_valid 7 k (le_refl _) (by decide) bound) rfl rfl same.symm some
      exact absurd (Ref.mk.inj equal).2.1 (by decide)
  rcases freeInd_spec (ZoneIn fs ino) double
    (by rw [kept₂]; exact slot_zone 8 (by decide))
    (by
      rw [kept₂]
      intro some k bound present
      rw [apart₂ some] at present ⊢
      exact ⟨_, entry_valid 8 k (by decide) (by decide) bound, rfl, entry_eq 8 k some, present⟩)
    with ⟨freed₃, inode₃⟩
  have all₁ : Freed fs fs₁ (ZoneIn fs ino) := by
    apply freed₁.mono
    intro b inside
    rcases inside with ⟨s, below, same, some⟩
    rw [← same] at some ⊢
    exact slot_zone s (by omega) some
  have all₂ : Freed fs₁ fs₂ (ZoneIn fs ino) := by
    apply freed₂.mono
    intro b inside
    rcases inside with ⟨some, same | ⟨k, bound, same⟩⟩
    · rw [← same] at some ⊢
      exact slot_zone 7 (by decide) some
    · exact ⟨_, entry_valid 7 k (le_refl _) (by decide) bound, rfl, same, some⟩
  constructor
  · exact ((all₁.trans all₂).trans freed₃).setInode ino _
  · intro n other
    simp only [FileSystem.setInode, Function.update_of_ne other, inode₃, inode₂]
    exact unzoned.others n other
  · simp only [FileSystem.setInode, Function.update_self, inode₃, inode₂]
    rw [unzoned.own]
  · intro s small
    simp only [FileSystem.setInode, Function.update_self, inode₃, inode₂]
    by_cases eight : s = 8
    · rw [eight, Function.update_self]
    · rw [Function.update_of_ne eight]
      by_cases seven : s = 7
      · rw [seven, Function.update_self]
      · rw [Function.update_of_ne seven, slots s, if_pos ⟨Nat.zero_le _, by omega⟩]

end Freed

end K210Linux.Fs
