import K210Linux.Fs.Truncate

namespace K210Linux.Fs

open Outcome

variable {fs fs₁ fs' : FileSystem} {stale : Nat → Block} {zones more : Nat → Prop} {z : Nat}

/-- A zone of the device that is marked. -/
structure ZoneFreeable (sb : SuperBlock) (z : Nat) : Prop where
  used : zoneUsed sb z
  inside : z < sb.nzones.toNat

/-- Such a zone whose bit `clear_bit` can reach. -/
structure ZoneClearable (sb : SuperBlock) (z : Nat) : Prop extends ZoneFreeable sb z where
  aligned : BitAligned (z + 1 - sb.firstdatazone.toNat)

/-- The bits of `zones` were cleared and no other, and only these zones lost their buffers. -/
structure Released (fs fs' : FileSystem) (zones : Nat → Prop) : Prop where
  sb : fs'.sb = { fs.sb with zmap := fs'.sb.zmap }
  disk : ∀ b, ¬ zones b → fs'.disk b = fs.disk b
  bits : ∀ n, mapBit fs'.sb.zmap n = true ↔
    mapBit fs.sb.zmap n = true ∧ ∀ z, zones z → n ≠ z + 1 - fs.sb.firstdatazone.toNat

theorem Released.refl (fs : FileSystem) : Released fs fs fun _ => False :=
  ⟨rfl, fun _ _ => rfl, fun _ => ⟨fun set => ⟨set, nofun⟩, fun both => both.1⟩⟩

theorem Released.trans (one : Released fs fs₁ zones) (two : Released fs₁ fs' more) :
    Released fs fs' fun z => zones z ∨ more z where
  sb := by rw [two.sb, one.sb]
  disk b outside := by
    rw [not_or] at outside
    rw [two.disk b outside.2, one.disk b outside.1]
  bits n := by
    have first : fs₁.sb.firstdatazone = fs.sb.firstdatazone := by rw [one.sb]
    rw [two.bits, one.bits, first, and_assoc]
    apply and_congr_right
    intro _
    constructor
    · rintro ⟨left, right⟩ z (here | there)
      · exact left z here
      · exact right z there
    · intro all
      exact ⟨fun z here => all z (.inl here), fun z there => all z (.inr there)⟩

theorem Released.congr (released : Released fs fs' zones) (same : ∀ z, more z ↔ zones z) : Released fs fs' more := by
  have equal : more = zones := funext fun z => propext (same z)
  rw [equal]
  exact released

theorem Released.setInode (released : Released fs fs' zones) (ino : Nat) (inode : MInode) :
    Released fs (fs'.setInode ino inode) zones := ⟨released.sb, released.disk, released.bits⟩

/-- A zone that was not freed can still be freed. -/
theorem ZoneFreeable.released (freeable : ZoneFreeable fs.sb z) (released : Released fs fs' zones) (apart : ¬ zones z) :
    ZoneFreeable fs'.sb z := by
  have first : fs'.sb.firstdatazone = fs.sb.firstdatazone := by rw [released.sb]
  have last : fs'.sb.nzones = fs.sb.nzones := by rw [released.sb]
  rcases freeable.used with ⟨above, set⟩
  refine ⟨⟨?_, ?_⟩, ?_⟩
  · rw [first]
    exact above
  · rw [first, released.bits]
    refine ⟨set, ?_⟩
    intro z' freed same
    have other : z' ≠ z := fun equal => apart (equal ▸ freed)
    omega
  · rw [last]
    exact freeable.inside

theorem ZoneClearable.released (clearable : ZoneClearable fs.sb z) (released : Released fs fs' zones) (apart : ¬ zones z) :
    ZoneClearable fs'.sb z := by
  refine ⟨clearable.toZoneFreeable.released released apart, ?_⟩
  rw [released.sb]
  exact clearable.aligned

theorem freeBlock_releases (freeable : ZoneClearable fs.sb z) (stale : Nat → Block) :
    ∃ fs', freeBlock fs stale z = .ok fs' ∧ Released fs fs' (fun b => b = z) ∧ fs'.inode = fs.inode := by
  rcases freeable.used with ⟨above, set⟩
  have inside := freeable.inside
  have inZones : ¬ (z < fs.sb.firstdatazone.toNat ∨ fs.sb.nzones.toNat ≤ z) := by omega
  have small : (z + 1 - fs.sb.firstdatazone.toNat) % bitsPerBlock < bitsPerBlock := Nat.mod_lt _ (by decide)
  have number : (z + 1 - fs.sb.firstdatazone.toNat) % bitsPerBlock +
      (z + 1 - fs.sb.firstdatazone.toNat) / bitsPerBlock * bitsPerBlock = z + 1 - fs.sb.firstdatazone.toNat := by
    rw [bitsPerBlock]
    omega
  unfold mapBit at set
  cases present : fs.sb.zmap ((z + 1 - fs.sb.firstdatazone.toNat) / bitsPerBlock) with
  | none =>
    rw [present] at set
    cases set
  | some bh =>
    simp only [present] at set
    have bits := fun n => mapBit_unmarkBit (n := n) present small
    rw [number] at bits
    unfold freeBlock
    rw [if_neg inZones]
    simp only [present]
    rw [bind_ok (clearBit_of_aligned ((bitAligned_mod _).mpr freeable.aligned))]
    simp only [set, Bool.not_true, Bool.false_eq_true, if_false]
    refine ⟨_, rfl, ⟨rfl, ?_, ?_⟩, rfl⟩
    · intro b other
      exact Function.update_of_ne other ..
    · intro n
      rw [bits n]
      simp

/-- A zone that one of the entries from `k` on names. -/
def NamedFrom (entry : Nat → Nat) (k left b : Nat) : Prop := b ≠ 0 ∧ ∃ k', k ≤ k' ∧ k' < k + left ∧ entry k' = b

theorem namedFrom_succ (entry : Nat → Nat) (k left b : Nat) :
    NamedFrom entry k (left + 1) b ↔ (b ≠ 0 ∧ b = entry k) ∨ NamedFrom entry (k + 1) left b := by
  constructor
  · rintro ⟨some, k', above, below, same⟩
    by_cases here : k' = k
    · rw [here] at same
      exact .inl ⟨some, same.symm⟩
    · exact .inr ⟨some, k', by omega, by omega, same⟩
  · rintro (⟨some, same⟩ | ⟨some, k', above, below, same⟩)
    · exact ⟨some, k, le_refl _, by omega, same.symm⟩
    · exact ⟨some, k', by omega, by omega, same⟩

/-- The loop of `free_ind` over entries that are named once. -/
theorem freeEntries_releases {block k left : Nat} {data : Block} (stale : Nat → Block)
    (freeable : ∀ b, NamedFrom (entryAt data) k left b → ZoneClearable fs.sb b ∧ b ≠ block)
    (once : ∀ i j, k ≤ i → i < k + left → k ≤ j → j < k + left → entryAt data i = entryAt data j →
      entryAt data i ≠ 0 → i = j) :
    ∃ fs', freeEntries fs stale block data k left = .ok fs' ∧ Released fs fs' (NamedFrom (entryAt data) k left) ∧
      fs'.inode = fs.inode := by
  induction left generalizing fs k with
  | zero =>
    refine ⟨fs, rfl, (Released.refl fs).congr ?_, rfl⟩
    rintro b
    constructor
    · rintro ⟨-, k', above, below, -⟩
      omega
    · exact False.elim
  | succ left ih =>
    have later : ∀ i j, k + 1 ≤ i → i < k + 1 + left → k + 1 ≤ j → j < k + 1 + left →
        entryAt data i = entryAt data j → entryAt data i ≠ 0 → i = j := by
      intro i j aboveI belowI aboveJ belowJ
      exact once i j (by omega) (by omega) (by omega) (by omega)
    have rest (b : Nat) (entry : NamedFrom (entryAt data) (k + 1) left b) : ZoneClearable fs.sb b ∧ b ≠ block :=
      freeable b ((namedFrom_succ ..).2 (.inr entry))
    unfold freeEntries
    dsimp only
    by_cases none : entryAt data k = 0
    · rcases ih rest later with ⟨fs', run, released, inode⟩
      refine ⟨fs', by rw [if_pos (.inl none)]; exact run, released.congr ?_, inode⟩
      intro b
      rw [namedFrom_succ, none]
      exact or_iff_right fun both => both.1 both.2
    · rcases freeable _ ((namedFrom_succ ..).2 (.inl ⟨none, rfl⟩)) with ⟨here, other⟩
      rcases freeBlock_releases here stale with ⟨fs₁, run₁, released₁, inode₁⟩
      have rest₁ (b : Nat) (entry : NamedFrom (entryAt data) (k + 1) left b) : ZoneClearable fs₁.sb b ∧ b ≠ block := by
        refine ⟨(rest b entry).1.released released₁ ?_, (rest b entry).2⟩
        intro same
        rcases entry with ⟨some, k', above, below, there⟩
        have equal := once k k' (le_refl _) (by omega) (by omega) (by omega) (same.symm.trans there.symm) none
        omega
      rcases ih rest₁ later with ⟨fs', run, released, inode⟩
      refine ⟨fs', ?_, (released₁.trans released).congr ?_, inode.trans inode₁⟩
      · rw [if_neg (by rw [not_or]; exact ⟨none, other⟩), bind_ok run₁]
        exact run
      · intro b
        rw [namedFrom_succ]
        apply or_congr_left
        constructor
        · exact fun both => both.2
        · rintro rfl
          exact ⟨none, rfl⟩

theorem freeInd_releases {block : Nat} (stale : Nat → Block) (own : block ≠ 0 → ZoneClearable fs.sb block)
    (freeable : block ≠ 0 → ∀ b, NamedFrom (entryAt (fs.disk block)) 0 512 b → ZoneClearable fs.sb b ∧ b ≠ block)
    (once : block ≠ 0 → ∀ i j, i < 512 → j < 512 → entryAt (fs.disk block) i = entryAt (fs.disk block) j →
      entryAt (fs.disk block) i ≠ 0 → i = j) :
    ∃ fs', freeInd fs stale block = .ok fs' ∧ fs'.inode = fs.inode ∧
      Released fs fs' fun b => block ≠ 0 ∧ (NamedFrom (entryAt (fs.disk block)) 0 512 b ∨ b = block) := by
  unfold freeInd
  by_cases none : block = 0
  · refine ⟨fs, if_pos none, rfl, (Released.refl fs).congr ?_⟩
    intro b
    exact iff_false_intro fun both => both.1 none
  · have distinct : ∀ i j, 0 ≤ i → i < 0 + 512 → 0 ≤ j → j < 0 + 512 → entryAt (fs.disk block) i = entryAt (fs.disk block) j →
        entryAt (fs.disk block) i ≠ 0 → i = j := fun i j _ smallI _ smallJ => once none i j (by omega) (by omega)
    rcases freeEntries_releases stale (freeable none) distinct with ⟨fs₁, run₁, released₁, inode₁⟩
    have left : ZoneClearable fs₁.sb block :=
      (own none).released released₁ fun entry => (freeable none block entry).2 rfl
    rcases freeBlock_releases left stale with ⟨fs', run, released, inode⟩
    refine ⟨fs', ?_, inode.trans inode₁, (released₁.trans released).congr ?_⟩
    · rw [if_neg none, bind_ok run₁]
      exact run
    · intro b
      exact and_iff_right none

/-- The loop of `truncate` over slots that name each zone once. -/
theorem freeDirect_releases {ino i left : Nat} {zone : Nat → BitVec 16} (stale : Nat → Block)
    (same : ∀ s, i ≤ s → (fs.inode ino).zone s = zone s)
    (freeable : ∀ b, NamedFrom (fun s => (zone s).toNat) i left b → ZoneClearable fs.sb b)
    (once : ∀ s t, i ≤ s → s < i + left → i ≤ t → t < i + left → zone s = zone t → zone s ≠ 0 → s = t) :
    ∃ fs', freeDirect fs stale ino i left = .ok fs' ∧ Released fs fs' (NamedFrom (fun s => (zone s).toNat) i left) := by
  induction left generalizing fs i with
  | zero =>
    refine ⟨fs, rfl, (Released.refl fs).congr ?_⟩
    intro b
    constructor
    · rintro ⟨-, s, above, below, -⟩
      omega
    · exact False.elim
  | succ left ih =>
    have later : ∀ s t, i + 1 ≤ s → s < i + 1 + left → i + 1 ≤ t → t < i + 1 + left →
        zone s = zone t → zone s ≠ 0 → s = t := by
      intro s t aboveS belowS aboveT belowT
      exact once s t (by omega) (by omega) (by omega) (by omega)
    have rest (b : Nat) (named : NamedFrom (fun s => (zone s).toNat) (i + 1) left b) : ZoneClearable fs.sb b :=
      freeable b ((namedFrom_succ ..).2 (.inr named))
    unfold freeDirect
    dsimp only
    rw [same i (le_refl _)]
    by_cases none : (zone i).toNat = 0
    · rcases ih (fun s above => same s (by omega)) rest later with ⟨fs', run, released⟩
      refine ⟨fs', by rw [if_pos none]; exact run, released.congr ?_⟩
      intro b
      rw [namedFrom_succ, none]
      exact or_iff_right fun both => both.1 both.2
    · have here := freeable _ ((namedFrom_succ ..).2 (.inl ⟨none, rfl⟩))
      rcases freeBlock_releases here stale with ⟨fs₁, run₁, released₁, inode₁⟩
      have still (s : Nat) (above : i + 1 ≤ s) : ((fs₁.setInode ino { fs₁.inode ino with
          zone := Function.update (fs₁.inode ino).zone i 0 }).inode ino).zone s = zone s := by
        simp only [FileSystem.setInode, Function.update_self, inode₁]
        rw [Function.update_of_ne (by omega)]
        exact same s (by omega)
      have rest₁ (b : Nat) (named : NamedFrom (fun s => (zone s).toNat) (i + 1) left b) : ZoneClearable fs₁.sb b := by
        refine (rest b named).released released₁ ?_
        rintro rfl
        rcases named with ⟨some, s, above, below, there⟩
        have equal := once i s (le_refl _) (by omega) (by omega) (by omega) (BitVec.eq_of_toNat_eq there.symm)
          fun zero => none (by rw [zero]; rfl)
        omega
      rcases ih still rest₁ later with ⟨fs', run, released⟩
      refine ⟨fs', ?_, ((released₁.setInode ino _).trans released).congr ?_⟩
      · rw [if_neg none, bind_ok run₁]
        exact run
      · intro b
        rw [namedFrom_succ]
        apply or_congr_left
        constructor
        · exact fun both => both.2
        · rintro rfl
          exact ⟨none, rfl⟩

/-- The zones of an inode are named once in it, and marked on the device. -/
structure Rooted (fs : FileSystem) (ino : Nat) : Prop where
  once : OnceIn fs ino
  freeable : ∀ z, ZoneIn fs ino z → ZoneFreeable fs.sb z

/-- `clear_bit` can reach the bits of all zones of the inode. -/
structure Clearable (fs : FileSystem) (ino : Nat) : Prop extends Rooted fs ino where
  aligned : ∀ z, ZoneIn fs ino z → BitAligned (z + 1 - fs.sb.firstdatazone.toNat)

theorem Clearable.zone {ino : Nat} (clearable : Clearable fs ino) (zoneIn : ZoneIn fs ino z) : ZoneClearable fs.sb z :=
  ⟨clearable.freeable z zoneIn, clearable.aligned z zoneIn⟩

/-- The zones of an inode that its slots, or entries of the index blocks in its slots, name. -/
def Shallow (fs : FileSystem) (ino z : Nat) : Prop :=
  z ≠ 0 ∧ ((∃ s, s < 9 ∧ fs.zoneOf ⟨ino, s, []⟩ = z) ∨ ∃ s k, 7 ≤ s ∧ s < 9 ∧ k < 512 ∧ fs.zoneOf ⟨ino, s, [k]⟩ = z)

theorem valid_slot {ino s : Nat} (small : s < 9) : Ref.Valid ⟨ino, s, []⟩ := ⟨small, Nat.zero_le _, nofun⟩

theorem valid_entry {ino s k : Nat} (large : 7 ≤ s) (small : s < 9) (bound : k < 512) : Ref.Valid ⟨ino, s, [k]⟩ := by
  refine ⟨small, ?_, ?_⟩
  · simp only [List.length_cons, List.length_nil, depth]
    omega
  · intro k' isIn
    rw [List.mem_singleton.mp isIn]
    exact bound

theorem Shallow.zoneIn {ino : Nat} (shallow : Shallow fs ino z) : ZoneIn fs ino z := by
  rcases shallow with ⟨some, ⟨s, small, same⟩ | ⟨s, k, large, small, bound, same⟩⟩
  · exact ⟨_, valid_slot small, rfl, same, some⟩
  · exact ⟨_, valid_entry large small bound, rfl, same, some⟩

/-- The zones that `free_ind` gives back for a slot. -/
def IndexZone (fs : FileSystem) (ino s z : Nat) : Prop :=
  z ≠ 0 ∧ (fs.zoneOf ⟨ino, s, []⟩ = z ∨ ∃ k, k < 512 ∧ fs.zoneOf ⟨ino, s, [k]⟩ = z)

theorem freeInd_slot {ino s : Nat} (rooted : Clearable fs ino) (large : 7 ≤ s) (small : s < 9) (stale : Nat → Block)
    (released : Released fs fs₁ zones)
    (apart : ∀ r : Ref, r.Valid → r.ino = ino → r.slot = s → fs.zoneOf r ≠ 0 → ¬ zones (fs.zoneOf r)) :
    ∃ fs', freeInd fs₁ stale ((fs.inode ino).zone s).toNat = .ok fs' ∧ fs'.inode = fs₁.inode ∧
      Released fs₁ fs' (IndexZone fs ino s) := by
  have left (r : Ref) (valid : r.Valid) (own : r.ino = ino) (here : r.slot = s) (some : fs.zoneOf r ≠ 0) :
      ZoneClearable fs₁.sb (fs.zoneOf r) :=
    (rooted.zone ⟨r, valid, own, rfl, some⟩).released released (apart r valid own here some)
  have slot : fs.zoneOf ⟨ino, s, []⟩ = ((fs.inode ino).zone s).toNat := rfl
  rw [← slot]
  have disk (some : fs.zoneOf ⟨ino, s, []⟩ ≠ 0) : fs₁.disk (fs.zoneOf ⟨ino, s, []⟩) = fs.disk (fs.zoneOf ⟨ino, s, []⟩) :=
    released.disk _ (apart _ (valid_slot small) rfl rfl some)
  have entry (some : fs.zoneOf ⟨ino, s, []⟩ ≠ 0) (k : Nat) :
      entryAt (fs₁.disk (fs.zoneOf ⟨ino, s, []⟩)) k = fs.zoneOf ⟨ino, s, [k]⟩ := by
    rw [disk some]
    exact (if_neg some).symm
  have named (some : fs.zoneOf ⟨ino, s, []⟩ ≠ 0) (b : Nat) :
      NamedFrom (entryAt (fs₁.disk (fs.zoneOf ⟨ino, s, []⟩))) 0 512 b ↔
        b ≠ 0 ∧ ∃ k, k < 512 ∧ fs.zoneOf ⟨ino, s, [k]⟩ = b := by
    apply and_congr_right
    intro _
    constructor
    · rintro ⟨k, -, bound, same⟩
      exact ⟨k, by omega, (entry some k).symm.trans same⟩
    · rintro ⟨k, bound, same⟩
      exact ⟨k, Nat.zero_le _, by omega, (entry some k).trans same⟩
  have others (some : fs.zoneOf ⟨ino, s, []⟩ ≠ 0) (b : Nat)
      (entry : NamedFrom (entryAt (fs₁.disk (fs.zoneOf ⟨ino, s, []⟩))) 0 512 b) :
      ZoneClearable fs₁.sb b ∧ b ≠ fs.zoneOf ⟨ino, s, []⟩ := by
    rcases (named some b).1 entry with ⟨present, k, bound, rfl⟩
    refine ⟨left _ (valid_entry large small bound) rfl rfl present, ?_⟩
    intro same
    have equal := rooted.once _ _ (valid_entry large small bound) (valid_slot small) rfl rfl same present
    cases equal
  have distinct (some : fs.zoneOf ⟨ino, s, []⟩ ≠ 0) (i j : Nat) (smallI : i < 512) (smallJ : j < 512)
      (same : entryAt (fs₁.disk (fs.zoneOf ⟨ino, s, []⟩)) i = entryAt (fs₁.disk (fs.zoneOf ⟨ino, s, []⟩)) j)
      (present : entryAt (fs₁.disk (fs.zoneOf ⟨ino, s, []⟩)) i ≠ 0) : i = j := by
    rw [entry some, entry some] at same
    rw [entry some] at present
    have equal := rooted.once _ _ (valid_entry large small smallI) (valid_entry large small smallJ) rfl rfl same present
    cases equal
    rfl
  rcases freeInd_releases stale (left _ (valid_slot small) rfl rfl) others distinct with ⟨fs', run, inode, freed⟩
  refine ⟨fs', run, inode, freed.congr ?_⟩
  intro b
  by_cases none : fs.zoneOf ⟨ino, s, []⟩ = 0
  · have empty (k : Nat) : fs.zoneOf ⟨ino, s, [k]⟩ = 0 := zoneOf_below none
    simp only [IndexZone, none, empty, ne_eq, not_true_eq_false, false_and, iff_false]
    rintro ⟨some, same | ⟨-, -, same⟩⟩
    · exact some same.symm
    · exact some same.symm
  · rw [and_iff_right none, named none, IndexZone]
    constructor
    · rintro ⟨some, same | found⟩
      · exact .inr same.symm
      · exact .inl ⟨some, found⟩
    · rintro (⟨some, found⟩ | rfl)
      · exact ⟨some, .inr found⟩
      · exact ⟨none, .inl rfl⟩

theorem shallow_iff (fs : FileSystem) (ino z : Nat) : Shallow fs ino z ↔
    ((z ≠ 0 ∧ ∃ s, s < 7 ∧ fs.zoneOf ⟨ino, s, []⟩ = z) ∨ IndexZone fs ino 7 z) ∨ IndexZone fs ino 8 z := by
  rw [IndexZone, IndexZone, ← and_or_left, ← and_or_left]
  apply and_congr_right
  intro _
  constructor
  · rintro (⟨s, small, same⟩ | ⟨s, k, large, small, bound, same⟩)
    · rcases (by omega : s < 7 ∨ s = 7 ∨ s = 8) with first | rfl | rfl
      · exact .inl (.inl ⟨s, first, same⟩)
      · exact .inl (.inr (.inl same))
      · exact .inr (.inl same)
    · rcases (by omega : s = 7 ∨ s = 8) with rfl | rfl
      · exact .inl (.inr (.inr ⟨k, bound, same⟩))
      · exact .inr (.inr ⟨k, bound, same⟩)
  · rintro ((⟨s, first, same⟩ | same | ⟨k, bound, same⟩) | same | ⟨k, bound, same⟩)
    · exact .inl ⟨s, by omega, same⟩
    · exact .inl ⟨7, by decide, same⟩
    · exact .inr ⟨7, k, le_refl _, by decide, bound, same⟩
    · exact .inl ⟨8, by decide, same⟩
    · exact .inr ⟨8, k, by decide, by decide, bound, same⟩

/-- `truncate` gives back the zones that are not behind two index blocks. -/
theorem truncate_releases {ino : Nat} (rooted : Clearable fs ino) (reg : isReg (fs.inode ino).mode) (stale : Nat → Block)
    (time : BitVec 32) : ∃ fs', truncate fs stale ino time = .ok fs' ∧ Released fs fs' (Shallow fs ino) := by
  have called : ¬ (¬ isReg (fs.inode ino).mode ∨ isDir (fs.inode ino).mode) := by
    rw [not_or, not_not]
    exact ⟨reg, not_isDir_of_isReg reg⟩
  have direct (b : Nat) : NamedFrom (fun s => ((fs.inode ino).zone s).toNat) 0 7 b ↔
      b ≠ 0 ∧ ∃ s, s < 7 ∧ fs.zoneOf ⟨ino, s, []⟩ = b := by
    apply and_congr_right
    intro _
    constructor
    · rintro ⟨s, -, below, same⟩
      exact ⟨s, by omega, same⟩
    · rintro ⟨s, below, same⟩
      exact ⟨s, Nat.zero_le _, by omega, same⟩
  -- a zone of one slot is no zone of another
  have slots {r r' : Ref} (valid : r.Valid) (valid' : r'.Valid) (own : r.ino = ino) (own' : r'.ino = ino)
      (same : fs.zoneOf r = fs.zoneOf r') (some : fs.zoneOf r ≠ 0) : r.slot = r'.slot := by
    rw [rooted.once r r' valid valid' own own' same some]
  have freeable (b : Nat) (named : NamedFrom (fun s => ((fs.inode ino).zone s).toNat) 0 7 b) : ZoneClearable fs.sb b := by
    rcases (direct b).1 named with ⟨some, s, small, same⟩
    exact rooted.zone ⟨⟨ino, s, []⟩, valid_slot (by omega), rfl, same, some⟩
  have once (s t : Nat) (_ : 0 ≤ s) (smallS : s < 0 + 7) (_ : 0 ≤ t) (smallT : t < 0 + 7)
      (same : (fs.inode ino).zone s = (fs.inode ino).zone t) (some : (fs.inode ino).zone s ≠ 0) : s = t := by
    have equal : (⟨ino, s, []⟩ : Ref).slot = (⟨ino, t, []⟩ : Ref).slot := by
      refine slots (valid_slot (by omega)) (valid_slot (by omega)) rfl rfl (congrArg BitVec.toNat same) ?_
      exact fun zero => some (BitVec.eq_of_toNat_eq zero)
    exact equal
  rcases freeDirect_releases stale (fun _ _ => rfl) freeable once with ⟨fs₁, run₁, released₁⟩
  have kept := (freeDirect_spec (fun _ => True) run₁ fun _ _ _ _ => trivial).2.2
  have zone₁ (s : Nat) (large : 7 ≤ s) : (fs₁.inode ino).zone s = (fs.inode ino).zone s := by
    rw [kept s, if_neg (by omega)]
  have apart₁ (r : Ref) (valid : r.Valid) (own : r.ino = ino) (large : 7 ≤ r.slot) (some : fs.zoneOf r ≠ 0) :
      ¬ NamedFrom (fun s => ((fs.inode ino).zone s).toNat) 0 7 (fs.zoneOf r) := by
    intro freed
    rcases (direct _).1 freed with ⟨-, s, small, same⟩
    have equal := slots valid (valid_slot (by omega)) own rfl same.symm some
    simp only at equal
    omega
  rcases freeInd_slot rooted (le_refl 7) (by decide) stale released₁
    (fun r valid own slot => apart₁ r valid own (by omega)) with ⟨fs₂, run₂, inode₂, released₂⟩
  have apart₂ (r : Ref) (valid : r.Valid) (own : r.ino = ino) (slot : r.slot = 8) (some : fs.zoneOf r ≠ 0) :
      ¬ (NamedFrom (fun s => ((fs.inode ino).zone s).toNat) 0 7 (fs.zoneOf r) ∨ IndexZone fs ino 7 (fs.zoneOf r)) := by
    rintro (freed | ⟨-, same | ⟨k, bound, same⟩⟩)
    · exact apart₁ r valid own (by omega) some freed
    · have equal := slots valid (valid_slot (by decide)) own rfl same.symm some
      simp only at equal
      omega
    · have equal := slots valid (valid_entry (le_refl _) (by decide) bound) own rfl same.symm some
      simp only at equal
      omega
  rcases freeInd_slot rooted (by decide : 7 ≤ 8) (by decide) stale (released₁.trans released₂) apart₂ with
    ⟨fs₃, run₃, inode₃, released₃⟩
  have run := truncate.eq_1 fs stale ino time
  rw [if_neg called, bind_ok run₁, zone₁ 7 (le_refl _), bind_ok run₂, inode₂, zone₁ 8 (by decide), bind_ok run₃] at run
  refine ⟨_, run, (((released₁.trans released₂).trans released₃).setInode ino _).congr ?_⟩
  intro b
  rw [direct, shallow_iff]

/-- Every zone of the file is given back exactly when none is behind two index blocks and all their bits are aligned. -/
theorem truncate_releases_file {ino : Nat} (rooted : Rooted fs ino) (reg : isReg (fs.inode ino).mode)
    (stale : Nat → Block) (time : BitVec 32) :
    (∃ fs', truncate fs stale ino time = .ok fs' ∧
      (∀ n, mapBit fs'.sb.zmap n = true ↔ mapBit fs.sb.zmap n = true ∧
        ∀ z, ZoneIn fs ino z → n ≠ z + 1 - fs.sb.firstdatazone.toNat) ∧
      fs'.sb = { fs.sb with zmap := fs'.sb.zmap } ∧
      (∀ s, s < 9 → (fs'.inode ino).zone s = 0) ∧ (fs'.inode ino).size = 0) ↔
    (∀ k₁ k₂, k₁ < 512 → k₂ < 512 → fs.zoneOf ⟨ino, 8, [k₂, k₁]⟩ = 0) ∧
      ∀ z, ZoneIn fs ino z → BitAligned (z + 1 - fs.sb.firstdatazone.toNat) := by
  have deep {k₁ k₂ : Nat} (bound₁ : k₁ < 512) (bound₂ : k₂ < 512) : Ref.Valid ⟨ino, 8, [k₂, k₁]⟩ := by
    refine ⟨(by decide : 8 < 9), by simp [depth], ?_⟩
    intro k isIn
    simp only [List.mem_cons, List.not_mem_nil, or_false] at isIn
    rcases isIn with rfl | rfl
    · exact bound₂
    · exact bound₁
  constructor
  · rintro ⟨fs', run, bits, -⟩
    have aligned : ∀ z, ZoneIn fs ino z → BitAligned (z + 1 - fs.sb.firstdatazone.toNat) := by
      intro z zoneIn
      by_contra bad
      have set := (truncate_spec reg rooted.once run).freed.kept _ bad (rooted.freeable z zoneIn).used.2
      rw [bits] at set
      exact set.2 z zoneIn rfl
    refine ⟨?_, aligned⟩
    intro k₁ k₂ bound₁ bound₂
    rcases truncate_releases ⟨rooted, aligned⟩ reg stale time with ⟨fs'', run', released⟩
    rw [run] at run'
    cases run'
    by_contra some
    have zoneIn : ZoneIn fs ino (fs.zoneOf ⟨ino, 8, [k₂, k₁]⟩) := ⟨_, deep bound₁ bound₂, rfl, rfl, some⟩
    -- its bit is set before, and still set afterwards
    have still := (rooted.freeable _ zoneIn).released released (by
      rintro ⟨-, ⟨s, small, same⟩ | ⟨s, k, large, small, bound, same⟩⟩
      · have equal := rooted.once _ _ (deep bound₁ bound₂) (valid_slot small) rfl rfl same.symm some
        cases equal
      · have equal := rooted.once _ _ (deep bound₁ bound₂) (valid_entry large small bound) rfl rfl same.symm some
        cases equal)
    have set := still.used.2
    have first : fs'.sb.firstdatazone = fs.sb.firstdatazone := by rw [released.sb]
    rw [first, bits] at set
    exact set.2 _ zoneIn rfl
  · rintro ⟨none, aligned⟩
    rcases truncate_releases ⟨rooted, aligned⟩ reg stale time with ⟨fs', run, released⟩
    have truncated := truncate_spec reg rooted.once run
    have all (z : Nat) : ZoneIn fs ino z ↔ Shallow fs ino z := by
      refine ⟨?_, Shallow.zoneIn⟩
      rintro ⟨⟨ino', s, path⟩, valid, rfl, rfl, some⟩
      refine ⟨some, ?_⟩
      have length := valid.length
      have small := valid.slot
      simp only [depth] at length small
      cases path with
      | nil => exact .inl ⟨s, small, rfl⟩
      | cons k₂ rest =>
        cases rest with
        | nil => exact .inr ⟨s, k₂, by simp at length; omega, small, valid.entries k₂ (List.mem_cons_self ..), rfl⟩
        | cons k₁ rest =>
          have eight : s = 8 ∧ rest = [] := by
            simp only [List.length_cons] at length
            exact ⟨by omega, List.eq_nil_of_length_eq_zero (by omega)⟩
          rw [eight.1, eight.2] at some valid
          exact absurd (none k₁ k₂ (valid.entries k₁ (by simp)) (valid.entries k₂ (by simp))) some
    refine ⟨fs', run, ?_, released.sb, truncated.slots, by rw [truncated.own]⟩
    intro n
    simp only [all]
    exact released.bits n

/-- A device whose zones 12 to 15 are marked. -/
def fourZones : SuperBlock :=
  { blankDevice.sb with zmap := fun i => if i = 0 then some ⟨fun k => if k = 0 then 0x79 else 0, false⟩ else none }

/-- A device with one regular file: its first block is zone 12, and zone 13 is the double indirect block, whose
    first entry is the index block 14. -/
def deepFile (leaf : Nat) : FileSystem where
  sb := fourZones
  disk := fun b =>
    if b = 13 then setEntryAt (fun _ => 0) 0 14 else if b = 14 then setEntryAt (fun _ => 0) 0 leaf else fun _ => 0
  inode := fun ino =>
    if ino = 1 then { MInode.zero with mode := 0o100644, zone := fun s => if s = 0 then 12 else if s = 8 then 13 else 0 }
    else MInode.zero

theorem deepFile_zoneOf {leaf : Nat} (small : leaf < 2 ^ 16) (nowhere : leaf ≠ 13 ∧ leaf ≠ 14) (r : Ref) :
    (deepFile leaf).zoneOf r =
      if r = ⟨1, 0, []⟩ then 12 else if r = ⟨1, 8, []⟩ then 13 else if r = ⟨1, 8, [0]⟩ then 14
      else if r = ⟨1, 8, [0, 0]⟩ then leaf else 0 := by
  have index (z k : Nat) (bound : z < 2 ^ 16) : entryAt (setEntryAt (fun _ => 0) 0 z) k = if k = 0 then z else 0 := by
    rw [entryAt_setEntryAt _ _ bound]
    rfl
  rcases r with ⟨ino, slot, path⟩
  induction path with
  | nil =>
    by_cases own : ino = 1
    · subst own
      simp [FileSystem.zoneOf, resolve, deepFile]
      split_ifs <;> rfl
    · simp [FileSystem.zoneOf, resolve, deepFile, own, MInode.zero]
  | cons k path ih =>
    rw [zoneOf_cons, ih]
    by_cases first : (⟨ino, slot, path⟩ : Ref) = ⟨1, 0, []⟩
    · cases first
      simp [deepFile, entryAt]
    · by_cases double : (⟨ino, slot, path⟩ : Ref) = ⟨1, 8, []⟩
      · cases double
        simpa [deepFile] using index 14 k (by decide)
      · by_cases single : (⟨ino, slot, path⟩ : Ref) = ⟨1, 8, [0]⟩
        · cases single
          simpa [deepFile] using index leaf k small
        · simp only [first, double, single, if_false]
          have below : (⟨ino, slot, k :: path⟩ : Ref) ≠ ⟨1, 0, []⟩ ∧ (⟨ino, slot, k :: path⟩ : Ref) ≠ ⟨1, 8, []⟩ ∧
              (⟨ino, slot, k :: path⟩ : Ref) ≠ ⟨1, 8, [0]⟩ ∧ (⟨ino, slot, k :: path⟩ : Ref) ≠ ⟨1, 8, [0, 0]⟩ := by
            refine ⟨by simp, by simp, ?_, ?_⟩
            · rintro ⟨⟩
              exact double rfl
            · rintro ⟨⟩
              exact single rfl
          simp only [below.1, below.2.1, below.2.2.1, below.2.2.2, if_false]
          split_ifs with last zero zero
          · rfl
          · simp [deepFile, entryAt, nowhere.1, nowhere.2]
          · rfl
          · exact absurd rfl zero

theorem deepFile_rooted {leaf : Nat} (known : leaf = 0 ∨ leaf = 15) : Rooted (deepFile leaf) 1 := by
  have small : leaf < 2 ^ 16 := by omega
  have zones := deepFile_zoneOf small (by omega)
  constructor
  · intro r r' _ _ _ _ same some
    rw [zones] at some
    rw [zones, zones] at same
    split_ifs at some same <;> first | omega | simp_all
  · rintro z ⟨r, -, -, rfl, some⟩
    have marked (z : Nat) (known : z = 12 ∨ z = 13 ∨ z = 14 ∨ z = 15) : ZoneFreeable fourZones z := by
      rcases known with rfl | rfl | rfl | rfl
      all_goals exact ⟨⟨by decide, by decide⟩, by decide⟩
    have among : (deepFile leaf).zoneOf r = 12 ∨ (deepFile leaf).zoneOf r = 13 ∨ (deepFile leaf).zoneOf r = 14 ∨
        (deepFile leaf).zoneOf r = 15 := by
      rw [zones] at some ⊢
      split_ifs at some ⊢ <;> omega
    exact marked _ among

/-- A file with an empty second index block is given back whole. -/
theorem shallow_file_released : ∃ fs', truncate (deepFile 0) (fun _ _ => 0) 1 0 = .ok fs' ∧
    (∀ n, mapBit fs'.sb.zmap n = true ↔ mapBit (deepFile 0).sb.zmap n = true ∧
      ∀ z, ZoneIn (deepFile 0) 1 z → n ≠ z + 1 - 10) ∧
    (∀ s, s < 9 → (fs'.inode 1).zone s = 0) := by
  have none (k₁ k₂ : Nat) : (deepFile 0).zoneOf ⟨1, 8, [k₂, k₁]⟩ = 0 := by
    rw [deepFile_zoneOf (by decide) (by decide)]
    simp
  have aligned (z : Nat) (zoneIn : ZoneIn (deepFile 0) 1 z) : BitAligned (z + 1 - 10) := by
    rcases zoneIn with ⟨r, -, -, rfl, some⟩
    rw [deepFile_zoneOf (by decide) (by decide)] at some ⊢
    split_ifs at some ⊢
    · decide
    · decide
    · decide
    · exact absurd rfl some
    · exact absurd rfl some
  rcases (truncate_releases_file (deepFile_rooted (.inl rfl)) rfl (fun _ _ => 0) 0).2
    ⟨fun k₁ k₂ _ _ => none k₁ k₂, aligned⟩ with ⟨fs', run, bits, -, slots, -⟩
  exact ⟨fs', run, bits, slots⟩

/-- A block of data behind two index blocks stays marked. -/
theorem deep_zone_leaks : Rooted (deepFile 15) 1 ∧ isReg ((deepFile 15).inode 1).mode = true ∧
    ZoneIn (deepFile 15) 1 15 ∧
    ∃ fs', truncate (deepFile 15) (fun _ _ => 0) 1 0 = .ok fs' ∧ mapBit fs'.sb.zmap (15 + 1 - 10) = true := by
  have run : ((truncate (deepFile 15) (fun _ _ => 0) 1 0).toOption.any fun fs' => mapBit fs'.sb.zmap 6) = true := by
    decide +kernel
  refine ⟨deepFile_rooted (.inr rfl), rfl, ⟨⟨1, 8, [0, 0]⟩, ⟨by decide, by decide, by decide⟩, rfl, rfl, by decide⟩, ?_⟩
  cases done : truncate (deepFile 15) (fun _ _ => 0) 1 0 with
  | error message =>
    rw [done] at run
    cases run
  | ok fs' =>
    rw [done] at run
    exact ⟨fs', rfl, run⟩

end K210Linux.Fs
