import K210Linux.Mm.Frames

namespace K210Linux.Mm

/-- A run of consecutive free frames that `get_free_pages` can hand out. -/
def IsFreeRun (memMap : Nat → Byte) (n r : Nat) : Prop := ∀ j, r ≤ j → j < r + n → memMap j = 0

theorem freeRun_spec (memMap : Nat → Byte) (n i : Nat) (found : freeRun memMap n i ≠ 0) :
    0 < n ∧ freeRun memMap n i + n ≤ i + 1 ∧ IsFreeRun memMap n (freeRun memMap n i) := by
  fun_induction freeRun memMap n i with
  | case1 i room j busy ih =>
    have bounds := busyFrame_bounds memMap i n j (by omega) busy
    obtain ⟨positive, below, free⟩ := ih found
    exact ⟨positive, by omega, free⟩
  | case2 i room none =>
    have free := busyFrame_none memMap i n (by omega) none
    exact ⟨room.1, by omega, fun j low high => free j (by omega) (by omega)⟩
  | case3 i done => exact absurd rfl found

theorem freeRun_eq_zero (memMap : Nat → Byte) (n i : Nat) (positive : 0 < n) (none : freeRun memMap n i = 0) :
    ∀ r, 0 < r → r + n ≤ i + 1 → ¬ IsFreeRun memMap n r := by
  fun_induction freeRun memMap n i with
  | case1 i room j busy ih =>
    intro r hr below free
    have bounds := busyFrame_bounds memMap i n j (by omega) busy
    by_cases inside : j < r + n
    · exact bounds.2.2.2 (free j (by omega) inside)
    · exact ih none r hr (by omega) free
  | case2 i room found => omega
  | case3 i done =>
    intro r hr below
    omega

/-- The state after `n` frames from `i` on were taken and cleared. -/
def takeRun (m : Memory) (i n : Nat) : Memory :=
  { m with
    memMap := fun j => if i ≤ j ∧ j < i + n then 1 else m.memMap j
    phys := fun p => if framePage i ≤ p ∧ p < framePage i + n then fun _ => 0 else m.phys p }

theorem takeRun_succ (m : Memory) (i n : Nat) :
    takeRun m i (n + 1) = ((takeRun m i n).setCount (i + n) 1).clearPage (framePage (i + n)) := by
  have count : (takeRun m i (n + 1)).memMap = Function.update (takeRun m i n).memMap (i + n) 1 := by
    funext j
    by_cases last : j = i + n
    · subst last
      rw [Function.update_self]
      exact if_pos (by omega)
    · rw [Function.update_of_ne last]
      exact if_congr (by omega) rfl rfl
  have phys : (takeRun m i (n + 1)).phys =
      Function.update (takeRun m i n).phys (framePage (i + n)) (fun _ => 0) := by
    funext p
    by_cases last : p = framePage (i + n)
    · subst last
      rw [Function.update_self]
      exact if_pos (by unfold framePage; omega)
    · rw [Function.update_of_ne last]
      unfold framePage at last
      exact if_congr (by unfold framePage; omega) rfl rfl
  calc takeRun m i (n + 1)
      = { m with memMap := (takeRun m i (n + 1)).memMap, phys := (takeRun m i (n + 1)).phys } := rfl
    _ = ((takeRun m i n).setCount (i + n) 1).clearPage (framePage (i + n)) := by
      rw [count, phys]
      rfl

theorem getFreePages_cases (m : Memory) {n : Nat} (positive : 0 < n) :
    (getFreePages m n = (0, m) ∧ ∀ r, 0 < r → r + n ≤ pagingPages → ¬ IsFreeRun m.memMap n r) ∨
    ∃ r, 0 < r ∧ r + n ≤ pagingPages ∧ IsFreeRun m.memMap n r ∧ getFreePages m n = (frameAddr r, takeRun m r n) := by
  have top : pagingPages - 1 + 1 = pagingPages := by decide
  unfold getFreePages
  generalize found : freeRun m.memMap n (pagingPages - 1) = r
  by_cases none : r = 0
  · subst none
    refine .inl ⟨if_pos rfl, ?_⟩
    intro r hr below
    exact freeRun_eq_zero m.memMap n _ positive found r hr (by rw [top]; exact below)
  · have spec := freeRun_spec m.memMap n (pagingPages - 1) (by rw [found]; exact none)
    rw [found, top] at spec
    exact .inr ⟨r, Nat.pos_of_ne_zero none, spec.2.1, spec.2.2, if_neg none⟩

theorem getFreePages_zero (m : Memory) : getFreePages m 0 = (0, m) := by
  have none : freeRun m.memMap 0 (pagingPages - 1) = 0 := by
    rw [freeRun]
    exact if_neg (by omega)
  rw [getFreePages, none]
  rfl

theorem frameAddr_succ {i : Nat} (bound : i < pagingPages) : frameAddr i + pageSize = frameAddr (i + 1) := by
  have small : i < 3840 := bound
  have size : pageSize.toNat = 4096 := rfl
  apply BitVec.eq_of_toNat_eq
  rw [BitVec.toNat_add, toNat_frameAddr bound, size, frameAddr, BitVec.toNat_add, BitVec.toNat_shiftLeft,
    BitVec.toNat_ofNat, Nat.shiftLeft_eq, toNat_lowMem]
  omega

namespace Wf

variable {pool : Pool} {dirs : Finset Word} {held : Finset Nat} {m : Memory} {i n : Nat}

/-- The kernel takes a run of free frames. -/
theorem take_run (wf : Wf pool dirs held m) (positive : 0 < i) (room : i + n ≤ pagingPages)
    (free : IsFreeRun m.memMap n i) : Wf pool dirs (held ∪ Finset.Ico i (i + n)) (takeRun m i n) := by
  induction n with
  | zero =>
    have same : takeRun m i 0 = m := by
      unfold takeRun
      congr 1
      · funext j
        exact if_neg (by omega)
      · funext p
        exact if_neg (by omega)
    rw [same]
    simpa using wf
  | succ n ih =>
    have before := ih (by omega) (fun j low high => free j low (by omega))
    have vacant : (takeRun m i n).memMap (i + n) = 0 := by
      have outside : ¬ (i ≤ i + n ∧ i + n < i + n) := by omega
      simp only [takeRun, outside, if_false]
      exact free (i + n) (by omega) (by omega)
    have taken := before.take_free (by omega) (by omega) vacant
    rw [takeRun_succ, ← Nat.add_assoc, ← Finset.insert_Ico_right_eq_Ico_add_one (by omega), Finset.union_insert]
    exact taken

/-- Free frames hold no page table, so taking them changes no mapping. -/
theorem leafOf_takeRun (wf : Wf pool dirs held m) (positive : 0 < i) (room : i + n ≤ pagingPages)
    (free : IsFreeRun m.memMap n i) (s : LeafSlot) (hs : s ∈ leafSlots dirs) :
    (takeRun m i n).leafOf s = m.leafOf s := by
  obtain ⟨d, k, j⟩ := s
  obtain ⟨hd, hk, _⟩ := mem_leafSlots.mp hs
  apply leafOf_congr
  · rfl
  · intro p table
    have hslot : (d, k) ∈ tableSlots dirs := mem_tableSlots.mpr ⟨hd, hk⟩
    have outside : ¬ (framePage i ≤ p ∧ p < framePage i + n) := by
      rintro ⟨low, high⟩
      obtain ⟨f, has, rfl⟩ := wf.counted.tablePool (d, k) hslot p table
      simp only [framePage] at low high
      have zero := free f (by omega) (by omega)
      exact (wf.counted.free_of_zero has zero).2.1 (d, k) hslot table
    simp only [takeRun, outside, if_false]

/-- Giving back held frames changes counters only. -/
theorem freePages_run (wf : Wf pool dirs held m) (run : Finset.Ico i (i + n) ⊆ held) :
    ∃ counts, freePages m (frameAddr i) n = .ok { m with memMap := counts } ∧
      Wf pool dirs (held \ Finset.Ico i (i + n)) { m with memMap := counts } := by
  induction n generalizing m i held with
  | zero => exact ⟨m.memMap, rfl, by simpa using wf⟩
  | succ n ih =>
    have member : i ∈ held := run (Finset.mem_Ico.mpr ⟨Nat.le_refl _, by omega⟩)
    have has := wf.counted.heldPool i member
    obtain ⟨freed, given⟩ := wf.give_held member
    have rest : Finset.Ico (i + 1) (i + 1 + n) ⊆ held.erase i := by
      intro f inside
      have bounds := Finset.mem_Ico.mp inside
      exact Finset.mem_erase.mpr ⟨by omega, run (Finset.mem_Ico.mpr ⟨by omega, by omega⟩)⟩
    obtain ⟨counts, done, wf'⟩ := ih given rest
    refine ⟨counts, ?_, ?_⟩
    · rw [freePages, freed, frameAddr_succ has.lt]
      exact done
    · have same : held \ Finset.Ico i (i + (n + 1)) = held.erase i \ Finset.Ico (i + 1) (i + 1 + n) := by
        ext f
        simp only [Finset.mem_sdiff, Finset.mem_Ico, Finset.mem_erase]
        constructor
        · rintro ⟨inside, outside⟩
          exact ⟨⟨by omega, inside⟩, by omega⟩
        · rintro ⟨⟨other, inside⟩, outside⟩
          exact ⟨inside, by omega⟩
      rw [same]
      exact wf'

end Wf

/-- The frames that `mem_init` puts under the allocator's control. -/
def initPool (startMem endMem : Word) (low : lowMem ≤ startMem) (order : startMem ≤ endMem)
    (high : endMem ≤ lowMem + 0xF00000) : Pool where
  first := mapNr startMem
  last := mapNr startMem + ((endMem - startMem) >>> 12).toNat
  mark := fun f => if mapNr startMem ≤ f ∧ f < mapNr startMem + ((endMem - startMem) >>> 12).toNat then 0 else used
  marked := by
    intro f _ _ outside
    rw [if_neg outside]
    decide
  bound := by
    have top : (lowMem + 0xF00000).toNat = 0x81000000 := rfl
    rw [BitVec.le_def] at low order high
    rw [toNat_lowMem] at low
    rw [top] at high
    have offset := BitVec.toNat_sub_of_le (BitVec.le_def.mpr (by rw [toNat_lowMem]; exact low) : lowMem ≤ startMem)
    have size := BitVec.toNat_sub_of_le (BitVec.le_def.mpr order : startMem ≤ endMem)
    rw [toNat_lowMem] at offset
    unfold mapNr pagingPages
    rw [BitVec.toNat_ushiftRight, BitVec.toNat_ushiftRight, Nat.shiftRight_eq_div_pow, Nat.shiftRight_eq_div_pow,
      offset, size]
    omega

theorem initPool_high {startMem endMem : Word} (low : lowMem ≤ startMem) (order : startMem ≤ endMem)
    (high : endMem ≤ lowMem + 0xF00000) {f : Nat} (has : (initPool startMem endMem low order high).Has f) :
    frameAddr f < endMem := by
  have offset := BitVec.toNat_sub_of_le low
  have size := BitVec.toNat_sub_of_le order
  rw [toNat_lowMem] at offset
  have below : f < mapNr startMem + ((endMem - startMem) >>> 12).toNat := has.2.2
  rw [mapNr, BitVec.toNat_ushiftRight, BitVec.toNat_ushiftRight, Nat.shiftRight_eq_div_pow,
    Nat.shiftRight_eq_div_pow, offset, size] at below
  rw [BitVec.le_def] at low order
  rw [toNat_lowMem] at low
  rw [BitVec.lt_def, toNat_frameAddr has.lt]
  omega

/-- `mem_init` over empty directories. -/
theorem memInit_wf {m : Memory} {dirs : Finset Word} {startMem endMem : Word} (low : lowMem ≤ startMem)
    (order : startMem ≤ endMem) (high : endMem ≤ lowMem + 0xF00000) (current : m.pageDirTable ∈ dirs)
    (empty : ∀ d ∈ dirs, ∀ i, i < pageDirTableNum → Pte.v (m.dirs d i) = false) :
    Wf (initPool startMem endMem low order high) dirs ∅ (memInit m startMem endMem) := by
  have table : ∀ s ∈ tableSlots dirs, (memInit m startMem endMem).tableOf s = none := by
    rintro ⟨d, i⟩ hs
    obtain ⟨hd, hi⟩ := mem_tableSlots.mp hs
    exact tableOf_invalid (empty d hd i hi)
  have leaf : ∀ s ∈ leafSlots dirs, (memInit m startMem endMem).view.leafTarget s = none := by
    rintro ⟨d, i, j⟩ hs
    obtain ⟨hd, hi, _⟩ := mem_leafSlots.mp hs
    simp only [View.leafTarget, Memory.view, Memory.leafOf, table _ (mem_tableSlots.mpr ⟨hd, hi⟩),
      Option.bind_none, Option.map_none]
  refine ⟨⟨?_, ?_, ?_, ?_, ?_, ?_, ?_, ?_, ?_⟩, current, fun f has => initPool_high low order high has⟩
  · intro f has
    have noLeaf : (memInit m startMem endMem).view.leafRefs dirs f = 0 := by
      apply RefCount.refs_eq_zero.mpr
      intro s hs
      rw [leaf s hs]
      simp
    have noTable : (memInit m startMem endMem).view.tableRefs dirs f = 0 := by
      apply RefCount.refs_eq_zero.mpr
      intro s hs
      rw [show (memInit m startMem endMem).view.table s = none from table s hs]
      simp
    have zero : (memInit m startMem endMem).view.count f = 0 := if_pos ⟨has.2.1, has.2.2⟩
    rw [noLeaf, noTable, zero]
    rfl
  · intro f _
    rfl
  · intro s hs p target
    rw [leaf s hs] at target
    cases target
  · intro s hs p target
    rw [show (memInit m startMem endMem).view.table s = none from table s hs] at target
    cases target
  · intro f member
    simp at member
  · intro s hs f target
    rw [show (memInit m startMem endMem).view.table s = none from table s hs] at target
    cases target
  · intro f member
    simp at member
  · intro s hs t _ p target
    rw [leaf s hs] at target
    cases target
  · intro s hs e f found
    have target := Counted.leafTarget_of_leaf found
    rw [leaf s hs] at target
    cases target

section Boot

/-- Zeroed memory after `machine_main` called `mem_init`. -/
def bootMemory (dir : Word) : Memory :=
  memInit ⟨fun _ => 0, fun _ _ => 0, fun _ _ => 0, dir, fun _ => 0, 0⟩ 0x80100000 0x80600000

def bootPool : Pool := initPool 0x80100000 0x80600000 (by decide) (by decide) (by decide)

theorem bootPool_first : bootPool.first = 0 := by decide
theorem bootPool_last : bootPool.last = 1280 := by decide

theorem bootMemory_count (dir : Word) (j : Nat) : (bootMemory dir).memMap j = if j < 1280 then 0 else used := by
  change (if bootPool.first ≤ j ∧ j < bootPool.last then (0 : Byte) else used) = _
  rw [bootPool_first, bootPool_last]
  exact if_congr (by omega) rfl rfl

theorem bootMemory_wf {dir : Word} {dirs : Finset Word} (member : dir ∈ dirs) :
    Wf bootPool dirs ∅ (bootMemory dir) :=
  memInit_wf (by decide) (by decide) (by decide) member (fun _ _ _ _ => v_zero)

theorem bootMemory_getFreePage (dir : Word) : getFreePage (bootMemory dir) =
    (frameAddr 1279, ((bootMemory dir).setCount 1279 1).clearPage (framePage 1279)) := by
  have scan : freeScan (bootMemory dir).memMap pagingPages = 1279 := by
    apply freeScan_eq _ _ _ (by decide) (by decide)
    · rw [bootMemory_count]
      rfl
    · intro j above _
      rw [bootMemory_count, if_neg (by omega)]
      decide
  rw [getFreePage, scan]
  rfl

end Boot

end K210Linux.Mm
