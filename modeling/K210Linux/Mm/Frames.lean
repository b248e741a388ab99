import K210Linux.Mm.Ledger

namespace K210Linux.Mm

section Addresses

variable {i : Nat} {e : Word}

theorem toNat_lowMem : lowMem.toNat = 0x80100000 := rfl

theorem toNat_frameAddr (bound : i < pagingPages) : (frameAddr i).toNat = 0x80100000 + 4096 * i := by
  have small : i < 3840 := bound
  have inner : (BitVec.ofNat 64 i <<< 12 : Word).toNat = 4096 * i := by
    rw [BitVec.toNat_shiftLeft, BitVec.toNat_ofNat, Nat.shiftLeft_eq]
    omega
  rw [frameAddr, BitVec.toNat_add, inner, toNat_lowMem]
  omega

theorem mapNr_frameAddr (bound : i < pagingPages) : mapNr (frameAddr i) = i := by
  have small : i < 3840 := bound
  have offset : frameAddr i - lowMem = BitVec.ofNat 64 i <<< 12 := by
    rw [frameAddr, BitVec.add_sub_cancel]
  rw [mapNr, offset, BitVec.toNat_ushiftRight, BitVec.toNat_shiftLeft, BitVec.toNat_ofNat,
    Nat.shiftLeft_eq, Nat.shiftRight_eq_div_pow]
  omega

theorem pageOf_frameAddr (bound : i < pagingPages) : pageOf (frameAddr i) = framePage i := by
  simp only [pageOf, BitVec.toNat_ushiftRight, toNat_frameAddr bound, framePage, Nat.shiftRight_eq_div_pow]
  omega

theorem frameAddr_ne_zero (bound : i < pagingPages) : frameAddr i ≠ 0 := by
  intro zero
  have value := toNat_frameAddr bound
  rw [zero] at value
  have : (0 : Word).toNat = 0 := rfl
  omega

theorem low_le_frameAddr (bound : i < pagingPages) : lowMem ≤ frameAddr i := by
  rw [BitVec.le_def, toNat_frameAddr bound, toNat_lowMem]
  omega

theorem low_lt_frameAddr (bound : i < pagingPages) (nonzero : i ≠ 0) : lowMem < frameAddr i := by
  rw [BitVec.lt_def, toNat_frameAddr bound, toNat_lowMem]
  omega

theorem toNat_ppn_frameAddr (bound : i < pagingPages) :
    ((frameAddr i >>> 12).setWidth 38).toNat = framePage i := by
  have small : i < 3840 := bound
  simp only [BitVec.toNat_setWidth, BitVec.toNat_ushiftRight, toNat_frameAddr bound, framePage,
    Nat.shiftRight_eq_div_pow]
  omega

theorem toNat_ppnToAddr (e : Word) : (pteCommonPpnToAddr e).toNat = 4096 * pageTarget e := by
  have bound := (Pte.ppn e).isLt
  simp only [pteCommonPpnToAddr, pageTarget, BitVec.toNat_shiftLeft, BitVec.toNat_setWidth, Nat.shiftLeft_eq]
  omega

@[simp] theorem pageOf_ppnToAddr (e : Word) : pageOf (pteCommonPpnToAddr e) = pageTarget e := by
  simp only [pageOf, BitVec.toNat_ushiftRight, toNat_ppnToAddr, Nat.shiftRight_eq_div_pow]
  omega

theorem ppnToAddr_of_target (bound : i < pagingPages) (target : pageTarget e = framePage i) :
    pteCommonPpnToAddr e = frameAddr i := by
  apply BitVec.eq_of_toNat_eq
  rw [toNat_ppnToAddr, toNat_frameAddr bound, target, framePage]
  omega

@[simp] theorem pageTarget_setAccessibility (e : Word) (a : Accessibility) :
    pageTarget (pteCommonSetAccessibility e a) = pageTarget e := by
  simp [pageTarget]

@[simp] theorem pageTarget_setWriteable (e : Word) : pageTarget (pteCommonSetWriteable e) = pageTarget e := by
  simp [pageTarget]

@[simp] theorem pageTarget_enableEntry (e : Word) : pageTarget (pteCommonEnableEntry e) = pageTarget e := by
  simp [pageTarget]

@[simp] theorem pageTarget_enableUser (e : Word) : pageTarget (pteCommonEnableUser e) = pageTarget e := by
  simp [pageTarget]

theorem pageTarget_addrToPpn (bound : i < pagingPages) :
    pageTarget (pteCommonAddrToPpn e (frameAddr i)) = framePage i := by
  simp only [pageTarget, ppn_addrToPpn, toNat_ppn_frameAddr bound]

end Addresses

theorem getPageDirId_lt (x : Word) : getPageDirId x < 512 := by
  have bound : (x &&& 0x3FFFFFFF).toNat ≤ 0x3FFFFFFF := by
    rw [BitVec.toNat_and]
    exact Nat.and_le_right
  simp only [getPageDirId, BitVec.toNat_ushiftRight, Nat.shiftRight_eq_div_pow]
  omega

theorem getPageEntryId_lt (x : Word) : getPageEntryId x < pageTableItemNum := by
  have bound : (x &&& 0x1FFFFF).toNat ≤ 0x1FFFFF := by
    rw [BitVec.toNat_and]
    exact Nat.and_le_right
  simp only [getPageEntryId, BitVec.toNat_ushiftRight, Nat.shiftRight_eq_div_pow, pageTableItemNum]
  omega

theorem freeScan_cases (memMap : Nat → Byte) (n : Nat) :
    (freeScan memMap n = 0 ∧ ∀ j, 0 < j → j < n → memMap j ≠ 0) ∨
    (0 < freeScan memMap n ∧ freeScan memMap n < n ∧ memMap (freeScan memMap n) = 0) := by
  induction n with
  | zero => exact .inl ⟨rfl, fun j _ h => absurd h (Nat.not_lt_zero j)⟩
  | succ i ih =>
    simp only [freeScan]
    split
    · exact .inl ⟨rfl, fun j positive below => by omega⟩
    · rename_i nonzero
      split
      · rename_i free
        exact .inr ⟨by omega, by omega, free⟩
      · rename_i busy
        rcases ih with ⟨none, all⟩ | ⟨positive, below, free⟩
        · refine .inl ⟨none, fun j hj below => ?_⟩
          rcases Nat.lt_succ_iff_lt_or_eq.mp below with below | rfl
          · exact all j hj below
          · exact busy
        · exact .inr ⟨positive, by omega, free⟩

/-- The scan goes down, so it stops at the highest free frame. -/
theorem freeScan_eq (memMap : Nat → Byte) (n f : Nat) (positive : 0 < f) (below : f < n)
    (free : memMap f = 0) (busy : ∀ j, f < j → j < n → memMap j ≠ 0) : freeScan memMap n = f := by
  induction n with
  | zero => omega
  | succ i ih =>
    have nonzero : i ≠ 0 := by omega
    simp only [freeScan, nonzero, if_false]
    by_cases last : f = i
    · simp [← last, free]
    · rw [if_neg (busy i (by omega) (by omega))]
      exact ih (by omega) (fun j above under => busy j above (by omega))

theorem getFreePage_cases (m : Memory) :
    (getFreePage m = (0, m) ∧ ∀ f, 0 < f → f < pagingPages → m.memMap f ≠ 0) ∨
    ∃ f, 0 < f ∧ f < pagingPages ∧ m.memMap f = 0 ∧
      getFreePage m = (frameAddr f, (m.setCount f 1).clearPage (framePage f)) := by
  rcases freeScan_cases m.memMap pagingPages with ⟨none, all⟩ | ⟨positive, below, free⟩
  · exact .inl ⟨by simp [getFreePage, none], all⟩
  · refine .inr ⟨_, positive, below, free, ?_⟩
    simp [getFreePage, Nat.ne_of_gt positive]

/-- Kernel memory with exact counters, a current directory among the known ones, and every frame
    of the pool below `HIGH_MEMORY`. -/
structure Wf (pool : Pool) (dirs : Finset Word) (held : Finset Nat) (m : Memory) : Prop where
  counted : Counted pool dirs held m.view
  current : m.pageDirTable ∈ dirs
  high : ∀ f, pool.Has f → frameAddr f < m.highMemory

section Views

variable {m m' : Memory} {s : LeafSlot}

theorem leafOf_congr (dir : m'.dirs s.1 s.2.1 = m.dirs s.1 s.2.1)
    (page : ∀ p, m.tableOf (s.1, s.2.1) = some p → m'.phys p s.2.2 = m.phys p s.2.2) :
    m'.leafOf s = m.leafOf s := by
  have table : m'.tableOf (s.1, s.2.1) = m.tableOf (s.1, s.2.1) := by
    simp only [Memory.tableOf, dir]
  unfold Memory.leafOf
  rw [table]
  cases found : m.tableOf (s.1, s.2.1) with
  | none => rfl
  | some p => simp only [Option.bind_some, page p found]

theorem leafOf_some {p : Nat} (table : m.tableOf (s.1, s.2.1) = some p) :
    m.leafOf s = if Pte.v (m.phys p s.2.2) then some (m.phys p s.2.2) else none := by
  simp only [Memory.leafOf, table, Option.bind_some]

theorem tableOf_valid {d : Word} {i : Nat} (valid : Pte.v (m.dirs d i) = true) :
    m.tableOf (d, i) = some (pageTarget (m.dirs d i)) := by
  simp [Memory.tableOf, valid]

theorem tableOf_invalid {d : Word} {i : Nat} (invalid : Pte.v (m.dirs d i) = false) :
    m.tableOf (d, i) = none := by
  simp [Memory.tableOf, invalid]

end Views

namespace Wf

variable {pool : Pool} {dirs : Finset Word} {held : Finset Nat} {m : Memory} {f : Nat}

theorem pool_of_free (wf : Wf pool dirs held m) (positive : 0 < f) (bound : f < pagingPages)
    (free : m.memMap f = 0) : pool.Has f := by
  by_contra out
  have mark := wf.counted.outside f out
  exact pool.marked f bound (by omega) (fun inside => out ⟨by omega, inside⟩) (mark ▸ free)

/-- A free page is no page table, so clearing it changes no mapping. -/
theorem leafOf_clear {c : Byte} (wf : Wf pool dirs held m) (has : pool.Has f) (free : m.memMap f = 0)
    (s : LeafSlot) (hs : s ∈ leafSlots dirs) :
    ((m.setCount f c).clearPage (framePage f)).leafOf s = m.leafOf s := by
  obtain ⟨d, i, j⟩ := s
  obtain ⟨hd, hi, _⟩ := mem_leafSlots.mp hs
  apply leafOf_congr
  · rfl
  · intro p table
    have other : p ≠ framePage f := by
      rintro rfl
      exact (wf.counted.free_of_zero has free).2.1 (d, i) (mem_tableSlots.mpr ⟨hd, hi⟩) table
    simp [Memory.clearPage, Memory.setCount, Function.update_of_ne other]

theorem take_free (wf : Wf pool dirs held m) (positive : 0 < f) (bound : f < pagingPages)
    (free : m.memMap f = 0) :
    Wf pool dirs (insert f held) ((m.setCount f 1).clearPage (framePage f)) := by
  have has := wf.pool_of_free positive bound free
  refine ⟨?_, wf.current, wf.high⟩
  apply wf.counted.take has free
  · intro s hs
    exact wf.leafOf_clear has free s hs
  · intro t _
    rfl
  · rfl

/-- `free_page` on a frame that is in use: it loses one reference, and there is no panic. -/
theorem freePage_used (wf : Wf pool dirs held m) (has : pool.Has f) (inUse : m.memMap f ≠ 0) :
    freePage m (frameAddr f) = .ok (m.setCount f (m.memMap f - 1)) := by
  have low : ¬ frameAddr f < lowMem := BitVec.not_lt.mpr (low_le_frameAddr has.lt)
  have high : ¬ m.highMemory ≤ frameAddr f := BitVec.not_le.mpr (wf.high f has)
  rw [freePage, if_neg low, if_neg high, mapNr_frameAddr has.lt, if_neg inUse]

theorem give_held (wf : Wf pool dirs held m) (member : f ∈ held) :
    freePage m (frameAddr f) = .ok (m.setCount f (m.memMap f - 1)) ∧
      Wf pool dirs (held.erase f) (m.setCount f (m.memMap f - 1)) := by
  have one := wf.counted.heldOne f member
  have inUse : m.memMap f ≠ 0 := by
    change m.memMap f = 1 at one
    rw [one]
    decide
  refine ⟨wf.freePage_used (wf.counted.heldPool f member) inUse, ?_, wf.current, wf.high⟩
  apply wf.counted.give member
  · intro t _
    rfl
  · intro t _
    rfl
  · rfl

end Wf

def freeFrames (m : Memory) : Finset Nat := (Finset.range pagingPages).filter fun f => f ≠ 0 ∧ m.memMap f = 0

theorem mem_freeFrames {m : Memory} {f : Nat} : f ∈ freeFrames m ↔ f < pagingPages ∧ f ≠ 0 ∧ m.memMap f = 0 := by
  simp [freeFrames]

end K210Linux.Mm
