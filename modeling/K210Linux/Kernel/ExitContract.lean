import K210Linux.Kernel.UserContract

namespace K210Linux.Kernel

open K210Linux.Mm RefCount Outcome

/-- Directory `d` maps frame `f`. -/
def MapsFrame (m : Memory) (d : Word) (f : Nat) : Prop :=
  ∃ i j, i < pageDirTableNum ∧ j < pageTableItemNum ∧ m.view.leafTarget (d, i, j) = some (framePage f)

/-- Frame `f` is a page table of directory `d`. -/
def OwnsTable (m : Memory) (d : Word) (f : Nat) : Prop :=
  ∃ i, i < pageDirTableNum ∧ m.tableOf (d, i) = some (framePage f)

/-- All user memory of the directory `d` was returned: each frame it mapped lost one reference, its page
    tables are free, its entries invalid, and no other counter changed. -/
structure MemoryReturned (d : Word) (m m' : Memory) : Prop where
  mapped : ∀ f, MapsFrame m d f → (m'.memMap f).toNat + 1 = (m.memMap f).toNat
  tables : ∀ f, OwnsTable m d f → m'.memMap f = 0
  entries : ∀ i, i < pageDirTableNum → m'.tableOf (d, i) = none
  others : ∀ f, ¬ MapsFrame m d f → ¬ OwnsTable m d f → m'.memMap f = m.memMap f

section Return

variable {pool : Pool} {dirs dirs' : Finset Word} {held : Finset Nat} {m m' : Memory} {d : Word} {f : Nat}

/-- Counters are determined by the references. -/
theorem count_eq_of_refs (wf : Wf pool dirs held m) (wf' : Wf pool dirs' held m')
    (leaves : m'.view.leafRefs dirs' f = m.view.leafRefs dirs f)
    (tables : m'.view.tableRefs dirs' f = m.view.tableRefs dirs f) : m'.memMap f = m.memMap f := by
  by_cases has : pool.Has f
  · have before := wf.counted.exact f has
    have after := wf'.counted.exact f has
    rw [leaves, tables] at after
    exact BitVec.eq_of_toNat_eq (after.trans before.symm)
  · exact (wf'.counted.outside f has).trans (wf.counted.outside f has).symm

/-- Directory `d` was emptied, and no other directory changed. -/
structure Emptied (dirs : Finset Word) (d : Word) (m m' : Memory) : Prop where
  table : ∀ i, i < pageDirTableNum → m'.tableOf (d, i) = none
  otherTables : ∀ s ∈ tableSlots dirs, s.1 ≠ d → m'.tableOf s = m.tableOf s
  otherLeaves : ∀ s ∈ leafSlots dirs, s.1 ≠ d → m'.view.leafTarget s = m.view.leafTarget s

theorem inSlots_one {id i : Nat} : InSlots d id 1 (d, i) ↔ i = id := by
  unfold InSlots
  constructor
  · rintro ⟨_, low, high⟩
    simp only at low high
    omega
  · rintro rfl
    exact ⟨rfl, Nat.le_refl _, Nat.lt_succ_self _⟩

/-- Freeing one slot empties a directory that uses no other. -/
theorem emptied_of_freed {id : Nat} (member : d ∈ dirs) (freed : SlotsFreed dirs d id 1 m m')
    (only : ∀ i, i < pageDirTableNum → m.tableOf (d, i) ≠ none → i = id) : Emptied dirs d m m' := by
  refine ⟨?_, ?_, ?_⟩
  · intro i hi
    rw [freed.table _ (mem_tableSlots.mpr ⟨member, hi⟩)]
    by_cases here : i = id
    · rw [if_pos (inSlots_one.mpr here)]
    · rw [if_neg (fun h => here (inSlots_one.mp h))]
      by_contra valid
      exact here (only i hi valid)
  · intro s hs other
    rw [freed.table s hs, if_neg (fun h => other h.1)]
  · intro s hs other
    rw [View.leafTarget, View.leafTarget, show m'.view.leaf s = m.leafOf s from
      (freed.leaf s hs).trans (if_neg (fun h => other h.1))]
    rfl

namespace Emptied

theorem leaf (emptied : Emptied dirs d m m') {i : Nat} (hi : i < pageDirTableNum) (j : Nat) :
    m'.view.leafTarget (d, i, j) = none := by
  rw [View.leafTarget, show m'.view.leaf (d, i, j) = none from leafOf_of_absent (emptied.table i hi) j]
  rfl

theorem leaf_iff (emptied : Emptied dirs d m m') {s : LeafSlot} (hs : s ∈ leafSlots dirs)
    (kept : s.1 = d → m.view.leafTarget s ≠ some (framePage f)) :
    m'.view.leafTarget s = some (framePage f) ↔ m.view.leafTarget s = some (framePage f) := by
  obtain ⟨d', i, j⟩ := s
  by_cases here : d' = d
  · subst here
    rw [emptied.leaf (mem_leafSlots.mp hs).2.1 j]
    exact iff_of_false nofun (kept rfl)
  · rw [emptied.otherLeaves _ hs here]

theorem table_iff (emptied : Emptied dirs d m m') {s : TableSlot} (hs : s ∈ tableSlots dirs)
    (kept : s.1 = d → m.tableOf s ≠ some (framePage f)) :
    m'.tableOf s = some (framePage f) ↔ m.tableOf s = some (framePage f) := by
  obtain ⟨d', i⟩ := s
  by_cases here : d' = d
  · subst here
    rw [emptied.table i (mem_tableSlots.mp hs).2]
    exact iff_of_false nofun (kept rfl)
  · rw [emptied.otherTables _ hs here]

theorem leafRefs_eq (emptied : Emptied dirs d m m') (unmapped : ¬ MapsFrame m d f) :
    m'.view.leafRefs dirs f = m.view.leafRefs dirs f := by
  apply refs_congr_iff
  rintro ⟨d', i, j⟩ hs
  obtain ⟨_, hi, hj⟩ := mem_leafSlots.mp hs
  refine emptied.leaf_iff hs ?_
  rintro rfl target
  exact unmapped ⟨i, j, hi, hj, target⟩

theorem tableRefs_eq (emptied : Emptied dirs d m m') (noTable : ¬ OwnsTable m d f) :
    m'.view.tableRefs dirs f = m.view.tableRefs dirs f := by
  apply refs_congr_iff
  rintro ⟨d', i⟩ hs
  refine emptied.table_iff hs ?_
  rintro rfl target
  exact noTable ⟨i, (mem_tableSlots.mp hs).2, target⟩

/-- A directory that is emptied returns all its memory. -/
theorem returned (emptied : Emptied dirs d m m') (wf : Wf pool dirs held m) (wf' : Wf pool dirs held m')
    (member : d ∈ dirs) : MemoryReturned d m m' := by
  refine ⟨?_, ?_, emptied.table, ?_⟩
  · rintro f ⟨i, j, hi, hj, target⟩
    have hs : (d, i, j) ∈ leafSlots dirs := mem_leafSlots.mpr ⟨member, hi, hj⟩
    have has := wf.counted.pool_of_leaf hs target
    obtain ⟨count, noTable, notHeld⟩ := wf.counted.leaf_only hs target
    have drop : m'.view.leafRefs dirs f + 1 = m.view.leafRefs dirs f := by
      apply refs_drop_one hs target
      · rw [emptied.leaf hi j]
        exact nofun
      · intro s member' other
        refine emptied.leaf_iff member' fun here again => other ?_
        exact wf.counted.apart s member' _ hs _ again target here
    have tables : m'.view.tableRefs dirs f = 0 := by
      rw [emptied.tableRefs_eq, noTable]
      rintro ⟨i', hi', table⟩
      have := Counted.table_pos (v := m.view) (mem_tableSlots.mpr ⟨member, hi'⟩) table
      omega
    have after := wf'.counted.exact f has
    rw [tables, indicator, if_neg notHeld] at after
    have before : (m.memMap f).toNat = m.view.leafRefs dirs f := count
    have now : (m'.memMap f).toNat = m'.view.leafRefs dirs f + 0 + 0 := after
    omega
  · rintro f ⟨i, hi, table⟩
    have hs : (d, i) ∈ tableSlots dirs := mem_tableSlots.mpr ⟨member, hi⟩
    have has := wf.counted.pool_of_table hs table
    obtain ⟨noLeaf, single, notHeld⟩ := wf.counted.table_only hs table
    have drop : m'.view.tableRefs dirs f + 1 = m.view.tableRefs dirs f := by
      apply refs_drop_one hs table
      · rw [show m'.view.table (d, i) = none from emptied.table i hi]
        exact nofun
      · intro s member' other
        refine emptied.table_iff member' fun here again => other ?_
        exact wf.counted.table_unique member' hs again table
    have leaves : m'.view.leafRefs dirs f = 0 := by
      rw [emptied.leafRefs_eq, noLeaf]
      rintro ⟨i', j', hi', hj', target⟩
      have := Counted.leaf_pos (v := m.view) (mem_leafSlots.mpr ⟨member, hi', hj'⟩) target
      omega
    have after := wf'.counted.exact f has
    rw [leaves, indicator, if_neg notHeld] at after
    apply BitVec.eq_of_toNat_eq
    rw [toNat_zero_byte]
    have now : (m'.memMap f).toNat = 0 + m'.view.tableRefs dirs f + 0 := after
    omega
  · intro f unmapped noTable
    exact count_eq_of_refs wf wf' (emptied.leafRefs_eq unmapped) (emptied.tableRefs_eq noTable)

end Emptied

theorem exit_size : getPageDirSize (BitVec.ofNat 64 pageDirTableNum) = 1 := by decide

/-- The call of `free_page_tables` in `do_exit` frees one slot, the one that the address of the
    directory itself happens to select. -/
theorem exitMemory_freed {k : Process} (wf : Wf pool dirs held k.memory)
    (currentDir : k.memory.pageDirTable = (k.structs k.current).pageDirTable)
    (nonzero : (k.structs k.current).pageDirTable ≠ 0)
    (aligned : alignTest4KB (k.structs k.current).pageDirTable = false) :
    ∃ m', exitMemory k = .ok m' ∧ Wf pool dirs held m' ∧
      SlotsFreed dirs (k.structs k.current).pageDirTable (getPageDirId (k.structs k.current).pageDirTable) 1
        k.memory m' := by
  have room := getPageDirId_lt (k.structs k.current).pageDirTable
  have many : pageDirTableNum = 2048 := rfl
  obtain ⟨m', done, wf', freed⟩ : ∃ m', freePageTables k.memory (k.structs k.current).pageDirTable
      (k.structs k.current).pageDirTable (BitVec.ofNat 64 pageDirTableNum) = .ok m' ∧ _ :=
    wf.free_page_tables nonzero aligned (by rw [exit_size]; omega)
  rw [exit_size, currentDir] at freed
  refine ⟨m', ?_, wf', freed⟩
  simp only [exitMemory]
  rw [if_pos nonzero]
  exact done

theorem exit_returns_iff {k : Process} (wf : Wf pool dirs held k.memory)
    (currentDir : k.memory.pageDirTable = (k.structs k.current).pageDirTable)
    (nonzero : (k.structs k.current).pageDirTable ≠ 0)
    (aligned : alignTest4KB (k.structs k.current).pageDirTable = false) :
    ∃ m', exitMemory k = .ok m' ∧ (MemoryReturned (k.structs k.current).pageDirTable k.memory m' ↔
      ∀ i, i < pageDirTableNum → k.memory.tableOf ((k.structs k.current).pageDirTable, i) ≠ none →
        i = getPageDirId (k.structs k.current).pageDirTable) := by
  obtain ⟨m', done, wf', freed⟩ := exitMemory_freed wf currentDir nonzero aligned
  have member : (k.structs k.current).pageDirTable ∈ dirs := currentDir ▸ wf.current
  refine ⟨m', done, ?_, fun only => (emptied_of_freed member freed only).returned wf wf' member⟩
  intro returned i hi valid
  by_contra other
  have kept := freed.table _ (mem_tableSlots.mpr ⟨member, hi⟩)
  rw [if_neg (fun h => other (inSlots_one.mp h)), returned.entries i hi] at kept
  exact valid kept.symm

end Return

end K210Linux.Kernel
