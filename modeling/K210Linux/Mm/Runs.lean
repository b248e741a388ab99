import K210Linux.Mm.Mapping
import K210Linux.Mm.Allocation

namespace K210Linux.Mm

open RefCount

/-- The memory together with the frames the kernel holds for itself. -/
structure Frames where
  memory : Memory
  held : Finset Nat

/-- One operation on the page tables or the frame pool. `dirs` are the directories in existence. -/
inductive Step (dirs : Finset Word) : Frames → Frames → Prop
  | alloc {m held addr m'} : getFreePage m = (addr, m') → addr ≠ 0 →
      Step dirs ⟨m, held⟩ ⟨m', insert (mapNr addr) held⟩
  | allocPages {m held addr n m'} : getFreePages m n = (addr, m') → addr ≠ 0 →
      Step dirs ⟨m, held⟩ ⟨m', held ∪ Finset.Ico (mapNr addr) (mapNr addr + n)⟩
  | release {m held f m'} : f ∈ held → freePage m (frameAddr f) = .ok m' → Step dirs ⟨m, held⟩ ⟨m', held.erase f⟩
  | put {m held f address m'} : f ∈ held →
      m.leafOf (m.pageDirTable, getPageDirId address, getPageEntryId address) = none →
      putPage m (frameAddr f) address = (frameAddr f, m') → Step dirs ⟨m, held⟩ ⟨m', held.erase f⟩
  | putFail {m held f address m'} : f ∈ held →
      m.leafOf (m.pageDirTable, getPageDirId address, getPageEntryId address) = none →
      putPage m (frameAddr f) address = (0, m') → Step dirs ⟨m, held⟩ ⟨m', held⟩
  | empty {m held address m'} :
      m.leafOf (m.pageDirTable, getPageDirId address, getPageEntryId address) = none →
      getEmptyPage m address = .ok m' ∨ getEmptyPage m address = .error (.oom m') → Step dirs ⟨m, held⟩ ⟨m', held⟩
  | copy {m held start dest toDir size r m'} : toDir ∈ dirs →
      (∀ i, i < pageDirTableNum → Pte.v (m.dirs toDir i) = false) →
      getPageDirId start + getPageDirSize size ≤ pageDirTableNum →
      copyPageTables m start dest toDir size = .ok (r, m') → Step dirs ⟨m, held⟩ ⟨m', held⟩
  | unWp {m held d i j p e m'} : d ∈ dirs → i < pageDirTableNum → j < pageTableItemNum →
      m.tableOf (d, i) = some p → m.leafOf (d, i, j) = some e → Pte.w e = false →
      unWpPage m p j = .ok m' → Step dirs ⟨m, held⟩ ⟨m', held⟩
  | free {m held start dir size m'} : getPageDirId start + getPageDirSize size ≤ pageDirTableNum →
      freePageTables m start dir size = .ok m' → Step dirs ⟨m, held⟩ ⟨m', held⟩
  | switch {m held d} : d ∈ dirs → Step dirs ⟨m, held⟩ ⟨setPageDir m d, held⟩

theorem copyDirSlots_empty {m : Memory} {toDir : Word} (fromId toId size : Nat)
    (source : ∀ i, fromId ≤ i → i < fromId + size → Pte.v (m.dirs m.pageDirTable i) = false)
    (dest : ∀ i, toId ≤ i → i < toId + size → Pte.v (m.dirs toDir i) = false) :
    copyDirSlots m toDir fromId toId size = .ok (0, m) := by
  induction size generalizing fromId toId with
  | zero => rfl
  | succ size ih =>
    have here := source fromId (Nat.le_refl _) (by omega)
    have there := dest toId (Nat.le_refl _) (by omega)
    simp only [copyDirSlots, here, there, Bool.false_eq_true, if_false]
    exact ih (fromId + 1) (toId + 1) (fun i low high => source i (by omega) (by omega))
      (fun i low high => dest i (by omega) (by omega))

namespace Wf

variable {pool : Pool} {dirs : Finset Word} {held : Finset Nat} {m m' : Memory}

/-- `copy_page_tables` into an empty directory never panics. -/
theorem copy_page_tables {start dest toDir size : Word} (wf : Wf pool dirs held m) (small : dirs.card < 255)
    (member : toDir ∈ dirs) (empty : ∀ i, i < pageDirTableNum → Pte.v (m.dirs toDir i) = false)
    (room : getPageDirId start + getPageDirSize size ≤ pageDirTableNum)
    (aligned : (alignTest2MB start || alignTest2MB dest) = false) :
    ∃ r m', copyPageTables m start dest toDir size = .ok (r, m') ∧ Wf pool dirs held m' ∧ (r = 0 ∨ r = -1) := by
  have enter : copyPageTables m start dest toDir size = if toDir = 0 then .ok (0, m) else
      copyDirSlots m toDir (getPageDirId start) 0 (getPageDirSize size) := by
    rw [copyPageTables, aligned, if_neg Bool.false_ne_true]
  rw [enter]
  by_cases null : toDir = 0
  · exact ⟨0, m, if_pos null, wf, .inl rfl⟩
  rw [if_neg null]
  by_cases same : toDir = m.pageDirTable
  · refine ⟨0, m, copyDirSlots_empty _ _ _ ?_ ?_, wf, .inl rfl⟩
    · intro i _ high
      rw [← same]
      exact empty i (by omega)
    · intro i _ high
      exact empty i (by omega)
  · have absent : ∀ i, i < pageDirTableNum → m.tableOf (toDir, i) = none :=
      fun i hi => tableOf_invalid (empty i hi)
    obtain ⟨r, m', done, copied, wf', _, outcome⟩ := wf.copy_dir_slots small member same room
      (show 0 + getPageDirSize size ≤ pageDirTableNum by omega) (fun i _ hi => absent i hi)
      (by
        rintro s hs _ _ q _ ⟨t, i, j⟩ ht rfl points
        obtain ⟨_, hi, _⟩ := mem_leafSlots.mp ht
        rw [View.leafTarget, show m.view.leaf (t, i, j) = none from leafOf_of_absent (absent i hi) j] at points
        cases points)
    exact ⟨r, m', copied, wf', outcome.imp And.left And.left⟩

/-- `free_page_tables` on a range of the current directory never panics. -/
theorem free_page_tables {start dir size : Word} (wf : Wf pool dirs held m) (nonzero : start ≠ 0)
    (aligned : alignTest4KB start = false) (room : getPageDirId start + getPageDirSize size ≤ pageDirTableNum) :
    ∃ m', freePageTables m start dir size = .ok m' ∧ Wf pool dirs held m' ∧
      SlotsFreed dirs m.pageDirTable (getPageDirId start) (getPageDirSize size) m m' := by
  obtain ⟨m', done, wf', freed⟩ := wf.free_dir_slots room
  refine ⟨m', ?_, wf', freed⟩
  rw [freePageTables, aligned, if_neg Bool.false_ne_true, if_neg nonzero]
  exact done

theorem switch {d : Word} (wf : Wf pool dirs held m) (member : d ∈ dirs) : Wf pool dirs held (setPageDir m d) :=
  ⟨wf.counted, member, wf.high⟩

theorem step {a b : Frames} (small : dirs.card < 255) (wf : Wf pool dirs a.held a.memory) (step : Step dirs a b) :
    Wf pool dirs b.held b.memory := by
  cases step with
  | @alloc m held addr m' found nonzero =>
    rcases getFreePage_cases m with ⟨none, _⟩ | ⟨f, positive, bound, free, got⟩
    · rw [none, Prod.mk.injEq] at found
      exact absurd found.1.symm nonzero
    · rw [got, Prod.mk.injEq] at found
      rw [← found.1, ← found.2, mapNr_frameAddr bound]
      exact wf.take_free positive bound free
  | @allocPages m held addr n m' found nonzero =>
    rcases Nat.eq_zero_or_pos n with rfl | positive
    · rw [getFreePages_zero, Prod.mk.injEq] at found
      exact absurd found.1.symm nonzero
    · rcases getFreePages_cases m positive with ⟨none, _⟩ | ⟨f, first, room, free, got⟩
      · rw [none, Prod.mk.injEq] at found
        exact absurd found.1.symm nonzero
      · rw [got, Prod.mk.injEq] at found
        rw [← found.1, ← found.2, mapNr_frameAddr (by omega)]
        exact wf.take_run first room free
  | @release m held f m' member freed =>
    obtain ⟨run, wf'⟩ := wf.give_held member
    rw [run] at freed
    cases freed
    exact wf'
  | @put m held f address m' member absent run =>
    rcases wf.put_page member address absent with ⟨failed, _⟩ | ⟨m'', done, wf', _⟩
    · rw [failed, Prod.mk.injEq] at run
      exact absurd run.1.symm (frameAddr_ne_zero (wf.counted.heldPool f member).lt)
    · rw [done, Prod.mk.injEq] at run
      rw [← run.2]
      exact wf'
  | @putFail m held f address m' member absent run =>
    rcases wf.put_page member address absent with ⟨failed, _⟩ | ⟨m'', done, wf', _⟩
    · rw [failed, Prod.mk.injEq] at run
      rw [← run.2]
      exact wf
    · rw [done, Prod.mk.injEq] at run
      exact absurd run.1 (frameAddr_ne_zero (wf.counted.heldPool f member).lt)
  | @empty m held address m' absent run =>
    rcases wf.get_empty_page address absent with ⟨m'', failed, wf'⟩ | ⟨f, m'', done, _, _, _, wf', _⟩
    · rcases run with run | run
      · rw [failed] at run
        cases run
      · rw [failed] at run
        cases run
        exact wf'
    · rcases run with run | run
      · rw [done] at run
        cases run
        exact wf'
      · rw [done] at run
        cases run
  | @copy m held start dest toDir size r m' member empty room run =>
    by_cases null : toDir = 0
    · rw [copyPageTables, if_pos null] at run
      cases run
      exact wf
    cases aligned : alignTest2MB start || alignTest2MB dest with
    | true =>
      rw [copyPageTables, if_neg null, aligned, if_pos rfl] at run
      cases run
    | false =>
      obtain ⟨r', m'', done, wf', _⟩ := wf.copy_page_tables small member empty room aligned
      rw [done] at run
      cases run
      exact wf'
  | @unWp m held d i j p e m' hd hi hj table leaf readOnly run =>
    have hs : (d, i, j) ∈ leafSlots dirs := mem_leafSlots.mpr ⟨hd, hi, hj⟩
    obtain ⟨f, _, page, _⟩ := wf.leaf_frame hs leaf
    rcases wf.un_wp_page (mem_tableSlots.mpr ⟨hd, hi⟩) table hj leaf page with
      ⟨failed, _⟩ | ⟨g, m'', done, wf', _⟩
    · rw [failed] at run
      cases run
    · rw [done] at run
      cases run
      exact wf'
  | @free m held start dir size m' room run =>
    cases aligned : alignTest4KB start with
    | true =>
      rw [freePageTables, aligned, if_pos rfl] at run
      cases run
    | false =>
      by_cases null : start = 0
      · rw [freePageTables, aligned, if_neg Bool.false_ne_true, if_pos null] at run
        cases run
      obtain ⟨m'', done, wf', _⟩ := wf.free_page_tables null aligned room
      rw [done] at run
      cases run
      exact wf'
  | @switch m held d member => exact wf.switch member

theorem run {a b : Frames} (small : dirs.card < 255) (wf : Wf pool dirs a.held a.memory)
    (steps : Relation.ReflTransGen (Step dirs) a b) : Wf pool dirs b.held b.memory := by
  induction steps with
  | refl => exact wf
  | tail _ last ih => exact ih.step small last

end Wf

theorem Counted.count_le {pool : Pool} {dirs : Finset Word} {held : Finset Nat} {v : View} {f : Nat}
    (inv : Counted pool dirs held v) (has : pool.Has f) (positive : 0 < dirs.card) :
    (v.count f).toNat ≤ dirs.card := by
  by_cases one : v.count f = 1
  · rw [one, toNat_one_byte]
    exact positive
  · have noTable : v.tableRefs dirs f = 0 := by
      apply refs_eq_zero.mpr
      intro s hs target
      exact one (inv.tableOne s hs f target)
    have notHeld : indicator (f ∈ held) = 0 := if_neg fun member => one (inv.heldOne f member)
    have sum := inv.exact f has
    have bound := inv.leafRefs_le (f := f)
    omega

/-- In every run from `mem_init` over at most 64 empty directories the counters are exact, they stay
    far from wrapping, and `get_free_page` only returns a frame that nothing refers to. -/
theorem run_counters_exact (m₀ : Memory) (dirs : Finset Word) (startMem endMem : Word) (few : dirs.card ≤ 64)
    (low : lowMem ≤ startMem) (order : startMem ≤ endMem) (high : endMem ≤ lowMem + 0xF00000)
    (current : m₀.pageDirTable ∈ dirs)
    (empty : ∀ d ∈ dirs, ∀ i, i < pageDirTableNum → Pte.v (m₀.dirs d i) = false) (s : Frames)
    (steps : Relation.ReflTransGen (Step dirs) ⟨memInit m₀ startMem endMem, ∅⟩ s) :
    (∀ f, (initPool startMem endMem low order high).Has f →
      (s.memory.memMap f).toNat =
        s.memory.view.leafRefs dirs f + s.memory.view.tableRefs dirs f + indicator (f ∈ s.held) ∧
      (s.memory.memMap f).toNat ≤ 64) ∧
    ∀ addr m', getFreePage s.memory = (addr, m') → addr ≠ 0 →
      ∃ f, (initPool startMem endMem low order high).Has f ∧ addr = frameAddr f ∧
        s.memory.view.leafRefs dirs f = 0 ∧ s.memory.view.tableRefs dirs f = 0 ∧ f ∉ s.held := by
  have wf := (memInit_wf low order high current empty).run (Nat.lt_of_le_of_lt few (by decide)) steps
  refine ⟨?_, ?_⟩
  · intro f has
    refine ⟨wf.counted.exact f has, ?_⟩
    exact Nat.le_trans (wf.counted.count_le has (Finset.card_pos.mpr ⟨_, current⟩)) few
  · intro addr m' found nonzero
    rcases getFreePage_cases s.memory with ⟨none, _⟩ | ⟨f, positive, bound, free, got⟩
    · rw [none, Prod.mk.injEq] at found
      exact absurd found.1.symm nonzero
    · rw [got, Prod.mk.injEq] at found
      have has := wf.pool_of_free positive bound free
      obtain ⟨noLeaf, noTable, notHeld⟩ := wf.counted.free_of_zero has free
      exact ⟨f, has, found.1.symm, refs_eq_zero.mpr noLeaf, refs_eq_zero.mpr noTable, notHeld⟩

/-- After boot the kernel takes a frame and maps it at the start of user space. -/
theorem boot_run_counters_exact : ∃ s,
    Relation.ReflTransGen (Step {0x80700000, 0x80704000}) ⟨bootMemory 0x80700000, ∅⟩ s ∧
    s.memory.view.leafTarget (0x80700000, 0, 0) = some (framePage 1279) ∧
    (s.memory.memMap 1279).toNat = s.memory.view.leafRefs {0x80700000, 0x80704000} 1279 +
      s.memory.view.tableRefs {0x80700000, 0x80704000} 1279 + indicator (1279 ∈ s.held) := by
  have current : (0x80700000 : Word) ∈ ({0x80700000, 0x80704000} : Finset Word) := Finset.mem_insert_self _ _
  have wf := bootMemory_wf current
  have free : (bootMemory 0x80700000).memMap 1279 = 0 := by
    rw [bootMemory_count]
    rfl
  have has := wf.pool_of_free (by decide) (by decide) free
  have taken := wf.take_free (by decide) (by decide) free
  have first : Step {0x80700000, 0x80704000} ⟨bootMemory 0x80700000, ∅⟩ _ :=
    Step.alloc (bootMemory_getFreePage 0x80700000) (frameAddr_ne_zero (by decide))
  rw [mapNr_frameAddr (by decide)] at first
  have absent : (((bootMemory 0x80700000).setCount 1279 1).clearPage (framePage 1279)).leafOf
      (0x80700000, getPageDirId 0xC0000000, getPageEntryId 0xC0000000) = none :=
    leafOf_of_absent (tableOf_invalid v_zero) _
  rcases taken.put_page (Finset.mem_insert_self _ _) 0xC0000000 absent with ⟨_, _, full⟩ | ⟨m', put, _, mapped⟩
  · refine absurd ?_ (full 1 (by decide) (by decide))
    change Function.update (bootMemory 0x80700000).memMap 1279 1 1 = 0
    rw [Function.update_of_ne (by decide), bootMemory_count]
    rfl
  · have steps := (Relation.ReflTransGen.single first).tail (Step.put (Finset.mem_insert_self _ _) absent put)
    obtain ⟨e, leaf, target, _⟩ := mapped.leaf
    refine ⟨_, steps, ?_, ?_⟩
    · rw [← target]
      exact Counted.leafTarget_of_leaf (v := m'.view) leaf
    · exact ((run_counters_exact _ _ 0x80100000 0x80600000 (by decide) (by decide) (by decide) (by decide) current
        (fun _ _ _ _ => v_zero) _ steps).1 1279 has).1

end K210Linux.Mm
