import K210Linux.Mm.Runs

namespace K210Linux.Mm

/-- Byte `k` of a page, little-endian within each word. -/
def byteAt (words : Nat → Word) (k : Nat) : Byte := ((words (k / 8)) >>> (8 * (k % 8))).setWidth 8

theorem byteAt_zero {words : Nat → Word} {k : Nat} (zero : words (k / 8) = 0) : byteAt words k = 0 := by
  rw [byteAt, zero]
  simp

/-- Copying the first word copies the page exactly when the rest of it is zero. -/
theorem firstWord_eq_iff (words : Nat → Word) :
    (∀ k, k < 4096 → byteAt (firstWord words) k = byteAt words k) ↔
      ∀ k, 8 ≤ k → k < 4096 → byteAt words k = 0 := by
  have later : ∀ k, 8 ≤ k → byteAt (firstWord words) k = 0 := by
    intro k low
    exact byteAt_zero (if_neg (by omega))
  constructor
  · intro same k low high
    rw [← same k high, later k low]
  · intro zero k high
    by_cases low : 8 ≤ k
    · rw [later k low, zero k low high]
    · have first : k / 8 = 0 := by omega
      rw [byteAt, byteAt, first]
      rfl

/-- The leaf slot through which the current task reaches an address. -/
def Memory.slotOf (m : Memory) (address : Word) : LeafSlot :=
  (m.pageDirTable, getPageDirId address, getPageEntryId address)

theorem slotOf_mem {pool : Pool} {dirs : Finset Word} {held : Finset Nat} {m : Memory}
    (wf : Wf pool dirs held m) (address : Word) : m.slotOf address ∈ leafSlots dirs := by
  have id := getPageDirId_lt address
  refine mem_leafSlots.mpr ⟨wf.current, ?_, getPageEntryId_lt address⟩
  unfold pageDirTableNum
  omega

/-- A write fault on a page that maps frame `f` was handled as it should: the address is now mapped
    writable to a frame of its own with the old contents, and no other mapping of `f` and no byte of
    `f` changed. -/
def FaultHandled (dirs : Finset Word) (m : Memory) (address : Word) (f : Nat)
    (result : Except (Stop Memory) Memory) : Prop :=
  ∃ m', result = .ok m' ∧
    (∃ e g, m'.leafOf (m.slotOf address) = some e ∧ Pte.w e = true ∧ pageTarget e = framePage g ∧
      m'.memMap g = 1 ∧ ∀ k, k < 4096 → byteAt (m'.phys (framePage g)) k = byteAt (m.phys (framePage f)) k) ∧
    (∀ t ∈ leafSlots dirs, t ≠ m.slotOf address → m.view.leafTarget t = some (framePage f) →
      m'.leafOf t = m.leafOf t) ∧
    m'.phys (framePage f) = m.phys (framePage f)

section Fault

variable {pool : Pool} {dirs : Finset Word} {held : Finset Nat} {m : Memory} {address e : Word} {f : Nat}

theorem leafOf_slotOf (leaf : m.leafOf (m.slotOf address) = some e) :
    Pte.v (m.dirs m.pageDirTable (getPageDirId address)) = true ∧ Pte.v e = true ∧
      m.phys (pageTarget (m.dirs m.pageDirTable (getPageDirId address))) (getPageEntryId address) = e := by
  cases valid : Pte.v (m.dirs m.pageDirTable (getPageDirId address)) with
  | false =>
    rw [Memory.slotOf, leafOf_of_absent (tableOf_invalid valid)] at leaf
    cases leaf
  | true =>
    rw [Memory.slotOf, leafOf_some (tableOf_valid valid)] at leaf
    split at leaf
    · rename_i entry
      cases leaf
      exact ⟨rfl, entry, rfl⟩
    · cases leaf

theorem doWpPage_eq (m : Memory) (address : Word) : doWpPage m address =
    unWpPage m (pageTarget (m.dirs m.pageDirTable (getPageDirId address))) (getPageEntryId address) := by
  rw [doWpPage, pageOf_ppnToAddr]

theorem writeVerify_eq (leaf : m.leafOf (m.slotOf address) = some e) (readOnly : Pte.w e = false) :
    writeVerify m address =
      unWpPage m (pageTarget (m.dirs m.pageDirTable (getPageDirId address))) (getPageEntryId address) := by
  obtain ⟨table, entry, here⟩ := leafOf_slotOf leaf
  simp only [writeVerify, pageOf_ppnToAddr, table, here, entry, readOnly, Bool.not_true, Bool.not_false,
    Bool.and_self, Bool.false_eq_true, if_false, if_true]

/-- Breaking the sharing is right exactly when there is nothing to copy, or only zeros after the
    first word. -/
theorem unWpPage_handled (wf : Wf pool dirs held m) (leaf : m.leafOf (m.slotOf address) = some e)
    (page : pageTarget e = framePage f) (available : ∃ g, 0 < g ∧ g < pagingPages ∧ m.memMap g = 0) :
    FaultHandled dirs m address f
        (unWpPage m (pageTarget (m.dirs m.pageDirTable (getPageDirId address))) (getPageEntryId address)) ↔
      m.memMap f = 1 ∨ ∀ k, 8 ≤ k → k < 4096 → byteAt (m.phys (framePage f)) k = 0 := by
  have hs := slotOf_mem wf address
  obtain ⟨_, hi, hj⟩ := mem_leafSlots.mp hs
  have data := wf.isData_of_leaf hs leaf page
  rcases wf.un_wp_page (mem_tableSlots.mpr ⟨wf.current, hi⟩) (tableOf_valid (leafOf_slotOf leaf).1) hj leaf page with
    ⟨_, _, full⟩ | ⟨g, m', done, _, broken, single⟩
  · obtain ⟨g, positive, bound, free⟩ := available
    exact absurd free (full g positive bound)
  have old := broken.data f data
  have contents : (∀ k, k < 4096 → byteAt (m'.phys (framePage g)) k = byteAt (m.phys (framePage f)) k) ↔
      m.memMap f = 1 ∨ ∀ k, 8 ≤ k → k < 4096 → byteAt (m.phys (framePage f)) k = 0 := by
    rw [broken.content]
    by_cases one : m.memMap f = 1
    · rw [if_pos (single.mpr one)]
      exact iff_of_true (fun _ _ => rfl) (.inl one)
    · rw [if_neg (fun same => one (single.mp same)), firstWord_eq_iff]
      exact ⟨.inr, fun either => either.resolve_left one⟩
  obtain ⟨e', here, target, writable⟩ := broken.leaf
  constructor
  · rintro ⟨m'', run, ⟨e'', g', here', _, target', _, same⟩, _⟩
    rw [done] at run
    cases run
    have leaves : e'' = e' := Option.some.inj (here'.symm.trans here)
    rw [leaves, target] at target'
    rw [← framePage_inj target'] at same
    exact contents.mp same
  · intro condition
    refine ⟨m', done, ⟨e', g, here, writable, target, broken.one, contents.mpr condition⟩, ?_, old⟩
    intro t ht other _
    exact broken.others t ht other

/-- A write fault on a present, write-protected page, with a frame free, keeps the contents of the
    page exactly when the frame is not shared or holds only zeros after its first eight bytes. -/
theorem write_fault_handled_iff (wf : Wf pool dirs held m) (leaf : m.leafOf (m.slotOf address) = some e)
    (readOnly : Pte.w e = false) (page : pageTarget e = framePage f)
    (available : ∃ g, 0 < g ∧ g < pagingPages ∧ m.memMap g = 0) :
    (FaultHandled dirs m address f (doWpPage m address) ↔
      m.memMap f = 1 ∨ ∀ k, 8 ≤ k → k < 4096 → byteAt (m.phys (framePage f)) k = 0) ∧
    (FaultHandled dirs m address f (writeVerify m address) ↔
      m.memMap f = 1 ∨ ∀ k, 8 ≤ k → k < 4096 → byteAt (m.phys (framePage f)) k = 0) := by
  rw [doWpPage_eq, writeVerify_eq leaf readOnly]
  exact ⟨unWpPage_handled wf leaf page available, unWpPage_handled wf leaf page available⟩

end Fault

/-- Writing to pages that are no page tables changes no mapping. -/
theorem Wf.write_pages {pool : Pool} {dirs : Finset Word} {held : Finset Nat} {m : Memory}
    (wf : Wf pool dirs held m) (pages : Nat → Nat → Word)
    (tables : ∀ s ∈ tableSlots dirs, ∀ p, m.tableOf s = some p → pages p = m.phys p) :
    Wf pool dirs held { m with phys := pages } ∧
      ∀ s ∈ leafSlots dirs, Memory.leafOf { m with phys := pages } s = m.leafOf s := by
  have leaf : ∀ s ∈ leafSlots dirs, Memory.leafOf { m with phys := pages } s = m.leafOf s := by
    rintro ⟨d, i, j⟩ hs
    obtain ⟨hd, hi, _⟩ := mem_leafSlots.mp hs
    apply leafOf_congr
    · rfl
    · intro p table
      exact congrFun (tables (d, i) (mem_tableSlots.mpr ⟨hd, hi⟩) p table) j
  refine ⟨⟨?_, wf.current, wf.high⟩, leaf⟩
  apply wf.counted.of_table leaf
  · exact fun _ _ => rfl
  · exact fun _ _ => rfl
  · exact fun _ _ _ => rfl
  · intro t ht q found
    obtain ⟨f, has, page, one⟩ := wf.table_frame ht found
    exact ⟨f, has, page, one⟩
  · intro f member
    exact ⟨wf.counted.heldPool f member, wf.counted.heldOne f member⟩

section Example

def parentDir : Word := 0x80700000
def childDir : Word := 0x80704000

/-- After boot, a frame filled with the given words is mapped at `address`. -/
def oneTask (words : Nat → Word) (address : Word) : Memory :=
  let taken := (getFreePage (bootMemory parentDir)).2
  (putPage { taken with phys := Function.update taken.phys (framePage 1279) words } (frameAddr 1279) address).2

/-- The one mapping of such a task. -/
structure MapsOne (dirs : Finset Word) (words : Nat → Word) (address : Word) (m : Memory) : Prop where
  wf : Wf bootPool dirs ∅ m
  current : m.pageDirTable = parentDir
  leaf : ∃ e, m.leafOf (m.slotOf address) = some e ∧ pageTarget e = framePage 1279 ∧ Pte.w e = true
  others : ∀ s ∈ leafSlots dirs, s ≠ m.slotOf address → m.leafOf s = none
  tables : ∀ s ∈ tableSlots dirs, s ≠ (parentDir, getPageDirId address) → m.tableOf s = none
  words : m.phys (framePage 1279) = words
  one : m.memMap 1279 = 1
  free : ∃ table, ∀ g, g < 1279 → g ≠ table → m.memMap g = 0

variable {dirs : Finset Word} {words : Nat → Word} {m : Memory} {address : Word}

theorem mapsOne_of_put (wf : Wf bootPool dirs {1279} m) (current : m.pageDirTable = parentDir)
    (vacant : ∀ s, m.tableOf s = none) (filled : m.phys (framePage 1279) = words)
    (count : ∀ g, g < 1279 → m.memMap g = 0) (address : Word) :
    MapsOne dirs words address (putPage m (frameAddr 1279) address).2 := by
  have empty : ∀ s, m.leafOf s = none := fun s => leafOf_of_absent (vacant _) _
  have single : m.memMap 1279 = 1 := wf.counted.heldOne 1279 (Finset.mem_singleton_self _)
  rcases wf.put_page (Finset.mem_singleton_self _) address (empty _) with ⟨_, _, full⟩ | ⟨m', put, wf', mapped⟩
  · exact absurd (count 1 (by decide)) (full 1 (by decide) (by decide))
  · rw [Finset.erase_singleton] at wf'
    rw [put]
    have slot : m'.slotOf address = m.slotOf address := by
      simp only [Memory.slotOf, mapped.control.pageDirTable]
    refine ⟨wf', mapped.control.pageDirTable.trans current, ?_, ?_, ?_, ?_, ?_, ?_⟩
    · rw [slot]
      exact mapped.leaf
    · intro s hs other
      rw [slot] at other
      exact (mapped.others s hs other).trans (empty s)
    · intro s hs other
      rw [← current] at other
      exact (mapped.tables s hs other).trans (vacant s)
    · have data : m.IsData dirs 1279 := by
        refine ⟨by rw [single]; decide, fun s _ => ?_⟩
        rw [vacant s]
        exact nofun
      rw [mapped.data 1279 (by decide) data]
      exact filled
    · rw [mapped.count 1279 (by rw [single]; decide)]
      exact single
    · obtain ⟨table, same⟩ := mapped.taken
      refine ⟨table, fun g below notTable => ?_⟩
      rw [same g (by omega) notTable]
      exact count g below

theorem oneTask_mapsOne (member : parentDir ∈ dirs) (words : Nat → Word) (address : Word) :
    MapsOne dirs words address (oneTask words address) := by
  have free : (bootMemory parentDir).memMap 1279 = 0 := by
    rw [bootMemory_count]
    rfl
  have taken := (bootMemory_wf member).take_free (by decide) (by decide) free
  have vacant : ∀ s, (((bootMemory parentDir).setCount 1279 1).clearPage (framePage 1279)).tableOf s = none :=
    fun s => tableOf_invalid v_zero
  rw [oneTask, bootMemory_getFreePage]
  apply mapsOne_of_put
  · apply (taken.write_pages _ _).1
    intro s _ p table
    rw [vacant s] at table
    cases table
  · rfl
  · exact vacant
  · simp only [Function.update_self]
  · intro g below
    change Function.update (bootMemory parentDir).memMap 1279 1 g = 0
    rw [Function.update_of_ne (by omega), bootMemory_count, if_pos (by omega)]

/-- The same task after its page tables were copied for a child. -/
def forkedTask (words : Nat → Word) : Memory :=
  match copyPageTables (oneTask words userStartAddr) userStartAddr userStartAddr childDir 4096 with
  | .ok (_, m) => m
  | .error _ => oneTask words userStartAddr

structure MapsShared (dirs : Finset Word) (words : Nat → Word) (m : Memory) : Prop where
  wf : Wf bootPool dirs ∅ m
  current : m.pageDirTable = parentDir
  leaf : ∀ d, d = parentDir ∨ d = childDir →
    ∃ e, m.leafOf (d, 0, 0) = some e ∧ pageTarget e = framePage 1279 ∧ Pte.w e = false
  words : m.phys (framePage 1279) = words
  two : m.memMap 1279 = 2
  free : ∃ g, 0 < g ∧ g < pagingPages ∧ m.memMap g = 0

theorem forkedTask_mapsShared (parent : parentDir ∈ dirs) (child : childDir ∈ dirs) (small : dirs.card < 255)
    (words : Nat → Word) : MapsShared dirs words (forkedTask words) := by
  have task := oneTask_mapsOne parent words userStartAddr
  have slot : (oneTask words userStartAddr).slotOf userStartAddr = (parentDir, 0, 0) := by
    rw [Memory.slotOf, task.current, show getPageDirId userStartAddr = 0 by decide,
      show getPageEntryId userStartAddr = 0 by decide]
  obtain ⟨e, leaf, target, _⟩ := task.leaf
  rw [slot] at leaf
  have apart : childDir ≠ parentDir := by decide
  have absent : ∀ i, 0 ≤ i → i < pageDirTableNum → (oneTask words userStartAddr).tableOf (childDir, i) = none := by
    intro i _ hi
    exact task.tables _ (mem_tableSlots.mpr ⟨child, hi⟩) (fun same => apart (Prod.mk.inj same).1)
  have disjoint : (oneTask words userStartAddr).Disjoint dirs (oneTask words userStartAddr).pageDirTable 0 childDir := by
    rintro s hs _ _ q _ ⟨t, i, j⟩ ht rfl points
    obtain ⟨_, hi, _⟩ := mem_leafSlots.mp ht
    rw [View.leafTarget, show (oneTask words userStartAddr).view.leaf (childDir, i, j) = none from
      leafOf_of_absent (absent i (Nat.zero_le _) hi) j] at points
    cases points
  obtain ⟨r, m', done, run, wf', copied, outcome⟩ := task.wf.copy_dir_slots small child
    (by rw [task.current]; exact apart) (show 0 + 1 ≤ pageDirTableNum by decide)
    (show 0 + 1 ≤ pageDirTableNum by decide) absent disjoint
  rw [task.current] at copied
  have free : ∃ g, 0 < g ∧ g < pagingPages ∧ m'.memMap g = 0 := by
    obtain ⟨table, vacant⟩ := task.free
    obtain ⟨tables, few, kept⟩ := copied.taken
    have fits : done ≤ 1 := by
      rcases outcome with ⟨_, all⟩ | ⟨_, less, _⟩
      · omega
      · omega
    -- One of the frames 1, 2 and 3 is neither page table.
    have spare : ∃ g ∈ ({1, 2, 3} : Finset Nat), g ∉ insert table tables := by
      apply Finset.exists_mem_notMem_of_card_lt_card
      have := Finset.card_insert_le table tables
      have : ({1, 2, 3} : Finset Nat).card = 3 := rfl
      omega
    obtain ⟨g, low, outside⟩ := spare
    rw [Finset.mem_insert, not_or] at outside
    have small : 0 < g ∧ g < 4 := by
      simp only [Finset.mem_insert, Finset.mem_singleton] at low
      omega
    exact ⟨g, small.1, by unfold pagingPages; omega, kept g (vacant g (by omega) outside.1) outside.2⟩
  have complete : r = 0 ∧ done = 1 := by
    rcases outcome with all | ⟨_, _, _, full⟩
    · exact all
    · obtain ⟨g, positive, bound, zero⟩ := free
      exact absurd zero (full g positive bound)
  obtain ⟨rfl, rfl⟩ := complete
  have state : forkedTask words = m' := by
    have whole : copyPageTables (oneTask words userStartAddr) userStartAddr userStartAddr childDir 4096 =
        .ok (0, m') := by
      rw [← run, copyPageTables, if_neg (by decide), if_neg (by decide), show getPageDirId userStartAddr = 0 by decide,
        show getPageDirSize 4096 = 1 by decide]
    rw [forkedTask, whole]
  rw [state]
  have mapped : (oneTask words userStartAddr).MapsIn parentDir (0 + 0) 0 pageTableItemNum 1279 :=
    ⟨0, Nat.le_refl _, by decide,
      target ▸ Counted.leafTarget_of_leaf (v := (oneTask words userStartAddr).view) leaf⟩
  refine ⟨wf', copied.control.pageDirTable.trans task.current, ?_, ?_, ?_, free⟩
  · rintro d (rfl | rfl)
    · refine ⟨protect e, ?_, (pageTarget_protect e).trans target, w_protect e⟩
      have here := copied.source 0 (by decide) 0 (by decide)
      rw [Nat.zero_add, leaf] at here
      exact here
    · refine ⟨protect e, ?_, (pageTarget_protect e).trans target, w_protect e⟩
      have here := copied.dest 0 (by decide) 0 (by decide)
      rw [Nat.zero_add, leaf] at here
      exact here
  · have data := task.wf.isData_of_leaf (mem_leafSlots.mpr ⟨parent, by decide, by decide⟩) leaf target
    rw [copied.phys (framePage 1279), task.words]
    · intro f _ page
      rw [← framePage_inj page]
      exact data.1
    · intro k hk
      exact data.2 _ (mem_tableSlots.mpr ⟨parent, by unfold pageDirTableNum; omega⟩)
  · rw [copied.shared 1279 ⟨0, by decide, mapped⟩, task.one]
    rfl

theorem forkedTask_slot (shared : MapsShared dirs words m) : m.slotOf userStartAddr = (parentDir, 0, 0) := by
  rw [Memory.slotOf, shared.current, show getPageDirId userStartAddr = 0 by decide,
    show getPageEntryId userStartAddr = 0 by decide]

theorem forkedTask_both (words : Nat → Word) : MapsShared {parentDir, childDir} words (forkedTask words) :=
  forkedTask_mapsShared (Finset.mem_insert_self _ _) (Finset.mem_insert_of_mem (Finset.mem_singleton_self _))
    (by decide) words

/-- A shared page of ones is lost, but for its first word, when the parent writes to it. -/
theorem write_fault_loses_contents : ¬ FaultHandled {parentDir, childDir} (forkedTask fun _ => 1) userStartAddr 1279
    (doWpPage (forkedTask fun _ => 1) userStartAddr) := by
  have shared := forkedTask_both fun _ => 1
  obtain ⟨e, leaf, target, readOnly⟩ := shared.leaf parentDir (.inl rfl)
  rw [← forkedTask_slot shared] at leaf
  rw [doWpPage_eq, unWpPage_handled shared.wf leaf target shared.free, shared.two, shared.words, not_or]
  exact ⟨by decide, fun zero => absurd (zero 8 (by decide) (by decide)) (by decide)⟩

/-- A page with nothing after its first word is kept. -/
theorem write_fault_keeps_first_word :
    FaultHandled {parentDir, childDir} (forkedTask (firstWord fun _ => 1)) userStartAddr 1279
      (doWpPage (forkedTask (firstWord fun _ => 1)) userStartAddr) := by
  have shared := forkedTask_both (firstWord fun _ => 1)
  obtain ⟨e, leaf, target, readOnly⟩ := shared.leaf parentDir (.inl rfl)
  rw [← forkedTask_slot shared] at leaf
  apply (write_fault_handled_iff shared.wf leaf readOnly target shared.free).1.mpr
  refine .inr fun k low high => ?_
  rw [shared.words]
  exact byteAt_zero (if_neg (by omega))

end Example

end K210Linux.Mm
