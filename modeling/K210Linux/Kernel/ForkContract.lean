import K210Linux.Kernel.Fork

namespace K210Linux.Kernel

open K210Linux.Mm RefCount

/-- The leaf slot of a user address in a directory. -/
def userSlot (d address : Word) : LeafSlot := (d, getPageDirId address, getPageEntryId address)

theorem userSlot_mem {dirs : Finset Word} {d : Word} (member : d ∈ dirs) (address : Word) :
    userSlot d address ∈ leafSlots dirs := by
  have id := getPageDirId_lt address
  exact mem_leafSlots.mpr ⟨member, by unfold pageDirTableNum; omega, getPageEntryId_lt address⟩

/-- The range of user addresses that `data_base` and `data_limit` of the current task give. -/
def InSegment (k : Process) (address : Word) : Prop :=
  (k.structs k.current).dataBase ≤ address ∧
    address < (k.structs k.current).dataBase + (k.structs k.current).dataLimit

/-- The child maps the segment of the parent to the same frames, all mappings of it are
    write-protected, and each shared frame gained one reference. -/
def Duplicated (k k' : Process) (nr : Nat) : Prop :=
  ∀ address, InSegment k address →
    let parent := userSlot k.memory.pageDirTable address
    let child := userSlot (k'.structs (k'.task nr)).pageDirTable address
    k'.memory.view.leafTarget child = k.memory.view.leafTarget parent ∧
    k'.memory.view.leafTarget parent = k.memory.view.leafTarget parent ∧
    (∀ e, k'.memory.leafOf child = some e → Pte.w e = false) ∧
    (∀ e, k'.memory.leafOf parent = some e → Pte.w e = false) ∧
    ∀ f, k.memory.view.leafTarget parent = some (framePage f) →
      (k'.memory.memMap f).toNat = (k.memory.memMap f).toNat + 1

section Duplicate

variable {pool : Pool} {dirs : Finset Word} {held : Finset Nat} {k k' : Process} {nr r s : Nat} {m₄ : Memory}

theorem w_of_map_protect {x : Option Word} {e : Word} (found : x.map protect = some e) : Pte.w e = false := by
  cases x with
  | none => cases found
  | some e' =>
    cases found
    exact w_protect e'

/-- What a finished fork did to one address of the first 2 MB. -/
theorem first_slot_duplicated (inv : ProcessWf pool dirs held k) (prepared : Prepared dirs r s k.memory m₄)
    (copied : SlotsCopied (insert (frameAddr (r + 1)) dirs) k.memory.pageDirTable 0 (frameAddr (r + 1)) 0 1 m₄ k'.memory)
    {address : Word} (first : getPageDirId address = 0) :
    k'.memory.leafOf (userSlot (frameAddr (r + 1)) address) =
      (k.memory.leafOf (userSlot k.memory.pageDirTable address)).map protect ∧
    k'.memory.leafOf (userSlot k.memory.pageDirTable address) =
      (k.memory.leafOf (userSlot k.memory.pageDirTable address)).map protect ∧
    ∀ f, k.memory.view.leafTarget (userSlot k.memory.pageDirTable address) = some (framePage f) →
      (k'.memory.memMap f).toNat = (k.memory.memMap f).toNat + 1 := by
  have entry := getPageEntryId_lt address
  have member := userSlot_mem inv.wf.current address
  have before := prepared.leaf _ member
  have source := copied.source 0 (by decide) _ entry
  have dest := copied.dest 0 (by decide) _ entry
  simp only [userSlot, first] at member before ⊢
  rw [Nat.zero_add, before] at source dest
  refine ⟨dest, source, ?_⟩
  intro f target
  have data : k.memory.memMap f ≠ 0 := by
    intro zero
    exact (inv.wf.counted.free_of_zero (inv.wf.counted.pool_of_leaf member target) zero).1 _ member target
  have maps : m₄.MapsIn k.memory.pageDirTable (0 + 0) 0 pageTableItemNum f := by
    refine ⟨getPageEntryId address, Nat.zero_le _, by omega, ?_⟩
    rw [← target]
    simp only [View.leafTarget, Memory.view, Nat.add_zero, before]
  have bound := inv.wf.counted.count_le (inv.wf.counted.pool_of_leaf member target)
    (Finset.card_pos.mpr ⟨_, inv.wf.current⟩)
  have few := inv.few
  unfold nrTasks at few
  rw [copied.shared f ⟨0, by decide, maps⟩, prepared.count f data, BitVec.toNat_add, toNat_one_byte]
  change (k.memory.memMap f).toNat ≤ dirs.card at bound
  omega

/-- What a finished fork did to an address beyond the first 2 MB. -/
theorem later_slot_kept (inv : ProcessWf pool dirs held k) (prepared : Prepared dirs r s k.memory m₄)
    (new : frameAddr (r + 1) ∉ dirs)
    (copied : SlotsCopied (insert (frameAddr (r + 1)) dirs) k.memory.pageDirTable 0 (frameAddr (r + 1)) 0 1 m₄ k'.memory)
    {address : Word} (later : getPageDirId address ≠ 0) :
    k'.memory.leafOf (userSlot (frameAddr (r + 1)) address) = none ∧
    k'.memory.leafOf (userSlot k.memory.pageDirTable address) =
      k.memory.leafOf (userSlot k.memory.pageDirTable address) := by
  have distinct : frameAddr (r + 1) ≠ k.memory.pageDirTable := fun same => new (same ▸ inv.wf.current)
  have id := getPageDirId_lt address
  have outside : ∀ d d', ¬ InSlots d 0 1 ((userSlot d' address).1, (userSlot d' address).2.1) := by
    rintro d d' ⟨_, _, high⟩
    simp only [userSlot] at high
    omega
  constructor
  · rw [copied.others _ (userSlot_mem (Finset.mem_insert_self _ _) address) (outside _ _) (outside _ _)]
    exact leafOf_of_absent (prepared.empty _ (by unfold pageDirTableNum; omega)) _
  · rw [copied.others _ (userSlot_mem (Finset.mem_insert_of_mem inv.wf.current) address) (outside _ _) (outside _ _),
      prepared.leaf _ (userSlot_mem inv.wf.current address)]

theorem fork_done (inv : ProcessWf pool dirs held k) (pid : 0 ≤ k.lastPid)
    (run : copyProcess k nr = .ok (k.lastPid, k')) :
    ∃ r s m₄, Prepared dirs r s k.memory m₄ ∧ frameAddr (r + 1) ∉ dirs ∧
      (k'.structs (k'.task nr)).pageDirTable = frameAddr (r + 1) ∧
      SlotsCopied (insert (frameAddr (r + 1)) dirs) k.memory.pageDirTable 0 (frameAddr (r + 1)) 0 1 m₄ k'.memory := by
  have outcome := copyProcess_outcome inv nr
  rw [run] at outcome
  generalize result : (Except.ok (k.lastPid, k') : Except (Stop Memory) (Int × Process)) = res at outcome
  have failed : ∀ k'', (Except.ok (k.lastPid, k') : Except (Stop Memory) (Int × Process)) ≠ .ok (-eagain, k'') := by
    intro k'' same
    have code := congrArg Prod.fst (Except.ok.inj same)
    simp only [eagain] at code
    omega
  cases outcome with
  | noTask => exact absurd result (failed _)
  | noStack => exact absurd result (failed _)
  | noTable => exact absurd result (failed _)
  | @done k'' r s m₄ _ _ new prepared task table _ _ _ copied _ =>
    obtain rfl : k' = k'' := congrArg Prod.snd (Except.ok.inj result)
    exact ⟨r, s, m₄, prepared, new, by rw [task, table], copied⟩

theorem first_slot_of_duplicated (inv : ProcessWf pool dirs held k) (pid : 0 ≤ k.lastPid)
    (run : copyProcess k nr = .ok (k.lastPid, k')) (duplicated : Duplicated k k' nr) {address : Word}
    (inside : InSegment k address) (mapped : k.memory.leafOf (userSlot k.memory.pageDirTable address) ≠ none) :
    getPageDirId address = 0 := by
  obtain ⟨r, s, m₄, prepared, new, child, copied⟩ := fork_done inv pid run
  by_contra later
  obtain ⟨missing, _⟩ := later_slot_kept inv prepared new copied later
  obtain ⟨same, _⟩ := duplicated address inside
  rw [child] at same
  cases leaf : k.memory.leafOf (userSlot k.memory.pageDirTable address) with
  | none => exact mapped leaf
  | some e =>
    simp only [View.leafTarget, Memory.view, missing, leaf, Option.map_none, Option.map_some] at same
    cases same

/-- Fork duplicates the segment exactly when all of its mapped pages lie in the first 2 MB, the one
    directory slot that `copy_mem` asks `copy_page_tables` to copy. -/
theorem fork_duplicates_iff (inv : ProcessWf pool dirs held k) (pid : 0 ≤ k.lastPid)
    (run : copyProcess k nr = .ok (k.lastPid, k')) :
    Duplicated k k' nr ↔ ∀ address, InSegment k address →
      k.memory.leafOf (userSlot k.memory.pageDirTable address) ≠ none → getPageDirId address = 0 := by
  constructor
  · intro duplicated address inside mapped
    exact first_slot_of_duplicated inv pid run duplicated inside mapped
  · intro low address inside
    obtain ⟨r, s, m₄, prepared, new, child, copied⟩ := fork_done inv pid run
    rw [child]
    by_cases first : getPageDirId address = 0
    · obtain ⟨dest, source, counts⟩ := first_slot_duplicated inv prepared copied first
      refine ⟨leafTarget_map_protect (v := k.memory.view) dest, leafTarget_map_protect (v := k.memory.view) source,
        ?_, ?_, counts⟩
      · intro e found
        rw [dest] at found
        exact w_of_map_protect found
      · intro e found
        rw [source] at found
        exact w_of_map_protect found
    · obtain ⟨missing, kept⟩ := later_slot_kept inv prepared new copied first
      have unmapped : k.memory.leafOf (userSlot k.memory.pageDirTable address) = none := by
        by_contra mapped
        exact first (low address inside mapped)
      rw [unmapped] at kept
      simp only [View.leafTarget, Memory.view, missing, kept, unmapped]
      refine ⟨trivial, trivial, ?_, ?_, ?_⟩
      · simp
      · simp
      · intro f target
        cases target

end Duplicate

/-- A failed fork left no trace: the task table, the counters, what the parent maps, and the open
    files and inodes are as before. -/
structure Undone (k k' : Process) : Prop where
  task : k'.task = k.task
  counters : ∀ f, f < pagingPages → k'.memory.memMap f = k.memory.memMap f
  mapped : ∀ address p, k.memory.view.leafTarget (userSlot k.memory.pageDirTable address) = some p →
    k'.memory.view.leafTarget (userSlot k.memory.pageDirTable address) = some p ∧
      k'.memory.phys p = k.memory.phys p
  files : k'.fCount = k.fCount
  inodes : k'.iCount = k.iCount

section Failure

variable {pool : Pool} {dirs : Finset Word} {held : Finset Nat} {k k' : Process} {nr r s : Nat}
variable {m₄ m₅ m₆ : Memory}

theorem not_inSlots_zero (d : Word) (id : Nat) (slot : TableSlot) : ¬ InSlots d id 0 slot := by
  rintro ⟨_, low, high⟩
  omega

/-- When `copy_mem` fails, `free_page_tables` takes the page table of slot 0 away from the parent. -/
theorem parent_table_freed (inv : ProcessWf pool dirs held k) (prepared : Prepared dirs r s k.memory m₄)
    (source : m₄.tableOf (k.memory.pageDirTable, 0) ≠ none)
    (copied : SlotsCopied (insert (frameAddr (r + 1)) dirs) k.memory.pageDirTable 0 (frameAddr (r + 1)) 0 0 m₄ m₅)
    (freed : SlotsFreed (insert (frameAddr (r + 1)) dirs) k.memory.pageDirTable 0
      (getPageDirSize (k.structs k.current).dataLimit) m₅ m₆)
    (phys : k'.memory.phys = m₆.phys) (directories : k'.memory.dirs = m₆.dirs)
    (wf : Wf pool (insert (frameAddr (r + 1)) dirs) held k'.memory) :
    ∃ t, t < pagingPages ∧ k.memory.memMap t = 1 ∧ k'.memory.memMap t = 0 := by
  have hslot : (k.memory.pageDirTable, 0) ∈ tableSlots dirs := mem_tableSlots.mpr ⟨inv.wf.current, by decide⟩
  rw [prepared.tables _ hslot] at source
  obtain ⟨p, table⟩ := Option.ne_none_iff_exists'.mp source
  obtain ⟨t, has, rfl, one⟩ := inv.wf.table_frame hslot table
  obtain ⟨noLeaf, _, notHeld⟩ := inv.wf.counted.table_only hslot table
  have tableOf : ∀ x, k'.memory.tableOf x = m₆.tableOf x := by
    intro x
    simp only [Memory.tableOf, directories]
  have leafOf : ∀ x, k'.memory.leafOf x = m₆.leafOf x := by
    intro x
    simp only [Memory.leafOf, tableOf, phys]
  have leaves : k'.memory.view.leafRefs (insert (frameAddr (r + 1)) dirs) t = 0 := by
    apply refs_eq_zero.mpr
    rintro ⟨d, i, j⟩ hx target
    obtain ⟨hd, hi, hj⟩ := mem_leafSlots.mp hx
    obtain ⟨e, leaf, page⟩ := Counted.leaf_of_leafTarget target
    change k'.memory.leafOf (d, i, j) = some e at leaf
    rw [leafOf, freed.leaf _ hx] at leaf
    split at leaf
    · cases leaf
    rw [copied.others _ hx (not_inSlots_zero _ _ _) (not_inSlots_zero _ _ _)] at leaf
    rcases Finset.mem_insert.mp hd with rfl | old
    · rw [leafOf_of_absent (prepared.empty i hi)] at leaf
      cases leaf
    · have member := mem_leafSlots.mpr ⟨old, hi, hj⟩
      rw [prepared.leaf _ member] at leaf
      exact refs_eq_zero.mp noLeaf _ member (page ▸ Counted.leafTarget_of_leaf (v := k.memory.view) leaf)
  have tables : k'.memory.view.tableRefs (insert (frameAddr (r + 1)) dirs) t = 0 := by
    apply refs_eq_zero.mpr
    rintro ⟨d, i⟩ hx target
    obtain ⟨hd, hi⟩ := mem_tableSlots.mp hx
    change k'.memory.tableOf (d, i) = some (framePage t) at target
    rw [tableOf, freed.table _ hx] at target
    split at target
    · cases target
    rename_i outside
    rw [Memory.tableOf, copied.dirs (d, i) (not_inSlots_zero _ _ _), ← Memory.tableOf] at target
    rcases Finset.mem_insert.mp hd with rfl | old
    · rw [prepared.empty i hi] at target
      cases target
    · have member := mem_tableSlots.mpr ⟨old, hi⟩
      rw [prepared.tables _ member] at target
      have same := inv.wf.counted.table_unique member hslot target table
      apply outside
      rw [same]
      exact ⟨rfl, Nat.le_refl _, by have := (freed_slots inv.dataLimit).1; omega⟩
  refine ⟨t, has.lt, one, ?_⟩
  have sum := wf.counted.exact t has
  rw [leaves, tables, indicator, if_neg notHeld] at sum
  exact BitVec.eq_of_toNat_eq sum

/-- A fork that fails with `EAGAIN` is undone exactly when it failed at once, for want of the five
    task pages. -/
theorem failed_fork_undone_iff (inv : ProcessWf pool dirs held k) (pid : 0 ≤ k.lastPid) (empty : k.task nr = 0)
    (run : copyProcess k nr = .ok (-eagain, k')) :
    Undone k k' ↔ ∀ r, 0 < r → r + 5 ≤ pagingPages → ¬ IsFreeRun k.memory.memMap 5 r := by
  have outcome := copyProcess_outcome inv nr
  rw [run] at outcome
  generalize result : (Except.ok (-eagain, k') : Except (Stop Memory) (Int × Process)) = res at outcome
  cases outcome with
  | noTask full =>
    obtain rfl : k' = k := congrArg Prod.snd (Except.ok.inj result)
    exact iff_of_true ⟨rfl, fun _ _ => rfl, fun _ _ target => ⟨target, rfl⟩, rfl, rfl⟩ full
  | @noStack k'' r first room free full task =>
    obtain rfl : k' = k'' := congrArg Prod.snd (Except.ok.inj result)
    refine iff_of_false (fun undone => ?_) (fun none => none r first room free)
    have here := congrFun (undone.task.symm.trans task) nr
    rw [empty, Function.update_self] at here
    exact frameAddr_ne_zero (by omega) here.symm
  | @noTable k'' r s m₄ m₅ m₆ first room free new prepared source copied freed phys directories wf =>
    obtain rfl : k' = k'' := congrArg Prod.snd (Except.ok.inj result)
    refine iff_of_false (fun undone => ?_) (fun none => none r first room free)
    obtain ⟨t, bound, one, zero⟩ := parent_table_freed inv prepared source copied freed phys directories wf
    have same := undone.counters t bound
    rw [one, zero] at same
    exact absurd same (by decide)
  | done =>
    have code := congrArg Prod.fst (Except.ok.inj result)
    simp only [eagain] at code
    omega

end Failure

section Example

/-- A task whose segment starts at the beginning of user space. -/
def sampleTask (limit : Word) : Task where
  state := .running
  counter := 15
  priority := 15
  signal := 0
  exitCode := 0
  startCode := userStartAddr
  endData := userStartAddr
  pid := 0
  father := -1
  pgrp := 0
  session := 0
  leader := false
  alarm := 0
  utime := 0
  stime := 0
  cutime := 0
  cstime := 0
  startTime := 0
  pwd := none
  root := none
  executable := none
  filp := fun _ => none
  pageDirTable := parentDir
  codeBase := userStartAddr
  dataBase := userStartAddr
  codeLimit := limit
  dataLimit := limit
  tss := ⟨fun _ => 0, fun _ => 0, 0⟩

/-- That task alone in the process table. -/
def sampleProcess (m : Memory) (limit : Word) : Process where
  memory := m
  structs := fun _ => sampleTask limit
  task := fun i => if i = 0 then 0x80708000 else 0
  current := 0x80708000
  kernelStack := fun _ => 0
  kernelStackbottom := fun _ => 0
  lastPid := 1
  jiffies := 0
  trapInfo := ⟨fun _ => 0, fun _ => 0, 0⟩
  forkProcessExit := 0
  fsIsKernel := false
  fCount := fun _ => 0
  fInode := fun _ => none
  iCount := fun _ => 0

theorem parentDir_not_frame {f : Nat} (has : bootPool.Has f) : parentDir ≠ frameAddr f := by
  intro same
  have value := toNat_frameAddr has.lt
  have below := has.2.2
  rw [bootPool_last] at below
  rw [← same, show parentDir.toNat = 0x80700000 from rfl] at value
  omega

theorem sampleProcess_wf {m : Memory} {limit : Word} (wf : Wf bootPool {parentDir} ∅ m)
    (current : m.pageDirTable = parentDir) (segment : limit = 0x4000000 ∨ limit = 640 * 1024) :
    ProcessWf bootPool {parentDir} ∅ (sampleProcess m limit) := by
  refine ⟨wf, ?_, ?_, current, rfl, segment⟩
  · rw [Finset.card_singleton]
    decide
  · intro d member f has same
    rw [Finset.mem_singleton.mp member] at same
    exact absurd same (parentDir_not_frame has)

/-- There is room for the task pages of a child. -/
theorem sample_free_run {m : Memory} {table : Nat} (free : ∀ g, g < 1279 → g ≠ table → m.memMap g = 0) :
    ∃ r, 0 < r ∧ r + 5 ≤ pagingPages ∧ IsFreeRun m.memMap 5 r := by
  by_cases low : table < 6
  · exact ⟨6, by decide, by decide, fun j above below => free j (by omega) (by omega)⟩
  · exact ⟨1, by decide, by decide, fun j above below => free j (by omega) (by omega)⟩

/-- And then for its kernel stack. -/
theorem sample_free_stack {m : Memory} {table r : Nat} (free : ∀ g, g < 1279 → g ≠ table → m.memMap g = 0) :
    ∃ s, 0 < s ∧ s + 8 ≤ pagingPages ∧ IsFreeRun (takeRun m r 5).memMap 8 s := by
  have block : ∃ i, i < 4 ∧ (table < 1 + 8 * i ∨ 9 + 8 * i ≤ table) ∧ (r + 5 ≤ 1 + 8 * i ∨ 9 + 8 * i ≤ r) := by
    by_contra none
    push Not at none
    have b0 := none 0 (by decide)
    have b1 := none 1 (by decide)
    have b2 := none 2 (by decide)
    have b3 := none 3 (by decide)
    omega
  obtain ⟨i, small, avoids, apart⟩ := block
  refine ⟨1 + 8 * i, by omega, by unfold pagingPages; omega, fun j above below => ?_⟩
  have outside : ¬ (r ≤ j ∧ j < r + 5) := by omega
  simp only [takeRun, outside, if_false]
  exact free j (by omega) (by omega)

/-- With one page mapped above the first 2 MB the fork goes through. -/
theorem fork_runs {words : Nat → Word} {address : Word} {k : Process} (inv : ProcessWf bootPool {parentDir} ∅ k)
    (task : MapsOne {parentDir} words address k.memory) (later : getPageDirId address ≠ 0) :
    ∃ k', copyProcess k 1 = .ok (k.lastPid, k') := by
  obtain ⟨table, free⟩ := task.free
  have outcome := copyProcess_outcome inv 1
  generalize copyProcess k 1 = result at outcome
  cases outcome with
  | noTask full =>
    obtain ⟨r, first, room, run⟩ := sample_free_run free
    exact absurd run (full r first room)
  | @noStack k' r _ _ _ full _ =>
    obtain ⟨s, first, room, run⟩ := sample_free_stack (r := r) free
    exact absurd run (full s first room)
  | noTable _ _ _ _ prepared source _ _ _ _ _ =>
    have hslot : (k.memory.pageDirTable, 0) ∈ tableSlots {parentDir} :=
      mem_tableSlots.mpr ⟨inv.wf.current, by decide⟩
    rw [prepared.tables _ hslot] at source
    refine absurd (task.tables _ hslot fun same => ?_) source
    exact later (Prod.mk.inj same).2.symm
  | done => exact ⟨_, rfl⟩

/-- A task after `exec`, with one page of arguments at the top of its segment. -/
def execProcess : Process := sampleProcess (oneTask (fun _ => 1) 0xC3FFF000) 0x4000000

theorem sampleProcess_memory (m : Memory) (limit : Word) : (sampleProcess m limit).memory = m := rfl

theorem execProcess_memory : execProcess.memory = oneTask (fun _ => 1) 0xC3FFF000 := sampleProcess_memory _ _

theorem execProcess_maps : MapsOne {parentDir} (fun _ => 1) 0xC3FFF000 (oneTask (fun _ => 1) 0xC3FFF000) :=
  oneTask_mapsOne (Finset.mem_singleton_self _) _ _

theorem execProcess_wf : ProcessWf bootPool {parentDir} ∅ execProcess :=
  sampleProcess_wf execProcess_maps.wf execProcess_maps.current (.inl rfl)

theorem execProcess_forks : ∃ k', copyProcess execProcess 1 = .ok (execProcess.lastPid, k') := by
  have task := execProcess_maps
  rw [← execProcess_memory] at task
  exact fork_runs execProcess_wf task (by decide)

theorem mapped_of_mapsOne {dirs : Finset Word} {words : Nat → Word} {address : Word} {m : Memory}
    (task : MapsOne dirs words address m) : m.leafOf (userSlot m.pageDirTable address) ≠ none := by
  obtain ⟨e, leaf, _⟩ := task.leaf
  intro none
  rw [Memory.slotOf, ← userSlot, none] at leaf
  cases leaf

/-- The argument page is not there for the child. -/
theorem fork_loses_argument_page :
    ∃ k', copyProcess execProcess 1 = .ok (execProcess.lastPid, k') ∧ ¬ Duplicated execProcess k' 1 := by
  obtain ⟨k', run⟩ := execProcess_forks
  refine ⟨k', run, fun duplicated => ?_⟩
  have inside : InSegment execProcess 0xC3FFF000 := ⟨by decide, by decide⟩
  have mapped : execProcess.memory.leafOf (userSlot execProcess.memory.pageDirTable 0xC3FFF000) ≠ none := by
    rw [execProcess, sampleProcess_memory]
    exact mapped_of_mapsOne execProcess_maps
  have zero := first_slot_of_duplicated execProcess_wf (by decide) run duplicated inside mapped
  exact absurd zero (by decide)

theorem execProcess_duplicates_iff : ∃ k', copyProcess execProcess 1 = .ok (execProcess.lastPid, k') ∧
    (Duplicated execProcess k' 1 ↔ ∀ address, InSegment execProcess address →
      execProcess.memory.leafOf (userSlot execProcess.memory.pageDirTable address) ≠ none →
        getPageDirId address = 0) := by
  obtain ⟨k', run⟩ := execProcess_forks
  exact ⟨k', run, fork_duplicates_iff execProcess_wf (by decide) run⟩

/-- A machine with five frames: enough for the task pages, not for a kernel stack. -/
def tightProcess : Process := sampleProcess (memInit (bootMemory parentDir) 0x80101000 0x80106000) (640 * 1024)

def tightPool : Pool := initPool 0x80101000 0x80106000 (by decide) (by decide) (by decide)

theorem tightPool_first : tightPool.first = 1 := by decide
theorem tightPool_last : tightPool.last = 6 := by decide

theorem tightProcess_wf : ProcessWf tightPool {parentDir} ∅ tightProcess := by
  refine ⟨?_, ?_, ?_, rfl, rfl, .inr rfl⟩
  · exact memInit_wf (by decide) (by decide) (by decide) (Finset.mem_singleton_self _) (fun _ _ _ _ => v_zero)
  · rw [Finset.card_singleton]
    decide
  · intro d member f has same
    rw [Finset.mem_singleton.mp member] at same
    refine absurd same (parentDir_not_frame ⟨has.1, ?_, ?_⟩)
    · rw [bootPool_first]
      omega
    · have := has.2.2
      rw [tightPool_last] at this
      rw [bootPool_last]
      omega

theorem tightProcess_free : IsFreeRun tightProcess.memory.memMap 5 1 := by
  intro j low high
  change (if tightPool.first ≤ j ∧ j < tightPool.last then (0 : Byte) else used) = 0
  rw [tightPool_first, tightPool_last, if_pos ⟨low, by omega⟩]

theorem tightProcess_fails : ∃ r k', 0 < r ∧ r < pagingPages ∧ copyProcess tightProcess 1 = .ok (-eagain, k') ∧
    k'.task = Function.update tightProcess.task 1 (frameAddr r) := by
  have outcome := copyProcess_outcome tightProcess_wf 1
  generalize copyProcess tightProcess 1 = result at outcome
  cases outcome with
  | noTask full => exact absurd tightProcess_free (full 1 (by decide) (by decide))
  | @noStack k' r first room _ _ task => exact ⟨r, k', first, by omega, rfl, task⟩
  | noTable _ _ _ _ prepared source _ _ _ _ _ =>
    rw [prepared.tables _ (mem_tableSlots.mpr ⟨tightProcess_wf.wf.current, by decide⟩)] at source
    exact absurd (tableOf_invalid v_zero) source
  | @done k' r s m₄ _ _ _ _ _ _ _ _ _ _ wf =>
    have low := wf.counted.heldPool s (Finset.mem_union_right _ (Finset.mem_Ico.mpr ⟨by omega, by omega⟩))
    have high := wf.counted.heldPool (s + 7) (Finset.mem_union_right _ (Finset.mem_Ico.mpr ⟨by omega, by omega⟩))
    have := high.2.2
    rw [tightPool_last] at this
    exact absurd low.1 (by omega)

/-- The task slot stays taken when there is no room for the kernel stack. -/
theorem failed_fork_keeps_slot :
    ∃ k', copyProcess tightProcess 1 = .ok (-eagain, k') ∧ ¬ Undone tightProcess k' := by
  obtain ⟨r, k', _, bound, run, task⟩ := tightProcess_fails
  refine ⟨k', run, fun undone => ?_⟩
  have here := congrFun (undone.task.symm.trans task) 1
  rw [Function.update_self] at here
  exact frameAddr_ne_zero bound here.symm

theorem tightProcess_undone_iff : ∃ k', copyProcess tightProcess 1 = .ok (-eagain, k') ∧
    (Undone tightProcess k' ↔
      ∀ r, 0 < r → r + 5 ≤ pagingPages → ¬ IsFreeRun tightProcess.memory.memMap 5 r) := by
  obtain ⟨r, k', _, _, run, _⟩ := tightProcess_fails
  exact ⟨k', run, failed_fork_undone_iff tightProcess_wf (by decide) rfl run⟩

end Example

end K210Linux.Kernel
