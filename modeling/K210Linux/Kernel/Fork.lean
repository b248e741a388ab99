import K210Linux.Kernel.Process
import K210Linux.Mm.WriteFault

namespace K210Linux.Kernel

open K210Linux.Mm RefCount

/-- Only the contents of one page changed. -/
def OnlyPage (page : Nat) (m m' : Memory) : Prop :=
  ∃ pages, m' = { m with phys := pages } ∧ ∀ q, q ≠ page → pages q = m.phys q

theorem OnlyPage.trans {page : Nat} {a b c : Memory} (first : OnlyPage page a b) (second : OnlyPage page b c) :
    OnlyPage page a c := by
  obtain ⟨pages, rfl, same⟩ := first
  obtain ⟨pages', rfl, same'⟩ := second
  exact ⟨pages', rfl, fun q other => (same' q other).trans (same q other)⟩

theorem storeWord_onlyPage {page : Nat} (m : Memory) {addr : Word} (w : Word) (inside : pageOf addr = page) :
    OnlyPage page m (storeWord m addr w) := by
  refine ⟨_, rfl, fun q other => ?_⟩
  rw [inside]
  exact Function.update_of_ne other _ _

theorem storeWords_onlyPage {page : Nat} (m : Memory) {addr : Word} (words : Nat → Word) (n : Nat)
    (inside : ∀ i, i < n → pageOf (addr + 8 * BitVec.ofNat 64 i) = page) :
    OnlyPage page m (storeWords m addr words n) := by
  induction n with
  | zero => exact ⟨m.phys, rfl, fun _ _ => rfl⟩
  | succ n ih =>
    exact (ih fun i hi => inside i (by omega)).trans (storeWord_onlyPage _ _ (inside n (by omega)))

theorem pageOf_eq {addr : Word} {f : Nat} (offset : Nat) (value : addr.toNat = 0x80100000 + 4096 * f + offset)
    (small : offset < 4096) : pageOf addr = framePage f := by
  simp only [pageOf, BitVec.toNat_ushiftRight, value, framePage, Nat.shiftRight_eq_div_pow]
  omega

/-- The trap frame lies in the last page of the kernel stack. -/
theorem storeTrapFrame_onlyPage (m : Memory) (trap : TrapInfo) (exit : Word) {s : Nat} (room : s + 8 ≤ pagingPages) :
    OnlyPage (framePage (s + 7)) m
      (storeTrapFrame m trap (frameAddr s + kernelStackSize - 8 * 32 - 8 * 32) exit) := by
  have bound : s + 8 ≤ 3840 := room
  have top : (frameAddr s + kernelStackSize - 8 * 32 - 8 * 32).toNat = 0x80100000 + 4096 * (s + 7) + 3584 := by
    have base := toNat_frameAddr (i := s) (by omega)
    have shape : frameAddr s + kernelStackSize - 8 * 32 - 8 * 32 = frameAddr s + 32256 := by
      rw [kernelStackSize]
      bv_omega
    rw [shape, BitVec.toNat_add, base, show (32256 : Word).toNat = 32256 from rfl]
    omega
  generalize frameAddr s + kernelStackSize - 8 * 32 - 8 * 32 = sp at top
  have word : ∀ i, i < 64 → (8 * BitVec.ofNat 64 i : Word).toNat = 8 * i := by
    intro i hi
    rw [BitVec.toNat_mul, BitVec.toNat_ofNat, show (8 : Word).toNat = 8 from rfl]
    omega
  have inside : ∀ i, i < 64 → pageOf (sp + 8 * BitVec.ofNat 64 i) = framePage (s + 7) := by
    intro i hi
    apply pageOf_eq (3584 + 8 * i)
    · rw [BitVec.toNat_add, top, word i hi]
      omega
    · omega
  have second : ∀ i, i < 32 → pageOf (sp + 8 * 32 + 8 * BitVec.ofNat 64 i) = framePage (s + 7) := by
    intro i hi
    apply pageOf_eq (3840 + 8 * i)
    · rw [BitVec.toNat_add, BitVec.toNat_add, top, word i (by omega), show (8 * 32 : Word).toNat = 256 from rfl]
      omega
    · omega
  have below : pageOf (sp - 8) = framePage (s + 7) := by
    apply pageOf_eq 3576
    · rw [BitVec.toNat_sub_of_le, top, show (8 : Word).toNat = 8 from rfl]
      · omega
      · rw [BitVec.le_def, top, show (8 : Word).toNat = 8 from rfl]
        omega
    · omega
  exact ((((storeWords_onlyPage _ _ _ fun i hi => inside i (by omega)).trans
    (storeWords_onlyPage _ _ _ second)).trans (storeWord_onlyPage _ _ (inside regA0 (by decide)))).trans
    (storeWord_onlyPage _ _ (inside regRa (by decide)))).trans (storeWord_onlyPage _ _ below)

section Directory

variable {pool : Pool} {dirs : Finset Word} {held : Finset Nat} {m : Memory} {d : Word}

theorem clearDir_tableOf (m : Memory) (d : Word) {i : Nat} (bound : i < pageDirTableNum) :
    (clearDir m d).tableOf (d, i) = none := by
  apply tableOf_invalid
  simp only [clearDir, Function.update_self, bound, if_true, v_zero]

theorem clearDir_leafOf (m : Memory) {d : Word} {s : LeafSlot} (other : s.1 ≠ d) :
    (clearDir m d).leafOf s = m.leafOf s := by
  apply leafOf_congr
  · simp only [clearDir, Function.update_of_ne other]
  · intro p _
    rfl

theorem clearDir_tableOf_other (m : Memory) {d : Word} {s : TableSlot} (other : s.1 ≠ d) :
    (clearDir m d).tableOf s = m.tableOf s := by
  simp only [Memory.tableOf, clearDir, Function.update_of_ne other]

/-- A new, cleared directory refers to nothing. -/
theorem wf_add_dir (wf : Wf pool dirs held m) (new : d ∉ dirs) :
    Wf pool (insert d dirs) held (clearDir m d) := by
  have leafNew : ∀ s ∈ leafSlots (insert d dirs), s ∉ leafSlots dirs → (clearDir m d).leafOf s = none := by
    rintro ⟨d', i, j⟩ hs out
    obtain ⟨member, hi, hj⟩ := mem_leafSlots.mp hs
    rcases Finset.mem_insert.mp member with rfl | old
    · exact leafOf_of_absent (clearDir_tableOf m _ hi) j
    · exact absurd (mem_leafSlots.mpr ⟨old, hi, hj⟩) out
  have tableNew : ∀ s ∈ tableSlots (insert d dirs), s ∉ tableSlots dirs → (clearDir m d).tableOf s = none := by
    rintro ⟨d', i⟩ hs out
    obtain ⟨member, hi⟩ := mem_tableSlots.mp hs
    rcases Finset.mem_insert.mp member with rfl | old
    · exact clearDir_tableOf m _ hi
    · exact absurd (mem_tableSlots.mpr ⟨old, hi⟩) out
  have leafOld : ∀ s ∈ leafSlots dirs, (clearDir m d).leafOf s = m.leafOf s := by
    rintro ⟨d', i, j⟩ hs
    apply clearDir_leafOf
    rintro rfl
    exact new (mem_leafSlots.mp hs).1
  have tableOld : ∀ s ∈ tableSlots dirs, (clearDir m d).tableOf s = m.tableOf s := by
    rintro ⟨d', i⟩ hs
    apply clearDir_tableOf_other
    rintro rfl
    exact new (mem_tableSlots.mp hs).1
  have leafOne : ∀ s ∈ leafSlots (insert d dirs), ∀ e, (clearDir m d).leafOf s = some e →
      s ∈ leafSlots dirs ∧ m.leafOf s = some e := by
    intro s hs e leaf
    by_cases old : s ∈ leafSlots dirs
    · exact ⟨old, leafOld s old ▸ leaf⟩
    · rw [leafNew s hs old] at leaf
      cases leaf
  have targetOne : ∀ s ∈ leafSlots (insert d dirs), ∀ p, (clearDir m d).view.leafTarget s = some p →
      s ∈ leafSlots dirs ∧ m.view.leafTarget s = some p := by
    intro s hs p target
    obtain ⟨e, leaf, page⟩ := Counted.leaf_of_leafTarget target
    obtain ⟨old, before⟩ := leafOne s hs e leaf
    exact ⟨old, page ▸ Counted.leafTarget_of_leaf (v := m.view) before⟩
  have tableOne : ∀ s ∈ tableSlots (insert d dirs), ∀ p, (clearDir m d).tableOf s = some p →
      s ∈ tableSlots dirs ∧ m.tableOf s = some p := by
    intro s hs p table
    by_cases old : s ∈ tableSlots dirs
    · exact ⟨old, tableOld s old ▸ table⟩
    · rw [tableNew s hs old] at table
      cases table
  have leafSub : leafSlots dirs ⊆ leafSlots (insert d dirs) := by
    rintro ⟨d', i, j⟩ hs
    obtain ⟨member, hi, hj⟩ := mem_leafSlots.mp hs
    exact mem_leafSlots.mpr ⟨Finset.mem_insert_of_mem member, hi, hj⟩
  have tableSub : tableSlots dirs ⊆ tableSlots (insert d dirs) := by
    rintro ⟨d', i⟩ hs
    obtain ⟨member, hi⟩ := mem_tableSlots.mp hs
    exact mem_tableSlots.mpr ⟨Finset.mem_insert_of_mem member, hi⟩
  refine ⟨⟨?_, wf.counted.outside, ?_, ?_, wf.counted.heldPool, ?_, wf.counted.heldOne, ?_, ?_⟩,
    Finset.mem_insert_of_mem wf.current, wf.high⟩
  · intro f has
    have leaves : (clearDir m d).view.leafRefs (insert d dirs) f = m.view.leafRefs dirs f := by
      apply refs_extend leafSub
      · intro s hs
        simp only [View.leafTarget, Memory.view, leafOld s hs]
      · intro s hs out
        simp only [View.leafTarget, Memory.view, leafNew s hs out, Option.map_none]
    have tables : (clearDir m d).view.tableRefs (insert d dirs) f = m.view.tableRefs dirs f :=
      refs_extend tableSub tableOld tableNew
    rw [leaves, tables]
    exact wf.counted.exact f has
  · intro s hs p target
    obtain ⟨old, before⟩ := targetOne s hs p target
    exact wf.counted.leafPool s old p before
  · intro s hs p table
    obtain ⟨old, before⟩ := tableOne s hs p table
    exact wf.counted.tablePool s old p before
  · intro s hs f table
    obtain ⟨old, before⟩ := tableOne s hs _ table
    exact wf.counted.tableOne s old f before
  · intro s hs t ht p left right same
    obtain ⟨oldS, beforeS⟩ := targetOne s hs p left
    obtain ⟨oldT, beforeT⟩ := targetOne t ht p right
    exact wf.counted.apart s oldS t oldT p beforeS beforeT same
  · intro s hs e f leaf writable page
    obtain ⟨old, before⟩ := leafOne s hs e leaf
    exact wf.counted.writeOne s old e f before writable page

end Directory

/-- The state of the process table between system calls: exact counters, at most one directory per
    task, directories in frames of the kernel, the directory of the current task in use, and its
    segment as `sched_init` or `change_ldt` set it. -/
structure ProcessWf (pool : Pool) (dirs : Finset Word) (held : Finset Nat) (k : Process) : Prop where
  wf : Wf pool dirs held k.memory
  few : dirs.card ≤ nrTasks
  dirsHeld : ∀ d ∈ dirs, ∀ f, pool.Has f → d = frameAddr f → f ∈ held
  currentDir : k.memory.pageDirTable = (k.structs k.current).pageDirTable
  dataBase : (k.structs k.current).dataBase = userStartAddr
  dataLimit : (k.structs k.current).dataLimit = 0x4000000 ∨ (k.structs k.current).dataLimit = 640 * 1024

/-- The memory once the task pages `r`, the kernel stack `s` and the directory of the child are set up. -/
structure Prepared (dirs : Finset Word) (r s : Nat) (m m' : Memory) : Prop where
  leaf : ∀ t ∈ leafSlots dirs, m'.leafOf t = m.leafOf t
  tables : ∀ t ∈ tableSlots dirs, m'.tableOf t = m.tableOf t
  empty : ∀ i, i < pageDirTableNum → m'.tableOf (frameAddr (r + 1), i) = none
  count : ∀ g, m.memMap g ≠ 0 → m'.memMap g = m.memMap g
  phys : ∀ g, m.memMap g ≠ 0 → m'.phys (framePage g) = m.phys (framePage g)
  control : SameControl m m'

theorem prepare {pool : Pool} {dirs : Finset Word} {held : Finset Nat} {k : Process} {r s : Nat}
    (inv : ProcessWf pool dirs held k) (first : 0 < r) (room : r + 5 ≤ pagingPages)
    (free : IsFreeRun k.memory.memMap 5 r) (first' : 0 < s) (room' : s + 8 ≤ pagingPages)
    (free' : IsFreeRun (takeRun k.memory r 5).memMap 8 s) (trap : TrapInfo) (exit : Word) :
    frameAddr (r + 1) ∉ dirs ∧
    Wf pool (insert (frameAddr (r + 1)) dirs) (held ∪ Finset.Ico r (r + 5) ∪ Finset.Ico s (s + 8))
      (clearDir (storeTrapFrame (takeRun (takeRun k.memory r 5) s 8) trap
        (frameAddr s + kernelStackSize - 8 * 32 - 8 * 32) exit) (frameAddr (r + 1))) ∧
    Prepared dirs r s k.memory (clearDir (storeTrapFrame (takeRun (takeRun k.memory r 5) s 8) trap
      (frameAddr s + kernelStackSize - 8 * 32 - 8 * 32) exit) (frameAddr (r + 1))) := by
  have wf₁ := inv.wf.take_run first room free
  have wf₂ := wf₁.take_run first' room' free'
  have new : frameAddr (r + 1) ∉ dirs := by
    intro member
    have zero := free (r + 1) (by omega) (by omega)
    have has := inv.wf.pool_of_free (by omega) (by omega) zero
    have held := inv.dirsHeld _ member _ has rfl
    exact (inv.wf.counted.free_of_zero has zero).2.2 held
  obtain ⟨pages, stored, others⟩ := storeTrapFrame_onlyPage (takeRun (takeRun k.memory r 5) s 8) trap exit room'
  rw [stored]
  have last : s + 7 ∈ held ∪ Finset.Ico r (r + 5) ∪ Finset.Ico s (s + 8) :=
    Finset.mem_union_right _ (Finset.mem_Ico.mpr ⟨by omega, by omega⟩)
  obtain ⟨wf₃, leaf₃⟩ := wf₂.write_pages pages (by
    intro t ht p table
    apply others
    rintro rfl
    exact refs_eq_zero.mp (wf₂.counted.held_only last).2 t ht table)
  have outside : ∀ g, k.memory.memMap g ≠ 0 → ¬ (r ≤ g ∧ g < r + 5) ∧ ¬ (s ≤ g ∧ g < s + 8) := by
    intro g inUse
    have notFirst : ¬ (r ≤ g ∧ g < r + 5) := fun inside => inUse (free g inside.1 inside.2)
    refine ⟨notFirst, fun inside => inUse ?_⟩
    have zero := free' g inside.1 inside.2
    simp only [takeRun, notFirst, if_false] at zero
    exact zero
  refine ⟨new, wf_add_dir wf₃ new, ?_, ?_, fun i hi => clearDir_tableOf _ _ hi, ?_, ?_, ⟨rfl, rfl, rfl⟩⟩
  · rintro ⟨d, i, j⟩ ht
    rw [clearDir_leafOf]
    · rw [leaf₃ _ ht, wf₁.leafOf_takeRun first' room' free' _ ht, inv.wf.leafOf_takeRun first room free _ ht]
    · rintro rfl
      exact new (mem_leafSlots.mp ht).1
  · rintro ⟨d, i⟩ ht
    rw [clearDir_tableOf_other]
    · rfl
    · rintro rfl
      exact new (mem_tableSlots.mp ht).1
  · intro g inUse
    obtain ⟨one, two⟩ := outside g inUse
    simp only [clearDir, takeRun, one, two, if_false]
  · intro g inUse
    obtain ⟨one, two⟩ := outside g inUse
    have other : framePage g ≠ framePage (s + 7) := by
      intro same
      have := framePage_inj same
      omega
    have notFirst : ¬ (framePage r ≤ framePage g ∧ framePage g < framePage r + 5) := by
      unfold framePage
      omega
    have notSecond : ¬ (framePage s ≤ framePage g ∧ framePage g < framePage s + 8) := by
      unfold framePage
      omega
    change pages (framePage g) = _
    rw [others _ other]
    simp only [takeRun, notFirst, notSecond, if_false]

section Segment

theorem copied_slots {limit : Word} (segment : limit = 0x4000000 ∨ limit = 640 * 1024) :
    getPageDirSize (limit / pageSize) = 1 := by
  rcases segment with rfl | rfl
  · decide
  · decide

theorem freed_slots {limit : Word} (segment : limit = 0x4000000 ∨ limit = 640 * 1024) :
    1 ≤ getPageDirSize limit ∧ getPageDirSize limit ≤ pageDirTableNum := by
  rcases segment with rfl | rfl
  · decide
  · decide

theorem userStartAddr_slot : getPageDirId userStartAddr = 0 := by decide

theorem copyPageTables_user {m : Memory} {toDir limit : Word} (nonzero : toDir ≠ 0)
    (segment : limit = 0x4000000 ∨ limit = 640 * 1024) :
    copyPageTables m userStartAddr userStartAddr toDir (limit / pageSize) = copyDirSlots m toDir 0 0 1 := by
  rw [copyPageTables, if_neg nonzero, if_neg (by decide), userStartAddr_slot, copied_slots segment]

end Segment

section Equations

variable {k : Process} {nr : Nat} {p stack : Word} {m m₁ m₂ : Memory}

theorem copyProcess_noTask (none : getFreePages k.memory 5 = (0, k.memory)) :
    copyProcess k nr = .ok (-eagain, k) := by
  rw [copyProcess, none]
  rfl

theorem copyProcess_noStack (found : getFreePages k.memory 5 = (p, m₁)) (nonzero : p ≠ 0)
    (none : getFreePages m₁ 8 = (0, m₁)) (freed : freePages m₁ p 5 = .ok m₂) :
    ∃ k', copyProcess k nr = .ok (-eagain, k') ∧ k'.task = Function.update k.task nr p := by
  have eight : (kernelStackSize >>> 12).toNat = 8 := by decide
  have memory : (placeTask (k.setMemory m₁) nr p).memory = m₁ := rfl
  refine ⟨(placeStack (placeTask (k.setMemory m₁) nr p) nr 0).setMemory m₂, ?_, rfl⟩
  simp only [copyProcess, found, if_neg nonzero, memory, eight, none, if_true]
  rw [show (placeStack ((placeTask (k.setMemory m₁) nr p).setMemory m₁) nr 0).memory = m₁ from rfl, freed]
  rfl

/-- The state in which `copy_process` calls `copy_mem`. -/
def beforeCopy (k : Process) (nr : Nat) (p stack : Word) (m₁ m₂ : Memory) : Process :=
  setUpStack (placeStack ((placeTask (k.setMemory m₁) nr p).setMemory m₂) nr stack) nr p stack

theorem beforeCopy_struct (k : Process) (nr : Nat) (p stack : Word) (m₁ m₂ : Memory) :
    ((beforeCopy k nr p stack m₁ m₂).structs p).dataBase = (k.structs k.current).dataBase ∧
    ((beforeCopy k nr p stack m₁ m₂).structs p).dataLimit = (k.structs k.current).dataLimit ∧
    ((beforeCopy k nr p stack m₁ m₂).structs p).pageDirTable = p + pageSize := by
  simp only [beforeCopy, setUpStack, placeStack, placeTask, childOf, Process.setStruct, Process.setTask,
    Process.setMemory, Function.update_self, and_self]

theorem beforeCopy_memory (k : Process) (nr : Nat) (p stack : Word) (m₁ m₂ : Memory) :
    (beforeCopy k nr p stack m₁ m₂).memory = clearDir (storeTrapFrame m₂ k.trapInfo
      (stack + kernelStackSize - 8 * 32 - 8 * 32) k.forkProcessExit) (p + pageSize) := rfl

theorem beforeCopy_stack (k : Process) (nr : Nat) (p stack : Word) (m₁ m₂ : Memory) :
    (beforeCopy k nr p stack m₁ m₂).kernelStack nr = stack + kernelStackSize := by
  simp only [beforeCopy, setUpStack, Function.update_self]

theorem copyProcess_copy (found : getFreePages k.memory 5 = (p, m₁)) (nonzero : p ≠ 0)
    (found' : getFreePages m₁ 8 = (stack, m₂)) (nonzero' : stack ≠ 0) {r : Int} {k' : Process}
    (copied : copyMem (beforeCopy k nr p stack m₁ m₂) p = .ok (r, k')) :
    copyProcess k nr = if r ≠ 0 then abandonChild k' nr p else .ok (startChild k' p) := by
  have eight : (kernelStackSize >>> 12).toNat = 8 := by decide
  have memory : (placeTask (k.setMemory m₁) nr p).memory = m₁ := rfl
  simp only [copyProcess, found, if_neg nonzero, memory, eight, found', if_neg nonzero']
  rw [beforeCopy] at copied
  rw [copied]
  rfl

end Equations

theorem abandonChild_eq {k : Process} {nr : Nat} {p stack : Word} {m₁ m₂ : Memory}
    (top : k.kernelStack nr - kernelStackSize = stack) (done₁ : freePages k.memory stack 8 = .ok m₁)
    (done₂ : freePages m₁ p 5 = .ok m₂) : abandonChild k nr p = .ok (-eagain, (k.setTask nr 0).setMemory m₂) := by
  have eight : (kernelStackSize >>> 12).toNat = 8 := by decide
  have stack' : (k.setTask nr 0).kernelStack nr - kernelStackSize = stack := top
  have memory : (k.setTask nr 0).memory = k.memory := rfl
  rw [abandonChild, eight, stack', memory, done₁]
  change (freePages m₁ p 5).bind _ = _
  rw [done₂]
  rfl

theorem copyMem_eq {k : Process} {p dir limit : Word} {r : Int} {m : Memory}
    (base : (k.structs p).dataBase = userStartAddr) (size : (k.structs p).dataLimit = limit)
    (segment : limit = 0x4000000 ∨ limit = 640 * 1024) (table : (k.structs p).pageDirTable = dir)
    (nonzero : dir ≠ 0) (copied : copyDirSlots k.memory dir 0 0 1 = .ok (r, m)) :
    copyMem k p = if r ≠ 0 then
      (freePageTables m userStartAddr dir limit).bind fun m' =>
        .ok (-enomem, (setStartCode k p userStartAddr).setMemory m')
      else .ok (0, (setStartCode k p userStartAddr).setMemory m) := by
  have memory : (setStartCode k p userStartAddr).memory = k.memory := rfl
  rw [copyMem, base, size, table, memory, copyPageTables_user nonzero segment, copied]
  rfl

/-- Where and how `copy_process` ends. -/
inductive ForkOutcome (pool : Pool) (dirs : Finset Word) (held : Finset Nat) (k : Process) (nr : Nat) :
    Except (Stop Memory) (Int × Process) → Prop
  | noTask : (∀ r, 0 < r → r + 5 ≤ pagingPages → ¬ IsFreeRun k.memory.memMap 5 r) →
      ForkOutcome pool dirs held k nr (.ok (-eagain, k))
  | noStack {k' r} : 0 < r → r + 5 ≤ pagingPages → IsFreeRun k.memory.memMap 5 r →
      (∀ s, 0 < s → s + 8 ≤ pagingPages → ¬ IsFreeRun (takeRun k.memory r 5).memMap 8 s) →
      k'.task = Function.update k.task nr (frameAddr r) → ForkOutcome pool dirs held k nr (.ok (-eagain, k'))
  | noTable {k' r s m₄ m₅ m₆} : 0 < r → r + 5 ≤ pagingPages → IsFreeRun k.memory.memMap 5 r →
      frameAddr (r + 1) ∉ dirs → Prepared dirs r s k.memory m₄ →
      m₄.tableOf (k.memory.pageDirTable, 0) ≠ none →
      SlotsCopied (insert (frameAddr (r + 1)) dirs) k.memory.pageDirTable 0 (frameAddr (r + 1)) 0 0 m₄ m₅ →
      SlotsFreed (insert (frameAddr (r + 1)) dirs) k.memory.pageDirTable 0
        (getPageDirSize (k.structs k.current).dataLimit) m₅ m₆ →
      k'.memory.phys = m₆.phys → k'.memory.dirs = m₆.dirs →
      Wf pool (insert (frameAddr (r + 1)) dirs) held k'.memory → ForkOutcome pool dirs held k nr (.ok (-eagain, k'))
  | done {k' r s m₄} : 0 < r → r + 5 ≤ pagingPages → frameAddr (r + 1) ∉ dirs → Prepared dirs r s k.memory m₄ →
      k'.task nr = frameAddr r → (k'.structs (frameAddr r)).pageDirTable = frameAddr (r + 1) →
      k'.kernelStackbottom nr = frameAddr s → (∀ f, f ∈ held ∪ Finset.Ico r (r + 5) → f ∉ Finset.Ico s (s + 8)) →
      (k'.memory.tableOf (frameAddr (r + 1), 0) = none ↔ k.memory.tableOf (k.memory.pageDirTable, 0) = none) →
      SlotsCopied (insert (frameAddr (r + 1)) dirs) k.memory.pageDirTable 0 (frameAddr (r + 1)) 0 1 m₄ k'.memory →
      Wf pool (insert (frameAddr (r + 1)) dirs) (held ∪ Finset.Ico r (r + 5) ∪ Finset.Ico s (s + 8)) k'.memory →
      ForkOutcome pool dirs held k nr (.ok (k.lastPid, k'))

section Outcome

variable {pool : Pool} {dirs : Finset Word} {held : Finset Nat} {k : Process} {nr r s : Nat}

theorem prepared_disjoint {m m' : Memory} (prepared : Prepared dirs r s m m') (d : Word) :
    m'.Disjoint (insert (frameAddr (r + 1)) dirs) d 0 (frameAddr (r + 1)) := by
  rintro _ _ _ _ q _ ⟨t, i, j⟩ ht rfl points
  obtain ⟨_, hi, _⟩ := mem_leafSlots.mp ht
  rw [View.leafTarget, show m'.view.leaf (frameAddr (r + 1), i, j) = none from
    leafOf_of_absent (prepared.empty i hi) j] at points
  cases points

/-- The frames taken for the child are given back. -/
theorem free_child {m : Memory} {D : Finset Word}
    (wf : Wf pool D (held ∪ Finset.Ico r (r + 5) ∪ Finset.Ico s (s + 8)) m)
    (apart : ∀ f, f ∈ held ∪ Finset.Ico r (r + 5) → f ∉ Finset.Ico s (s + 8))
    (apart' : ∀ f, f ∈ held → f ∉ Finset.Ico r (r + 5)) :
    ∃ m₁ m₂, freePages m (frameAddr s) 8 = .ok m₁ ∧ freePages m₁ (frameAddr r) 5 = .ok m₂ ∧
      Wf pool D held m₂ ∧ m₂.phys = m.phys ∧ m₂.dirs = m.dirs := by
  obtain ⟨_, done₁, wf₁⟩ := wf.freePages_run (i := s) (n := 8) Finset.subset_union_right
  rw [Finset.union_sdiff_right, Finset.sdiff_eq_self_of_disjoint (Finset.disjoint_left.mpr fun f => apart f)] at wf₁
  obtain ⟨_, done₂, wf₂⟩ := wf₁.freePages_run (i := r) (n := 5) Finset.subset_union_right
  rw [Finset.union_sdiff_right, Finset.sdiff_eq_self_of_disjoint (Finset.disjoint_left.mpr fun f => apart' f)] at wf₂
  exact ⟨_, _, done₁, done₂, wf₂, rfl, rfl⟩

theorem free_not_held {m : Memory} {D : Finset Word} {n i : Nat} (wf : Wf pool D held m) (first : 0 < i)
    (room : i + n ≤ pagingPages) (free : IsFreeRun m.memMap n i) : ∀ f, f ∈ held → f ∉ Finset.Ico i (i + n) := by
  intro f member inside
  obtain ⟨low, high⟩ := Finset.mem_Ico.mp inside
  have zero := free f low high
  have has := wf.pool_of_free (by omega) (by omega) zero
  exact (wf.counted.free_of_zero has zero).2.2 member

theorem copyTableEntries_dirs (m : Memory) (fromTable toTable nr left : Nat) :
    (copyTableEntries m fromTable toTable nr left).dirs = m.dirs := by
  induction left generalizing m nr with
  | zero => rfl
  | succ left ih =>
    rw [copyTableEntries]
    split
    · dsimp only
      split
      · exact ih _ _
      · exact ih _ _
    · exact ih _ _

/-- The one slot that `copy_mem` asks for gets a table exactly when the parent has one there. -/
theorem copyDirSlots_one_table {m m' : Memory} {toDir : Word} (run : copyDirSlots m toDir 0 0 1 = .ok (0, m'))
    (empty : m.tableOf (toDir, 0) = none) :
    m'.tableOf (toDir, 0) = none ↔ m.tableOf (m.pageDirTable, 0) = none := by
  have vacant := v_eq_false_of_tableOf empty
  rw [copyDirSlots, if_neg (by rw [vacant]; decide)] at run
  split at run
  · rename_i valid
    dsimp only at run
    split at run
    · have code : (-1 : Int) = 0 := congrArg Prod.fst (Except.ok.inj run)
      exact absurd code (by decide)
    · rename_i found
      cases run
      rw [tableOf_valid valid]
      refine iff_of_false ?_ (fun absent => by cases absent)
      rw [Memory.tableOf, copyTableEntries_dirs, ← Memory.tableOf, tableOf_setDir _ _ _ (v_enableEntry _)]
      simp
  · rename_i invalid
    cases run
    rw [tableOf_invalid (Bool.eq_false_iff.mpr invalid)]
    exact iff_of_true empty rfl

/-- The last part of `copy_process`, from the call of `copy_mem` on. -/
theorem copy_outcome {before : Process} (inv : ProcessWf pool dirs held k) (first : 0 < r)
    (room : r + 5 ≤ pagingPages) (free : IsFreeRun k.memory.memMap 5 r) (new : frameAddr (r + 1) ∉ dirs)
    (apart : ∀ f, f ∈ held ∪ Finset.Ico r (r + 5) → f ∉ Finset.Ico s (s + 8))
    (wf : Wf pool (insert (frameAddr (r + 1)) dirs) (held ∪ Finset.Ico r (r + 5) ∪ Finset.Ico s (s + 8)) before.memory)
    (prepared : Prepared dirs r s k.memory before.memory)
    (base : (before.structs (frameAddr r)).dataBase = userStartAddr)
    (size : (before.structs (frameAddr r)).dataLimit = (k.structs k.current).dataLimit)
    (table : (before.structs (frameAddr r)).pageDirTable = frameAddr (r + 1))
    (top : before.kernelStack nr = frameAddr s + kernelStackSize) (bottom : before.kernelStackbottom nr = frameAddr s)
    (task : before.task nr = frameAddr r)
    (lastPid : before.lastPid = k.lastPid)
    (reduce : ∀ r' k', copyMem before (frameAddr r) = .ok (r', k') →
      copyProcess k nr = if r' ≠ 0 then abandonChild k' nr (frameAddr r) else .ok (startChild k' (frameAddr r))) :
    ForkOutcome pool dirs held k nr (copyProcess k nr) := by
  have distinct : frameAddr (r + 1) ≠ before.memory.pageDirTable := by
    rw [prepared.control.pageDirTable]
    exact fun same => new (same ▸ inv.wf.current)
  have small : (insert (frameAddr (r + 1)) dirs).card < 255 := by
    have grown := Finset.card_insert_le (frameAddr (r + 1)) dirs
    have few := inv.few
    unfold nrTasks at few
    omega
  obtain ⟨r', m₅, done, run, wf₅, copied, outcome⟩ := wf.copy_dir_slots small (Finset.mem_insert_self _ _) distinct
    (show 0 + 1 ≤ pageDirTableNum by decide) (show 0 + 1 ≤ pageDirTableNum by decide)
    (fun i _ hi => prepared.empty i hi) (prepared_disjoint prepared _)
  have copy := copyMem_eq base size inv.dataLimit table (frameAddr_ne_zero (by omega)) run
  rw [prepared.control.pageDirTable] at copied outcome
  rcases outcome with ⟨rfl, rfl⟩ | ⟨rfl, none, source, _⟩
  · rw [if_neg (not_not.mpr rfl)] at copy
    rw [reduce _ _ copy, if_neg (not_not.mpr rfl)]
    have pid : (startChild ((setStartCode before (frameAddr r) userStartAddr).setMemory m₅) (frameAddr r)).1 =
        k.lastPid := lastPid
    rw [← Prod.mk.eta (p := startChild _ _), pid]
    have slot := copyDirSlots_one_table run (prepared.empty 0 (by decide))
    rw [prepared.control.pageDirTable, prepared.tables _ (mem_tableSlots.mpr ⟨inv.wf.current, by decide⟩)] at slot
    refine .done first room new prepared task ?_ bottom apart slot copied wf₅
    simp only [startChild, setStartCode, Process.setStruct, Process.setMemory, Function.update_self, table]
  · obtain rfl : done = 0 := by omega
    obtain ⟨least, most⟩ := freed_slots inv.dataLimit
    have inside : getPageDirId userStartAddr + getPageDirSize (k.structs k.current).dataLimit ≤ pageDirTableNum := by
      rw [userStartAddr_slot, Nat.zero_add]
      exact most
    obtain ⟨m₆, freed, wf₆, slots⟩ : ∃ m₆, freePageTables m₅ userStartAddr (frameAddr (r + 1))
        (k.structs k.current).dataLimit = .ok m₆ ∧ _ := wf₅.free_page_tables (by decide) (by decide) inside
    obtain ⟨m₇, m₈, done₇, done₈, wf₈, phys, directories⟩ := free_child wf₆ apart
      (free_not_held inv.wf first room free)
    rw [if_pos (by decide), freed] at copy
    have stack : ((setStartCode before (frameAddr r) userStartAddr).setMemory m₆).kernelStack nr - kernelStackSize =
        frameAddr s := by
      change before.kernelStack nr - kernelStackSize = frameAddr s
      rw [top, BitVec.add_sub_cancel]
    rw [reduce _ _ copy, if_pos (by decide), abandonChild_eq stack done₇ done₈]
    rw [userStartAddr_slot, copied.control.pageDirTable, prepared.control.pageDirTable] at slots
    exact .noTable first room free new prepared source copied slots phys directories wf₈

theorem copyProcess_outcome (inv : ProcessWf pool dirs held k) (nr : Nat) :
    ForkOutcome pool dirs held k nr (copyProcess k nr) := by
  rcases getFreePages_cases k.memory (n := 5) (by decide) with ⟨none, full⟩ | ⟨r, first, room, free, found⟩
  · rw [copyProcess_noTask none]
    exact .noTask full
  have nonzero := frameAddr_ne_zero (i := r) (by omega)
  have wf₁ := inv.wf.take_run first room free
  rcases getFreePages_cases (takeRun k.memory r 5) (n := 8) (by decide) with
    ⟨none, full⟩ | ⟨s, first', room', free', found'⟩
  · obtain ⟨_, freed, _⟩ := wf₁.freePages_run (i := r) (n := 5) Finset.subset_union_right
    obtain ⟨k', run, task⟩ := copyProcess_noStack found nonzero none freed
    rw [run]
    exact .noStack first room free full task
  have nonzero' := frameAddr_ne_zero (i := s) (by omega)
  obtain ⟨new, wf₄, prepared⟩ := prepare inv first room free first' room' free' k.trapInfo k.forkProcessExit
  have memory := beforeCopy_memory k nr (frameAddr r) (frameAddr s) (takeRun k.memory r 5)
    (takeRun (takeRun k.memory r 5) s 8)
  obtain ⟨base, size, table⟩ := beforeCopy_struct k nr (frameAddr r) (frameAddr s) (takeRun k.memory r 5)
    (takeRun (takeRun k.memory r 5) s 8)
  rw [frameAddr_succ (by omega)] at memory table
  rw [inv.dataBase] at base
  rw [← memory] at wf₄ prepared
  exact copy_outcome inv first room free new (free_not_held wf₁ first' room' free') wf₄ prepared base size table
    (beforeCopy_stack k nr _ _ _ _) (Function.update_self ..) (Function.update_self ..) rfl
    (fun _ _ copied => copyProcess_copy found nonzero found' nonzero' copied)

end Outcome

end K210Linux.Kernel
