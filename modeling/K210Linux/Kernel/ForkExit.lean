import K210Linux.Kernel.ExitRun

namespace K210Linux.Kernel

open K210Linux.Mm RefCount Outcome

/-- A fork into slot `nr`, the whole life of a child that exits at once, and the call of `release` in the
    parent's `waitpid`; `parent` is the slot of the caller. -/
def forkExitWait (iputLast : Process → Nat → Except (Stop Memory) Process) (k : Process) (nr parent : Nat)
    (code : BitVec 32) : Except (Stop Memory) Process := do
  let forked ← copyProcess k nr
  let p := forked.2.task nr
  let k ← doExit iputLast (switchTo forked.2 nr) code
  let k := switchTo k parent
  release (addChildTimes k p) p

section Counters

variable {pool : Pool} {dirs : Finset Word} {held : Finset Nat} {m m' : Memory} {d : Word}

theorem leafSlots_insert (dirs : Finset Word) (d : Word) : leafSlots dirs ⊆ leafSlots (insert d dirs) := by
  intro s hs
  obtain ⟨member, hi, hj⟩ := mem_leafSlots.mp hs
  exact mem_leafSlots.mpr ⟨Finset.mem_insert_of_mem member, hi, hj⟩

theorem tableSlots_insert (dirs : Finset Word) (d : Word) : tableSlots dirs ⊆ tableSlots (insert d dirs) := by
  intro s hs
  obtain ⟨member, hi⟩ := mem_tableSlots.mp hs
  exact mem_tableSlots.mpr ⟨Finset.mem_insert_of_mem member, hi⟩

/-- One more directory changes no counter exactly when it has no table. -/
theorem counters_same_iff (wf : Wf pool dirs held m) (wf' : Wf pool (insert d dirs) held m') (new : d ∉ dirs)
    (leaves : ∀ s ∈ leafSlots dirs, m'.view.leafTarget s = m.view.leafTarget s)
    (tables : ∀ s ∈ tableSlots dirs, m'.tableOf s = m.tableOf s) :
    (∀ f, m'.memMap f = m.memMap f) ↔ ∀ i, i < pageDirTableNum → m'.tableOf (d, i) = none := by
  constructor
  · intro same i hi
    cases table : m'.tableOf (d, i) with
    | none => rfl
    | some p =>
      have slot : (d, i) ∈ tableSlots (insert d dirs) := mem_tableSlots.mpr ⟨Finset.mem_insert_self _ _, hi⟩
      obtain ⟨t, has, rfl⟩ := wf'.counted.tablePool _ slot p table
      obtain ⟨noLeaf, _, notHeld⟩ := wf'.counted.table_only slot table
      have before := wf.counted.exact t has
      have leafRefs : m.view.leafRefs dirs t = 0 := by
        apply refs_eq_zero.mpr
        intro s hs target
        rw [← leaves s hs] at target
        exact refs_eq_zero.mp noLeaf s (leafSlots_insert dirs d hs) target
      have tableRefs : m.view.tableRefs dirs t = 0 := by
        apply refs_eq_zero.mpr
        intro s hs target
        have target' : m'.tableOf s = some (framePage t) := (tables s hs).trans target
        have here := wf'.counted.table_unique (tableSlots_insert dirs d hs) slot target' table
        rw [here] at hs
        exact new (mem_tableSlots.mp hs).1
      have one := wf'.counted.tableOne _ slot t table
      rw [leafRefs, tableRefs, indicator, if_neg notHeld] at before
      change (m.memMap t).toNat = 0 at before
      change m'.memMap t = 1 at one
      rw [← same t, one] at before
      exact absurd before (by decide)
  · intro empty f
    apply count_eq_of_refs wf wf'
    · apply refs_extend (leafSlots_insert dirs d) leaves
      intro s hs out
      obtain ⟨d', i, j⟩ := s
      obtain ⟨member, hi, hj⟩ := mem_leafSlots.mp hs
      rcases Finset.mem_insert.mp member with rfl | old
      · rw [View.leafTarget, show m'.view.leaf (d', i, j) = none from leafOf_of_absent (empty i hi) j]
        rfl
      · exact absurd (mem_leafSlots.mpr ⟨old, hi, hj⟩) out
    · apply refs_extend (tableSlots_insert dirs d) tables
      intro s hs out
      obtain ⟨d', i⟩ := s
      obtain ⟨member, hi⟩ := mem_tableSlots.mp hs
      rcases Finset.mem_insert.mp member with rfl | old
      · exact empty i hi
      · exact absurd (mem_tableSlots.mpr ⟨old, hi⟩) out

end Counters

section Child

variable {dirs : Finset Word} {k : Process} {r s id : Nat} {m₄ m₅ m' : Memory} {d : Word}

theorem setPageDir_tableOf (m : Memory) (d : Word) (x : TableSlot) : (setPageDir m d).tableOf x = m.tableOf x := rfl

/-- What a fork, and the call of `free_page_tables` for the new directory, leave of the old directories. -/
theorem old_directories_kept (prepared : Prepared dirs r s k.memory m₄) (new : d ∉ dirs)
    (copied : SlotsCopied (insert d dirs) k.memory.pageDirTable 0 d 0 1 m₄ m₅)
    (freed : SlotsFreed (insert d dirs) d id 1 (setPageDir m₅ d) m') :
    (∀ x ∈ leafSlots dirs, m'.view.leafTarget x = k.memory.view.leafTarget x) ∧
      ∀ x ∈ tableSlots dirs, m'.tableOf x = k.memory.tableOf x := by
  constructor
  · intro x hx
    have other : x.1 ≠ d := fun same => new (same ▸ (mem_leafSlots.mp hx).1)
    have hx' := leafSlots_insert dirs d hx
    have kept : m'.leafOf x = m₅.leafOf x := (freed.leaf x hx').trans (if_neg fun inside => other inside.1)
    by_cases first : InSlots k.memory.pageDirTable 0 1 (x.1, x.2.1)
    · obtain ⟨d', i, j⟩ := x
      obtain ⟨same, low, high⟩ := first
      simp only at same low high
      obtain rfl : i = 0 := by omega
      subst same
      have source := copied.source 0 (by decide) j (mem_leafSlots.mp hx).2.2
      rw [Nat.zero_add] at source
      rw [← kept, prepared.leaf _ hx] at source
      exact leafTarget_map_protect (v := k.memory.view) source
    · have same := copied.others x hx' first fun inside => other inside.1
      have leaf : m'.leafOf x = k.memory.leafOf x := kept.trans (same.trans (prepared.leaf x hx))
      exact congrArg (Option.map pageTarget) leaf
  · intro x hx
    have other : x.1 ≠ d := fun same => new (same ▸ (mem_tableSlots.mp hx).1)
    rw [freed.table x (tableSlots_insert dirs d hx), if_neg fun inside => other inside.1]
    have kept : m₅.tableOf x = m₄.tableOf x := by
      rw [Memory.tableOf, copied.dirs x fun inside => other inside.1, ← Memory.tableOf]
    exact kept.trans (prepared.tables x hx)

/-- The new directory is empty then if it got no table, or if its one table was the one given back. -/
theorem new_directory_empty_iff (prepared : Prepared dirs r s k.memory m₄)
    (copied : SlotsCopied (insert (frameAddr (r + 1)) dirs) k.memory.pageDirTable 0 (frameAddr (r + 1)) 0 1 m₄ m₅)
    (freed : SlotsFreed (insert (frameAddr (r + 1)) dirs) (frameAddr (r + 1)) id 1
      (setPageDir m₅ (frameAddr (r + 1))) m') :
    (∀ i, i < pageDirTableNum → m'.tableOf (frameAddr (r + 1), i) = none) ↔
      m₅.tableOf (frameAddr (r + 1), 0) = none ∨ id = 0 := by
  have slot (i : Nat) (hi : i < pageDirTableNum) : m'.tableOf (frameAddr (r + 1), i) =
      if i = id then none else m₅.tableOf (frameAddr (r + 1), i) := by
    rw [freed.table _ (mem_tableSlots.mpr ⟨Finset.mem_insert_self _ _, hi⟩), setPageDir_tableOf]
    by_cases here : i = id
    · rw [if_pos here, if_pos (inSlots_one.mpr here)]
    · rw [if_neg here, if_neg fun inside => here (inSlots_one.mp inside)]
  constructor
  · intro empty
    have first := empty 0 (by decide)
    rw [slot 0 (by decide)] at first
    split at first
    · rename_i here
      exact .inr here.symm
    · exact .inl first
  · intro either i hi
    rw [slot i hi]
    split
    · rfl
    · rename_i other
      by_cases zero : i = 0
      · subst zero
        rcases either with none | here
        · exact none
        · exact absurd here.symm other
      · have outside : ¬ InSlots (frameAddr (r + 1)) 0 1 (frameAddr (r + 1), i) := by
          rw [inSlots_one]
          exact zero
        rw [Memory.tableOf, copied.dirs _ outside, ← Memory.tableOf]
        exact prepared.empty i hi

end Child

/-- A task that can fork into the free slot `nr` and wait for the child: it is in slot `parent`, has a
    number other tasks can find it by, and its open files and inodes are counted. -/
structure Parent (pool : Pool) (held : Finset Nat) (k : Process) (nr parent : Nat) : Prop where
  slot : 0 < nr ∧ nr < nrTasks
  free : k.task nr = 0
  own : parent < nrTasks ∧ k.task parent = k.current
  current : k.current ≠ 0
  tasks : ∀ i f, i < nrTasks → pool.Has f → k.task i = frameAddr f → f ∈ held
  pid : (k.structs k.current).pid ≠ 0
  fresh : 0 ≤ k.lastPid ∧ (k.structs k.current).pid ≠ k.lastPid
  files : ∀ f, 0 < named (k.structs k.current).filp f nrOpen → 0 < (k.fCount f).toNat ∧ (k.fCount f).toNat + nrOpen < 2 ^ 16
  inodes : ∀ i, 0 < inodeUses (k.structs k.current) i → 0 < (k.iCount i).toNat ∧ (k.iCount i).toNat + 3 < 2 ^ 16

section Reap

variable {pool : Pool} {dirs : Finset Word} {held : Finset Nat} {k k₁ : Process} {nr parent : Nat}

theorem alignTest4KB_frameAddr {i : Nat} (bound : i < pagingPages) : alignTest4KB (frameAddr i) = false := by
  have aligned : frameAddr i &&& 0xFFF = 0 := by
    apply BitVec.eq_of_toNat_eq
    rw [BitVec.toNat_and, toNat_frameAddr bound, show (0xFFF : Word).toNat = 2 ^ 12 - 1 from rfl, Nat.and_two_pow_sub_one_eq_mod]
    change _ = 0
    omega
  rw [alignTest4KB, aligned]
  rfl

/-- The page of a new task belongs to no task yet. -/
theorem new_task (inv : ProcessWf pool dirs held k) (caller : Parent pool held k nr parent)
    (run : copyProcess k nr = .ok (k.lastPid, k₁)) :
    ∃ r, 0 < r ∧ r + 5 ≤ pagingPages ∧ IsFreeRun k.memory.memMap 5 r ∧ (getFreePages k.memory 5).1 = frameAddr r ∧
      ∀ i, i < nrTasks → k.task i ≠ frameAddr r := by
  rcases getFreePages_cases k.memory (n := 5) (by decide) with ⟨none, -⟩ | ⟨r, first, room, free, found⟩
  · rw [copyProcess_noTask none] at run
    have code : -eagain = k.lastPid := congrArg Prod.fst (Except.ok.inj run)
    have := caller.fresh.1
    simp only [eagain] at code
    omega
  · refine ⟨r, first, room, free, by rw [found], ?_⟩
    intro i slot same
    have zero := free r (Nat.le_refl _) (by omega)
    have has := inv.wf.pool_of_free first (by omega) zero
    exact (inv.wf.counted.free_of_zero has zero).2.2 (caller.tasks i r slot has same)

/-- The files and inodes that parent and child share are counted for both. -/
theorem forked_shared {p : Word} (caller : Parent pool held k nr parent) (forked : Forked k k₁ nr p) :
    (∀ f, 0 < named (k₁.structs p).filp f nrOpen → named (k₁.structs p).filp f nrOpen < (k₁.fCount f).toNat) ∧
      ∀ i, 0 < inodeUses (k₁.structs p) i → inodeUses (k₁.structs p) i < (k₁.iCount i).toNat := by
  constructor
  · intro f some
    rw [forked.filp] at some ⊢
    obtain ⟨positive, few⟩ := caller.files f some
    rw [forked.fCount, countFiles_toNat _ _ _ _ few]
    omega
  · intro i some
    rw [forked.uses] at some ⊢
    obtain ⟨positive, few⟩ := caller.inodes i some
    have one := countInode_toNat (k.structs k.current).pwd k.iCount i (by omega)
    have two := countInode_toNat (k.structs k.current).root (countInode (k.structs k.current).pwd k.iCount) i (by
      rw [one]
      split <;> omega)
    have three := countInode_toNat (k.structs k.current).executable
      (countInode (k.structs k.current).root (countInode (k.structs k.current).pwd k.iCount)) i (by
      rw [two, one]
      split <;> split <;> omega)
    rw [forked.iCount, three, two, one, inodeUses]
    omega

/-- The table of tasks and the memory that `switch_to` leaves when it switches. -/
theorem switchTo_of_ne {k : Process} {n : Nat} (other : k.current ≠ k.task n) : switchTo k n = { k with
    current := k.task n
    memory := setPageDir k.memory (k.structs (k.task n)).pageDirTable } :=
  if_neg other

/-- `release` gives back the pages of a task and of its kernel stack. -/
theorem release_run {D : Finset Word} {k₂ : Process} {r s : Nat} (slot : 0 < nr ∧ nr < nrTasks)
    (wf : Wf pool D (held ∪ Finset.Ico r (r + 5) ∪ Finset.Ico s (s + 8)) k₂.memory)
    (apart : ∀ f, f ∈ held ∪ Finset.Ico r (r + 5) → f ∉ Finset.Ico s (s + 8))
    (apart' : ∀ f, f ∈ held → f ∉ Finset.Ico r (r + 5)) (here : k₂.task nr = frameAddr r) (bound : r < pagingPages)
    (bottom : k₂.kernelStackbottom nr = frameAddr s) (first : ∀ i, 0 < i → i < nr → k₂.task i ≠ frameAddr r) :
    ∃ k₃ counts, release k₂ (frameAddr r) = .ok k₃ ∧ k₃.memory = { k₂.memory with memMap := counts } ∧
      Wf pool D held k₃.memory := by
  obtain ⟨counts₁, done₁, wf₁⟩ := wf.freePages_run (i := r) (n := 5) (by
    intro f inside
    exact Finset.mem_union_left _ (Finset.mem_union_right _ inside))
  have stack : Finset.Ico s (s + 8) ⊆ (held ∪ Finset.Ico r (r + 5) ∪ Finset.Ico s (s + 8)) \ Finset.Ico r (r + 5) := by
    intro f inside
    refine Finset.mem_sdiff.mpr ⟨Finset.mem_union_right _ inside, fun task => ?_⟩
    exact apart f (Finset.mem_union_right _ task) inside
  obtain ⟨counts₂, done₂, wf₂⟩ := wf₁.freePages_run (i := s) (n := 8) stack
  have rest : ((held ∪ Finset.Ico r (r + 5) ∪ Finset.Ico s (s + 8)) \ Finset.Ico r (r + 5)) \ Finset.Ico s (s + 8) =
      held := by
    ext f
    rw [Finset.mem_sdiff, Finset.mem_sdiff, Finset.mem_union, Finset.mem_union]
    constructor
    · intro ⟨⟨isIn, notTask⟩, notStack⟩
      exact (isIn.resolve_right notStack).resolve_right notTask
    · intro isIn
      exact ⟨⟨.inl (.inl isIn), apart' f isIn⟩, apart f (Finset.mem_union_left _ isIn)⟩
  rw [rest] at wf₂
  have inside : nr < 1 + (nrTasks - 1) := by
    have := slot.2
    omega
  rw [← bottom] at done₂
  obtain ⟨k₃, done, memory⟩ := releaseFrom_slot here done₁ done₂ slot.1 inside first
  refine ⟨k₃, counts₂, ?_, memory, memory ▸ wf₂⟩
  rw [release, if_neg (frameAddr_ne_zero bound)]
  exact done

/-- A child that has just been made in slot `nr`, with its structure in frame `r` and its stack in frame `s`. -/
structure NewChild (pool : Pool) (dirs : Finset Word) (held : Finset Nat) (k k₁ : Process) (nr r s : Nat) : Prop where
  first : 0 < r
  room : r + 5 ≤ pagingPages
  free : IsFreeRun k.memory.memMap 5 r
  apart : ∀ f, f ∈ held ∪ Finset.Ico r (r + 5) → f ∉ Finset.Ico s (s + 8)
  own : frameAddr r ≠ k.current
  tasks : ∀ i, i < nrTasks → k.task i ≠ frameAddr r
  forked : Forked k k₁ nr (frameAddr r)
  table : (k₁.structs (frameAddr r)).pageDirTable = frameAddr (r + 1)
  bottom : k₁.kernelStackbottom nr = frameAddr s
  wf : Wf pool (insert (frameAddr (r + 1)) dirs) (held ∪ Finset.Ico r (r + 5) ∪ Finset.Ico s (s + 8)) k₁.memory

theorem newChild_of_fork (inv : ProcessWf pool dirs held k) (caller : Parent pool held k nr parent)
    (run : copyProcess k nr = .ok (k.lastPid, k₁)) :
    ∃ r s m₄, NewChild pool dirs held k k₁ nr r s ∧ (getFreePages k.memory 5).1 = frameAddr r ∧
      frameAddr (r + 1) ∉ dirs ∧ Prepared dirs r s k.memory m₄ ∧
      (k₁.memory.tableOf (frameAddr (r + 1), 0) = none ↔ k.memory.tableOf (k.memory.pageDirTable, 0) = none) ∧
      SlotsCopied (insert (frameAddr (r + 1)) dirs) k.memory.pageDirTable 0 (frameAddr (r + 1)) 0 1 m₄ k₁.memory := by
  obtain ⟨r, first, room, free, found, tasks⟩ := new_task inv caller run
  have own : (getFreePages k.memory 5).1 ≠ k.current := by
    rw [found, ← caller.own.2]
    exact (tasks parent caller.own.1).symm
  have forked := copyProcess_forked caller.fresh.1 run own
  have outcome := copyProcess_outcome inv nr
  rw [run] at outcome
  rw [found] at forked own
  generalize result : (Except.ok (k.lastPid, k₁) : Except (Stop Memory) (Int × Process)) = res at outcome
  have failed : ∀ k'', (Except.ok (k.lastPid, k₁) : Except (Stop Memory) (Int × Process)) ≠ .ok (-eagain, k'') := by
    intro k'' same
    have code : k.lastPid = -eagain := congrArg Prod.fst (Except.ok.inj same)
    have := caller.fresh.1
    simp only [eagain] at code
    omega
  cases outcome with
  | noTask => exact absurd result (failed _)
  | noStack => exact absurd result (failed _)
  | noTable => exact absurd result (failed _)
  | @done k'' r' s m₄ _ room' new prepared task table bottom apart slot copied wf =>
    obtain rfl : k₁ = k'' := congrArg Prod.snd (Except.ok.inj result)
    obtain rfl : r = r' := by
      have same : frameAddr r = frameAddr r' := by rw [← task, forked.task, Function.update_self]
      have value := congrArg BitVec.toNat same
      rw [toNat_frameAddr (by omega), toNat_frameAddr (by omega)] at value
      omega
    exact ⟨r, s, m₄, ⟨first, room, free, apart, own, tasks, forked, table, bottom, wf⟩, found, new, prepared, slot, copied⟩

namespace NewChild

variable {r s : Nat}

theorem task (child : NewChild pool dirs held k k₁ nr r s) : k₁.task nr = frameAddr r := by
  rw [child.forked.task, Function.update_self]

/-- The child runs in its own directory. -/
theorem switched (child : NewChild pool dirs held k k₁ nr r s) : switchTo k₁ nr = { k₁ with
    current := frameAddr r
    memory := setPageDir k₁.memory (frameAddr (r + 1)) } := by
  have away : k₁.current ≠ k₁.task nr := by
    rw [child.forked.current, child.task]
    exact child.own.symm
  rw [switchTo_of_ne away, child.task, child.table]

theorem parent_kept (child : NewChild pool dirs held k k₁ nr r s) : k₁.structs k.current = k.structs k.current :=
  child.forked.others _ child.own.symm

theorem parent_task (child : NewChild pool dirs held k k₁ nr r s) (caller : Parent pool held k nr parent) :
    k₁.task parent = k.current := by
  have other : parent ≠ nr := by
    rintro rfl
    exact caller.current (caller.own.2.symm.trans caller.free)
  rw [child.forked.task, Function.update_of_ne other, caller.own.2]

/-- The child exits. -/
theorem exits (child : NewChild pool dirs held k k₁ nr r s) (caller : Parent pool held k nr parent)
    (iputLast : Process → Nat → Except (Stop Memory) Process) (code : BitVec 32) :
    ∃ k₂ m', doExit iputLast (switchTo k₁ nr) code = .ok k₂ ∧ SameTasks ((switchTo k₁ nr).setMemory m') k₂ ∧
      Wf pool (insert (frameAddr (r + 1)) dirs) (held ∪ Finset.Ico r (r + 5) ∪ Finset.Ico s (s + 8)) m' ∧
      SlotsFreed (insert (frameAddr (r + 1)) dirs) (frameAddr (r + 1)) (getPageDirId (frameAddr (r + 1))) 1
        (setPageDir k₁.memory (frameAddr (r + 1))) m' := by
  have room := child.room
  have forked := child.forked
  obtain ⟨many, shared⟩ := forked_shared caller forked
  have wf := child.wf.switch (Finset.mem_insert_self (frameAddr (r + 1)) dirs)
  rw [child.switched]
  generalize setUp : ({ k₁ with
    current := frameAddr r
    memory := setPageDir k₁.memory (frameAddr (r + 1)) } : Process) = c
  have current : c.current = frameAddr r := by rw [← setUp]
  have memory : c.memory = setPageDir k₁.memory (frameAddr (r + 1)) := by rw [← setUp]
  have structs : c.structs = k₁.structs := by rw [← setUp]
  have task : c.task = k₁.task := by rw [← setUp]
  have fCount : c.fCount = k₁.fCount := by rw [← setUp]
  have iCount : c.iCount = k₁.iCount := by rw [← setUp]
  have own : c.structs c.current = k₁.structs (frameAddr r) := by rw [structs, current]
  rw [← memory] at wf ⊢
  have exit := exitMemory_freed wf
  rw [own, child.table] at exit
  obtain ⟨m', freed, wf', slots⟩ := exit (by rw [memory]; rfl) (frameAddr_ne_zero (by omega))
    (alignTest4KB_frameAddr (by omega))
  have exited := doExit_shared (k := c) iputLast freed
  rw [own, fCount, iCount, task, structs] at exited
  obtain ⟨k₂, done, same⟩ := exited many shared forked.leader caller.own.1
    (by rw [child.parent_task caller]; exact caller.current)
    (by rw [child.parent_task caller, child.parent_kept, forked.father])
    (by rw [forked.father]; exact caller.pid)
    (by rw [forked.father, forked.pid]; exact caller.fresh.2) code
  exact ⟨k₂, m', done, same, wf', slots⟩

/-- The parent gives the child up. -/
theorem reaped (child : NewChild pool dirs held k k₁ nr r s) (inv : ProcessWf pool dirs held k)
    (caller : Parent pool held k nr parent) {k₂ : Process} {m' : Memory}
    (same : SameTasks ((switchTo k₁ nr).setMemory m') k₂)
    (wf : Wf pool (insert (frameAddr (r + 1)) dirs) (held ∪ Finset.Ico r (r + 5) ∪ Finset.Ico s (s + 8)) m') :
    ∃ k₃, release (addChildTimes (switchTo k₂ parent) (frameAddr r)) (frameAddr r) = .ok k₃ ∧
      k₃.memory.phys = m'.phys ∧ k₃.memory.dirs = m'.dirs ∧ Wf pool (insert (frameAddr (r + 1)) dirs) held k₃.memory := by
  have room := child.room
  rw [child.switched] at same
  have task : k₂.task = k₁.task := same.task
  have bottoms : k₂.kernelStackbottom = k₁.kernelStackbottom := same.bottoms
  have current : k₂.current = frameAddr r := same.current
  have away : k₂.current ≠ k₂.task parent := by
    rw [current, task, child.parent_task caller]
    exact child.own
  have dir : (k₂.structs k.current).pageDirTable = k.memory.pageDirTable := by
    rw [same.table, inv.currentDir]
    exact congrArg Task.pageDirTable child.parent_kept
  have memory : (addChildTimes (switchTo k₂ parent) (frameAddr r)).memory = setPageDir m' k.memory.pageDirTable := by
    change (switchTo k₂ parent).memory = _
    rw [switchTo_of_ne away, task, child.parent_task caller, dir, same.memory]
    rfl
  have wf' := wf.switch (Finset.mem_insert_of_mem (a := k.memory.pageDirTable) inv.wf.current)
  rw [← memory] at wf'
  have rest : (addChildTimes (switchTo k₂ parent) (frameAddr r)).task = k₂.task ∧
      (addChildTimes (switchTo k₂ parent) (frameAddr r)).kernelStackbottom = k₂.kernelStackbottom := by
    rw [switchTo_of_ne away]
    exact ⟨rfl, rfl⟩
  obtain ⟨k₃, counts, done, memory₃, wf₃⟩ := release_run caller.slot wf' child.apart
    (free_not_held inv.wf child.first room child.free) (by rw [rest.1, task, child.task]) (by omega)
    (by rw [rest.2, bottoms, child.bottom]) (by
      intro i above below
      rw [rest.1, task, child.forked.task, Function.update_of_ne (by omega)]
      have := caller.slot
      exact child.tasks i (by omega))
  refine ⟨k₃, done, ?_, ?_, wf₃⟩
  · rw [memory₃, memory]
    rfl
  · rw [memory₃, memory]
    rfl

end NewChild

/-- A fork, the child's exit and the parent's wait for it leave the counters as they were exactly when
    the parent had no page table in slot 0, the one that `copy_mem` copies, or the child's directory lies
    where its own address selects slot 0. -/
theorem fork_exit_wait (inv : ProcessWf pool dirs held k) (caller : Parent pool held k nr parent)
    (run : copyProcess k nr = .ok (k.lastPid, k₁)) (iputLast : Process → Nat → Except (Stop Memory) Process)
    (code : BitVec 32) :
    ∃ k', forkExitWait iputLast k nr parent code = .ok k' ∧
      ((∀ f, k'.memory.memMap f = k.memory.memMap f) ↔
        k.memory.tableOf (k.memory.pageDirTable, 0) = none ∨
          getPageDirId ((getFreePages k.memory 5).1 + pageSize) = 0) := by
  obtain ⟨r, s, m₄, child, found, new, prepared, slot, copied⟩ := newChild_of_fork inv caller run
  have room := child.room
  obtain ⟨k₂, m', exited, same, wf, freed⟩ := child.exits caller iputLast code
  obtain ⟨k₃, released, phys, directories, wf₃⟩ := child.reaped inv caller same wf
  obtain ⟨leaves, tables⟩ := old_directories_kept prepared new copied freed
  have empty := new_directory_empty_iff prepared copied freed
  have tableOf : ∀ x, k₃.memory.tableOf x = m'.tableOf x := by
    intro x
    simp only [Memory.tableOf, directories]
  have leafTarget : ∀ x, k₃.memory.view.leafTarget x = m'.view.leafTarget x := by
    intro x
    simp only [View.leafTarget, Memory.view, Memory.leafOf, tableOf, phys]
  refine ⟨k₃, ?_, ?_⟩
  · rw [forkExitWait, bind_ok run]
    dsimp only
    rw [bind_ok exited, child.task]
    exact released
  · rw [counters_same_iff inv.wf wf₃ new (fun x hx => (leafTarget x).trans (leaves x hx))
      (fun x hx => (tableOf x).trans (tables x hx)), found, frameAddr_succ (by omega), ← slot, ← empty]
    simp only [tableOf]

/-- What `do_exit` gives back of a task's memory, and when a child that was forked, exited and was
    waited for has left the counters as they were. The page that `waitpid` stores the status in is present, so that
    `verify_area` and `put_fs_long` take no frame and are left out. -/
theorem exit_returns_memory_iff (pool : Pool) (dirs : Finset Word) (held : Finset Nat)
    (iputLast : Process → Nat → Except (Stop Memory) Process) (code : BitVec 32) :
    (∀ k : Process, Wf pool dirs held k.memory → k.memory.pageDirTable = (k.structs k.current).pageDirTable →
      (k.structs k.current).pageDirTable ≠ 0 → alignTest4KB (k.structs k.current).pageDirTable = false →
      ∃ m', exitMemory k = .ok m' ∧ (MemoryReturned (k.structs k.current).pageDirTable k.memory m' ↔
        ∀ i, i < pageDirTableNum → k.memory.tableOf ((k.structs k.current).pageDirTable, i) ≠ none →
          i = getPageDirId (k.structs k.current).pageDirTable)) ∧
    ∀ (k k₁ : Process) (nr parent : Nat), ProcessWf pool dirs held k → Parent pool held k nr parent →
      copyProcess k nr = .ok (k.lastPid, k₁) →
      ∃ k', forkExitWait iputLast k nr parent code = .ok k' ∧
        ((∀ f, k'.memory.memMap f = k.memory.memMap f) ↔
          k.memory.tableOf (k.memory.pageDirTable, 0) = none ∨
            getPageDirId ((getFreePages k.memory 5).1 + pageSize) = 0) :=
  ⟨fun _ wf currentDir nonzero aligned => exit_returns_iff wf currentDir nonzero aligned,
    fun _ _ _ _ inv caller run => fork_exit_wait inv caller run iputLast code⟩

end Reap

section Example

/-- The tasks as task 1, with the next number free. -/
def asInit (k : Process) : Process :=
  { k with
    structs := fun _ => { sampleTask 0x4000000 with pid := 1 }
    lastPid := 2 }

/-- Task 1 in slot 0, with one page of arguments. -/
def parentProcess : Process := asInit execProcess

theorem asInit_wf {k : Process} (inv : ProcessWf bootPool {parentDir} ∅ k) (dir : k.memory.pageDirTable = parentDir) :
    ProcessWf bootPool {parentDir} ∅ (asInit k) :=
  ⟨inv.wf, inv.few, inv.dirsHeld, dir, rfl, .inl rfl⟩

theorem sampleProcess_task (m : Memory) (limit : Word) (i : Nat) :
    (sampleProcess m limit).task i = if i = 0 then 0x80708000 else 0 := rfl

theorem asInit_memory (k : Process) : (asInit k).memory = k.memory := rfl

theorem asInit_task (k : Process) : (asInit k).task = k.task := rfl

theorem parentProcess_wf : ProcessWf bootPool {parentDir} ∅ parentProcess :=
  asInit_wf execProcess_wf execProcess_wf.currentDir

theorem named_none (f n : Nat) : named (fun _ => none) f n = 0 := by
  induction n with
  | zero => rfl
  | succ n ih =>
    rw [named, ih, if_neg (fun absent => by cases absent)]

theorem parentProcess_parent : Parent bootPool ∅ parentProcess 1 0 := by
  refine ⟨by decide, rfl, ⟨by decide, rfl⟩, by decide, ?_, by decide, by decide, ?_, ?_⟩
  · intro i f slot has same
    have value := toNat_frameAddr has.lt
    have below := has.2.2
    rw [bootPool_last] at below
    rw [parentProcess, asInit_task, execProcess, sampleProcess_task] at same
    split at same
    · rw [← same, show (0x80708000 : Word).toNat = 0x80708000 from rfl] at value
      omega
    · rw [← same, show (0 : Word).toNat = 0 from rfl] at value
      omega
  · intro f some
    change 0 < named (fun _ => none) f nrOpen at some
    rw [named_none] at some
    exact absurd some (Nat.lt_irrefl 0)
  · intro i some
    exact absurd some (Nat.lt_irrefl 0)

theorem parentProcess_forks : ∃ k₁, copyProcess parentProcess 1 = .ok (parentProcess.lastPid, k₁) := by
  have task := execProcess_maps
  rw [← execProcess_memory, ← asInit_memory] at task
  exact fork_runs parentProcess_wf task (by decide)

theorem sampleProcess_dir (m : Memory) (limit : Word) :
    ((sampleProcess m limit).structs (sampleProcess m limit).current).pageDirTable = parentDir := rfl

theorem execProcess_dir : (execProcess.structs execProcess.current).pageDirTable = parentDir := sampleProcess_dir _ _

theorem execProcess_owns : (execProcess.structs execProcess.current).pageDirTable ≠ 0 ∧
    alignTest4KB (execProcess.structs execProcess.current).pageDirTable = false := by
  rw [execProcess_dir]
  decide

theorem exec_exit_and_wait :
    (∃ m', exitMemory execProcess = .ok m' ∧
      (MemoryReturned (execProcess.structs execProcess.current).pageDirTable execProcess.memory m' ↔
        ∀ i, i < pageDirTableNum →
          execProcess.memory.tableOf ((execProcess.structs execProcess.current).pageDirTable, i) ≠ none →
            i = getPageDirId (execProcess.structs execProcess.current).pageDirTable)) ∧
    ∃ k', forkExitWait (fun k _ => .ok k) parentProcess 1 0 0 = .ok k' ∧
      ((∀ f, k'.memory.memMap f = parentProcess.memory.memMap f) ↔
        parentProcess.memory.tableOf (parentProcess.memory.pageDirTable, 0) = none ∨
          getPageDirId ((getFreePages parentProcess.memory 5).1 + pageSize) = 0) := by
  obtain ⟨k₁, run⟩ := parentProcess_forks
  have both := exit_returns_memory_iff bootPool {parentDir} ∅ (fun k _ => .ok k) 0
  exact ⟨both.1 execProcess execProcess_wf.wf execProcess_wf.currentDir execProcess_owns.1 execProcess_owns.2,
    both.2 parentProcess k₁ 1 0 parentProcess_wf parentProcess_parent run⟩

/-- The page of arguments is not given back. -/
theorem argument_page_kept : ∃ m', exitMemory execProcess = .ok m' ∧ ¬ MemoryReturned parentDir execProcess.memory m' := by
  have exit := exit_returns_iff execProcess_wf.wf execProcess_wf.currentDir execProcess_owns.1 execProcess_owns.2
  rw [execProcess_dir] at exit
  obtain ⟨m', done, iff⟩ := exit
  refine ⟨m', done, fun returned => ?_⟩
  have mapped := mapped_of_mapsOne execProcess_maps
  rw [execProcess_maps.current] at mapped
  have only := iff.mp returned (getPageDirId 0xC3FFF000) (by decide) (by
    intro absent
    rw [execProcess_memory] at absent
    exact mapped (leafOf_of_absent absent _))
  exact absurd only (by decide)

end Example

end K210Linux.Kernel
