import K210Linux.Kernel.ForkContract
import K210Linux.Kernel.UserFault

namespace K210Linux.Kernel

open K210Linux.Mm

/-- The page is mapped by the current task as it is by task `p`, write-protected in both, and nothing
    else changed but the counter of its frame. -/
structure SharedWith (k : Process) (address p : Word) (m m' : Memory) : Prop where
  other : p ≠ 0 ∧ p ≠ k.current
  mapped : ∃ e e' f, m'.leafOf ((k.structs p).pageDirTable, getPageDirId address, getPageEntryId address) = some e ∧
    m'.leafOf (k.slotOf address) = some e' ∧ Pte.w e = false ∧ Pte.w e' = false ∧
    pageTarget e = framePage f ∧ pageTarget e' = framePage f ∧ (m'.memMap f).toNat = (m.memMap f).toNat + 1
  others : ∀ s, s ≠ k.slotOf address → s ≠ ((k.structs p).pageDirTable, getPageDirId address, getPageEntryId address) →
    m'.leafOf s = m.leafOf s

section Share

variable {k : Process} {m m' : Memory} {address : Word}

theorem missing_of_shared (shared : sharePage k m address = .ok (true, m')) : m'.leafOf (k.slotOf address) = none := by
  rcases sharePage_report shared with ⟨no, _⟩ | ⟨_, _, none⟩
  · cases no
  · exact none

theorem not_shared_of_missing (missing : m'.leafOf (k.slotOf address) = none) : ¬ ∃ p, SharedWith k address p m m' := by
  rintro ⟨p, good⟩
  obtain ⟨e, e', f, _, leaf, _⟩ := good.mapped
  rw [missing] at leaf
  cases leaf

/-- Whenever `share_page` returns 1 the page is not mapped. -/
theorem sharePage_not_mapped (shared : sharePage k m address = .ok (true, m')) :
    m'.leafOf (k.slotOf address) = none ∧ ¬ ∃ p, SharedWith k address p m m' :=
  ⟨missing_of_shared shared, not_shared_of_missing (missing_of_shared shared)⟩

end Share

section Example

/-- Frame 2 holds the page table of the other task, frame 3 its only page. -/
def loadedMemory : Memory where
  memMap := fun i => if i = 2 ∨ i = 3 then 1 else 0
  phys := fun page nr => if page = framePage 2 ∧ nr = 0 then
      pteCommonEnableEntry (pteCommonSetAccessibility (pteCommonAddrToPpn 0 (frameAddr 3)) .readexecute) else 0
  dirs := fun dir id => if dir = childDir ∧ id = 0 then pteCommonEnableEntry (pteCommonAddrToPpn 0 (frameAddr 2)) else 0
  pageDirTable := parentDir
  pageRootTable := fun _ => 0
  highMemory := 0x81000000

/-- Two tasks with the same binary. Only the other one has its first page loaded. -/
def twoTasks : Process :=
  let program := { sampleTask 0x4000000 with executable := some 1, endData := userStartAddr + 4096 }
  { sampleProcess loadedMemory 0x4000000 with
    structs := fun p => if p = 0x80708000 then program else { program with pageDirTable := childDir }
    task := fun i => if i = 0 then 0x80708000 else if i = 1 then 0x80718000 else 0
    iCount := fun _ => 2 }

theorem twoTasks_share : ∃ m₁ m₂, sharePage twoTasks loadedMemory userStartAddr = .ok (true, m₁) ∧
    sharePage twoTasks m₁ userStartAddr = .ok (true, m₂) ∧ m₁.memMap 3 = 2 ∧ m₂.memMap 3 = 3 := by
  have runs : (do
      let first ← sharePage twoTasks loadedMemory userStartAddr
      let second ← sharePage twoTasks first.2 userStartAddr
      pure (first.1, second.1, first.2.memMap 3, second.2.memMap 3)).toOption = some (true, true, 2, 3) := by
    decide +kernel
  cases first : sharePage twoTasks loadedMemory userStartAddr with
  | error stop =>
    rw [first] at runs
    cases runs
  | ok result =>
    obtain ⟨one, m₁⟩ := result
    rw [first] at runs
    simp only [Bind.bind, Except.bind] at runs
    cases second : sharePage twoTasks m₁ userStartAddr with
    | error stop =>
      rw [second] at runs
      cases runs
    | ok result =>
      obtain ⟨two, m₂⟩ := result
      rw [second] at runs
      have values := Option.some.inj runs
      simp only [Prod.mk.injEq] at values
      obtain ⟨rfl, rfl, count, again⟩ := values
      exact ⟨m₁, m₂, rfl, second, count, again⟩

/-- Each of two faults on the page raises its counter, and the page is still not there. -/
theorem faults_raise_counter : ∃ m₁ m₂, sharePage twoTasks loadedMemory userStartAddr = .ok (true, m₁) ∧
    sharePage twoTasks m₁ userStartAddr = .ok (true, m₂) ∧ m₁.memMap 3 = 2 ∧ m₂.memMap 3 = 3 ∧
    ¬ ∃ p, SharedWith twoTasks userStartAddr p loadedMemory m₁ := by
  obtain ⟨m₁, m₂, first, second, count, again⟩ := twoTasks_share
  exact ⟨m₁, m₂, first, second, count, again, not_shared_of_missing (missing_of_shared first)⟩

theorem twoTasks_not_mapped : ∃ m₁, sharePage twoTasks loadedMemory userStartAddr = .ok (true, m₁) ∧
    m₁.leafOf (twoTasks.slotOf userStartAddr) = none := by
  obtain ⟨m₁, _, first, _⟩ := twoTasks_share
  exact ⟨m₁, first, (sharePage_not_mapped first).1⟩

end Example

end K210Linux.Kernel
