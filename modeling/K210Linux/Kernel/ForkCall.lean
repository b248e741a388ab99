import K210Linux.Kernel.Pids
import K210Linux.Kernel.SystemCall

/-! `sys_fork`, from its entry to its return. -/

namespace K210Linux.Kernel

open K210Linux.Lib.Riscv

/-- Where the linker puts `sys_fork` and the functions it calls. -/
structure ForkSymbols where
  place : Nat → Word
  findEmptyProcess : Word
  copyProcess : Word

/-- `sys_fork`; the label is the `ret`. -/
def forkProgram (L : ForkSymbols) : List Instr :=
  [ .addi .sp .sp (-regBytes), .sd .ra 0 .sp, .call L.findEmptyProcess, .bltz .a0 (L.place 7),
    .call L.copyProcess, .ld .ra 0 .sp, .addi .sp .sp regBytes, .ret ]

structure ForkLinked (I : Image) (L : ForkSymbols) : Prop where
  loaded : Loaded I L.place (forkProgram L)
  even : ∀ i, jumpTarget (L.place i) = L.place i
  findEmptyProcess : I.code L.findEmptyProcess = none
  copyProcess : I.code L.copyProcess = none

/-- An address that `sys_fork` returns to, outside of it. -/
structure ForkReturnsTo (L : ForkSymbols) (stop : Word) : Prop where
  place : ∀ i < (forkProgram L).length, L.place i ≠ stop
  findEmptyProcess : L.findEmptyProcess ≠ stop
  copyProcess : L.copyProcess ≠ stop

/-- The compiled `find_empty_process` does what the function does to the table of tasks in memory. It ends in `ret`, so
    its return address is in `ra` afterwards. -/
def FindsSlot (I : Image) (L : ForkSymbols) (table : Machine → TaskTable) : Prop :=
  ∀ m value t', findEmptyProcess (table m) = some (value, t') → ∃ m', I.function L.findEmptyProcess m = some m' ∧
    Returned 1 m m' ∧ m'.reg .a0 = BitVec.ofInt 64 value ∧ m'.reg .ra = m.reg .ra

/-- `copy_process` returns, with any result. -/
def CopyReturns (I : Image) (L : ForkSymbols) : Prop := ∀ m, ∃ m', I.function L.copyProcess m = some m' ∧ Returned 1 m m'

/-- The caller of `sys_fork` provides a doubleword of stack apart from the table of tasks. -/
structure ForkEntry (table : Machine → TaskTable) (m : Machine) : Prop where
  aligned : Aligned (m.reg .sp)
  low : 0 ≤ (table m).lastPid
  high : (table m).lastPid ≤ maxPid
  apart : ∀ h : Machine, (∀ a, a ≠ m.reg .sp + -regBytes → h.mem a = m.mem a) → table h = table m

def SlotFree (t : TaskTable) : Prop := ∃ i, 1 ≤ i ∧ i < nrTasks ∧ t.task i = none

/-- `sys_fork` returns to its caller with its stack pointer, and with -EAGAIN or the result of `copy_process`. -/
def ForkReturns (I : Image) (L : ForkSymbols) (table : Machine → TaskTable) (m : Machine) : Prop :=
  ∃ calls m', Ends I (jumpTarget (m.reg .ra)) (L.place 0, m) calls (jumpTarget (m.reg .ra), m') ∧ m'.reg .sp = m.reg .sp ∧
    (¬ SlotFree (table m) → m'.reg .a0 = BitVec.ofInt 64 (-eagain)) ∧
    (SlotFree (table m) → ∃ h m₁, (L.copyProcess, h) ∈ calls ∧ I.function L.copyProcess h = some m₁ ∧ m'.reg .a0 = m₁.reg .a0)

variable {I : Image} {L : ForkSymbols} {table : Machine → TaskTable} {m : Machine} {stop : Word}

/-- Up to the branch, with the result of `find_empty_process`. -/
theorem slot_searched (linked : ForkLinked I L) (off : ForkReturnsTo L stop) (finds : FindsSlot I L table) (entry : ForkEntry table m) :
    ∃ value t' calls m', Leads I stop (L.place 0, m) calls (L.place 3, m') ∧ Found (table m) value t' ∧
      m'.reg .a0 = BitVec.ofInt 64 value ∧ m'.reg .ra = L.place 3 ∧ m'.reg .sp = m.reg .sp + -regBytes ∧
      m'.mem (m'.reg .sp) = m.reg .ra := by
  have aligned : Aligned (m.reg .sp + -regBytes) := entry.aligned.add (by decide)
  have done : effects [.addi .sp .sp (-regBytes), .sd .ra 0 .sp] m =
      some ((m.set .sp (m.reg .sp + -regBytes)).write (m.reg .sp + -regBytes) ((m.set .sp (m.reg .sp + -regBytes)).reg .ra)) :=
    effects_cons rfl (effects_cons (effect_sd (BitVec.add_zero _) aligned) rfl)
  rw [Machine.set_other (by decide)] at done
  generalize pushed : (m.set .sp (m.reg .sp + -regBytes)).write (m.reg .sp + -regBytes) (m.reg .ra) = m₁ at done
  have sp : m₁.reg .sp = m.reg .sp + -regBytes := by
    rw [← pushed, Machine.write_reg, Machine.set_same]
  have saved : m₁.mem (m.reg .sp + -regBytes) = m.reg .ra := by
    rw [← pushed, Machine.write_same]
  have first := Leads.straight (i := 0) linked.loaded off.place done ⟨_, rfl⟩
  have called := Leads.jump (i := 2) (m := m₁) linked.loaded off.place rfl rfl
  have same : table (m₁.set .ra (L.place 3)) = table m := by
    apply entry.apart
    intro a other
    rw [Machine.set_mem, ← pushed, Machine.write_other other, Machine.set_mem]
  rcases findEmptyProcess_spec entry.low entry.high with ⟨value, t', run, found⟩
  rw [← same] at run
  rcases finds _ value t' run with ⟨m₂, returns, returned, a0, ra⟩
  have back := Leads.function off.findEmptyProcess linked.findEmptyProcess returns
  rw [Machine.set_same] at back ra
  rw [linked.even] at back
  have sp₂ : m₂.reg .sp = m.reg .sp + -regBytes := by
    rw [returned.saved .sp rfl, Machine.set_other (by decide), sp]
  refine ⟨value, t', _, m₂, first.trans (called.trans back), found, a0, ra, sp₂, ?_⟩
  have kept := returned.frame 0 (by decide)
  rw [Nat.mul_zero, BitVec.add_zero, Machine.set_other (by decide), sp, Machine.set_mem, saved] at kept
  rw [sp₂, kept]

/-- Without a free slot, the branch goes to the `ret` and the `ret` to the branch. -/
theorem full_table_loops (linked : ForkLinked I L) (off : ForkReturnsTo L (jumpTarget (m.reg .ra))) (finds : FindsSlot I L table)
    (entry : ForkEntry table m) (full : ¬ SlotFree (table m)) : ¬ ForkReturns I L table m := by
  rintro ⟨calls, m', ends, -⟩
  rcases slot_searched linked off finds entry with ⟨value, t', calls₁, m₁, leads, found, a0, ra, -⟩
  have refused : value = -eagain := by
    rcases found.slot with ⟨i, -, low, high, free, -⟩ | ⟨refused, -⟩
    · exact absurd ⟨i, low, high, free⟩ full
    · exact refused
  have negative : (m₁.reg .a0).toInt < 0 := by
    rw [a0, refused]
    decide
  have branch : step I (L.place 3, m₁) = some ((L.place 7, m₁), []) := by
    have done : (Instr.bltz .a0 (L.place 7)).exec (L.place 4) m₁ = some (L.place 7, m₁) := by
      rw [Instr.exec, if_pos negative]
    exact step_instr linked.loaded rfl done
  have back : step I (L.place 7, m₁) = some ((L.place 3, m₁), []) := by
    have done : Instr.ret.exec (L.place 8) m₁ = some (L.place 3, m₁) := by
      rw [Instr.exec, ra, linked.even]
    exact step_instr linked.loaded rfl done
  rcases ends.from leads with ⟨rest, -, loops⟩
  exact loops.off_cycle branch back (off.place 3 (Nat.lt_of_sub_eq_succ rfl)) (off.place 7 (Nat.lt_of_sub_eq_succ rfl)) rfl

theorem free_slot_returns (linked : ForkLinked I L) (off : ForkReturnsTo L (jumpTarget (m.reg .ra))) (finds : FindsSlot I L table)
    (copies : CopyReturns I L) (entry : ForkEntry table m) (free : SlotFree (table m)) : ForkReturns I L table m := by
  rcases slot_searched linked off finds entry with ⟨value, t', calls, m₁, leads, found, a0, -, sp₁, saved₁⟩
  have slot : ∃ i : Nat, value = i ∧ i < nrTasks := by
    rcases found.slot with ⟨i, here, -, high, -⟩ | ⟨-, full⟩
    · exact ⟨i, here, high⟩
    · rcases free with ⟨i, low, high, none⟩
      exact absurd none (full i low high)
  have found_slot : ¬ (m₁.reg .a0).toInt < 0 := by
    rcases slot with ⟨i, rfl, high⟩
    have sixtyFour : nrTasks = 64 := rfl
    rw [a0, BitVec.toInt_ofInt, Int.bmod_def]
    split <;> omega
  have branch : (Instr.bltz .a0 (L.place 7)).exec (L.place 4) m₁ = some (L.place 4, m₁) := by
    rw [Instr.exec, if_neg found_slot]
  have through := Leads.jump (i := 3) linked.loaded off.place rfl branch
  have called := Leads.jump (i := 4) (m := m₁) linked.loaded off.place rfl rfl
  rcases copies (m₁.set .ra (L.place 5)) with ⟨m₂, returns, returned⟩
  have back := Leads.function off.copyProcess linked.copyProcess returns
  rw [Machine.set_same, linked.even] at back
  have sp₂ : m₂.reg .sp = m.reg .sp + -regBytes := by
    rw [returned.saved .sp rfl, Machine.set_other (by decide), sp₁]
  have saved₂ : m₂.mem (m₂.reg .sp) = m.reg .ra := by
    have kept := returned.frame 0 (by decide)
    rw [Nat.mul_zero, BitVec.add_zero, Machine.set_other (by decide), Machine.set_mem, saved₁] at kept
    rw [sp₂, ← sp₁, kept]
  have aligned : Aligned (m₂.reg .sp) := by
    rw [sp₂]
    exact entry.aligned.add (by decide)
  have restored : ∃ m₃, effects [.ld .ra 0 .sp, .addi .sp .sp regBytes] m₂ = some m₃ ∧ m₃.reg .ra = m.reg .ra ∧
      m₃.reg .sp = m.reg .sp ∧ m₃.reg .a0 = m₂.reg .a0 := by
    refine ⟨_, effects_cons (effect_ld (BitVec.add_zero _) aligned) (effects_cons rfl rfl), ?_, ?_, ?_⟩
    · simp [saved₂]
    · simp [sp₂, BitVec.add_assoc, BitVec.add_left_neg]
    · simp
  rcases restored with ⟨m₃, done, ra, sp, value₃⟩
  have last := Leads.straight (i := 5) linked.loaded off.place done ⟨_, rfl⟩
  have out := Leads.jump (i := 7) (m := m₃) linked.loaded off.place rfl rfl
  rw [ra] at out
  have whole := leads.trans (through.trans (called.trans (back.trans (last.trans out))))
  refine ⟨_, m₃, whole.ends (.inl rfl), sp, fun full => absurd free full, fun _ => ⟨_, m₂, ?_, returns, value₃⟩⟩
  exact List.mem_append_right _ List.mem_cons_self

/-- `sys_fork` returns exactly if there is a free slot. -/
theorem fork_returns_iff (linked : ForkLinked I L) (off : ForkReturnsTo L (jumpTarget (m.reg .ra))) (finds : FindsSlot I L table)
    (copies : CopyReturns I L) (entry : ForkEntry table m) : ForkReturns I L table m ↔ SlotFree (table m) := by
  constructor
  · intro returns
    by_contra full
    exact full_table_loops linked off finds entry full returns
  · exact free_slot_returns linked off finds copies entry

section Board

/-- `sys_fork` at 2^31, and two functions behind it. -/
def forkBoard : ForkSymbols where
  place := placeFrom 0x80000000
  findEmptyProcess := 0x80001000
  copyProcess := 0x80001100

/-- `find_empty_process` on a table, and a `copy_process` that finds no memory. -/
def forkFunction (t : TaskTable) (f : Word) (m : Machine) : Option Machine :=
  if f = forkBoard.findEmptyProcess then (findEmptyProcess t).map fun r => m.set .a0 (BitVec.ofInt 64 r.1)
  else if f = forkBoard.copyProcess then some (m.set .a0 (BitVec.ofInt 64 (-eagain)))
  else none

def forkImage (t : TaskTable) : Image := Image.of 0x80000000 (forkProgram forkBoard) (forkFunction t)

def forkMachine : Machine where
  reg := fun r =>
    match r with
    | .sp => 0x80007f00
    | .ra => 0x80003000
    | _ => 0
  mem := fun _ => 0

variable (t : TaskTable)

theorem forkBoard_linked : ForkLinked (forkImage t) forkBoard where
  loaded := Image.of_loaded (by rw [forkProgram]; decide)
  even := jumpTarget_placeFrom (by decide)
  findEmptyProcess := Image.of_outside (by decide)
  copyProcess := Image.of_outside (by decide)

theorem forkBoard_off : ForkReturnsTo forkBoard (jumpTarget (forkMachine.reg .ra)) := by
  have target : jumpTarget (forkMachine.reg .ra) = 0x80003000 := jumpTarget_of_even (a := 0x80003000) (by decide)
  rw [target]
  refine ⟨?_, by decide, by decide⟩
  intro i bound
  have eight : (forkProgram forkBoard).length = 8 := rfl
  rw [eight] at bound
  exact placeFrom_ne (Nat.lt_of_lt_of_le bound (by decide))

theorem set_a0_returned (m : Machine) (v : Word) : Returned 1 m (m.set .a0 v) := by
  refine ⟨?_, fun _ _ => rfl⟩
  intro r saved
  refine Machine.set_other ?_
  rintro rfl
  cases saved

theorem forkBoard_finds : FindsSlot (forkImage t) forkBoard fun _ => t := by
  intro m value t' found
  refine ⟨m.set .a0 (BitVec.ofInt 64 value), ?_, set_a0_returned m _, Machine.set_same, Machine.set_other (by decide)⟩
  change forkFunction t forkBoard.findEmptyProcess m = _
  rw [forkFunction, if_pos rfl, found, Option.map_some]

theorem forkBoard_copies : CopyReturns (forkImage t) forkBoard := by
  intro m
  refine ⟨m.set .a0 (BitVec.ofInt 64 (-eagain)), ?_, set_a0_returned m _⟩
  have other : forkBoard.copyProcess ≠ forkBoard.findEmptyProcess := by decide
  change forkFunction t forkBoard.copyProcess m = _
  rw [forkFunction, if_neg other, if_pos rfl]

theorem forkBoard_entry (low : 0 ≤ t.lastPid) (high : t.lastPid ≤ maxPid) : ForkEntry (fun _ => t) forkMachine :=
  ⟨by decide, low, high, fun _ _ => rfl⟩

/-- Task 0 alone forks, without memory for another task. -/
theorem alone_fork_returns :
    ForkReturns (forkImage ⟨fun i => if i = 0 then some initTask else none, 0, 0, 0⟩) forkBoard
      (fun _ => ⟨fun i => if i = 0 then some initTask else none, 0, 0, 0⟩) forkMachine :=
  (fork_returns_iff (forkBoard_linked _) forkBoard_off (forkBoard_finds _) (forkBoard_copies _)
    (forkBoard_entry _ (by decide) (by decide))).mpr ⟨1, by decide, by decide, rfl⟩

/-- All slots are taken. -/
theorem full_fork_loops :
    ¬ ForkReturns (forkImage ⟨fun i => some { initTask with pid := i }, 0, 63, 0⟩) forkBoard
      (fun _ => ⟨fun i => some { initTask with pid := i }, 0, 63, 0⟩) forkMachine := by
  refine full_table_loops (forkBoard_linked _) forkBoard_off (forkBoard_finds _) (forkBoard_entry _ (by decide) (by decide)) ?_
  rintro ⟨i, -, -, free⟩
  cases free

end Board

end K210Linux.Kernel
