import K210Linux.Kernel.SystemCall
import K210Linux.Lib.RiscvFloat

/-! `switch_to_tss`: the registers of one task go to its kernel stack, and those of another one come from there. -/

namespace K210Linux.Kernel

open K210Linux.Lib.Riscv

def savedRegs : List Reg :=
  [.ra, .sp, .gp, .tp, .t0, .t1, .t2, .s0, .s1, .a0, .a1, .a2, .a3, .a4, .a5, .a6, .a7,
    .s2, .s3, .s4, .s5, .s6, .s7, .s8, .s9, .s10, .s11, .t3, .t4, .t5, .t6]

def loadedRegs : List Reg := savedRegs.erase .sp

def registerFrame : Word := 64 * regBytes

def saves : List FloatInstr :=
  .plain (.addi .sp .sp (-registerFrame)) :: (savedRegs.map saveReg ++ (List.finRange 32).map saveFloat)

/-- `stack_copy_to_oldtss`, with the place that its branch goes to. -/
def copiesFrame (place : Nat) : List FloatInstr :=
  [ .plain (.mv .t1 .t0), .plain (.slli .t1 .t1 3), .plain (.add .t2 .t1 .a0), .plain (.add .t3 .t1 .sp),
    .plain (.ld .t4 0 .t3), .plain (.sd .t4 0 .t2), .plain (.addi .t0 .t0 (-1)), .bgtz .t0 place ]

def stackUsed (oldKernelStack : Word) : List FloatInstr :=
  [ .plain (.li .t0 oldKernelStack), .plain (.ld .t0 0 .t0), .plain (.sub .t0 .t0 .sp), .plain (.mv .a0 .t0),
    .plain (.li .t1 4096) ]

def handsOver : List FloatInstr :=
  [ .plain (.addi .sp .sp (-regBytes)), .plain (.sd .a1 0 .sp), .plain (.ld .a1 0 .sp), .plain (.addi .sp .sp regBytes),
    .plain (.ld .sp (2 * regBytes) .a1) ]

def loads : List FloatInstr := loadedRegs.map loadReg ++ (List.finRange 32).map loadFloat

/-- Behind the program stands `kernel_stack_overflow`, which does not return. -/
def kernelStackOverflow : Nat := 148

def switchToTss (oldKernelStack : Word) : List FloatInstr :=
  saves ++ .plain (.li .t0 63) :: copiesFrame 65 ++ stackUsed oldKernelStack ++ .bge .t0 .t1 kernelStackOverflow ::
    handsOver ++ loads ++ [.plain (.addi .sp .sp registerFrame), .plain .ret]

/-- The frame that the registers are saved in. -/
def savedFrame (m : FloatMachine) : Word := m.reg .sp + -registerFrame

/-- What `switch_to_tss` is called with: places for the registers apart from one another, room on the stack, and a task
    that gave its registers away before. -/
structure SwitchEntry (oldKernelStack : Word) (m : FloatMachine) : Prop where
  aligned : Aligned (m.reg .sp)
  oldtss : Aligned (m.reg .a0)
  newtss : Aligned (m.reg .a1)
  symbol : Aligned oldKernelStack
  apart : ∀ i < 64, ∀ j < 64, slot (savedFrame m) i ≠ slot (m.reg .a0) j
  below : ∀ j < 64, savedFrame m + -regBytes ≠ slot (m.reg .a0) j
  symbolApart : ∀ i < 64, oldKernelStack ≠ slot (savedFrame m) i ∧ oldKernelStack ≠ slot (m.reg .a0) i
  next : ∀ i < 64, slot (m.reg .a1) 2 ≠ slot (savedFrame m) i ∧ slot (m.reg .a1) 2 ≠ slot (m.reg .a0) i
  nextBelow : slot (m.reg .a1) 2 ≠ savedFrame m + -regBytes
  resumes : Aligned (m.mem (slot (m.reg .a1) 2))

/-- What `switch_to_tss` does. -/
structure Switched (m : FloatMachine) (r : Word × FloatMachine) : Prop where
  others : ∀ a, (∀ i < 64, a ≠ slot (savedFrame m) i) → (∀ i < 64, a ≠ slot (m.reg .a0) i) →
    a ≠ savedFrame m + -regBytes → r.2.mem a = m.mem a
  saved : SavedAt r.2.mem (savedFrame m) m.reg m.freg
  tss : r.2.mem (slot (m.reg .a0) 2) = savedFrame m
  stack : r.2.reg .sp = m.mem (slot (m.reg .a1) 2) + registerFrame
  loaded : SavedAt r.2.mem (m.mem (slot (m.reg .a1) 2)) r.2.reg r.2.freg
  returns : r.1 = jumpTarget (r.2.reg .ra)

section Blocks

variable {m m' : FloatMachine} {program : List FloatInstr}

theorem mem_savedRegs (r : Reg) : r ∈ savedRegs := by
  cases r <;> decide

theorem mem_loadedRegs {r : Reg} (other : r ≠ .sp) : r ∈ loadedRegs :=
  (List.mem_erase_of_ne other).mpr (mem_savedRegs r)

/-- The registers are on the stack, with the stack pointer of the frame in the place of `sp`. -/
structure Pushed (m m' : FloatMachine) : Prop where
  reg : m'.reg = (m.set .sp (savedFrame m)).reg
  freg : m'.freg = m.freg
  saved : SavedAt m'.mem (savedFrame m) m.reg m.freg
  stack : m'.mem (slot (savedFrame m) 2) = savedFrame m
  others : ∀ a, (∀ i < 64, a ≠ slot (savedFrame m) i) → m'.mem a = m.mem a

theorem saves_spec (aligned : Aligned (savedFrame m)) : ∃ m', floatEffects saves m = some m' ∧ Pushed m m' := by
  let m₁ := m.set .sp (savedFrame m)
  have stack : m₁.reg .sp = savedFrame m := FloatMachine.set_same
  rcases saveRegs_spec (m := m₁) (L := savedRegs) (stack ▸ aligned) with ⟨m₂, done, reg, freg, words, others⟩
  have stack₂ : m₂.reg .sp = savedFrame m := by rw [reg, stack]
  rcases saveFloats_spec (m := m₂) (J := List.finRange 32) (stack₂ ▸ aligned) with
    ⟨m₃, done₃, reg₃, freg₃, floats, others₃⟩
  rw [stack] at words others
  rw [stack₂] at floats others₃
  have kept : ∀ r : Reg, m₃.mem (slot (savedFrame m) r.number) = m₁.reg r := by
    intro r
    have apart : ∀ j ∈ List.finRange 32, slot (savedFrame m) r.number ≠ slot (savedFrame m) (32 + j) := by
      intro j _ same
      have low := r.number_lt
      have numbers := (slot_inj (by omega) (by omega)).mp same
      omega
    rw [others₃ _ apart, words r (mem_savedRegs r)]
  have start : (FloatInstr.plain (.addi .sp .sp (-registerFrame))).effect m = some m₁ := rfl
  refine ⟨m₃, floatEffects_cons start (floatEffects_append done done₃), ?_⟩
  constructor
  · rw [reg₃, reg]
  · rw [freg₃, freg]
    rfl
  · constructor
    · intro r other
      exact (kept r).trans (FloatMachine.set_other other)
    · intro j
      rw [floats j (List.mem_finRange j), freg]
      rfl
  · exact (kept .sp).trans stack
  · intro a apart
    rw [others₃ a fun j _ => apart (32 + j) (by omega),
      others a fun r _ => apart r.number (by have := r.number_lt; omega)]
    rfl

/-- The registers that the loop uses. -/
def loopRegs : List Reg := [.t0, .t1, .t2, .t3, .t4]

/-- The first doublewords of the frame are in the other structure too. -/
structure LoopCopied (n : Nat) (m m' : FloatMachine) : Prop where
  reg : ∀ r ∉ loopRegs, m'.reg r = m.reg r
  freg : m'.freg = m.freg
  copied : ∀ i, 1 ≤ i → i ≤ n → m'.mem (slot (m.reg .a0) i) = m.mem (slot (m.reg .sp) i)
  others : ∀ a, (∀ i, 1 ≤ i → i ≤ n → a ≠ slot (m.reg .a0) i) → m'.mem a = m.mem a

theorem shift_number (i : Nat) : BitVec.ofNat 64 i <<< 3 = BitVec.ofNat 64 (8 * i) := by
  apply BitVec.eq_of_toNat_eq
  rw [BitVec.toNat_shiftLeft, BitVec.toNat_ofNat, BitVec.toNat_ofNat, Nat.shiftLeft_eq]
  omega

/-- The body of the loop without its branch. -/
theorem loop_body (place : Nat) {i : Nat} (oldtss : Aligned (m.reg .a0)) (stack : Aligned (m.reg .sp))
    (counter : m.reg .t0 = BitVec.ofNat 64 i) :
    ∃ m', floatEffects ((copiesFrame place).take 7) m = some m' ∧ m'.reg .t0 = BitVec.ofNat 64 i + -1 ∧
      m'.freg = m.freg ∧ (∀ r ∉ loopRegs, m'.reg r = m.reg r) ∧
      m'.mem = Function.update m.mem (slot (m.reg .a0) i) (m.mem (slot (m.reg .sp) i)) := by
  have source : m.reg .t0 <<< 3 + m.reg .sp = slot (m.reg .sp) i := by
    rw [counter, shift_number, BitVec.add_comm]
    rfl
  have target : m.reg .t0 <<< 3 + m.reg .a0 = slot (m.reg .a0) i := by
    rw [counter, shift_number, BitVec.add_comm]
    rfl
  let m₁ := m.set .t1 (m.reg .t0)
  let m₂ := m₁.set .t1 (m.reg .t0 <<< 3)
  let m₃ := m₂.set .t2 (m.reg .t0 <<< 3 + m.reg .a0)
  let m₄ := m₃.set .t3 (m.reg .t0 <<< 3 + m.reg .sp)
  let m₅ := m₄.set .t4 (m.mem (slot (m.reg .sp) i))
  let m₆ := m₅.write (slot (m.reg .a0) i) (m.mem (slot (m.reg .sp) i))
  have read : (FloatInstr.plain (.ld .t4 0 .t3)).effect m₄ = some m₅ :=
    effect_load ((BitVec.add_zero _).trans source) (aligned_slot stack i)
  have stored : (FloatInstr.plain (.sd .t4 0 .t2)).effect m₅ = some m₆ :=
    effect_store ((BitVec.add_zero _).trans target) (aligned_slot oldtss i)
  have done : floatEffects ((copiesFrame place).take 7) m = some (m₆.set .t0 (m.reg .t0 + -1)) :=
    floatEffects_cons (n := m₁) rfl <| floatEffects_cons (n := m₂) rfl <| floatEffects_cons (n := m₃) rfl <|
      floatEffects_cons (n := m₄) rfl <| floatEffects_cons read <| floatEffects_cons stored rfl
  refine ⟨_, done, ?_, rfl, ?_, rfl⟩
  · rw [FloatMachine.set_same, counter]
  · intro r other
    simp only [loopRegs, List.mem_cons, List.not_mem_nil, or_false, not_or] at other
    simp [m₆, m₅, m₄, m₃, m₂, m₁, other]

/-- The loop from a counter on. -/
theorem loop_spec {place n : Nat} (here : copiesFrame place <+: program.drop place) (oldtss : Aligned (m.reg .a0))
    (stack : Aligned (m.reg .sp)) (apart : ∀ i < 64, ∀ j < 64, slot (m.reg .sp) i ≠ slot (m.reg .a0) j)
    (bound : n < 63) (counter : m.reg .t0 = BitVec.ofNat 64 (n + 1)) :
    ∃ m', Reaches program place m (place + 8) m' ∧ LoopCopied (n + 1) m m' := by
  induction n generalizing m with
  | zero =>
    rcases loop_body place oldtss stack counter with ⟨m', done, left, freg, reg, mem⟩
    have straight := Reaches.straight program place done ((List.take_prefix 7 _).trans here)
    have branch := Reaches.bgtz (m := m') (block_get (k := 7) here rfl)
    rw [left, if_neg (by decide)] at branch
    refine ⟨m', straight.trans branch, reg, freg, ?_, ?_⟩
    · intro i low high
      obtain rfl : i = 1 := by omega
      rw [mem]
      exact Function.update_self ..
    · intro a outside
      rw [mem]
      exact Function.update_of_ne (outside 1 (by omega) (by omega)) ..
  | succ n ih =>
    rcases loop_body place oldtss stack counter with ⟨m₁, done, left, freg, reg, mem⟩
    have straight := Reaches.straight program place done ((List.take_prefix 7 _).trans here)
    have branch := Reaches.bgtz (m := m₁) (block_get (k := 7) here rfl)
    have next : m₁.reg .t0 = BitVec.ofNat 64 (n + 1) := by
      rw [left]
      apply BitVec.eq_of_toNat_eq
      have one : (-1 : Word).toNat = 2 ^ 64 - 1 := rfl
      rw [BitVec.toNat_add, one, BitVec.toNat_ofNat, BitVec.toNat_ofNat]
      omega
    have positive : 0 < (m₁.reg .t0).toInt := by
      rw [next, BitVec.toInt_eq_toNat_of_lt (by rw [BitVec.toNat_ofNat]; omega), BitVec.toNat_ofNat]
      omega
    rw [if_pos positive] at branch
    have sp : m₁.reg .sp = m.reg .sp := reg .sp (by decide)
    have a0 : m₁.reg .a0 = m.reg .a0 := reg .a0 (by decide)
    rcases ih (a0 ▸ oldtss) (sp ▸ stack) (by rwa [sp, a0]) (by omega) next with ⟨m', rest, copied⟩
    rcases copied with ⟨reg', freg', copied, others⟩
    rw [sp, a0] at copied
    rw [a0] at others
    refine ⟨m', (straight.trans branch).trans rest, ?_, freg'.trans freg, ?_, ?_⟩
    · intro r outside
      rw [reg' r outside, reg r outside]
    · intro i low high
      by_cases last : i = n + 2
      · -- the doubleword that the body copied
        subst last
        have kept : m'.mem (slot (m.reg .a0) (n + 2)) = m₁.mem (slot (m.reg .a0) (n + 2)) := by
          apply others
          intro j _ _ same
          have numbers := (slot_inj (by omega) (by omega)).mp same
          omega
        rw [kept, mem]
        exact Function.update_self ..
      · rw [copied i low (by omega), mem]
        exact Function.update_of_ne (apart i (by omega) (n + 2) (by omega)) ..
    · intro a outside
      rw [others a fun i low high => outside i low (by omega), mem]
      exact Function.update_of_ne (outside (n + 2) (by omega) (by omega)) ..

end Blocks

section Whole

variable {m m₁ m₂ m' : FloatMachine} {oldKernelStack : Word}

/-- How much of the stack is used. -/
theorem stackUsed_spec (symbol : Aligned oldKernelStack) : ∃ m', floatEffects (stackUsed oldKernelStack) m = some m' ∧
    m'.mem = m.mem ∧ m'.freg = m.freg ∧ m'.reg .sp = m.reg .sp ∧ m'.reg .a1 = m.reg .a1 ∧
      m'.reg .t0 = m.mem oldKernelStack - m.reg .sp ∧ m'.reg .t1 = 4096 := by
  let m₁ := m.set .t0 oldKernelStack
  let m₂ := m₁.set .t0 (m.mem oldKernelStack)
  let m₃ := m₂.set .t0 (m.mem oldKernelStack - m.reg .sp)
  let m₄ := m₃.set .a0 (m.mem oldKernelStack - m.reg .sp)
  have read : (FloatInstr.plain (.ld .t0 0 .t0)).effect m₁ = some m₂ := effect_load (BitVec.add_zero _) symbol
  have done : floatEffects (stackUsed oldKernelStack) m = some (m₄.set .t1 4096) :=
    floatEffects_cons (n := m₁) rfl <| floatEffects_cons read <| floatEffects_cons (n := m₃) rfl <|
      floatEffects_cons (n := m₄) rfl rfl
  exact ⟨_, done, rfl, rfl, rfl, rfl, rfl, rfl⟩

/-- The stack pointer of the other task. -/
theorem handsOver_spec (stack : Aligned (m.reg .sp + -regBytes)) (newtss : Aligned (m.reg .a1)) :
    ∃ m', floatEffects handsOver m = some m' ∧
      m'.mem = Function.update m.mem (m.reg .sp + -regBytes) (m.reg .a1) ∧ m'.freg = m.freg ∧
      m'.reg .sp = Function.update m.mem (m.reg .sp + -regBytes) (m.reg .a1) (slot (m.reg .a1) 2) := by
  let a := m.reg .sp + -regBytes
  let m₁ := m.set .sp a
  let m₂ := m₁.write a (m.reg .a1)
  let m₃ := m₂.set .a1 (m.reg .a1)
  let m₄ := m₃.set .sp (a + regBytes)
  have stored : (FloatInstr.plain (.sd .a1 0 .sp)).effect m₁ = some m₂ := effect_store (BitVec.add_zero _) stack
  have same : m₂.mem a = m.reg .a1 := FloatMachine.write_same
  have stack₁ : m₁.reg .sp = a := FloatMachine.set_same
  have stack₂ : m₂.reg .sp + 0 = a := (BitVec.add_zero _).trans stack₁
  have read : (FloatInstr.plain (.ld .a1 0 .sp)).effect m₂ = some m₃ := by
    rw [effect_load stack₂ stack, same]
  have loaded : (FloatInstr.plain (.ld .sp (2 * regBytes) .a1)).effect m₄ =
      some (m₄.set .sp (m₄.mem (slot (m.reg .a1) 2))) := effect_load rfl (aligned_slot newtss 2)
  have done : floatEffects handsOver m = some (m₄.set .sp (m₄.mem (slot (m.reg .a1) 2))) :=
    floatEffects_cons (n := m₁) rfl <| floatEffects_cons stored <| floatEffects_cons read <|
      floatEffects_cons (n := m₄) rfl <| floatEffects_cons loaded rfl
  have mem : m₄.mem = Function.update m.mem a (m.reg .a1) := by
    simp only [m₄, m₃, m₂, m₁, FloatMachine.set_mem, FloatMachine.write_mem]
  refine ⟨_, done, mem, rfl, ?_⟩
  rw [FloatMachine.set_same, mem]

/-- All registers come from a frame. -/
theorem loads_spec (aligned : Aligned (m.reg .sp)) : ∃ m', floatEffects loads m = some m' ∧ m'.mem = m.mem ∧
    m'.reg .sp = m.reg .sp ∧ SavedAt m.mem (m.reg .sp) m'.reg m'.freg := by
  have noStack : Reg.sp ∉ loadedRegs := by decide
  rcases loadRegs_spec (L := loadedRegs) aligned noStack with ⟨m₁, done, mem, -, stack, words⟩
  rcases loadFloats_spec (m := m₁) (J := List.finRange 32) (stack ▸ aligned) with ⟨m₂, done₂, mem₂, reg₂, floats⟩
  refine ⟨m₂, floatEffects_append done done₂, mem₂.trans mem, by rw [reg₂, stack], ?_, ?_⟩
  · intro r other
    rw [reg₂, words r (mem_loadedRegs other)]
  · intro j
    rw [floats j (List.mem_finRange j), mem, stack]

theorem below_frame (a : Word) {i : Nat} (bound : i < 64) : slot a i ≠ a + -regBytes := by
  unfold slot
  intro same
  have offsets := congrArg BitVec.toNat ((BitVec.add_right_inj a).mp same)
  have below : (-regBytes).toNat = 2 ^ 64 - 8 := rfl
  rw [below, BitVec.toNat_ofNat] at offsets
  omega

/-- Up to the check of the stack. -/
theorem saves_copies (entry : SwitchEntry oldKernelStack m) : ∃ m', Reaches (switchToTss oldKernelStack) 0 m 73 m' ∧
    m'.reg .sp = savedFrame m ∧ m'.reg .a1 = m.reg .a1 ∧ SavedAt m'.mem (savedFrame m) m.reg m.freg ∧
      m'.mem (slot (m.reg .a0) 2) = savedFrame m ∧
        ∀ a, (∀ i < 64, a ≠ slot (savedFrame m) i) → (∀ i < 64, a ≠ slot (m.reg .a0) i) → m'.mem a = m.mem a := by
  have frame : Aligned (savedFrame m) := entry.aligned.add (by decide)
  rcases saves_spec frame with ⟨m₁, saved, pushed⟩
  have reach₁ := Reaches.straight (switchToTss oldKernelStack) 0 saved ⟨_, rfl⟩
  have counted : floatEffects [.plain (.li .t0 63)] m₁ = some (m₁.set .t0 63) := rfl
  have reach₂ := Reaches.straight (switchToTss oldKernelStack) 64 counted ⟨_, rfl⟩
  have kept : ∀ r : Reg, r ≠ .t0 → r ≠ .sp → (m₁.set .t0 63).reg r = m.reg r := by
    intro r noCounter noStack
    rw [FloatMachine.set_other noCounter, pushed.reg, FloatMachine.set_other noStack]
  have sp : (m₁.set .t0 63).reg .sp = savedFrame m := by
    rw [FloatMachine.set_other (by decide), pushed.reg, FloatMachine.set_same]
  have a0 : (m₁.set .t0 63).reg .a0 = m.reg .a0 := kept .a0 (by decide) (by decide)
  have apart : ∀ i < 64, ∀ j < 64, slot ((m₁.set .t0 63).reg .sp) i ≠ slot ((m₁.set .t0 63).reg .a0) j := by
    rw [sp, a0]
    exact entry.apart
  have loop : copiesFrame 65 <+: (switchToTss oldKernelStack).drop 65 := ⟨_, rfl⟩
  rcases loop_spec loop (a0 ▸ entry.oldtss) (sp ▸ frame) apart (n := 62) (by decide) FloatMachine.set_same with
    ⟨m₂, reach₃, reg, -, copied, others⟩
  rw [sp, a0, FloatMachine.set_mem] at copied
  rw [a0, FloatMachine.set_mem] at others
  have still : ∀ i < 64, m₂.mem (slot (savedFrame m) i) = m₁.mem (slot (savedFrame m) i) := by
    intro i bound
    apply others
    intro j _ high
    exact entry.apart i bound j (by omega)
  refine ⟨m₂, (reach₁.trans reach₂).trans reach₃, ?_, ?_, ?_, ?_, ?_⟩
  · rw [reg .sp (by decide), sp]
  · rw [reg .a1 (by decide), kept .a1 (by decide) (by decide)]
  · constructor
    · intro r other
      rw [still _ (by have := r.number_lt; omega), pushed.saved.word r other]
    · intro j
      rw [still _ (by omega), pushed.saved.float j]
  · rw [copied 2 (by decide) (by decide), pushed.stack]
  · intro a outside noTss
    rw [others a fun i _ high => noTss i (by omega), pushed.others a outside]

/-- The stack is checked. -/
theorem stack_checked (entry : SwitchEntry oldKernelStack m) : ∃ m', Reaches (switchToTss oldKernelStack) 0 m 78 m' ∧
    m'.reg .sp = savedFrame m ∧ m'.reg .a1 = m.reg .a1 ∧ SavedAt m'.mem (savedFrame m) m.reg m.freg ∧
      m'.mem (slot (m.reg .a0) 2) = savedFrame m ∧
        (∀ a, (∀ i < 64, a ≠ slot (savedFrame m) i) → (∀ i < 64, a ≠ slot (m.reg .a0) i) → m'.mem a = m.mem a) ∧
          ((m'.reg .t1).toInt ≤ (m'.reg .t0).toInt ↔ 4096 ≤ (m.mem oldKernelStack - savedFrame m).toInt) := by
  rcases saves_copies entry with ⟨m₁, reach₁, sp₁, a1₁, saved, tss, others⟩
  rcases stackUsed_spec (m := m₁) entry.symbol with ⟨m₂, used, mem, -, sp₂, a1₂, t0, t1⟩
  have reach₂ := Reaches.straight (switchToTss oldKernelStack) 73 used ⟨_, rfl⟩
  have symbol : m₁.mem oldKernelStack = m.mem oldKernelStack :=
    others _ (fun i bound => (entry.symbolApart i bound).1) fun i bound => (entry.symbolApart i bound).2
  have limit : (4096 : Word).toInt = 4096 := rfl
  rw [← mem] at saved tss others
  refine ⟨m₂, reach₁.trans reach₂, sp₂.trans sp₁, a1₂.trans a1₁, saved, tss, others, ?_⟩
  rw [t0, t1, symbol, sp₁, limit]

/-- Code that calls `switch_to_tss` gets its registers back from the stack of the task that it switches to. -/
theorem switchToTss_returns (entry : SwitchEntry oldKernelStack m)
    (room : (m.mem oldKernelStack - savedFrame m).toInt < 4096) :
    ∃ fuel r, runCode (switchToTss oldKernelStack) fuel 0 m = some r ∧ Switched m r := by
  have frame : Aligned (savedFrame m) := entry.aligned.add (by decide)
  rcases stack_checked entry with ⟨m₂, reach₂, sp₂, a1₂, saved, tss, others, fits⟩
  have check := Reaches.bge (switchToTss oldKernelStack) 78 (m := m₂) rfl
  rw [if_neg (mt fits.mp (not_le.mpr room))] at check
  -- the stack of the other task
  have below : Aligned (m₂.reg .sp + -regBytes) := by
    rw [sp₂]
    exact frame.add (by decide)
  rcases handsOver_spec below (a1₂ ▸ entry.newtss) with ⟨m₃, handed, mem₃, -, sp₃⟩
  rw [sp₂, a1₂] at mem₃ sp₃
  have reach₃ := Reaches.straight (switchToTss oldKernelStack) 79 handed ⟨_, rfl⟩
  have elsewhere : ∀ a, a ≠ savedFrame m + -regBytes → m₃.mem a = m₂.mem a := by
    intro a other
    rw [mem₃]
    exact Function.update_of_ne other ..
  have next : m₃.reg .sp = m.mem (slot (m.reg .a1) 2) := by
    rw [sp₃, Function.update_of_ne entry.nextBelow]
    exact others _ (fun i bound => (entry.next i bound).1) fun i bound => (entry.next i bound).2
  rcases loads_spec (m := m₃) (next ▸ entry.resumes) with ⟨m₄, loaded, mem₄, sp₄, words⟩
  have reach₄ := Reaches.straight (switchToTss oldKernelStack) 84 loaded ⟨_, rfl⟩
  rw [next] at sp₄ words
  -- the frame is taken off
  have taken : floatEffects [.plain (.addi .sp .sp registerFrame)] m₄ =
      some (m₄.set .sp (m₄.reg .sp + registerFrame)) := rfl
  have reach₅ := Reaches.straight (switchToTss oldKernelStack) 146 taken ⟨_, rfl⟩
  rcases (((reach₂.trans check).trans reach₃).trans reach₄).trans reach₅ with ⟨n, runs⟩
  generalize last : m₄.set .sp (m₄.reg .sp + registerFrame) = m₅ at runs
  have mem₅ : m₅.mem = m₃.mem := by rw [← last, FloatMachine.set_mem, mem₄]
  refine ⟨n + 1, (jumpTarget (m₅.reg .ra), m₅), runs 1, ?_, ?_, ?_, ?_, ?_, rfl⟩
  · intro a outside noTss other
    rw [mem₅, elsewhere a other, others a outside noTss]
  · constructor
    · intro r other
      rw [mem₅, elsewhere _ (below_frame _ (by have := r.number_lt; omega)), saved.word r other]
    · intro j
      rw [mem₅, elsewhere _ (below_frame _ (by omega)), saved.float j]
  · rw [mem₅, elsewhere _ (entry.below 2 (by decide)).symm, tss]
  · rw [← last, FloatMachine.set_same, sp₄]
  · constructor
    · intro r other
      rw [mem₅, words.word r other, ← last, FloatMachine.set_other other]
    · intro j
      rw [mem₅, words.float j, ← last, FloatMachine.set_freg]

/-- It returns only where there is room on the stack. -/
theorem switchToTss_spec {fuel : Nat} {r : Word × FloatMachine} (entry : SwitchEntry oldKernelStack m)
    (returns : runCode (switchToTss oldKernelStack) fuel 0 m = some r) : Switched m r := by
  by_cases room : (m.mem oldKernelStack - savedFrame m).toInt < 4096
  · rcases switchToTss_returns entry room with ⟨fuel', r', returns', switched⟩
    have same := runCode_more returns fuel'
    rw [Nat.add_comm, runCode_more returns' fuel] at same
    cases same
    exact switched
  · rcases stack_checked entry with ⟨m₂, reach₂, -, -, -, -, -, fits⟩
    have check := Reaches.bge (switchToTss oldKernelStack) 78 (m := m₂) rfl
    rw [if_pos (fits.mpr (not_lt.mp room))] at check
    rcases (reach₂.trans check).returns returns with ⟨fuel', lost⟩
    cases fuel' <;> cases lost

end Whole

end K210Linux.Kernel
