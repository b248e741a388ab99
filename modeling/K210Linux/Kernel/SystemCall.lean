import K210Linux.Lib.Riscv
import K210Linux.Kernel.SignalSets

/-! `system_call`, from the number in `a0` to its return. -/

namespace K210Linux.Kernel

open K210Linux.Lib.Riscv

/-- Where the linker puts what `system_call` names; `place` are the addresses of its instructions. -/
structure Symbols where
  place : Nat → Word
  bitscan : Word
  doSignal : Word
  sysCallTable : Word
  current : Word
  task : Word
  syscallFromKernel : Word

/-- `REGBYTES`, and the two of them that are saved. -/
def regBytes : Word := 8
def frameBytes : Word := 2 * regBytes

def nrSystemCalls : Word := 2048
def stateOffset : Word := 0
def counterOffset : Word := 8
def signalOffset : Word := 24
def blockedOffset : Word := 32 + 32 * 24

/-- The instructions where the labels stand, from `bad_sys_call` on. `reschedule` is left out: the branches to it are
    comments. -/
def systemCallEntry : Nat := 2
def retFromSysCall : Nat := 21
def epilogue : Nat := 45

/-- The number is compared and the entry of the table is called. -/
def dispatch (L : Symbols) : List Instr :=
  [ -- bad_sys_call
    .li .a0 (-1), .ret,
    -- system_call
    .addi .sp .sp (-frameBytes), .sd .ra 0 .sp, .sd .s0 regBytes .sp, .li .t0 (nrSystemCalls - 1), .sub .t0 .t0 .a0, .bltz .t0 (L.place 0),
    .slli .a0 .a0 3, .li .t0 L.sysCallTable, .add .t0 .t0 .a0, .ld .t0 0 .t0, .mv .a0 .a1, .mv .a1 .a2, .mv .a2 .a3, .jalr .t0,
    .mv .s0 .a0, .li .t0 L.current, .ld .t0 0 .t0, .ld .t1 stateOffset .t0, .ld .t1 counterOffset .t0 ]

/-- `ret_from_sys_call`: a signal is delivered to a task other than task 0. -/
def deliverAndReturn (L : Symbols) : List Instr :=
  [ .li .t0 L.current, .ld .t0 0 .t0, .li .t1 L.task, .ld .t1 0 .t1, .sub .t1 .t0 .t1, .beqz .t1 (L.place epilogue),
    .li .t1 L.syscallFromKernel, .ld .t1 0 .t1, .beqz .t1 (L.place epilogue),
    .ld .t1 signalOffset .t0, .ld .t2 blockedOffset .t0, .not .t2 .t2, .and .t1 .t1 .t2, .mv .a0 .t1, .call L.bitscan,
    .addi .t3 .a0 1, .beqz .t3 (L.place epilogue), .li .t3 1, .sll .t3 .t3 .a0, .not .t3 .t3, .and .t1 .t1 .t3,
    .sd .t1 signalOffset .t0, .addi .a0 .a0 1, .call L.doSignal,
    -- 3:
    .mv .a0 .s0, .ld .s0 regBytes .sp, .ld .ra 0 .sp, .addi .sp .sp frameBytes, .ret ]

def systemCallProgram (L : Symbols) : List Instr := dispatch L ++ deliverAndReturn L

/-- The program is in memory, and the functions it calls are not part of it. -/
structure Linked (I : Image) (L : Symbols) : Prop where
  loaded : Loaded I L.place (systemCallProgram L)
  even : ∀ i, jumpTarget (L.place i) = L.place i
  bitscan : I.code L.bitscan = none
  doSignal : I.code L.doSignal = none
  distinct : L.bitscan ≠ L.doSignal
  sysCallTable : Aligned L.sysCallTable
  current : Aligned L.current
  task : Aligned L.task
  syscallFromKernel : Aligned L.syscallFromKernel

/-- An address that the program returns to, outside of it. -/
structure ReturnsTo (L : Symbols) (stop : Word) : Prop where
  place : ∀ i < (systemCallProgram L).length, L.place i ≠ stop
  bitscan : L.bitscan ≠ stop
  doSignal : L.doSignal ≠ stop

/-- `current` points to a task, whose pending set is neither in the two lowest doublewords of the stack nor where the
    pointer itself is. -/
structure CurrentTask (L : Symbols) (m : Machine) : Prop where
  aligned : Aligned (m.mem L.current)
  low : m.reg .sp ≠ m.mem L.current + signalOffset
  high : m.reg .sp + regBytes ≠ m.mem L.current + signalOffset
  pointer : L.current ≠ m.mem L.current + signalOffset

/-- The value of `bitscan` in a register. -/
def bitscanResult (v : BitVec 64) : Word :=
  match bitscan v with
  | some i => BitVec.ofNat 64 i
  | none => -1

/-- What `ret_from_sys_call` relies on: `bitscan` writes no memory, and its few instructions use neither `t0` nor `t1`,
    although the calling convention would allow it. -/
def BitscanKeeps (I : Image) (L : Symbols) : Prop :=
  ∀ m, ∃ m', I.function L.bitscan m = some m' ∧ Returned 2 m m' ∧ m'.mem = m.mem ∧ m'.reg .a0 = bitscanResult (m.reg .a0) ∧
    m'.reg .t0 = m.reg .t0 ∧ m'.reg .t1 = m.reg .t1

/-- A function that returns, with a task as the current one. -/
def ReturnsInTask (I : Image) (L : Symbols) (f : Word) : Prop :=
  ∀ m, CurrentTask L m → ∃ m', I.function f m = some m' ∧ Returned 2 m m' ∧ CurrentTask L m'

section Blocks

variable {I : Image} {L : Symbols} {m m' : Machine} {stop : Word} {regs : List Reg}

/-- Some instructions change these registers only. -/
structure Touches (regs : List Reg) (m m' : Machine) : Prop where
  mem : m'.mem = m.mem
  others : ∀ r, r ∉ regs → m'.reg r = m.reg r

def prologue : List Instr :=
  [.addi .sp .sp (-frameBytes), .sd .ra 0 .sp, .sd .s0 regBytes .sp, .li .t0 (nrSystemCalls - 1), .sub .t0 .t0 .a0]

/-- After the prologue, with the distance of the number from the last one in `t0`. -/
structure Entered (m m' : Machine) : Prop where
  sp : m'.reg .sp = m.reg .sp + -frameBytes
  t0 : m'.reg .t0 = nrSystemCalls - 1 - m.reg .a0
  others : ∀ r, r ≠ .sp → r ≠ .t0 → m'.reg r = m.reg r
  savedRa : m'.mem (m.reg .sp + -frameBytes) = m.reg .ra
  savedS0 : m'.mem (m.reg .sp + -frameBytes + regBytes) = m.reg .s0
  mem : ∀ a, a ≠ m.reg .sp + -frameBytes → a ≠ m.reg .sp + -frameBytes + regBytes → m'.mem a = m.mem a

theorem regBytes_ne : regBytes ≠ 0#64 := by decide

theorem prologue_enters (aligned : Aligned (m.reg .sp)) : ∃ m', effects prologue m = some m' ∧ Entered m m' := by
  have low : Aligned (m.reg .sp + -frameBytes) := aligned.add (by decide)
  have high : Aligned (m.reg .sp + -frameBytes + regBytes) := low.add (by decide)
  refine ⟨_, effects_cons rfl (effects_cons (effect_sd (BitVec.add_zero _) low) (effects_cons (effect_sd rfl high)
    (effects_cons rfl (effects_cons rfl rfl)))), ?_⟩
  constructor
  · simp
  · simp
  · intro r notSp notT0
    simp [notSp, notT0]
  · simp [regBytes_ne]
  · simp
  · intro a notLow notHigh
    simp [notLow, notHigh]

def lookup (L : Symbols) : List Instr :=
  [.slli .a0 .a0 3, .li .t0 L.sysCallTable, .add .t0 .t0 .a0, .ld .t0 0 .t0, .mv .a0 .a1, .mv .a1 .a2, .mv .a2 .a3]

/-- The address of an entry of `sys_call_table`. -/
def Symbols.entry (L : Symbols) (number : Word) : Word := L.sysCallTable + number <<< 3

theorem lookup_finds (linked : Linked I L) (m : Machine) : ∃ m', effects (lookup L) m = some m' ∧
    m'.reg .t0 = m.mem (L.entry (m.reg .a0)) ∧ Touches [.t0, .a0, .a1, .a2] m m' := by
  have aligned : Aligned (L.entry (m.reg .a0)) := linked.sysCallTable.add (aligned_shift _)
  refine ⟨_, effects_cons rfl (effects_cons rfl (effects_cons rfl (effects_cons (effect_ld (a := L.entry (m.reg .a0)) ?_ aligned)
    (effects_cons rfl (effects_cons rfl (effects_cons rfl rfl)))))), ?_, ?_, ?_⟩
  · simp [Symbols.entry]
  · simp
  · simp
  · intro r other
    simp at other
    simp [other]

/-- The first test of `ret_from_sys_call`. -/
def comparesTask (L : Symbols) : List Instr :=
  [.li .t0 L.current, .ld .t0 0 .t0, .li .t1 L.task, .ld .t1 0 .t1, .sub .t1 .t0 .t1]

theorem comparesTask_spec (linked : Linked I L) (m : Machine) : ∃ m', effects (comparesTask L) m = some m' ∧
    m'.reg .t0 = m.mem L.current ∧ m'.reg .t1 = m.mem L.current - m.mem L.task ∧ Touches [.t0, .t1] m m' := by
  refine ⟨_, effects_cons rfl (effects_cons (effect_ld (a := L.current) ?_ linked.current) (effects_cons rfl
    (effects_cons (effect_ld (a := L.task) ?_ linked.task) (effects_cons rfl rfl)))), ?_, ?_, ?_, ?_⟩
  · simp
  · simp
  · simp
  · simp
  · simp
  · intro r other
    simp at other
    simp [other]

def readsFlag (L : Symbols) : List Instr := [.li .t1 L.syscallFromKernel, .ld .t1 0 .t1]

theorem readsFlag_spec (linked : Linked I L) (m : Machine) : ∃ m', effects (readsFlag L) m = some m' ∧
    m'.reg .t1 = m.mem L.syscallFromKernel ∧ Touches [.t1] m m' := by
  refine ⟨_, effects_cons rfl (effects_cons (effect_ld (a := L.syscallFromKernel) ?_ linked.syscallFromKernel) rfl), ?_, ?_, ?_⟩
  · simp
  · simp
  · simp
  · intro r other
    simp at other
    simp [other]

def masks : List Instr := [.ld .t1 signalOffset .t0, .ld .t2 blockedOffset .t0, .not .t2 .t2, .and .t1 .t1 .t2, .mv .a0 .t1]

/-- The signals of a task that are pending and not blocked. -/
def deliverable (mem : Word → Word) (p : Word) : Word := mem (p + signalOffset) &&& ~~~ mem (p + blockedOffset)

theorem masks_spec (aligned : Aligned (m.reg .t0)) : ∃ m', effects masks m = some m' ∧
    m'.reg .t1 = deliverable m.mem (m.reg .t0) ∧ m'.reg .a0 = deliverable m.mem (m.reg .t0) ∧ Touches [.t1, .t2, .a0] m m' := by
  have signal : Aligned (m.reg .t0 + signalOffset) := aligned.add (by decide)
  have blocked : Aligned (m.reg .t0 + blockedOffset) := aligned.add (by decide)
  refine ⟨_, effects_cons (effect_ld rfl signal) (effects_cons (effect_ld (a := m.reg .t0 + blockedOffset) ?_ blocked)
    (effects_cons rfl (effects_cons rfl (effects_cons rfl rfl)))), ?_, ?_, ?_, ?_⟩
  · simp
  · simp [deliverable]
  · simp [deliverable]
  · simp
  · intro r other
    simp at other
    simp [other]

def consumes : List Instr :=
  [.li .t3 1, .sll .t3 .t3 .a0, .not .t3 .t3, .and .t1 .t1 .t3, .sd .t1 signalOffset .t0, .addi .a0 .a0 1]

theorem consumes_spec (aligned : Aligned (m.reg .t0)) : ∃ m', effects consumes m = some m' ∧
    m'.mem = Function.update m.mem (m.reg .t0 + signalOffset) (m.reg .t1 &&& ~~~ ((1 : Word) <<< ((m.reg .a0).toNat % 64))) ∧
    m'.reg .a0 = m.reg .a0 + 1 ∧ ∀ r, r ∉ [Reg.t1, .t3, .a0] → m'.reg r = m.reg r := by
  have signal : Aligned (m.reg .t0 + signalOffset) := aligned.add (by decide)
  refine ⟨_, effects_cons rfl (effects_cons rfl (effects_cons rfl (effects_cons rfl
    (effects_cons (effect_sd (a := m.reg .t0 + signalOffset) ?_ signal) (effects_cons rfl rfl))))), ?_, ?_, ?_⟩
  · simp
  · simp [Machine.write]
  · simp
  · intro r other
    simp at other
    simp [other]

def restores : List Instr := [.mv .a0 .s0, .ld .s0 regBytes .sp, .ld .ra 0 .sp, .addi .sp .sp frameBytes]

theorem restores_spec (aligned : Aligned (m.reg .sp)) : ∃ m', effects restores m = some m' ∧
    m'.mem = m.mem ∧ m'.reg .a0 = m.reg .s0 ∧ m'.reg .s0 = m.mem (m.reg .sp + regBytes) ∧ m'.reg .ra = m.mem (m.reg .sp) ∧
    m'.reg .sp = m.reg .sp + frameBytes := by
  have high : Aligned (m.reg .sp + regBytes) := aligned.add (by decide)
  refine ⟨_, effects_cons rfl (effects_cons (effect_ld (a := m.reg .sp + regBytes) ?_ high)
    (effects_cons (effect_ld (a := m.reg .sp) ?_ aligned) (effects_cons rfl rfl))), ?_, ?_, ?_, ?_, ?_⟩
  all_goals simp

theorem returned_low (returned : Returned 2 m m') : m'.mem (m.reg .sp) = m.mem (m.reg .sp) := by
  have kept := returned.frame 0 (by decide)
  rwa [Nat.mul_zero, BitVec.add_zero] at kept

theorem returned_high (returned : Returned 2 m m') : m'.mem (m.reg .sp + regBytes) = m.mem (m.reg .sp + regBytes) :=
  returned.frame 1 (by decide)

end Blocks

section Runs

variable {I : Image} {L : Symbols} {m : Machine} {stop : Word}

/-- Delivery is not skipped: the task is not task 0, and `syscall_from_kernel` is set. -/
def DeliveryEnabled (L : Symbols) (m : Machine) : Prop := m.mem L.current ≠ m.mem L.task ∧ m.mem L.syscallFromKernel ≠ 0

instance (L : Symbols) (m : Machine) : Decidable (DeliveryEnabled L m) := inferInstanceAs (Decidable (_ ∧ _))

/-- `ret_from_sys_call` goes on to the masks when delivery is enabled. -/
theorem delivery_enabled (linked : Linked I L) (off : ReturnsTo L stop) (enabled : DeliveryEnabled L m) :
    ∃ m', Leads I stop (L.place retFromSysCall, m) [] (L.place 30, m') ∧ m'.reg .t0 = m.mem L.current ∧ Touches [.t0, .t1] m m' := by
  rcases comparesTask_spec linked m with ⟨m₁, done₁, pointer, difference, touches₁⟩
  rcases readsFlag_spec linked m₁ with ⟨m₂, done₂, flag, touches₂⟩
  have compared := Leads.straight (i := retFromSysCall) linked.loaded off.place done₁ ⟨_, rfl⟩
  have other : m₁.reg .t1 ≠ 0 := by
    rw [difference]
    intro zero
    exact enabled.1 ((BitVec.sub_eq_iff_eq_add.mp zero).trans (BitVec.zero_add _))
  have first := Leads.jump (i := 26) (m := m₁) linked.loaded off.place rfl
    (congrArg some (congrArg (·, m₁) (if_neg other)))
  have read := Leads.straight (i := 27) linked.loaded off.place done₂ ⟨_, rfl⟩
  have set : m₂.reg .t1 ≠ 0 := by
    rw [flag, touches₁.mem]
    exact enabled.2
  have second := Leads.jump (i := 29) (m := m₂) linked.loaded off.place rfl
    (congrArg some (congrArg (·, m₂) (if_neg set)))
  refine ⟨m₂, compared.trans (first.trans (read.trans second)), ?_, ?_, ?_⟩
  · rw [touches₂.others .t0 (by decide), pointer]
  · rw [touches₂.mem, touches₁.mem]
  · intro r other
    simp only [List.mem_cons, List.not_mem_nil, or_false, not_or] at other
    rw [touches₂.others r (by simp [other]), touches₁.others r (by simp [other])]

/-- Otherwise it goes to the epilogue at once. -/
theorem delivery_disabled (linked : Linked I L) (off : ReturnsTo L stop) (disabled : ¬ DeliveryEnabled L m) :
    ∃ m', Leads I stop (L.place retFromSysCall, m) [] (L.place epilogue, m') ∧ Touches [.t0, .t1] m m' := by
  rcases comparesTask_spec linked m with ⟨m₁, done₁, -, difference, touches₁⟩
  have compared := Leads.straight (i := retFromSysCall) linked.loaded off.place done₁ ⟨_, rfl⟩
  by_cases same : m.mem L.current = m.mem L.task
  · have zero : m₁.reg .t1 = 0 := by
      rw [difference, same, BitVec.sub_self]
      rfl
    have taken := Leads.jump (i := 26) (m := m₁) linked.loaded off.place rfl
      (congrArg some (congrArg (·, m₁) (if_pos zero)))
    exact ⟨m₁, compared.trans taken, touches₁⟩
  · rcases readsFlag_spec linked m₁ with ⟨m₂, done₂, flag, touches₂⟩
    have other : m₁.reg .t1 ≠ 0 := by
      rw [difference]
      intro zero
      exact same ((BitVec.sub_eq_iff_eq_add.mp zero).trans (BitVec.zero_add _))
    have first := Leads.jump (i := 26) (m := m₁) linked.loaded off.place rfl
      (congrArg some (congrArg (·, m₁) (if_neg other)))
    have read := Leads.straight (i := 27) linked.loaded off.place done₂ ⟨_, rfl⟩
    have unset : m₂.reg .t1 = 0 := by
      rw [flag, touches₁.mem]
      by_contra set
      exact disabled ⟨same, set⟩
    have second := Leads.jump (i := 29) (m := m₂) linked.loaded off.place rfl
      (congrArg some (congrArg (·, m₂) (if_pos unset)))
    refine ⟨m₂, compared.trans (first.trans (read.trans second)), ?_, ?_⟩
    · rw [touches₂.mem, touches₁.mem]
    · intro r other
      simp only [List.mem_cons, List.not_mem_nil, or_false, not_or] at other
      rw [touches₂.others r (by simp [other]), touches₁.others r (by simp [other])]

/-- `bitscan` is called with the deliverable signals, and its value is tested. -/
theorem scanned (linked : Linked I L) (off : ReturnsTo L stop) (keeps : BitscanKeeps I L) (aligned : Aligned (m.reg .t0)) :
    ∃ m' h, Leads I stop (L.place 30, m) [(L.bitscan, h)] (L.place 36, m') ∧ m'.mem = m.mem ∧
      m'.reg .a0 = bitscanResult (deliverable m.mem (m.reg .t0)) ∧ m'.reg .t0 = m.reg .t0 ∧
      m'.reg .t1 = deliverable m.mem (m.reg .t0) ∧ m'.reg .sp = m.reg .sp ∧ m'.reg .s0 = m.reg .s0 := by
  rcases masks_spec aligned with ⟨m₁, done, masked, argument, touches⟩
  rcases keeps (m₁.set .ra (L.place 36)) with ⟨m₂, returns, returned, mem, value, t0, t1⟩
  have read := Leads.straight (i := 30) linked.loaded off.place done ⟨_, rfl⟩
  have called := Leads.jump (i := 35) (m := m₁) linked.loaded off.place rfl rfl
  have back := Leads.function off.bitscan linked.bitscan returns
  rw [Machine.set_same, linked.even] at back
  refine ⟨m₂, _, read.trans (called.trans back), ?_, ?_, ?_, ?_, ?_, ?_⟩
  · rw [mem, Machine.set_mem, touches.mem]
  · rw [value, Machine.set_other (by decide), argument]
  · rw [t0, Machine.set_other (by decide), touches.others .t0 (by decide)]
  · rw [t1, Machine.set_other (by decide), masked]
  · rw [returned.saved .sp rfl, Machine.set_other (by decide), touches.others .sp (by decide)]
  · rw [returned.saved .s0 rfl, Machine.set_other (by decide), touches.others .s0 (by decide)]

/-- There is no signal to deliver. -/
theorem none_found (linked : Linked I L) (off : ReturnsTo L stop) (value : m.reg .a0 = -1) :
    ∃ m', Leads I stop (L.place 36, m) [] (L.place epilogue, m') ∧ Touches [.t3] m m' := by
  have done : effects [.addi .t3 .a0 1] m = some (m.set .t3 0) := by
    refine effects_cons ?_ rfl
    rw [Instr.effect, value]
    rfl
  have added := Leads.straight (i := 36) linked.loaded off.place done ⟨_, rfl⟩
  have taken := Leads.jump (i := 37) (m := m.set .t3 0) linked.loaded off.place rfl
    (congrArg some (congrArg (·, m.set .t3 0) (if_pos Machine.set_same)))
  refine ⟨_, added.trans taken, rfl, ?_⟩
  intro r other
  exact Machine.set_other (by simpa using other)

/-- The signal is taken off the set and `do_signal` is called with its number. -/
theorem one_found {b : Nat} (linked : Linked I L) (off : ReturnsTo L stop) (aligned : Aligned (m.reg .t0))
    (value : m.reg .a0 = BitVec.ofNat 64 b) (bound : b < 64) :
    ∃ h, Leads I stop (L.place 36, m) [(L.doSignal, h)] (L.doSignal, h) ∧
      h.mem = Function.update m.mem (m.reg .t0 + signalOffset) (m.reg .t1 &&& ~~~ ((1 : Word) <<< b)) ∧
      h.reg .a0 = BitVec.ofNat 64 (b + 1) ∧ h.reg .ra = L.place epilogue ∧ h.reg .sp = m.reg .sp ∧ h.reg .s0 = m.reg .s0 := by
  have done : effects [.addi .t3 .a0 1] m = some (m.set .t3 (m.reg .a0 + 1)) := effects_cons rfl rfl
  have added := Leads.straight (i := 36) linked.loaded off.place done ⟨_, rfl⟩
  have next : m.reg .a0 + 1 = BitVec.ofNat 64 (b + 1) := by
    rw [value, BitVec.ofNat_add]
    rfl
  have positive : (m.set .t3 (m.reg .a0 + 1)).reg .t3 ≠ 0 := by
    rw [Machine.set_same, next]
    intro zero
    have zeroNat := congrArg BitVec.toNat zero
    rw [BitVec.toNat_ofNat] at zeroNat
    simp at zeroNat
    omega
  have through := Leads.jump (i := 37) linked.loaded off.place rfl
    (congrArg some (congrArg (·, m.set .t3 (m.reg .a0 + 1)) (if_neg positive)))
  have aligned₁ : Aligned ((m.set .t3 (m.reg .a0 + 1)).reg .t0) := by
    rw [Machine.set_other (by decide)]
    exact aligned
  rcases consumes_spec aligned₁ with ⟨m₁, done₁, mem, argument, others⟩
  have consumed := Leads.straight (i := 38) linked.loaded off.place done₁ ⟨_, rfl⟩
  have called := Leads.jump (i := 44) (m := m₁) linked.loaded off.place rfl rfl
  have shift : (m.reg .a0).toNat % 64 = b := by
    rw [value, BitVec.toNat_ofNat]
    omega
  refine ⟨m₁.set .ra (L.place epilogue), added.trans (through.trans (consumed.trans called)), ?_, ?_, ?_, ?_, ?_⟩
  · rw [Machine.set_mem, mem, Machine.set_mem, Machine.set_other (by decide), Machine.set_other (by decide),
      Machine.set_other (by decide), shift]
  · rw [Machine.set_other (by decide), argument, Machine.set_other (by decide), next]
  · rw [Machine.set_same]
  · rw [Machine.set_other (by decide), others .sp (by decide), Machine.set_other (by decide)]
  · rw [Machine.set_other (by decide), others .s0 (by decide), Machine.set_other (by decide)]

/-- The epilogue returns to the address that was saved. -/
theorem epilogue_returns (linked : Linked I L) (off : ReturnsTo L stop) (aligned : Aligned (m.reg .sp))
    (saved : jumpTarget (m.mem (m.reg .sp)) = stop) :
    ∃ m', Leads I stop (L.place epilogue, m) [] (stop, m') ∧ m'.mem = m.mem ∧ m'.reg .a0 = m.reg .s0 ∧
      m'.reg .s0 = m.mem (m.reg .sp + regBytes) ∧ m'.reg .ra = m.mem (m.reg .sp) ∧ m'.reg .sp = m.reg .sp + frameBytes := by
  rcases restores_spec aligned with ⟨m₁, done, mem, a0, s0, ra, sp⟩
  have restored := Leads.straight (i := epilogue) linked.loaded off.place done ⟨_, rfl⟩
  have returned := Leads.jump (i := 49) (m := m₁) linked.loaded off.place rfl rfl
  rw [ra, saved] at returned
  exact ⟨m₁, restored.trans returned, mem, a0, s0, ra, sp⟩

end Runs

section Board

/-- An image to try things on, with the program at 2^31 and one handler. -/
def board : Symbols where
  place := placeFrom 0x80000000
  bitscan := 0x80001000
  doSignal := 0x80001100
  sysCallTable := 0x80002000
  current := 0x80006000
  task := 0x80006008
  syscallFromKernel := 0x80006010

def boardHandler : Word := 0x80001200

/-- `bitscan`, and functions that return at once. -/
def boardFunction (f : Word) (m : Machine) : Option Machine :=
  if f = board.bitscan then some (m.set .a0 (bitscanResult (m.reg .a0)))
  else if f = board.doSignal ∨ f = boardHandler then some m
  else none

def boardImage : Image := Image.of 0x80000000 (systemCallProgram board) boardFunction

theorem board_length : (systemCallProgram board).length = 50 := rfl

theorem board_linked : Linked boardImage board where
  loaded := Image.of_loaded (by decide)
  even := jumpTarget_placeFrom (by decide)
  bitscan := Image.of_outside (by decide)
  doSignal := Image.of_outside (by decide)
  distinct := by decide
  sysCallTable := by decide
  current := by decide
  task := by decide
  syscallFromKernel := by decide

theorem board_returnsTo : ReturnsTo board 0x80003000 where
  place := fun i bound => placeFrom_ne (by rw [board_length] at bound; exact Nat.lt_of_lt_of_le bound (by decide))
  bitscan := by decide
  doSignal := by decide

theorem board_bitscan (m : Machine) :
    boardImage.function board.bitscan m = some (m.set .a0 (bitscanResult (m.reg .a0))) := by
  change boardFunction board.bitscan m = _
  rw [boardFunction, if_pos rfl]

theorem board_bitscanKeeps : BitscanKeeps boardImage board := by
  intro m
  refine ⟨m.set .a0 (bitscanResult (m.reg .a0)), board_bitscan m, ⟨?_, fun _ _ => rfl⟩, rfl, Machine.set_same, ?_, ?_⟩
  · intro r saved
    refine Machine.set_other ?_
    rintro rfl
    cases saved
  · exact Machine.set_other (by decide)
  · exact Machine.set_other (by decide)

theorem board_returns {f : Word} (function : f = board.doSignal ∨ f = boardHandler) (m : Machine) :
    boardImage.function f m = some m := by
  have other : f ≠ board.bitscan := by
    rcases function with rfl | rfl
    · decide
    · decide
  change boardFunction f m = _
  rw [boardFunction, if_neg other, if_pos function]

theorem returned_self (m : Machine) : Returned 2 m m := ⟨fun _ _ => rfl, fun _ _ => rfl⟩

/-- A task at 0x80007000 that runs with a pending set and a mask, and a number for the one entry of the table at 0. -/
def boardMachine (number signal blocked : Word) : Machine where
  reg := fun r =>
    match r with
    | .sp => 0x80007f00
    | .ra => 0x80003000
    | .a0 => number
    | _ => 0
  mem := fun a =>
    if a = 0x80002000 then boardHandler
    else if a = 0x80006000 then 0x80007000
    else if a = 0x80006008 then 0x80008000
    else if a = 0x80006010 then 1
    else if a = 0x80007018 then signal
    else if a = 0x80007320 then blocked
    else if a = 0x80007f00 then 0x80003000
    else 0

variable (number signal blocked : Word)

theorem board_sp : (boardMachine number signal blocked).reg .sp = 0x80007f00 := rfl

theorem board_current : (boardMachine number signal blocked).mem board.current = 0x80007000 := rfl

theorem board_currentTask : CurrentTask board (boardMachine number signal blocked) where
  aligned := by rw [board_current]; decide
  low := by rw [board_current, board_sp]; decide
  high := by rw [board_current, board_sp]; decide
  pointer := by rw [board_current]; decide

end Board

end K210Linux.Kernel
