import K210Linux.Kernel.SignalReturn

/-! Which entry of `sys_call_table` a number leads to, and how `system_call` returns. -/

namespace K210Linux.Kernel

open K210Linux.Lib.Riscv

variable {I : Image} {L : Symbols} {m m₁ : Machine} {stop : Word}

/-- What the caller of `system_call` provides: two doublewords of stack apart from the table, `current` and the task. -/
structure SystemCallEntry (L : Symbols) (m : Machine) : Prop where
  aligned : Aligned (m.reg .sp)
  task : Aligned (m.mem L.current)
  pointer : L.current ≠ m.mem L.current + signalOffset
  frame : ∀ a, a = m.reg .sp + -frameBytes ∨ a = m.reg .sp + -frameBytes + regBytes →
    a ≠ L.current ∧ a ≠ m.mem L.current + signalOffset ∧ a ≠ L.entry (m.reg .a0)

/-- A number leads to its entry of the table or to the value -1, and the caller gets its registers back. A call that
    returns behind the `jalr`, at 16, is one through the table. -/
def Dispatches (I : Image) (L : Symbols) (m : Machine) : Prop :=
  ∃ calls m', Ends I (jumpTarget (m.reg .ra)) (L.place systemCallEntry, m) calls (jumpTarget (m.reg .ra), m') ∧
    m'.reg .sp = m.reg .sp ∧ m'.reg .ra = m.reg .ra ∧ m'.reg .s0 = m.reg .s0 ∧
    (((m.reg .a0).toNat < 2048 ∧ m.mem (L.entry (m.reg .a0)) ≠ 0 ∧
        ∃ h rest, calls = (jumpTarget (m.mem (L.entry (m.reg .a0))), h) :: rest) ∨
      ((∀ c ∈ calls, c.2.reg .ra ≠ L.place 16) ∧ m'.reg .a0 = -1))

/-- From `ret_from_sys_call` on, the caller gets back what the prologue saved, and the value of the handler. -/
theorem ret_returns (linked : Linked I L) (off : ReturnsTo L stop) (keeps : BitscanKeeps I L)
    (signal : ReturnsInTask I L L.doSignal) (here : InSystemCall L stop m) :
    ∃ calls m', Leads I stop (L.place retFromSysCall, m) calls (stop, m') ∧ m'.reg .a0 = m.reg .s0 ∧
      m'.reg .s0 = m.mem (m.reg .sp + regBytes) ∧ m'.reg .ra = m.mem (m.reg .sp) ∧ m'.reg .sp = m.reg .sp + frameBytes := by
  have reaches : ∃ calls m₁, Leads I stop (L.place retFromSysCall, m) calls (L.place epilogue, m₁) ∧
      m₁.reg .sp = m.reg .sp ∧ m₁.reg .s0 = m.reg .s0 ∧ m₁.mem (m.reg .sp) = m.mem (m.reg .sp) ∧
      m₁.mem (m.reg .sp + regBytes) = m.mem (m.reg .sp + regBytes) := by
    by_cases enabled : DeliveryEnabled L m
    · by_cases none : pendingSet L m &&& ~~~ blockedSet L m = 0
      · rcases without_signal linked off keeps here.task enabled none with ⟨h, m₁, leads, mem, sp, s0⟩
        exact ⟨_, m₁, leads, sp, s0, by rw [mem], by rw [mem]⟩
      · rcases exists_least none with ⟨b, least⟩
        rcases with_signal linked off keeps here.task enabled least with ⟨h₁, h, leads, mem, -, ra, sp, s0⟩
        have pointer : h.mem L.current = m.mem L.current := by
          rw [mem, Function.update_of_ne here.task.pointer]
        have task : CurrentTask L h := by
          refine ⟨?_, ?_, ?_, ?_⟩
          · rw [pointer]
            exact here.task.aligned
          · rw [pointer, sp]
            exact here.task.low
          · rw [pointer, sp]
            exact here.task.high
          · rw [pointer]
            exact here.task.pointer
        rcases signal h task with ⟨m₁, returns, returned, -⟩
        have back := Leads.function off.doSignal linked.doSignal returns
        rw [ra, linked.even] at back
        refine ⟨_, m₁, leads.trans back, (returned.saved .sp rfl).trans sp, (returned.saved .s0 rfl).trans s0, ?_, ?_⟩
        · rw [← sp, returned_low returned, sp, mem, Function.update_of_ne here.task.low]
        · rw [← sp, returned_high returned, sp, mem, Function.update_of_ne here.task.high]
    · rcases delivery_disabled linked off enabled with ⟨m₁, leads, touches⟩
      exact ⟨_, m₁, leads, touches.others .sp (by decide), touches.others .s0 (by decide), by rw [touches.mem], by rw [touches.mem]⟩
  rcases reaches with ⟨calls, m₁, leads, sp, s0, low, high⟩
  have aligned : Aligned (m₁.reg .sp) := by
    rw [sp]
    exact here.aligned
  have saved : jumpTarget (m₁.mem (m₁.reg .sp)) = stop := by
    rw [sp, low]
    exact here.returns
  rcases epilogue_returns linked off aligned saved with ⟨m₂, returned, -, a0₂, s0₂, ra₂, sp₂⟩
  refine ⟨_, m₂, leads.trans returned, a0₂.trans s0, ?_, ?_, ?_⟩
  · rw [s0₂, sp, high]
  · rw [ra₂, sp, low]
  · rw [sp₂, sp]

theorem distance_of_known {n : Word} (known : n.toNat < 2048) : ¬ (nrSystemCalls - 1 - n).toInt < 0 := by
  have last : (nrSystemCalls - 1).toNat = 2047 := rfl
  have difference : (nrSystemCalls - 1 - n).toNat = 2047 - n.toNat := by
    rw [BitVec.toNat_sub, last]
    omega
  rw [BitVec.toInt_eq_toNat_cond, difference]
  split <;> omega

/-- The prologue and the branch behind it. -/
theorem entered (linked : Linked I L) (off : ReturnsTo L stop) (aligned : Aligned (m.reg .sp)) :
    ∃ m₁, Entered m m₁ ∧ Leads I stop (L.place systemCallEntry, m) []
      (if (nrSystemCalls - 1 - m.reg .a0).toInt < 0 then L.place 0 else L.place 8, m₁) := by
  rcases prologue_enters aligned with ⟨m₁, done, entered⟩
  have first := Leads.straight (i := systemCallEntry) linked.loaded off.place done ⟨_, rfl⟩
  have branch := Leads.jump (i := 7) (m := m₁) linked.loaded off.place rfl rfl
  rw [entered.t0] at branch
  exact ⟨m₁, entered, first.trans branch⟩

/-- `bad_sys_call` returns without the epilogue. -/
theorem bad_sys_call (linked : Linked I L) (off : ReturnsTo L stop) (ra : jumpTarget (m.reg .ra) = stop) :
    Leads I stop (L.place 0, m) [] (stop, m.set .a0 (-1)) := by
  have done : effects [.li .a0 (-1)] m = some (m.set .a0 (-1)) := effects_cons rfl rfl
  have loaded := Leads.straight (i := 0) linked.loaded off.place done ⟨_, rfl⟩
  have returned := Leads.jump (i := 1) (m := m.set .a0 (-1)) linked.loaded off.place rfl rfl
  rw [Machine.set_other (by decide), ra] at returned
  exact loaded.trans returned

/-- The entry is called, whatever it is. -/
theorem entry_called (linked : Linked I L) (off : ReturnsTo L stop) (m : Machine) :
    ∃ h, Leads I stop (L.place 8, m) [(jumpTarget (m.mem (L.entry (m.reg .a0))), h)] (jumpTarget (m.mem (L.entry (m.reg .a0))), h) ∧
      h.mem = m.mem ∧ h.reg .ra = L.place 16 ∧ h.reg .sp = m.reg .sp := by
  rcases lookup_finds linked m with ⟨m₁, done, entry, touches⟩
  have looked := Leads.straight (i := 8) linked.loaded off.place done ⟨_, rfl⟩
  have called := Leads.jump (i := 15) (m := m₁) linked.loaded off.place rfl rfl
  rw [entry] at called
  refine ⟨m₁.set .ra (L.place 16), looked.trans called, touches.mem, Machine.set_same, ?_⟩
  rw [Machine.set_other (by decide), touches.others .sp (by decide)]

/-- What is between the handler and `ret_from_sys_call`. -/
def readsCounter (L : Symbols) : List Instr :=
  [.mv .s0 .a0, .li .t0 L.current, .ld .t0 0 .t0, .ld .t1 stateOffset .t0, .ld .t1 counterOffset .t0]

theorem readsCounter_spec (linked : Linked I L) (aligned : Aligned (m.mem L.current)) :
    ∃ m', effects (readsCounter L) m = some m' ∧ m'.reg .s0 = m.reg .a0 ∧ Touches [.s0, .t0, .t1] m m' := by
  have state : Aligned (m.mem L.current + stateOffset) := aligned.add (by decide)
  have counter : Aligned (m.mem L.current + counterOffset) := aligned.add (by decide)
  refine ⟨_, effects_cons rfl (effects_cons rfl (effects_cons (effect_ld (a := L.current) ?_ linked.current)
    (effects_cons (effect_ld (a := m.mem L.current + stateOffset) ?_ state)
      (effects_cons (effect_ld (a := m.mem L.current + counterOffset) ?_ counter) rfl)))), ?_, ?_, ?_⟩
  · simp
  · simp
  · simp
  · simp
  · simp
  · intro r other
    simp at other
    simp [other]

theorem bad_number_not_dispatched (linked : Linked I L) (off : ReturnsTo L (jumpTarget (m.reg .ra))) (aligned : Aligned (m.reg .sp))
    (bad : ¬ ((m.reg .a0).toNat < 2048 ∧ m.mem (L.entry (m.reg .a0)) ≠ 0)) : ¬ Dispatches I L m := by
  rintro ⟨calls, m', ends, sp, -, -, outcome⟩
  rcases entered linked off aligned with ⟨m₁, entered, leads⟩
  split at leads
  · -- the stack pointer of the caller is gone
    have ra : jumpTarget (m₁.reg .ra) = jumpTarget (m.reg .ra) := by
      rw [entered.others .ra (by decide) (by decide)]
    have ends₁ := (leads.trans (bad_sys_call linked off ra)).ends (.inl rfl)
    rcases ends.unique ends₁ with ⟨-, same⟩
    cases (Prod.mk.inj same).2
    rw [Machine.set_other (by decide), entered.sp] at sp
    have zero : -frameBytes = 0 := by
      have cancelled := congrArg (fun v : Word => v - m.reg .sp) sp
      simpa [BitVec.add_comm, BitVec.add_sub_cancel] using cancelled
    exact absurd zero (by decide)
  · rcases entry_called linked off m₁ with ⟨h, called, -, ra, -⟩
    rcases ends.from (leads.trans called) with ⟨rest, split, -⟩
    rcases outcome with ⟨known, entry, -⟩ | ⟨none, -⟩
    · exact bad ⟨known, entry⟩
    · have made : (jumpTarget (m₁.mem (L.entry (m₁.reg .a0))), h) ∈ calls := by
        rw [split]
        exact List.mem_append_left _ List.mem_cons_self
      exact none _ made ra

theorem SystemCallEntry.dispatched (here : SystemCallEntry L m) (linked : Linked I L) (off : ReturnsTo L (jumpTarget (m.reg .ra)))
    (keeps : BitscanKeeps I L) (signal : ReturnsInTask I L L.doSignal) (known : (m.reg .a0).toNat < 2048)
    (entry : m.mem (L.entry (m.reg .a0)) ≠ 0) (handler : ReturnsInTask I L (jumpTarget (m.mem (L.entry (m.reg .a0)))))
    (outside : I.code (jumpTarget (m.mem (L.entry (m.reg .a0)))) = none)
    (elsewhere : jumpTarget (m.mem (L.entry (m.reg .a0))) ≠ jumpTarget (m.reg .ra)) : Dispatches I L m := by
  rcases entered linked off here.aligned with ⟨m₁, entered, leads⟩
  rw [if_neg (distance_of_known known)] at leads
  rcases here.frame _ (.inl rfl) with ⟨lowPointer, lowSignal, lowEntry⟩
  rcases here.frame _ (.inr rfl) with ⟨highPointer, highSignal, highEntry⟩
  have number : m₁.reg .a0 = m.reg .a0 := entered.others .a0 (by decide) (by decide)
  rcases entry_called linked off m₁ with ⟨h, called, mem, ra, sp⟩
  rw [number, entered.mem _ lowEntry.symm highEntry.symm] at called
  have pointer : h.mem L.current = m.mem L.current := by
    rw [mem, entered.mem _ lowPointer.symm highPointer.symm]
  have sp' : h.reg .sp = m.reg .sp + -frameBytes := sp.trans entered.sp
  have task : CurrentTask L h := by
    refine ⟨?_, ?_, ?_, ?_⟩
    · rw [pointer]
      exact here.task
    · rw [pointer, sp']
      exact lowSignal
    · rw [pointer, sp']
      exact highSignal
    · rw [pointer]
      exact here.pointer
  rcases handler h task with ⟨m₂, returns, returned, task₂⟩
  have back := Leads.function elsewhere outside returns
  rw [ra, linked.even] at back
  rcases readsCounter_spec linked task₂.aligned with ⟨m₃, done, -, touches⟩
  have read := Leads.straight (i := 16) linked.loaded off.place done ⟨_, rfl⟩
  have sp₃ : m₃.reg .sp = h.reg .sp := (touches.others .sp (by decide)).trans (returned.saved .sp rfl)
  have low : m₃.mem (h.reg .sp) = m.reg .ra := by
    rw [touches.mem, returned_low returned, sp', mem, entered.savedRa]
  have high : m₃.mem (h.reg .sp + regBytes) = m.reg .s0 := by
    rw [touches.mem, returned_high returned, sp', mem, entered.savedS0]
  have inside : InSystemCall L (jumpTarget (m.reg .ra)) m₃ := by
    refine ⟨?_, ?_, ?_, ?_, ?_, ?_⟩
    · rw [sp₃, sp']
      exact here.aligned.add (by decide)
    · rw [sp₃, low]
    · rw [touches.mem]
      exact task₂.aligned
    · rw [touches.mem, touches.others .sp (by decide)]
      exact task₂.low
    · rw [touches.mem, touches.others .sp (by decide)]
      exact task₂.high
    · rw [touches.mem]
      exact task₂.pointer
  rcases ret_returns linked off keeps signal inside with ⟨calls, m₄, rest, -, s0₄, ra₄, sp₄⟩
  refine ⟨_, m₄, (leads.trans (called.trans (back.trans (read.trans rest)))).ends (.inl rfl), ?_, ?_, ?_, .inl ⟨known, entry, h, _, rfl⟩⟩
  · rw [sp₄, sp₃, sp', BitVec.add_assoc, BitVec.add_left_neg]
    exact BitVec.add_zero _
  · rw [ra₄, sp₃, low]
  · rw [s0₄, sp₃, high]

/-- `system_call` does what it should exactly for the numbers from 0 to 2047 that have an entry in the table. -/
theorem dispatches_iff (linked : Linked I L) (off : ReturnsTo L (jumpTarget (m.reg .ra))) (here : SystemCallEntry L m)
    (keeps : BitscanKeeps I L) (signal : ReturnsInTask I L L.doSignal)
    (handler : (m.reg .a0).toNat < 2048 → m.mem (L.entry (m.reg .a0)) ≠ 0 →
      ReturnsInTask I L (jumpTarget (m.mem (L.entry (m.reg .a0)))) ∧
      I.code (jumpTarget (m.mem (L.entry (m.reg .a0)))) = none ∧
      jumpTarget (m.mem (L.entry (m.reg .a0))) ≠ jumpTarget (m.reg .ra)) :
    Dispatches I L m ↔ (m.reg .a0).toNat < 2048 ∧ m.mem (L.entry (m.reg .a0)) ≠ 0 := by
  constructor
  · intro dispatches
    by_contra bad
    exact bad_number_not_dispatched linked off here.aligned bad dispatches
  · rintro ⟨known, entry⟩
    rcases handler known entry with ⟨returns, outside, elsewhere⟩
    exact here.dispatched linked off keeps signal known entry returns outside elsewhere

section Board

theorem board_entry (number signal blocked : Word)
    (apart : ∀ a, a = 0x80007ef0 ∨ a = 0x80007ef8 → a ≠ board.entry number) :
    SystemCallEntry board (boardMachine number signal blocked) where
  aligned := by rw [board_sp]; decide
  task := by rw [board_current]; decide
  pointer := by rw [board_current]; decide
  frame := by
    rw [board_current, board_sp]
    intro a inside
    refine ⟨?_, ?_, apart a inside⟩
    · rcases inside with rfl | rfl
      · decide
      · decide
    · rcases inside with rfl | rfl
      · decide
      · decide

theorem board_off (number signal blocked : Word) :
    ReturnsTo board (jumpTarget ((boardMachine number signal blocked).reg .ra)) := by
  have target : jumpTarget ((boardMachine number signal blocked).reg .ra) = 0x80003000 :=
    jumpTarget_of_even (a := 0x80003000) (by decide)
  rw [target]
  exact board_returnsTo

theorem board_returnsInTask {f : Word} (function : f = board.doSignal ∨ f = boardHandler) : ReturnsInTask boardImage board f := by
  intro m task
  exact ⟨m, board_returns function m, returned_self m, task⟩

/-- Number 0 has an entry. -/
theorem setup_dispatched : Dispatches boardImage board (boardMachine 0 0 0) := by
  have entry : (boardMachine 0 0 0).mem (board.entry ((boardMachine 0 0 0).reg .a0)) = boardHandler := by decide
  have target : jumpTarget boardHandler = boardHandler := by decide
  refine (dispatches_iff board_linked (board_off 0 0 0) (board_entry 0 0 0 ?_) board_bitscanKeeps
    (board_returnsInTask (.inl rfl)) ?_).mpr ⟨by decide, by rw [entry]; decide⟩
  · rintro a (rfl | rfl)
    · decide
    · decide
  · intro known some
    rw [entry, target]
    exact ⟨board_returnsInTask (.inr rfl), Image.of_outside (by decide), by decide⟩

/-- Number 2048 is refused, and its caller gets another stack pointer back. -/
theorem large_number_not_dispatched : ¬ Dispatches boardImage board (boardMachine 2048 0 0) :=
  bad_number_not_dispatched board_linked (board_off 2048 0 0) (by decide) fun known => absurd known.1 (by decide)

end Board

end K210Linux.Kernel
