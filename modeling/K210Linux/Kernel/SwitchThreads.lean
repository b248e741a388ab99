import K210Linux.Kernel.ContextSwitch

/-! The processor refines threads with registers of their own. -/

namespace K210Linux.Kernel.Switching

open K210Linux.Lib.Riscv

section Places

variable {t u : Thread} {sp a : Word} {sym : SwitchSymbols} {task : Nat → Option Thread} {i j : Nat}

theorem Thread.tss_slot (t : Thread) (i : Nat) (bound : i ≤ epcSlot) : t.Tss (slot t.tss i) := by
  unfold epcSlot at bound
  unfold Thread.Tss InRange epcSlot
  rw [slot_offset _ _ (by omega)]
  omega

theorem OnStack.below (on : OnStack t sp) (n : Nat) (bound : n ≤ 65) (positive : 0 < n) :
    t.Stack (sp - BitVec.ofNat 64 (8 * n)) := by
  rcases on with ⟨-, low, high⟩
  have size : kernelStackSize.toNat = 32768 := rfl
  unfold Thread.Stack InRange
  rw [size] at high ⊢
  bv_omega

theorem OnStack.frame (on : OnStack t sp) (i : Nat) (bound : i < 64) : t.Stack (slot (sp + -registerFrame) i) := by
  have place : slot (sp + -registerFrame) i = sp - BitVec.ofNat 64 (8 * (64 - i)) := by
    have size : registerFrame = 512 := rfl
    unfold slot
    rw [size]
    bv_omega
  rw [place]
  exact on.below _ (by omega) (by omega)

theorem OnStack.belowFrame (on : OnStack t sp) : t.Stack (sp + -registerFrame + -regBytes) := by
  have place : sp + -registerFrame + -regBytes = sp - BitVec.ofNat 64 (8 * 65) := by
    have size : registerFrame = 512 := rfl
    have one : regBytes = 8 := rfl
    rw [size, one]
    bv_omega
  rw [place]
  exact on.below _ (by omega) (by omega)

theorem Layout.ne_of_owns (layout : Layout sym task) (other : i ≠ j) (first : task i = some t)
    (second : task j = some u) {b : Word} (owns : t.Owns a) (owns' : u.Owns b) : a ≠ b := by
  intro same
  exact layout.apart i j t u other first second a owns (same ▸ owns')

theorem Layout.stack_ne_tss (layout : Layout sym task) (here : task i = some t) {b : Word} (stack : t.Stack a)
    (tss : t.Tss b) : a ≠ b := by
  intro same
  exact layout.own i t here a stack (same ▸ tss)

end Places

section Copies

variable {mem : Word → Word} {dst src a : Word} {n i : Nat}

theorem copyDoublewords_other (outside : ∀ i < n, a ≠ slot dst i) : copyDoublewords mem dst src n a = mem a := by
  induction n with
  | zero => rfl
  | succ n ih =>
    simp only [copyDoublewords]
    rw [Function.update_of_ne (outside n (by omega)), ih fun i bound => outside i (by omega)]

theorem copyDoublewords_same (apart : ∀ i < n, ∀ j < n, slot src i ≠ slot dst j) (short : n ≤ 64) (bound : i < n) :
    copyDoublewords mem dst src n (slot dst i) = mem (slot src i) := by
  induction n with
  | zero => omega
  | succ n ih =>
    simp only [copyDoublewords]
    by_cases last : i = n
    · subst last
      rw [Function.update_self, copyDoublewords_other fun j low => apart i (by omega) j (by omega)]
    · have other : slot dst i ≠ slot dst n := by
        intro same
        exact last ((slot_inj (by omega) (by omega)).mp same)
      rw [Function.update_of_ne other]
      exact ih (fun i low j low' => apart i (by omega) j (by omega)) (by omega) (by omega)

end Copies

section Child

variable {sym : SwitchSymbols} {s : Processor} {parent child : Thread} {a : Word}

/-- The first frame of a child. -/
theorem child_frame (child : Thread) : child.kernelStack - 8 * 32 - 8 * 32 = child.kernelStack + -registerFrame := by
  have size : registerFrame = 512 := rfl
  rw [size]
  bv_omega

theorem child_onStack (aligned : Aligned child.kernelStack) : OnStack child child.kernelStack := by
  have size : kernelStackSize.toNat = 32768 := rfl
  have whole : child.kernelStack - child.stackBottom = kernelStackSize := by
    unfold Thread.stackBottom
    bv_omega
  constructor
  · exact aligned
  · rw [whole, size]
    decide
  · rw [whole]

theorem childMemory_other (aligned : Aligned child.kernelStack) (outside : ¬ child.Owns a) :
    childMemory sym s parent child a = s.machine.mem a := by
  have on := child_onStack aligned
  have frame : ∀ i < 64, a ≠ slot (child.kernelStack + -registerFrame) i := by
    intro i bound same
    exact outside (.inl (same ▸ on.frame i bound))
  have tss : ∀ i ≤ epcSlot, a ≠ slot child.tss i := by
    intro i bound same
    exact outside (.inr (same ▸ child.tss_slot i bound))
  have below : a ≠ child.kernelStack + -registerFrame + -regBytes := by
    intro same
    exact outside (.inl (same ▸ on.belowFrame))
  simp only [childMemory, child_frame]
  rw [Function.update_of_ne below, Function.update_of_ne (frame regRa (by decide)),
    Function.update_of_ne (frame regA0 (by decide)), Function.update_of_ne (tss epcSlot (le_refl _)),
    copyDoublewords_other, copyDoublewords_other, Function.update_of_ne (tss regSp (by decide)), copyDoublewords_other]
  · intro i bound
    exact tss i (by omega)
  · intro i bound
    exact frame i (by omega)
  · intro i bound
    rw [slot_slot]
    exact frame (32 + i) (by omega)

/-- The child has its memory for itself. -/
structure Fresh (s : Processor) (child : Thread) : Prop where
  aligned : Aligned child.kernelStack
  own : ∀ a, child.Stack a → ¬ child.Tss a
  trap : ∀ i < 32, ¬ child.Owns (slot s.trapInfo.regs i) ∧ ¬ child.Owns (slot s.trapInfo.fregs i)

theorem childMemory_tss (fresh : Fresh s child) :
    childMemory sym s parent child (slot child.tss 2) = child.kernelStack + -registerFrame := by
  have on := child_onStack fresh.aligned
  have frame : ∀ i < 64, slot child.tss 2 ≠ slot (child.kernelStack + -registerFrame) i := by
    intro i bound same
    exact fresh.own _ (on.frame i bound) (same ▸ child.tss_slot 2 (by decide))
  have below : slot child.tss 2 ≠ child.kernelStack + -registerFrame + -regBytes := by
    intro same
    exact fresh.own _ on.belowFrame (same ▸ child.tss_slot 2 (by decide))
  have epc : slot child.tss 2 ≠ slot child.tss epcSlot := fun same =>
    absurd ((slot_inj (by decide) (by decide)).mp same) (by decide)
  simp only [childMemory, child_frame]
  rw [Function.update_of_ne below, Function.update_of_ne (frame regRa (by decide)),
    Function.update_of_ne (frame regA0 (by decide)), Function.update_of_ne epc, copyDoublewords_other,
    copyDoublewords_other]
  · exact Function.update_self ..
  · intro i bound
    exact frame i (by omega)
  · intro i bound
    rw [slot_slot]
    exact frame (32 + i) (by omega)

/-- The frame of the child before `a0`, `ra` and the doubleword below are set. -/
theorem childMemory_copied (fresh : Fresh s child) (mem : Word → Word)
    (source : ∀ i < 32, mem (slot s.trapInfo.regs i) = s.machine.mem (slot s.trapInfo.regs i) ∧
      mem (slot s.trapInfo.fregs i) = s.machine.mem (slot s.trapInfo.fregs i)) :
    let sp := child.kernelStack + -registerFrame
    let copied := copyDoublewords (copyDoublewords mem sp s.trapInfo.regs 32) (slot sp 32) s.trapInfo.fregs 32
    ∀ i < 32, copied (slot sp i) = s.machine.mem (slot s.trapInfo.regs i) ∧
      copied (slot sp (32 + i)) = s.machine.mem (slot s.trapInfo.fregs i) := by
  intro sp copied i bound
  have on := child_onStack fresh.aligned
  have regs : ∀ i < 32, ∀ j < 32, slot s.trapInfo.regs i ≠ slot sp j := by
    intro i low j high same
    apply (fresh.trap i low).1
    rw [same]
    exact .inl (on.frame j (by omega))
  have fregs : ∀ i < 32, ∀ j < 64, slot s.trapInfo.fregs i ≠ slot sp j := by
    intro i low j high same
    apply (fresh.trap i low).2
    rw [same]
    exact .inl (on.frame j high)
  constructor
  · have behind : ∀ j < 32, slot sp i ≠ slot (slot sp 32) j := by
      intro j low same
      rw [slot_slot] at same
      have numbers := (slot_inj (by omega) (by omega)).mp same
      omega
    rw [← (source i bound).1]
    exact (copyDoublewords_other behind).trans (copyDoublewords_same regs (by decide) bound)
  · have apart : ∀ i < 32, ∀ j < 32, slot s.trapInfo.fregs i ≠ slot (slot sp 32) j := by
      intro i low j high
      rw [slot_slot]
      exact fregs i low (32 + j) (by omega)
    rw [← (source i bound).2, ← slot_slot]
    apply (copyDoublewords_same apart (by decide) bound).trans
    exact copyDoublewords_other fun j low => fregs i bound j (by omega)

/-- The first switch to a child loads the registers of its parent's trap. -/
theorem childMemory_saved (fresh : Fresh s child) : SavedAt (childMemory sym s parent child)
    (child.kernelStack + -registerFrame) (childContext sym s child).reg (childContext sym s child).freg := by
  have on := child_onStack fresh.aligned
  let sp := child.kernelStack + -registerFrame
  let copy := copyDoublewords s.machine.mem child.tss parent.tss (epcSlot + 1)
  let mem := Function.update copy (slot child.tss regSp) sp
  have kept : ∀ a, ¬ child.Owns a → mem a = s.machine.mem a := by
    intro a outside
    have tss : ∀ i ≤ epcSlot, a ≠ slot child.tss i := by
      intro i bound same
      exact outside (.inr (same ▸ child.tss_slot i bound))
    exact (Function.update_of_ne (tss regSp (by decide)) ..).trans
      (copyDoublewords_other fun i bound => tss i (by omega))
  have copied := childMemory_copied fresh mem fun i bound =>
    ⟨kept _ (fresh.trap i bound).1, kept _ (fresh.trap i bound).2⟩
  have apart : ∀ i < 64, ∀ j < 64, i ≠ j → slot sp i ≠ slot sp j := by
    intro i low j high other same
    exact other ((slot_inj (by omega) (by omega)).mp same)
  have epc : ∀ i < 64, slot sp i ≠ slot child.tss epcSlot := by
    intro i bound same
    apply fresh.own _ (on.frame i bound)
    rw [same]
    exact child.tss_slot epcSlot (le_refl _)
  constructor
  · intro r other
    have bound : r.number < 64 := by
      have := r.number_lt
      omega
    simp only [childMemory, child_frame]
    rw [Function.update_of_ne (below_frame sp bound)]
    by_cases ra : r = .ra
    · subst ra
      simp only [childContext, reduceCtorEq, if_false, if_true]
      exact Function.update_self ..
    · have notRa : r.number ≠ regRa := fun same => ra (Reg.number_injective same)
      rw [Function.update_of_ne (apart _ bound regRa (by decide) notRa)]
      by_cases a0 : r = .a0
      · subst a0
        simp only [childContext, reduceCtorEq, if_false, if_true]
        exact Function.update_self ..
      · have notA0 : r.number ≠ regA0 := fun same => a0 (Reg.number_injective same)
        rw [Function.update_of_ne (apart _ bound regA0 (by decide) notA0), Function.update_of_ne (epc _ bound)]
        simp only [childContext, if_neg other, if_neg ra, if_neg a0]
        exact (copied r.number r.number_lt).1
  · intro j
    have notRa : 32 + (j : Nat) ≠ regRa := by
      have one : regRa = 1 := rfl
      omega
    have notA0 : 32 + (j : Nat) ≠ regA0 := by
      have ten : regA0 = 10 := rfl
      omega
    simp only [childMemory, child_frame]
    rw [Function.update_of_ne (below_frame sp (by omega)),
      Function.update_of_ne (apart _ (by omega) regRa (by decide) notRa),
      Function.update_of_ne (apart _ (by omega) regA0 (by decide) notA0), Function.update_of_ne (epc _ (by omega))]
    exact congrArg lowHalf (copied j j.isLt).2

end Child

end K210Linux.Kernel.Switching
