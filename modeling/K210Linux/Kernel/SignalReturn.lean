import K210Linux.Kernel.SystemCall

/-! What `ret_from_sys_call` does to the pending signals of a task. -/

namespace K210Linux.Kernel

open K210Linux.Lib.Riscv

section Scan

variable {v : BitVec 64} {b : Nat}

/-- The lowest signal of a set, counted from 0. -/
def Least (v : BitVec 64) (b : Nat) : Prop := v.getLsbD b = true ∧ ∀ b' < b, v.getLsbD b' = false

theorem Least.lt (least : Least v b) : b < 64 := by
  by_contra high
  have clear := BitVec.getLsbD_of_ge v b (by omega)
  rw [least.1] at clear
  cases clear

theorem Least.ne_zero (least : Least v b) : v ≠ 0 := by
  rintro rfl
  have set := least.1
  rw [BitVec.ofNat_eq_ofNat, BitVec.getLsbD_zero] at set
  cases set

theorem bitscanFrom_cases (v : BitVec 64) (i left : Nat) :
    (bitscanFrom v i left = none ∧ ∀ k < left, v.getLsbD k = false) ∨ ∃ b, bitscanFrom v i left = some (i + b) ∧ Least v b := by
  induction left generalizing v i with
  | zero => exact .inl ⟨rfl, fun k bound => by omega⟩
  | succ left ih =>
    rw [bitscanFrom]
    by_cases set : v.getLsbD 0 = true
    · rw [if_pos set]
      exact .inr ⟨0, rfl, set, fun k bound => by omega⟩
    · rw [if_neg set]
      have clear : v.getLsbD 0 = false := by
        rwa [Bool.not_eq_true] at set
      rcases ih (v >>> 1) (i + 1) with ⟨none, rest⟩ | ⟨b, found, least⟩
      · refine .inl ⟨none, ?_⟩
        intro k bound
        cases k with
        | zero => exact clear
        | succ k =>
          have shifted := rest k (by omega)
          rwa [BitVec.getLsbD_ushiftRight, Nat.add_comm] at shifted
      · refine .inr ⟨b + 1, ?_, ?_, ?_⟩
        · rw [found]
          congr 1
          omega
        · have set := least.1
          rwa [BitVec.getLsbD_ushiftRight, Nat.add_comm] at set
        · intro k bound
          cases k with
          | zero => exact clear
          | succ k =>
            have shifted := least.2 k (by omega)
            rwa [BitVec.getLsbD_ushiftRight, Nat.add_comm] at shifted

theorem bitscan_zero : bitscanResult 0 = -1 := by decide

theorem Least.bitscan (least : Least v b) : bitscanResult v = BitVec.ofNat 64 b := by
  unfold bitscanResult Kernel.bitscan
  rcases bitscanFrom_cases v 0 64 with ⟨-, clear⟩ | ⟨b', found, least'⟩
  · have none := clear b least.lt
    rw [least.1] at none
    cases none
  · have same : b' = b := by
      rcases Nat.lt_trichotomy b' b with before | same | after
      · have clear := least.2 b' before
        rw [least'.1] at clear
        cases clear
      · exact same
      · have clear := least'.2 b after
        rw [least.1] at clear
        cases clear
    rw [found, Nat.zero_add, same]

theorem exists_least (other : v ≠ 0) : ∃ b, Least v b := by
  rcases bitscanFrom_cases v 0 64 with ⟨-, clear⟩ | ⟨b, -, least⟩
  · refine absurd ?_ other
    apply BitVec.eq_of_getLsbD_eq
    intro k bound
    rw [clear k bound, BitVec.ofNat_eq_ofNat, BitVec.getLsbD_zero]
  · exact ⟨b, least⟩

theorem shifted_bit {i : Nat} (bound : i < 64) : ((1 : Word) <<< b).getLsbD i = decide (i = b) := by
  rw [BitVec.getLsbD_shiftLeft, decide_eq_true bound, Bool.true_and]
  by_cases before : i < b
  · rw [decide_eq_true before, decide_eq_false (by omega)]
    rfl
  · rw [decide_eq_false before, Bool.not_false, Bool.true_and]
    simp
    omega

end Scan

section Delivery

variable {I : Image} {L : Symbols} {m m' : Machine} {stop : Word} {b : Nat}

/-- Between the prologue and the epilogue of `system_call`. -/
structure InSystemCall (L : Symbols) (stop : Word) (m : Machine) : Prop where
  aligned : Aligned (m.reg .sp)
  returns : jumpTarget (m.mem (m.reg .sp)) = stop
  task : CurrentTask L m

/-- Where `do_signal` returns, it has left the pending set of the current task as it was. -/
def DoSignalKeeps (I : Image) (L : Symbols) : Prop :=
  ∀ m m', I.function L.doSignal m = some m' →
    Returned 2 m m' ∧ m'.mem (m.mem L.current + signalOffset) = m.mem (m.mem L.current + signalOffset)

def pendingSet (L : Symbols) (m : Machine) : Word := m.mem (m.mem L.current + signalOffset)
def blockedSet (L : Symbols) (m : Machine) : Word := m.mem (m.mem L.current + blockedOffset)

/-- The least signal that is pending and not blocked is delivered, and taken off the pending set; without one nothing
    changes. -/
structure DeliversOne (I : Image) (L : Symbols) (stop : Word) (m : Machine) : Prop where
  nothing : pendingSet L m &&& ~~~ blockedSet L m = 0 → ∃ calls m', Ends I stop (L.place retFromSysCall, m) calls (stop, m') ∧
    (∀ c ∈ calls, c.1 ≠ L.doSignal) ∧ m'.mem = m.mem
  one : ∀ b, Least (pendingSet L m &&& ~~~ blockedSet L m) b →
    ∃ calls s' h, Ends I stop (L.place retFromSysCall, m) calls s' ∧ calls.filter (·.1 = L.doSignal) = [(L.doSignal, h)] ∧
      h.reg .a0 = BitVec.ofNat 64 (b + 1) ∧
      s'.2.mem (m.mem L.current + signalOffset) = pendingSet L m &&& ~~~ ((1 : Word) <<< b)

/-- Without a signal to deliver, control reaches the epilogue with memory as it was. -/
theorem without_signal (linked : Linked I L) (off : ReturnsTo L stop) (keeps : BitscanKeeps I L) (task : CurrentTask L m)
    (enabled : DeliveryEnabled L m) (none : pendingSet L m &&& ~~~ blockedSet L m = 0) :
    ∃ h m', Leads I stop (L.place retFromSysCall, m) [(L.bitscan, h)] (L.place epilogue, m') ∧ m'.mem = m.mem ∧
      m'.reg .sp = m.reg .sp ∧ m'.reg .s0 = m.reg .s0 := by
  rcases delivery_enabled linked off enabled with ⟨m₁, tested, pointer, touches₁⟩
  have aligned : Aligned (m₁.reg .t0) := by
    rw [pointer]
    exact task.aligned
  rcases scanned linked off keeps aligned with ⟨m₂, h, scan, mem₂, value, -, -, sp₂, s0₂⟩
  have minus : m₂.reg .a0 = -1 := by
    rw [value, pointer, touches₁.mem]
    exact (congrArg bitscanResult none).trans bitscan_zero
  rcases none_found linked off minus with ⟨m₃, found, touches₃⟩
  refine ⟨h, m₃, tested.trans (scan.trans found), ?_, ?_, ?_⟩
  · rw [touches₃.mem, mem₂, touches₁.mem]
  · rw [touches₃.others .sp (by decide), sp₂, touches₁.others .sp (by decide)]
  · rw [touches₃.others .s0 (by decide), s0₂, touches₁.others .s0 (by decide)]

/-- With one, control reaches `do_signal`. What is stored is the masked set without the signal. -/
theorem with_signal (linked : Linked I L) (off : ReturnsTo L stop) (keeps : BitscanKeeps I L) (task : CurrentTask L m)
    (enabled : DeliveryEnabled L m) (least : Least (pendingSet L m &&& ~~~ blockedSet L m) b) :
    ∃ h₁ h, Leads I stop (L.place retFromSysCall, m) [(L.bitscan, h₁), (L.doSignal, h)] (L.doSignal, h) ∧
      h.mem = Function.update m.mem (m.mem L.current + signalOffset)
        (pendingSet L m &&& ~~~ blockedSet L m &&& ~~~ ((1 : Word) <<< b)) ∧
      h.reg .a0 = BitVec.ofNat 64 (b + 1) ∧ h.reg .ra = L.place epilogue ∧ h.reg .sp = m.reg .sp ∧ h.reg .s0 = m.reg .s0 := by
  rcases delivery_enabled linked off enabled with ⟨m₁, tested, pointer, touches₁⟩
  have aligned : Aligned (m₁.reg .t0) := by
    rw [pointer]
    exact task.aligned
  rcases scanned linked off keeps aligned with ⟨m₂, h₁, scan, mem₂, value, t0, t1, sp₂, s0₂⟩
  rw [pointer] at t0
  rw [pointer, touches₁.mem] at value t1
  have aligned₂ : Aligned (m₂.reg .t0) := by
    rw [t0]
    exact task.aligned
  rcases one_found linked off aligned₂ (value.trans least.bitscan) least.lt with ⟨h, found, mem, a0, ra, sp, s0⟩
  rw [mem₂, touches₁.mem, t0, t1] at mem
  refine ⟨h₁, h, tested.trans (scan.trans found), mem, a0, ra, ?_, ?_⟩
  · rw [sp, sp₂, touches₁.others .sp (by decide)]
  · rw [s0, s0₂, touches₁.others .s0 (by decide)]

theorem nothing_delivered (linked : Linked I L) (off : ReturnsTo L stop) (keeps : BitscanKeeps I L) (here : InSystemCall L stop m)
    (enabled : DeliveryEnabled L m) (none : pendingSet L m &&& ~~~ blockedSet L m = 0) :
    ∃ h m', Ends I stop (L.place retFromSysCall, m) [(L.bitscan, h)] (stop, m') ∧ m'.mem = m.mem := by
  rcases without_signal linked off keeps here.task enabled none with ⟨h, m₁, leads, mem, sp, -⟩
  have aligned : Aligned (m₁.reg .sp) := by
    rw [sp]
    exact here.aligned
  have saved : jumpTarget (m₁.mem (m₁.reg .sp)) = stop := by
    rw [mem, sp]
    exact here.returns
  rcases epilogue_returns linked off aligned saved with ⟨m₂, returned, mem₂, -⟩
  exact ⟨h, m₂, (leads.trans returned).ends (.inl rfl), mem₂.trans mem⟩

theorem one_delivered (linked : Linked I L) (off : ReturnsTo L stop) (keeps : BitscanKeeps I L) (signal : DoSignalKeeps I L)
    (here : InSystemCall L stop m) (enabled : DeliveryEnabled L m) (least : Least (pendingSet L m &&& ~~~ blockedSet L m) b) :
    ∃ h₁ h s', Ends I stop (L.place retFromSysCall, m) [(L.bitscan, h₁), (L.doSignal, h)] s' ∧
      h.reg .a0 = BitVec.ofNat 64 (b + 1) ∧
      s'.2.mem (m.mem L.current + signalOffset) = pendingSet L m &&& ~~~ blockedSet L m &&& ~~~ ((1 : Word) <<< b) := by
  rcases with_signal linked off keeps here.task enabled least with ⟨h₁, h, leads, mem, a0, ra, sp, -⟩
  have stored : h.mem (m.mem L.current + signalOffset) = pendingSet L m &&& ~~~ blockedSet L m &&& ~~~ ((1 : Word) <<< b) := by
    rw [mem, Function.update_self]
  cases returns : I.function L.doSignal h with
  | none =>
    refine ⟨h₁, h, _, leads.ends (.inr ?_), a0, stored⟩
    simp only [step, linked.doSignal, returns, Option.map_none]
  | some m₁ =>
    rcases signal h m₁ returns with ⟨returned, kept⟩
    have back := Leads.function off.doSignal linked.doSignal returns
    rw [ra, linked.even] at back
    have sp₁ : m₁.reg .sp = m.reg .sp := (returned.saved .sp rfl).trans sp
    have aligned : Aligned (m₁.reg .sp) := by
      rw [sp₁]
      exact here.aligned
    have saved : jumpTarget (m₁.mem (m₁.reg .sp)) = stop := by
      rw [returned.saved .sp rfl, returned_low returned, sp, mem, Function.update_of_ne here.task.low]
      exact here.returns
    rcases epilogue_returns linked off aligned saved with ⟨m₂, returned₂, mem₂, -⟩
    refine ⟨h₁, h, _, (leads.trans (back.trans returned₂)).ends (.inl rfl), a0, ?_⟩
    have pointer : h.mem L.current = m.mem L.current := by
      rw [mem, Function.update_of_ne here.task.pointer]
    rw [pointer] at kept
    exact (congrFun mem₂ _).trans (kept.trans stored)

theorem DeliversOne.of_unblocked (linked : Linked I L) (off : ReturnsTo L stop) (keeps : BitscanKeeps I L) (signal : DoSignalKeeps I L)
    (here : InSystemCall L stop m) (enabled : DeliveryEnabled L m)
    (unblocked : pendingSet L m &&& ~~~ blockedSet L m = 0 ∨ pendingSet L m &&& blockedSet L m = 0) :
    DeliversOne I L stop m := by
  constructor
  · intro none
    rcases nothing_delivered linked off keeps here enabled none with ⟨h, m', ends, mem⟩
    refine ⟨_, m', ends, ?_, mem⟩
    intro c called
    rw [List.mem_singleton.mp called]
    exact linked.distinct
  · intro b least
    rcases one_delivered linked off keeps signal here enabled least with ⟨h₁, h, s', ends, a0, mem⟩
    refine ⟨_, s', h, ends, ?_, a0, ?_⟩
    · simp [linked.distinct]
    · rw [mem]
      rcases unblocked with none | apart
      · exact absurd none least.ne_zero
      · have same : pendingSet L m &&& ~~~ blockedSet L m = pendingSet L m := by
          apply BitVec.eq_of_getLsbD_eq
          intro i bound
          have bit := congrArg (fun v : Word => v.getLsbD i) apart
          simp only [BitVec.ofNat_eq_ofNat, BitVec.getLsbD_and, BitVec.getLsbD_zero, Bool.and_eq_false_iff] at bit
          rw [BitVec.getLsbD_and, BitVec.getLsbD_not, decide_eq_true bound, Bool.true_and]
          rcases bit with clear | clear
          · rw [clear, Bool.false_and]
          · rw [clear, Bool.not_false, Bool.and_true]
        rw [same]

/-- A blocked signal that is pending is lost when another one is delivered. -/
theorem blocked_lost (linked : Linked I L) (off : ReturnsTo L stop) (keeps : BitscanKeeps I L) (signal : DoSignalKeeps I L)
    (here : InSystemCall L stop m) (enabled : DeliveryEnabled L m) (some : pendingSet L m &&& ~~~ blockedSet L m ≠ 0)
    (blocked : pendingSet L m &&& blockedSet L m ≠ 0) : ¬ DeliversOne I L stop m := by
  intro delivers
  rcases exists_least some with ⟨b, least⟩
  rcases one_delivered linked off keeps signal here enabled least with ⟨h₁, h, s', ends, -, mem⟩
  rcases delivers.one b least with ⟨calls, s₁, h₂, ends', -, -, mem'⟩
  rcases ends.unique ends' with ⟨-, rfl⟩
  rw [mem] at mem'
  apply blocked
  apply BitVec.eq_of_getLsbD_eq
  intro i bound
  have bit := congrArg (fun v : Word => v.getLsbD i) mem'
  have free := least.1
  simp only [BitVec.getLsbD_and, BitVec.getLsbD_not, shifted_bit bound] at bit
  rw [BitVec.getLsbD_and, BitVec.getLsbD_not, decide_eq_true least.lt, Bool.true_and] at free
  rw [BitVec.getLsbD_and, BitVec.ofNat_eq_ofNat, BitVec.getLsbD_zero]
  by_cases same : i = b
  · subst same
    rw [Bool.and_eq_true, Bool.not_eq_true'] at free
    rw [free.2, Bool.and_false]
  · simp only [bound, decide_true, Bool.true_and, decide_eq_false same, Bool.not_false, Bool.and_true] at bit
    rw [← bit, Bool.and_assoc, Bool.not_and_self, Bool.and_false]

theorem board_doSignalKeeps : DoSignalKeeps boardImage board := by
  intro m m' returns
  rw [board_returns (.inl rfl)] at returns
  cases returns
  exact ⟨returned_self m, rfl⟩

theorem board_inSystemCall (number signal blocked : Word) :
    InSystemCall board 0x80003000 (boardMachine number signal blocked) where
  aligned := by rw [board_sp]; decide
  returns := by
    rw [board_sp]
    exact jumpTarget_of_even (a := 0x80003000) (by decide)
  task := board_currentTask ..

end Delivery

end K210Linux.Kernel
