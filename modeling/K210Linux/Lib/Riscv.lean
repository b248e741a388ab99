import Mathlib.Logic.Function.Basic
import Mathlib.Tactic

/-! Runs of RV64 assembly code that calls functions by the calling convention. -/

namespace K210Linux.Lib.Riscv

abbrev Word := BitVec 64

/-- The integer registers, without `zero`. -/
inductive Reg
  | ra | sp | gp | tp | t0 | t1 | t2 | s0 | s1 | a0 | a1 | a2 | a3 | a4 | a5 | a6 | a7
  | s2 | s3 | s4 | s5 | s6 | s7 | s8 | s9 | s10 | s11 | t3 | t4 | t5 | t6
  deriving DecidableEq

/-- The instructions as they are written: `li`, `la` (which is `li` of an address), `mv`, `not`, `call` and `ret` count as
    one each, and a label is the address it stands for. -/
inductive Instr
  | addi (rd rs : Reg) (imm : Word)
  | add (rd rs₁ rs₂ : Reg)
  | sub (rd rs₁ rs₂ : Reg)
  | and (rd rs₁ rs₂ : Reg)
  | sll (rd rs₁ rs₂ : Reg)
  | slli (rd rs : Reg) (shift : Nat)
  | not (rd rs : Reg)
  | mv (rd rs : Reg)
  | li (rd : Reg) (value : Word)
  | ld (rd : Reg) (offset : Word) (base : Reg)
  | sd (rs : Reg) (offset : Word) (base : Reg)
  | bltz (rs : Reg) (target : Word)
  | beqz (rs : Reg) (target : Word)
  | jalr (rs : Reg)
  | call (target : Word)
  | ret

/-- The registers, and the doublewords at the addresses that are multiples of 8. -/
structure Machine where
  reg : Reg → Word
  mem : Word → Word

/-- Where a doubleword may be read and written. -/
def Aligned (a : Word) : Prop := a.toNat % 8 = 0

instance (a : Word) : Decidable (Aligned a) := inferInstanceAs (Decidable (_ = _))

def Machine.set (m : Machine) (r : Reg) (v : Word) : Machine := { m with reg := Function.update m.reg r v }

def Machine.write (m : Machine) (a v : Word) : Machine := { m with mem := Function.update m.mem a v }

def Machine.load (m : Machine) (a : Word) : Option Word := if Aligned a then some (m.mem a) else none

def Machine.store (m : Machine) (a v : Word) : Option Machine :=
  if Aligned a then some (m.write a v) else none

/-- What an instruction that is no jump does; `none` is a trap. -/
def Instr.effect (i : Instr) (m : Machine) : Option Machine :=
  match i with
  | addi rd rs imm => some (m.set rd (m.reg rs + imm))
  | add rd rs₁ rs₂ => some (m.set rd (m.reg rs₁ + m.reg rs₂))
  | sub rd rs₁ rs₂ => some (m.set rd (m.reg rs₁ - m.reg rs₂))
  | and rd rs₁ rs₂ => some (m.set rd (m.reg rs₁ &&& m.reg rs₂))
  | sll rd rs₁ rs₂ => some (m.set rd (m.reg rs₁ <<< ((m.reg rs₂).toNat % 64)))
  | slli rd rs shift => some (m.set rd (m.reg rs <<< shift))
  | not rd rs => some (m.set rd (~~~ m.reg rs))
  | mv rd rs => some (m.set rd (m.reg rs))
  | li rd value => some (m.set rd value)
  | ld rd offset base => (m.load (m.reg base + offset)).map (m.set rd)
  | sd rs offset base => m.store (m.reg base + offset) (m.reg rs)
  | _ => none

/-- A jump through a register clears the lowest bit. -/
def jumpTarget (a : Word) : Word := a &&& ~~~ 1

/-- An instruction with another one behind it. -/
def Instr.exec (i : Instr) (next : Word) (m : Machine) : Option (Word × Machine) :=
  match i with
  | bltz rs target => some (if (m.reg rs).toInt < 0 then target else next, m)
  | beqz rs target => some (if m.reg rs = 0 then target else next, m)
  | jalr rs => some (jumpTarget (m.reg rs), m.set .ra next)
  | call target => some (target, m.set .ra next)
  | ret => some (jumpTarget (m.reg .ra), m)
  | i => (i.effect m).map (next, ·)

def Instr.calls : Instr → Bool
  | jalr _ => true
  | call _ => true
  | _ => false

/-- The instruction at an address with the address behind it, and what the functions that begin at other addresses do from
    their first instruction to their return; `none` where there is no function or it does not return. -/
structure Image where
  code : Word → Option (Instr × Word)
  function : Word → Machine → Option Machine

/-- One instruction, or one function, with the call that it makes. -/
def step (I : Image) (s : Word × Machine) : Option ((Word × Machine) × List (Word × Machine)) :=
  match I.code s.1 with
  | some (i, next) => (i.exec next s.2).map fun s' => (s', if i.calls then [s'] else [])
  | none => (I.function s.1 s.2).map fun m => ((jumpTarget (s.2.reg .ra), m), [])

/-- At most `n` steps, until `stop` is reached or there is no next step, with the calls in their order. -/
def run (I : Image) (stop : Word) : Nat → Word × Machine → (Word × Machine) × List (Word × Machine)
  | 0, s => (s, [])
  | n + 1, s =>
    if s.1 = stop then (s, [])
    else
      match step I s with
      | none => (s, [])
      | some (s', calls) => ((run I stop n s').1, calls ++ (run I stop n s').2)

/-- Some number of steps leads from one state to another. -/
def Leads (I : Image) (stop : Word) (s : Word × Machine) (calls : List (Word × Machine)) (s' : Word × Machine) : Prop :=
  ∃ n, run I stop n s = (s', calls)

/-- The run comes to an end in a state: at `stop`, or where there is no next step. -/
def Ends (I : Image) (stop : Word) (s : Word × Machine) (calls : List (Word × Machine)) (s' : Word × Machine) : Prop :=
  ∃ n, ∀ k, n ≤ k → run I stop k s = (s', calls)

/-- The program is at the addresses `place 0`, `place 1`, .. -/
def Loaded (I : Image) (place : Nat → Word) (program : List Instr) : Prop :=
  ∀ i instr, program[i]? = some instr → I.code (place i) = some (instr, place (i + 1))

/-- The registers that a function gives back as it got them. -/
def Reg.saved : Reg → Bool
  | sp | gp | tp | s0 | s1 | s2 | s3 | s4 | s5 | s6 | s7 | s8 | s9 | s10 | s11 => true
  | _ => false

/-- A function returns by the calling convention, and leaves alone the lowest `frame` doublewords of its caller's stack. -/
structure Returned (frame : Nat) (m m' : Machine) : Prop where
  saved : ∀ r : Reg, r.saved = true → m'.reg r = m.reg r
  frame : ∀ i < frame, m'.mem (m.reg .sp + BitVec.ofNat 64 (8 * i)) = m.mem (m.reg .sp + BitVec.ofNat 64 (8 * i))

/-- Instructions without a jump, one after the other. -/
def effects : List Instr → Machine → Option Machine
  | [], m => some m
  | i :: rest, m => (i.effect m).bind (effects rest)

section Words

theorem Aligned.add {a b : Word} (left : Aligned a) (right : Aligned b) : Aligned (a + b) := by
  unfold Aligned at *
  rw [BitVec.toNat_add]
  omega

theorem jumpTarget_of_even {a : Word} (even : a.toNat % 2 = 0) : jumpTarget a = a := by
  apply BitVec.eq_of_getLsbD_eq
  intro i bound
  unfold jumpTarget
  rw [BitVec.getLsbD_and, BitVec.getLsbD_not]
  cases i with
  | zero =>
    have clear : a.getLsbD 0 = false := by
      rw [BitVec.getLsbD, Nat.testBit_zero, even]
      rfl
    rw [clear, Bool.false_and]
  | succ i =>
    have clear : (1 : Word).getLsbD (i + 1) = false := by
      simp [BitVec.getLsbD_one]
    rw [clear, Bool.not_false, Bool.and_true, decide_eq_true bound, Bool.and_true]

theorem aligned_shift (a : Word) : Aligned (a <<< 3) := by
  unfold Aligned
  rw [BitVec.toNat_shiftLeft, Nat.shiftLeft_eq]
  omega

end Words

section Registers

variable {m : Machine} {r : Reg} {a v : Word}

@[simp] theorem Machine.set_mem : (m.set r v).mem = m.mem := rfl

@[simp] theorem Machine.set_same : (m.set r v).reg r = v := Function.update_self ..

@[simp] theorem Machine.set_other {r' : Reg} (other : r' ≠ r) : (m.set r v).reg r' = m.reg r' :=
  Function.update_of_ne other ..

@[simp] theorem Machine.write_reg : (m.write a v).reg = m.reg := rfl

@[simp] theorem Machine.write_same : (m.write a v).mem a = v := Function.update_self ..

@[simp] theorem Machine.write_other {a' : Word} (other : a' ≠ a) : (m.write a v).mem a' = m.mem a' :=
  Function.update_of_ne other ..

theorem effects_cons {i : Instr} {rest : List Instr} {m₁ m' : Machine} (first : i.effect m = some m₁)
    (others : effects rest m₁ = some m') : effects (i :: rest) m = some m' := by
  rw [effects, first, Option.bind_some, others]

theorem effect_ld {rd base : Reg} {offset : Word} (address : m.reg base + offset = a) (aligned : Aligned a) :
    (Instr.ld rd offset base).effect m = some (m.set rd (m.mem a)) := by
  rw [Instr.effect, address, Machine.load, if_pos aligned, Option.map_some]

theorem effect_sd {rs base : Reg} {offset : Word} (address : m.reg base + offset = a) (aligned : Aligned a) :
    (Instr.sd rs offset base).effect m = some (m.write a (m.reg rs)) := by
  rw [Instr.effect, address, Machine.store, if_pos aligned]

end Registers

section Runs

variable {I : Image} {stop : Word} {s s₁ s' : Word × Machine} {c c₁ c' : List (Word × Machine)} {n k : Nat}

theorem run_stopped (stopped : s.1 = stop) (n : Nat) : run I stop n s = (s, []) := by
  cases n with
  | zero => rfl
  | succ n => simp only [run, if_pos stopped]

theorem run_stuck (none : step I s = none) (n : Nat) : run I stop n s = (s, []) := by
  cases n with
  | zero => rfl
  | succ n => simp only [run, none, ite_self]

theorem run_step (off : s.1 ≠ stop) (stepped : step I s = some (s₁, c)) (n : Nat) :
    run I stop (n + 1) s = ((run I stop n s₁).1, c ++ (run I stop n s₁).2) := by
  simp only [run, if_neg off, stepped]

theorem run_add (n k : Nat) (s : Word × Machine) : run I stop (n + k) s =
    ((run I stop k (run I stop n s).1).1, (run I stop n s).2 ++ (run I stop k (run I stop n s).1).2) := by
  induction n generalizing s with
  | zero => simp only [Nat.zero_add, run, List.nil_append]
  | succ n ih =>
    rw [Nat.succ_add]
    by_cases stopped : s.1 = stop
    · simp only [run_stopped stopped, List.nil_append]
    · cases next : step I s with
      | none => simp only [run_stuck next, List.nil_append]
      | some r =>
        rcases r with ⟨s₁, calls⟩
        rw [run_step stopped next, run_step stopped next, ih s₁, List.append_assoc]

theorem Leads.refl (s : Word × Machine) : Leads I stop s [] s := ⟨0, rfl⟩

theorem Leads.trans (first : Leads I stop s c s₁) (second : Leads I stop s₁ c' s') : Leads I stop s (c ++ c') s' := by
  rcases first with ⟨n, ran⟩
  rcases second with ⟨k, ran'⟩
  refine ⟨n + k, ?_⟩
  rw [run_add, ran, ran']

theorem Leads.single (off : s.1 ≠ stop) (stepped : step I s = some (s₁, c)) : Leads I stop s c s₁ := by
  refine ⟨1, ?_⟩
  rw [run_step off stepped 0]
  simp only [run, List.append_nil]

/-- A run ends where it reaches `stop`, or where there is no next step. -/
theorem Leads.ends (leads : Leads I stop s c s') (ended : s'.1 = stop ∨ step I s' = none) : Ends I stop s c s' := by
  rcases leads with ⟨n, ran⟩
  refine ⟨n, ?_⟩
  intro k later
  rw [← Nat.add_sub_of_le later, run_add, ran]
  have rest : run I stop (k - n) s' = (s', []) := by
    rcases ended with stopped | none
    · exact run_stopped stopped _
    · exact run_stuck none _
  rw [rest, List.append_nil]

/-- A run that ends does so from every state on its way. -/
theorem Ends.from (ends : Ends I stop s c s') (leads : Leads I stop s c₁ s₁) :
    ∃ c₂, c = c₁ ++ c₂ ∧ Ends I stop s₁ c₂ s' := by
  rcases ends with ⟨n, ends⟩
  rcases leads with ⟨k, ran⟩
  have rest : ∀ j, n ≤ j → (run I stop j s₁).1 = s' ∧ c₁ ++ (run I stop j s₁).2 = c := by
    intro j later
    have whole := ends (k + j) (by omega)
    rw [run_add, ran] at whole
    exact Prod.mk.inj whole
  refine ⟨(run I stop n s₁).2, (rest n (le_refl n)).2.symm, n, ?_⟩
  intro j later
  have same := (rest j later).2.trans (rest n (le_refl n)).2.symm
  exact Prod.ext (rest j later).1 (List.append_cancel_left same)

/-- A run ends in one way. -/
theorem Ends.unique (one : Ends I stop s c s₁) (other : Ends I stop s c' s') : c = c' ∧ s₁ = s' := by
  rcases one with ⟨n, one⟩
  rcases other with ⟨k, other⟩
  have same := (one (max n k) (Nat.le_max_left _ _)).symm.trans (other (max n k) (Nat.le_max_right _ _))
  exact ⟨(Prod.mk.inj same).2, (Prod.mk.inj same).1⟩

/-- What every step keeps, the run keeps. -/
theorem run_invariant {J : Word × Machine → Prop} (kept : ∀ s s' c, J s → s.1 ≠ stop → step I s = some (s', c) → J s')
    (first : J s) (n : Nat) : J (run I stop n s).1 := by
  induction n generalizing s with
  | zero => exact first
  | succ n ih =>
    by_cases stopped : s.1 = stop
    · rw [run_stopped stopped]
      exact first
    · cases next : step I s with
      | none =>
        rw [run_stuck next]
        exact first
      | some r =>
        rcases r with ⟨s₁, calls⟩
        rw [run_step stopped next]
        exact ih (kept s s₁ calls first stopped next)

/-- A cycle of two states is never left. -/
theorem Ends.off_cycle {c₂ : List (Word × Machine)} (ends : Ends I stop s c s') (there : step I s = some (s₁, c₁))
    (back : step I s₁ = some (s, c₂)) (off : s.1 ≠ stop) (off₁ : s₁.1 ≠ stop) : s'.1 ≠ stop := by
  rcases ends with ⟨n, ends⟩
  have inside : ∀ k, (run I stop k s).1 = s ∨ (run I stop k s).1 = s₁ := by
    refine run_invariant (J := fun s' => s' = s ∨ s' = s₁) ?_ (.inl rfl)
    rintro r r' calls (rfl | rfl) - stepped
    · rw [there] at stepped
      cases stepped
      exact .inr rfl
    · rw [back] at stepped
      cases stepped
      exact .inl rfl
  have last := inside n
  rw [ends n (le_refl n)] at last
  rcases last with rfl | rfl
  · exact off
  · exact off₁

end Runs

section Programs

variable {I : Image} {stop : Word} {place : Nat → Word} {program block : List Instr} {i : Nat} {instr : Instr}
  {m m' : Machine} {s' : Word × Machine}

theorem step_instr (loaded : Loaded I place program) (here : program[i]? = some instr)
    (done : instr.exec (place (i + 1)) m = some s') :
    step I (place i, m) = some (s', if instr.calls then [s'] else []) := by
  simp only [step, loaded i instr here, done, Option.map_some]

theorem Instr.exec_effect (done : instr.effect m = some m') (next : Word) : instr.exec next m = some (next, m') := by
  cases instr with
  | bltz | beqz | jalr | call | ret => cases done
  | _ => simp only [Instr.exec, done, Option.map_some]

theorem Instr.effect_calls (done : instr.effect m = some m') : instr.calls = false := by
  cases instr with
  | jalr | call => cases done
  | _ => rfl

/-- Instructions without a jump are done in their order. -/
theorem Leads.straight (loaded : Loaded I place program) (off : ∀ i < program.length, place i ≠ stop) (done : effects block m = some m')
    (here : block <+: program.drop i) : Leads I stop (place i, m) [] (place (i + block.length), m') := by
  induction block generalizing i m with
  | nil =>
    cases done
    exact Leads.refl _
  | cons instr rest ih =>
    rcases Option.bind_eq_some_iff.mp done with ⟨m₁, first, others⟩
    rcases here with ⟨behind, split⟩
    have at_i : program[i]? = some instr := by
      rw [← Nat.add_zero i, ← List.getElem?_drop, ← split]
      rfl
    have stepped := step_instr loaded at_i (instr.exec_effect first (place (i + 1)))
    rw [instr.effect_calls first] at stepped
    have after : rest <+: program.drop (i + 1) := by
      rw [← List.drop_drop, ← split]
      exact ⟨behind, rfl⟩
    have leads := (Leads.single (off i (List.getElem?_eq_some_iff.mp at_i).1) stepped).trans (ih others after)
    rw [List.length_cons, Nat.add_comm rest.length 1, ← Nat.add_assoc]
    exact leads

/-- One instruction. -/
theorem Leads.jump (loaded : Loaded I place program) (off : ∀ i < program.length, place i ≠ stop) (here : program[i]? = some instr)
    (done : instr.exec (place (i + 1)) m = some s') :
    Leads I stop (place i, m) (if instr.calls then [s'] else []) s' :=
  Leads.single (off i (List.getElem?_eq_some_iff.mp here).1) (step_instr loaded here done)

/-- A function from its first instruction to its return. -/
theorem Leads.function {f : Word} (off : f ≠ stop) (outside : I.code f = none) (returns : I.function f m = some m') :
    Leads I stop (f, m) [] (jumpTarget (m.reg .ra), m') := by
  refine Leads.single off ?_
  simp only [step, outside, returns, Option.map_some]

end Programs

section Placed

/-- A program in four bytes an instruction from `base` on, and some functions. -/
def Image.of (base : Word) (program : List Instr) (function : Word → Machine → Option Machine) : Image where
  code := fun a =>
    if (a - base).toNat % 4 = 0 then program[(a - base).toNat / 4]?.map (·, a + 4) else none
  function := function

def placeFrom (base : Word) (i : Nat) : Word := base + BitVec.ofNat 64 (4 * i)

variable {base : Word} {program : List Instr} {function : Word → Machine → Option Machine}

theorem jumpTarget_placeFrom (even : base.toNat % 2 = 0) (i : Nat) : jumpTarget (placeFrom base i) = placeFrom base i := by
  apply jumpTarget_of_even
  rw [placeFrom, BitVec.toNat_add, BitVec.toNat_ofNat]
  omega

theorem Image.of_loaded (short : program.length < 2 ^ 60) : Loaded (Image.of base program function) (placeFrom base) program := by
  intro i instr here
  have bound : i < program.length := (List.getElem?_eq_some_iff.mp here).1
  have distance : (placeFrom base i - base).toNat = 4 * i := by
    rw [placeFrom, BitVec.add_comm, BitVec.add_sub_cancel, BitVec.toNat_ofNat]
    omega
  have behind : placeFrom base i + 4 = placeFrom base (i + 1) := by
    unfold placeFrom
    rw [BitVec.add_assoc]
    congr 1
    apply BitVec.eq_of_toNat_eq
    have four : (4 : Word).toNat = 4 := rfl
    rw [BitVec.toNat_add, BitVec.toNat_ofNat, BitVec.toNat_ofNat, four]
    omega
  simp only [Image.of, distance]
  rw [if_pos (by omega), Nat.mul_div_cancel_left i (by omega), here, Option.map_some, behind]

theorem Image.of_outside {a : Word} (outside : program.length ≤ (a - base).toNat / 4) :
    (Image.of base program function).code a = none := by
  simp only [Image.of]
  rw [List.getElem?_eq_none outside, Option.map_none, ite_self]

theorem placeFrom_ne {a : Word} {i : Nat} (outside : i < (a - base).toNat / 4) : placeFrom base i ≠ a := by
  rintro rfl
  rw [placeFrom, BitVec.add_comm, BitVec.add_sub_cancel, BitVec.toNat_ofNat] at outside
  omega

end Placed

end K210Linux.Lib.Riscv
