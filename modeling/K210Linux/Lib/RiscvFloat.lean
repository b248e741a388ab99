import K210Linux.Lib.Riscv

/-! Code that saves and loads all registers, those of single precision too. -/

namespace K210Linux.Lib.Riscv

/-- `ra` is `x1`. -/
def Reg.number : Reg → Nat
  | ra => 1 | sp => 2 | gp => 3 | tp => 4 | t0 => 5 | t1 => 6 | t2 => 7 | s0 => 8 | s1 => 9
  | a0 => 10 | a1 => 11 | a2 => 12 | a3 => 13 | a4 => 14 | a5 => 15 | a6 => 16 | a7 => 17
  | s2 => 18 | s3 => 19 | s4 => 20 | s5 => 21 | s6 => 22 | s7 => 23 | s8 => 24 | s9 => 25 | s10 => 26 | s11 => 27
  | t3 => 28 | t4 => 29 | t5 => 30 | t6 => 31

/-- A machine with registers of single precision. -/
structure FloatMachine extends Machine where
  freg : Fin 32 → BitVec 32

/-- A label is a place in the program. -/
inductive FloatInstr
  | plain (i : Instr)
  | fsw (rs : Fin 32) (offset : Word) (base : Reg)
  | flw (rd : Fin 32) (offset : Word) (base : Reg)
  | bge (rs₁ rs₂ : Reg) (target : Nat)
  | bgtz (rs : Reg) (target : Nat)

def lowHalf (w : Word) : BitVec 32 := w.truncate 32

def setLowHalf (w : Word) (v : BitVec 32) : Word := w.extractLsb' 32 32 ++ v

namespace FloatMachine

def set (m : FloatMachine) (r : Reg) (v : Word) : FloatMachine := { m with toMachine := m.toMachine.set r v }

def write (m : FloatMachine) (a v : Word) : FloatMachine := { m with toMachine := m.toMachine.write a v }

def setFloat (m : FloatMachine) (r : Fin 32) (v : BitVec 32) : FloatMachine :=
  { m with freg := Function.update m.freg r v }

end FloatMachine

/-- What an instruction does that is no jump. The words of `fsw` and `flw` are the lower halves of doublewords. -/
def FloatInstr.effect (i : FloatInstr) (m : FloatMachine) : Option FloatMachine :=
  match i with
  | plain i => (i.effect m.toMachine).map fun m' => { m with toMachine := m' }
  | fsw rs offset base =>
    let a := m.reg base + offset
    if Aligned a then some (m.write a (setLowHalf (m.mem a) (m.freg rs))) else none
  | flw rd offset base =>
    let a := m.reg base + offset
    if Aligned a then some (m.setFloat rd (lowHalf (m.mem a))) else none
  | _ => none

/-- From a place of the program to its `ret`: the address that it returns to, and the machine. -/
def runCode (program : List FloatInstr) : Nat → Nat → FloatMachine → Option (Word × FloatMachine)
  | 0, _, _ => none
  | fuel + 1, place, m =>
    match program[place]? with
    | none => none
    | some (.plain .ret) => some (jumpTarget (m.reg .ra), m)
    | some (.bge rs₁ rs₂ target) =>
      runCode program fuel (if (m.reg rs₂).toInt ≤ (m.reg rs₁).toInt then target else place + 1) m
    | some (.bgtz rs target) => runCode program fuel (if 0 < (m.reg rs).toInt then target else place + 1) m
    | some i => (i.effect m).bind (runCode program fuel (place + 1))

def floatEffects : List FloatInstr → FloatMachine → Option FloatMachine
  | [], m => some m
  | i :: rest, m => (i.effect m).bind (floatEffects rest)

/-- A number of instructions leads from one place to another. -/
def Reaches (program : List FloatInstr) (place : Nat) (m : FloatMachine) (place' : Nat) (m' : FloatMachine) : Prop :=
  ∃ n, ∀ fuel, runCode program (n + fuel) place m = runCode program fuel place' m'

/-- The doublewords from an address on. -/
def slot (a : Word) (i : Nat) : Word := a + BitVec.ofNat 64 (8 * i)

/-- The registers but `sp` are saved in a frame of 64 doublewords. -/
structure SavedAt (mem : Word → Word) (a : Word) (reg : Reg → Word) (freg : Fin 32 → BitVec 32) : Prop where
  word : ∀ r, r ≠ .sp → mem (slot a r.number) = reg r
  float : ∀ j : Fin 32, lowHalf (mem (slot a (32 + j))) = freg j

def saveReg (r : Reg) : FloatInstr := .plain (.sd r (BitVec.ofNat 64 (8 * r.number)) .sp)
def loadReg (r : Reg) : FloatInstr := .plain (.ld r (BitVec.ofNat 64 (8 * r.number)) .sp)
def saveFloat (j : Fin 32) : FloatInstr := .fsw j (BitVec.ofNat 64 (8 * (32 + j))) .sp
def loadFloat (j : Fin 32) : FloatInstr := .flw j (BitVec.ofNat 64 (8 * (32 + j))) .sp

section Words

variable {a : Word} {i j : Nat} {r r' : Reg}

theorem Reg.number_lt (r : Reg) : r.number < 32 := by
  cases r <;> decide

theorem Reg.number_injective : Function.Injective Reg.number := by
  intro r r' same
  revert same
  cases r <;> cases r' <;> simp [Reg.number]

theorem slot_inj (left : i < 2 ^ 60) (right : j < 2 ^ 60) : slot a i = slot a j ↔ i = j := by
  unfold slot
  rw [BitVec.add_right_inj]
  constructor
  · intro same
    have numbers := congrArg BitVec.toNat same
    rw [BitVec.toNat_ofNat, BitVec.toNat_ofNat] at numbers
    omega
  · intro same
    rw [same]

theorem slot_slot (a : Word) (i j : Nat) : slot (slot a i) j = slot a (i + j) := by
  unfold slot
  rw [BitVec.add_assoc, ← BitVec.ofNat_add, ← Nat.mul_add]

theorem slot_offset (a : Word) (i : Nat) (bound : i < 2 ^ 60) : (slot a i - a).toNat = 8 * i := by
  unfold slot
  rw [BitVec.add_comm, BitVec.add_sub_cancel, BitVec.toNat_ofNat]
  omega

theorem aligned_slot (aligned : Aligned a) (i : Nat) : Aligned (slot a i) := by
  apply aligned.add
  unfold Aligned
  rw [BitVec.toNat_ofNat]
  omega

@[simp] theorem lowHalf_set (w : Word) (v : BitVec 32) : lowHalf (setLowHalf w v) = v := by
  unfold lowHalf setLowHalf
  apply BitVec.eq_of_getLsbD_eq
  intro i bound
  rw [BitVec.truncate_eq_setWidth, BitVec.getLsbD_setWidth, BitVec.getLsbD_append]
  simp [bound]

end Words

section Machines

variable {m : FloatMachine} {r r' : Reg} {a a' v : Word}

@[simp] theorem FloatMachine.set_mem : (m.set r v).mem = m.mem := rfl
@[simp] theorem FloatMachine.set_freg : (m.set r v).freg = m.freg := rfl
@[simp] theorem FloatMachine.set_same : (m.set r v).reg r = v := Machine.set_same
@[simp] theorem FloatMachine.set_other (other : r' ≠ r) : (m.set r v).reg r' = m.reg r' := Machine.set_other other
@[simp] theorem FloatMachine.write_reg : (m.write a v).reg = m.reg := rfl
theorem FloatMachine.write_mem : (m.write a v).mem = Function.update m.mem a v := rfl
@[simp] theorem FloatMachine.write_freg : (m.write a v).freg = m.freg := rfl
@[simp] theorem FloatMachine.write_same : (m.write a v).mem a = v := Machine.write_same
@[simp] theorem FloatMachine.write_other (other : a' ≠ a) : (m.write a v).mem a' = m.mem a' :=
  Machine.write_other other

theorem effect_load {rd base : Reg} {offset : Word} (address : m.reg base + offset = a) (aligned : Aligned a) :
    (FloatInstr.plain (.ld rd offset base)).effect m = some (m.set rd (m.mem a)) := by
  rw [FloatInstr.effect, effect_ld address aligned]
  rfl

theorem effect_store {rs base : Reg} {offset : Word} (address : m.reg base + offset = a) (aligned : Aligned a) :
    (FloatInstr.plain (.sd rs offset base)).effect m = some (m.write a (m.reg rs)) := by
  rw [FloatInstr.effect, effect_sd address aligned]
  rfl

theorem effect_saveReg (aligned : Aligned (m.reg .sp)) (r : Reg) :
    (saveReg r).effect m = some (m.write (slot (m.reg .sp) r.number) (m.reg r)) :=
  effect_store rfl (aligned_slot aligned r.number)

theorem effect_loadReg (aligned : Aligned (m.reg .sp)) (r : Reg) :
    (loadReg r).effect m = some (m.set r (m.mem (slot (m.reg .sp) r.number))) :=
  effect_load rfl (aligned_slot aligned r.number)

theorem effect_saveFloat (aligned : Aligned (m.reg .sp)) (j : Fin 32) : (saveFloat j).effect m =
    some (m.write (slot (m.reg .sp) (32 + j)) (setLowHalf (m.mem (slot (m.reg .sp) (32 + j))) (m.freg j))) :=
  if_pos (aligned_slot aligned (32 + j))

theorem effect_loadFloat (aligned : Aligned (m.reg .sp)) (j : Fin 32) :
    (loadFloat j).effect m = some (m.setFloat j (lowHalf (m.mem (slot (m.reg .sp) (32 + j))))) :=
  if_pos (aligned_slot aligned (32 + j))

end Machines

section Frames

variable {m m₁ m' : FloatMachine} {i : FloatInstr} {first rest : List FloatInstr}

theorem floatEffects_cons {n : FloatMachine} (one : i.effect m = some n) (others : floatEffects rest n = some m') :
    floatEffects (i :: rest) m = some m' := by
  rw [floatEffects, one, Option.bind_some, others]

theorem floatEffects_append (done : floatEffects first m = some m₁) (others : floatEffects rest m₁ = some m') :
    floatEffects (first ++ rest) m = some m' := by
  induction first generalizing m with
  | nil =>
    cases done
    exact others
  | cons i first ih =>
    rcases Option.bind_eq_some_iff.mp done with ⟨m₂, one, later⟩
    exact floatEffects_cons one (ih later)

variable {L : List Reg} {J : List (Fin 32)}

/-- The frame after some registers are saved. -/
theorem saveRegs_spec (aligned : Aligned (m.reg .sp)) : ∃ m', floatEffects (L.map saveReg) m = some m' ∧
    m'.reg = m.reg ∧ m'.freg = m.freg ∧ (∀ r ∈ L, m'.mem (slot (m.reg .sp) r.number) = m.reg r) ∧
      ∀ a, (∀ r ∈ L, a ≠ slot (m.reg .sp) r.number) → m'.mem a = m.mem a := by
  induction L generalizing m with
  | nil => exact ⟨m, rfl, rfl, rfl, by simp, by simp⟩
  | cons r rest ih =>
    let m₁ := m.write (slot (m.reg .sp) r.number) (m.reg r)
    rcases ih (m := m₁) aligned with ⟨m', done, reg, freg, saved, others⟩
    have first : floatEffects ((r :: rest).map saveReg) m = some m' := floatEffects_cons (effect_saveReg aligned r) done
    refine ⟨m', first, reg, freg, ?_, ?_⟩
    · intro s isIn
      by_cases later : s ∈ rest
      · exact saved s later
      · obtain rfl := (List.mem_cons.mp isIn).resolve_right later
        have apart : ∀ q ∈ rest, slot (m₁.reg .sp) s.number ≠ slot (m₁.reg .sp) q.number := by
          intro q inRest same
          have numbers := (slot_inj (by have := s.number_lt; omega) (by have := q.number_lt; omega)).mp same
          exact later (Reg.number_injective numbers ▸ inRest)
        exact (others _ apart).trans FloatMachine.write_same
    · intro a apart
      rw [others a fun q inRest => apart q (List.mem_cons_of_mem _ inRest)]
      exact FloatMachine.write_other (apart r List.mem_cons_self)

theorem saveFloats_spec (aligned : Aligned (m.reg .sp)) : ∃ m', floatEffects (J.map saveFloat) m = some m' ∧
    m'.reg = m.reg ∧ m'.freg = m.freg ∧
      (∀ j ∈ J, lowHalf (m'.mem (slot (m.reg .sp) (32 + j))) = m.freg j) ∧
        ∀ a, (∀ j ∈ J, a ≠ slot (m.reg .sp) (32 + j)) → m'.mem a = m.mem a := by
  induction J generalizing m with
  | nil => exact ⟨m, rfl, rfl, rfl, by simp, by simp⟩
  | cons j rest ih =>
    let a := slot (m.reg .sp) (32 + j)
    let m₁ := m.write a (setLowHalf (m.mem a) (m.freg j))
    rcases ih (m := m₁) aligned with ⟨m', done, reg, freg, saved, others⟩
    have first : floatEffects ((j :: rest).map saveFloat) m = some m' := floatEffects_cons (effect_saveFloat aligned j) done
    refine ⟨m', first, reg, freg, ?_, ?_⟩
    · intro i isIn
      by_cases later : i ∈ rest
      · exact saved i later
      · obtain rfl := (List.mem_cons.mp isIn).resolve_right later
        have apart : ∀ q ∈ rest, slot (m₁.reg .sp) (32 + i) ≠ slot (m₁.reg .sp) (32 + q) := by
          intro q inRest same
          have numbers := (slot_inj (by omega) (by omega)).mp same
          have equal : i = q := Fin.ext (by omega)
          exact later (equal ▸ inRest)
        have kept := congrArg lowHalf ((others _ apart).trans FloatMachine.write_same)
        rwa [lowHalf_set] at kept
    · intro b apart
      rw [others b fun q inRest => apart q (List.mem_cons_of_mem _ inRest)]
      exact FloatMachine.write_other (apart j List.mem_cons_self)

theorem loadRegs_spec (aligned : Aligned (m.reg .sp)) (noStack : Reg.sp ∉ L) :
    ∃ m', floatEffects (L.map loadReg) m = some m' ∧ m'.mem = m.mem ∧ m'.freg = m.freg ∧
      m'.reg .sp = m.reg .sp ∧ ∀ r ∈ L, m'.reg r = m.mem (slot (m.reg .sp) r.number) := by
  suffices all : ∃ m', floatEffects (L.map loadReg) m = some m' ∧ m'.mem = m.mem ∧ m'.freg = m.freg ∧
      (∀ r ∉ L, m'.reg r = m.reg r) ∧ ∀ r ∈ L, m'.reg r = m.mem (slot (m.reg .sp) r.number) by
    rcases all with ⟨m', done, mem, freg, others, loaded⟩
    exact ⟨m', done, mem, freg, others _ noStack, loaded⟩
  induction L generalizing m with
  | nil => exact ⟨m, rfl, rfl, rfl, by simp, by simp⟩
  | cons r rest ih =>
    rw [List.mem_cons, not_or] at noStack
    let m₁ := m.set r (m.mem (slot (m.reg .sp) r.number))
    have stack : m₁.reg .sp = m.reg .sp := FloatMachine.set_other noStack.1
    rcases ih (m := m₁) (stack ▸ aligned) noStack.2 with ⟨m', done, mem, freg, others, loaded⟩
    have first : floatEffects ((r :: rest).map loadReg) m = some m' := floatEffects_cons (effect_loadReg aligned r) done
    rw [stack] at loaded
    refine ⟨m', first, mem, freg, ?_, ?_⟩
    · intro s outside
      rw [List.mem_cons, not_or] at outside
      exact (others s outside.2).trans (FloatMachine.set_other outside.1)
    · intro s isIn
      by_cases later : s ∈ rest
      · exact loaded s later
      · obtain rfl := (List.mem_cons.mp isIn).resolve_right later
        exact (others s later).trans FloatMachine.set_same

theorem loadFloats_spec (aligned : Aligned (m.reg .sp)) : ∃ m', floatEffects (J.map loadFloat) m = some m' ∧
    m'.mem = m.mem ∧ m'.reg = m.reg ∧ ∀ j ∈ J, m'.freg j = lowHalf (m.mem (slot (m.reg .sp) (32 + j))) := by
  suffices all : ∃ m', floatEffects (J.map loadFloat) m = some m' ∧ m'.mem = m.mem ∧ m'.reg = m.reg ∧
      (∀ j ∉ J, m'.freg j = m.freg j) ∧ ∀ j ∈ J, m'.freg j = lowHalf (m.mem (slot (m.reg .sp) (32 + j))) by
    rcases all with ⟨m', done, mem, reg, -, loaded⟩
    exact ⟨m', done, mem, reg, loaded⟩
  induction J generalizing m with
  | nil => exact ⟨m, rfl, rfl, rfl, by simp, by simp⟩
  | cons j rest ih =>
    let m₁ := m.setFloat j (lowHalf (m.mem (slot (m.reg .sp) (32 + j))))
    rcases ih (m := m₁) aligned with ⟨m', done, mem, reg, others, loaded⟩
    have first : floatEffects ((j :: rest).map loadFloat) m = some m' := floatEffects_cons (effect_loadFloat aligned j) done
    refine ⟨m', first, mem, reg, ?_, ?_⟩
    · intro i outside
      rw [List.mem_cons, not_or] at outside
      exact (others i outside.2).trans (Function.update_of_ne outside.1 ..)
    · intro i isIn
      by_cases later : i ∈ rest
      · exact loaded i later
      · obtain rfl := (List.mem_cons.mp isIn).resolve_right later
        exact (others i later).trans (Function.update_self ..)

end Frames

section Code

variable {program block : List FloatInstr} {place place₁ place' fuel n : Nat} {m m₁ m' : FloatMachine} {i : FloatInstr}

theorem Reaches.trans (first : Reaches program place m place₁ m₁) (second : Reaches program place₁ m₁ place' m') :
    Reaches program place m place' m' := by
  rcases first with ⟨n, first⟩
  rcases second with ⟨k, second⟩
  exact ⟨n + k, fun fuel => by rw [Nat.add_assoc, first, second]⟩

theorem runCode_effect (here : program[place]? = some i) (done : i.effect m = some m') (fuel : Nat) :
    runCode program (fuel + 1) place m = runCode program fuel (place + 1) m' := by
  rw [runCode, here]
  cases i with
  | plain i =>
    cases i with
    | ret => cases done
    | _ =>
      simp only
      rw [done, Option.bind_some]
  | bge | bgtz => cases done
  | _ =>
    simp only
    rw [done, Option.bind_some]

theorem block_get {k : Nat} (here : block <+: program.drop place) (inside : block[k]? = some i) :
    program[place + k]? = some i := by
  rcases here with ⟨behind, split⟩
  rw [← List.getElem?_drop, ← split, List.getElem?_append_left (List.getElem?_eq_some_iff.mp inside).1, inside]

theorem Reaches.refl (program : List FloatInstr) (place : Nat) (m : FloatMachine) : Reaches program place m place m :=
  ⟨0, fun fuel => by rw [Nat.zero_add]⟩

theorem Reaches.bgtz {rs : Reg} {target : Nat} (here : program[place]? = some (.bgtz rs target)) :
    Reaches program place m (if 0 < (m.reg rs).toInt then target else place + 1) m :=
  ⟨1, fun fuel => by rw [Nat.add_comm, runCode, here]⟩

theorem Reaches.bge (program : List FloatInstr) (place : Nat) {rs₁ rs₂ : Reg} {target : Nat} (here : program[place]? = some (.bge rs₁ rs₂ target)) :
    Reaches program place m (if (m.reg rs₂).toInt ≤ (m.reg rs₁).toInt then target else place + 1) m :=
  ⟨1, fun fuel => by rw [Nat.add_comm, runCode, here]⟩

/-- Instructions without a jump are done in their order. -/
theorem Reaches.straight (program : List FloatInstr) (place : Nat) (done : floatEffects block m = some m') (here : block <+: program.drop place) :
    Reaches program place m (place + block.length) m' := by
  induction block generalizing place m with
  | nil =>
    cases done
    exact Reaches.refl ..
  | cons i rest ih =>
    rcases Option.bind_eq_some_iff.mp done with ⟨m₁, first, others⟩
    have at_place : program[place]? = some i := block_get (k := 0) here rfl
    rcases here with ⟨behind, split⟩
    have after : rest <+: program.drop (place + 1) := by
      rw [← List.drop_drop, ← split]
      exact ⟨behind, rfl⟩
    have one : Reaches program place m (place + 1) m₁ :=
      ⟨1, fun fuel => by rw [Nat.add_comm, runCode_effect at_place first]⟩
    have all := one.trans (ih (place + 1) others after)
    rwa [Nat.add_assoc, Nat.add_comm 1] at all

/-- More fuel changes nothing. -/
theorem runCode_more {r : Word × FloatMachine} (returns : runCode program n place m = some r) (k : Nat) :
    runCode program (n + k) place m = some r := by
  induction n generalizing place m with
  | zero => cases returns
  | succ n ih =>
    rw [Nat.add_right_comm]
    rw [runCode] at returns ⊢
    cases here : program[place]? with
    | none =>
      rw [here] at returns
      cases returns
    | some i =>
      rw [here] at returns
      have through : ∀ m₀ : Option FloatMachine, m₀.bind (runCode program n (place + 1)) = some r →
          m₀.bind (runCode program (n + k) (place + 1)) = some r := by
        intro m₀ runs
        rcases Option.bind_eq_some_iff.mp runs with ⟨m₁, rfl, rest⟩
        exact ih rest
      cases i with
      | plain i =>
        cases i with
        | ret => exact returns
        | _ => exact through _ returns
      | bge | bgtz => exact ih returns
      | _ => exact through _ returns

/-- What is reached on the way decides what is returned. -/
theorem Reaches.returns {r : Word × FloatMachine} (reaches : Reaches program place m place' m')
    (returns : runCode program fuel place m = some r) : ∃ fuel', runCode program fuel' place' m' = some r := by
  rcases reaches with ⟨n, runs⟩
  refine ⟨fuel, ?_⟩
  rw [← runs, Nat.add_comm]
  exact runCode_more returns n

end Code

end K210Linux.Lib.Riscv
