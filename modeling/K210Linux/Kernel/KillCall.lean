import K210Linux.Kernel.SignalSets

/-! Whom `sys_kill` reaches, and what it returns. -/

namespace K210Linux.Kernel

open SignalTable

variable {s : SignalTable} {pid : BitVec 32} {sig : Int} {current p : SignalTask}

section Send

theorem widened_sigBit {n : Nat} (low : 1 ≤ n) (high : n < 32) : widened (sigBit n) = BitVec.twoPow 64 (n - 1) := by
  have all : ∀ n < 32, 1 ≤ n → widened (sigBit n) = BitVec.twoPow 64 (n - 1) := by decide
  exact all n high low

/-- `1 << 31` is below 0. -/
theorem or_last_iff (signal : BitVec 64) : signal ||| widened (sigBit 32) = signal ||| BitVec.twoPow 64 31 ↔
    ∀ k, 32 ≤ k → k < 64 → signal.getLsbD k = true := by
  have bits : ∀ k < 64, (widened (sigBit 32)).getLsbD k = decide (31 ≤ k) := by decide
  constructor
  · intro same k low high
    have bit := congrArg (fun v : BitVec 64 => v.getLsbD k) same
    simp only [BitVec.getLsbD_or, bits k high, BitVec.getLsbD_twoPow] at bit
    have apart : ¬ 31 = k := by omega
    simpa [apart, show 31 ≤ k by omega] using bit
  · intro set
    apply BitVec.eq_of_getLsbD_eq
    intro k high
    rw [BitVec.getLsbD_or, BitVec.getLsbD_or, bits k high, BitVec.getLsbD_twoPow]
    by_cases low : 32 ≤ k
    · rw [set k low high]
      rfl
    · have same : (31 ≤ k) ↔ 31 = k := by omega
      simp [same]

/-- `send_sig` with a valid signal. -/
theorem sendSig_valid (low : 1 ≤ sig) (high : sig ≤ 32) (euid : BitVec 16) (priv : Bool) :
    p.sendSig sig euid priv = if p.mayReceive euid priv then (0, p.raise (sigBit sig.toNat)) else (-1, p) := by
  unfold SignalTask.sendSig
  rw [if_neg (by omega)]

end Send

section Call

/-- A task that `sys_kill` is called for. -/
structure Selected (s : SignalTable) (pid : BitVec 32) (current : SignalTask) (slot : Nat) (p : SignalTask) : Prop where
  there : s.task slot = some p
  reached : killed pid current slot p = true

/-- The task that calls may send it a signal. -/
def Granted (pid : BitVec 32) (current p : SignalTask) : Prop := p.mayReceive current.euid (pid = 0) = true

/-- Each selected task that the caller may signal gets the signal, nothing else changes, and the result tells whether
    a selected task was refused. -/
structure KillsExactly (s : SignalTable) (pid : BitVec 32) (sig : Int) (current : SignalTask) : Prop where
  sent : ∀ slot p, Selected s pid current slot p → Granted pid current p →
    (s.kill pid sig current).2.task slot = some { p with signal := p.signal ||| BitVec.twoPow 64 (sig.toNat - 1) }
  others : ∀ slot, (∀ p, Selected s pid current slot p → ¬ Granted pid current p) →
    (s.kill pid sig current).2.task slot = s.task slot
  running : (s.kill pid sig current).2.current = s.current
  result : (s.kill pid sig current).1 = 0 ↔ ∀ slot p, Selected s pid current slot p → Granted pid current p

theorem kill_task (s : SignalTable) (pid : BitVec 32) (current : SignalTask) (low : 1 ≤ sig) (high : sig ≤ 32) (slot : Nat) : (s.kill pid sig current).2.task slot =
    (s.task slot).map fun p => if killed pid current slot p then
      if p.mayReceive current.euid (pid = 0) then p.raise (sigBit sig.toNat) else p else p := by
  unfold SignalTable.kill
  dsimp only
  apply congrArg fun f => (s.task slot).map f
  funext p
  rw [sendSig_valid low high]
  split
  · split <;> rfl
  · rfl

theorem find_nonzero_iff (values : List Int) : (values.find? (· ≠ 0)).getD 0 = 0 ↔ ∀ v ∈ values, v = 0 := by
  cases first : values.find? (· ≠ 0) with
  | none =>
    rw [List.find?_eq_none] at first
    refine iff_of_true rfl fun v isIn => ?_
    simpa using first v isIn
  | some v =>
    have other : v ≠ 0 := by simpa using List.find?_some first
    exact iff_of_false other fun all => other (all v (List.mem_of_find?_eq_some first))

theorem Selected.slot {slot : Nat} (selected : Selected s pid current slot p) : 0 < slot ∧ slot < nrTasks := by
  have reached := selected.reached
  simp only [killed, Bool.and_eq_true, decide_eq_true_eq] at reached
  exact reached.1

theorem killError_some {slot : Nat} (there : s.task slot = some p) (low : 1 ≤ sig) (high : sig ≤ 32) :
    s.killError pid sig current slot = 0 ↔ (killed pid current slot p = true → Granted pid current p) := by
  unfold killError Granted
  rw [there]
  dsimp only
  rw [sendSig_valid low high]
  split
  · rename_i reached
    split
    · rename_i granted
      exact iff_of_true rfl fun _ => granted
    · rename_i refused
      exact iff_of_false (fun zero => absurd zero (by decide : (-1 : Int) ≠ 0)) fun all => refused (all reached)
  · rename_i missed
    exact iff_of_true rfl fun reached => absurd reached missed

theorem killError_none {slot : Nat} (empty : s.task slot = none) :
    s.killError pid sig current slot = 0 ↔ pid ≠ -1 := by
  unfold killError
  rw [empty]
  dsimp only
  split
  · rename_i every
    exact iff_of_false (by decide) fun other => other every
  · rename_i other
    exact iff_of_true rfl other

/-- An empty slot is taken for a task that was refused, if all tasks are selected. -/
theorem kill_zero_iff (s : SignalTable) (pid : BitVec 32) (current : SignalTask) (low : 1 ≤ sig) (high : sig ≤ 32) : (s.kill pid sig current).1 = 0 ↔
    (∀ slot p, Selected s pid current slot p → Granted pid current p) ∧
      (pid = -1 → ∀ slot, 0 < slot → slot < nrTasks → s.task slot ≠ none) := by
  have slots : ∀ slot, slot ∈ (List.range nrTasks).tail ↔ 0 < slot ∧ slot < nrTasks := by
    intro slot
    rw [List.range_eq_range', List.tail_range', List.mem_range'_1, nrTasks]
    omega
  unfold SignalTable.kill
  dsimp only
  rw [find_nonzero_iff, List.forall_mem_map]
  constructor
  · intro none
    constructor
    · intro slot p selected
      have zero := none slot ((slots slot).mpr selected.slot)
      exact (killError_some selected.there low high).mp zero selected.reached
    · intro every slot positive below empty
      exact (killError_none empty).mp (none slot ((slots slot).mpr ⟨positive, below⟩)) every
  · rintro ⟨granted, full⟩ slot isIn
    cases there : s.task slot with
    | none =>
      rw [killError_none there]
      intro every
      exact full every slot ((slots slot).mp isIn).1 ((slots slot).mp isIn).2 there
    | some p => exact (killError_some there low high).mpr fun reached => granted slot p ⟨there, reached⟩

/-- The last signal is sent with the bits of 32 more that do not exist. -/
theorem sent_iff (low : 1 ≤ sig) (high : sig ≤ 32) : p.raise (sigBit sig.toNat) =
      { p with signal := p.signal ||| BitVec.twoPow 64 (sig.toNat - 1) } ↔
    (sig = 32 → ∀ k, 32 ≤ k → k < 64 → p.signal.getLsbD k = true) := by
  by_cases last : sig = 32
  · subst last
    rw [imp_iff_right rfl, ← or_last_iff p.signal]
    constructor
    · exact congrArg SignalTask.signal
    · intro same
      unfold SignalTask.raise
      rw [show ((32 : Int).toNat) = 32 from rfl, same]
  · refine iff_of_true ?_ fun is32 => absurd is32 last
    unfold SignalTask.raise
    rw [widened_sigBit (by omega) (by omega)]

/-- `sys_kill` does what it is for unless signal 32 is sent, or all tasks are selected where slots are empty. -/
theorem kill_exact_iff (s : SignalTable) (pid : BitVec 32) (current : SignalTask) {sig : Int} (low : 1 ≤ sig)
    (high : sig ≤ 32) : KillsExactly s pid sig current ↔
      (sig = 32 → ∀ slot p, Selected s pid current slot p → Granted pid current p →
        ∀ k, 32 ≤ k → k < 64 → p.signal.getLsbD k = true) ∧
      (pid = -1 → (∀ slot, 0 < slot → slot < nrTasks → s.task slot ≠ none) ∨
        ∃ slot p, Selected s pid current slot p ∧ ¬ Granted pid current p) := by
  have task := fun slot => kill_task s pid current low high slot
  have zero := kill_zero_iff s pid current low high
  have got : ∀ slot p, Selected s pid current slot p → Granted pid current p →
      (s.kill pid sig current).2.task slot = some (p.raise (sigBit sig.toNat)) := by
    intro slot p selected granted
    unfold Granted at granted
    rw [task, selected.there, Option.map_some, if_pos selected.reached, if_pos granted]
  constructor
  · intro exact
    constructor
    · intro last slot p selected granted
      have sent := exact.sent slot p selected granted
      rw [got slot p selected granted, Option.some.injEq, sent_iff low high] at sent
      exact sent last
    · intro every
      by_cases granted : ∀ slot p, Selected s pid current slot p → Granted pid current p
      · exact .inl ((zero.mp (exact.result.mpr granted)).2 every)
      · simp only [not_forall] at granted
        rcases granted with ⟨slot, p, selected, refused⟩
        exact .inr ⟨slot, p, selected, refused⟩
  · rintro ⟨last, full⟩
    constructor
    · intro slot p selected granted
      rw [got slot p selected granted, (sent_iff low high).mpr fun is32 => last is32 slot p selected granted]
    · intro slot unsent
      rw [task]
      cases there : s.task slot with
      | none => rfl
      | some p =>
        rw [Option.map_some]
        split
        · rename_i reached
          have refused := unsent p ⟨there, reached⟩
          unfold Granted at refused
          rw [if_neg refused]
        · rfl
    · rfl
    · rw [zero]
      constructor
      · exact fun both => both.1
      · intro granted
        refine ⟨granted, fun every => (full every).resolve_right ?_⟩
        rintro ⟨slot, p, selected, refused⟩
        exact refused (granted slot p selected)

/-- User 5 sends `SIGTERM` to task 1, which is its own. -/
theorem own_task_killed : KillsExactly signalSample 1 15 ((signalSample.task 1).get (by decide)) :=
  (kill_exact_iff signalSample 1 _ (by decide) (by decide)).mpr ⟨fun last => absurd last (by decide),
    fun every => absurd every (by decide)⟩

/-- The same signal for all tasks reaches the only one that there is, but the result is `-EINVAL`. -/
theorem all_tasks_killed_fails : ∃ current, signalSample.task signalSample.current = some current ∧
    (signalSample.kill (-1) 15 current).1 = -einval ∧
    (∀ slot p, Selected signalSample (-1) current slot p → Granted (-1) current p) ∧
    ¬ KillsExactly signalSample (-1) 15 current := by
  have granted : ∀ slot p, Selected signalSample (-1) ((signalSample.task 1).get (by decide)) slot p →
      Granted (-1) ((signalSample.task 1).get (by decide)) p := by
    rintro slot p ⟨there, -⟩
    simp only [signalSample] at there
    split at there
    · cases there
      rfl
    · cases there
  have value : (signalSample.kill (-1) 15 ((signalSample.task 1).get (by decide))).1 = -einval := by decide
  refine ⟨(signalSample.task 1).get (by decide), rfl, value, granted, ?_⟩
  intro exact
  have zero := exact.result.mpr granted
  rw [value] at zero
  cases zero

end Call

end K210Linux.Kernel
