import K210Linux.Kernel.Signals

namespace K210Linux.Kernel

open K210Linux.Lib

variable {s : SignalTable} {p p' : SignalTask}

theorem bitscanFrom_spec {v : BitVec 64} {i left n : Nat} (found : bitscanFrom v i left = some n) :
    i ≤ n ∧ n < i + left ∧ v.getLsbD (n - i) = true := by
  induction left generalizing v i with
  | zero => cases found
  | succ left ih =>
    rw [bitscanFrom] at found
    split at found
    · rename_i set
      cases found
      rw [Nat.sub_self]
      exact ⟨Nat.le_refl _, by omega, set⟩
    · rcases ih found with ⟨low, high, set⟩
      refine ⟨by omega, by omega, ?_⟩
      rw [BitVec.getLsbD_ushiftRight] at set
      have same : 1 + (n - (i + 1)) = n - i := by omega
      rw [← same]
      exact set

/-- Only signals of the table are pending. -/
def InTable (p : SignalTask) : Prop := ∀ k, 32 ≤ k → p.signal.getLsbD k = false

/-- The number for `do_signal` is then one of the table. -/
theorem InTable.pending (inTable : InTable p) {signr : Nat} (next : p.pending = some signr) :
    1 ≤ signr ∧ signr ≤ 32 := by
  rcases Option.map_eq_some_iff.1 next with ⟨n, found, rfl⟩
  rcases bitscanFrom_spec found with ⟨-, -, set⟩
  rw [Nat.sub_zero, BitVec.getLsbD_and, Bool.and_eq_true] at set
  refine ⟨by omega, ?_⟩
  by_contra beyond
  have clear := inTable n (by omega)
  rw [set.1] at clear
  cases clear

/-- A mask whose sign is clear has no bits beyond 31 when it is widened. -/
theorem widened_high {mask : BitVec 32} (positive : mask.msb = false) {k : Nat} (high : 32 ≤ k) :
    (widened mask).getLsbD k = false := by
  rw [widened, BitVec.getLsbD_signExtend, if_neg (by omega), positive, Bool.and_false]

theorem sigBit_msb {sig : Nat} (low : sig < 32) : (sigBit sig).msb = false := by
  have all : ∀ sig < 32, (sigBit sig).msb = false := by decide
  exact all sig low

theorem InTable.raise (inTable : InTable p) {sig : Nat} (low : sig < 32)
    (signal : p'.signal = p.signal ||| widened (sigBit sig)) : InTable p' := by
  intro k high
  rw [signal, BitVec.getLsbD_or, inTable k high, widened_high (sigBit_msb low) high]
  rfl

theorem InTable.masked (inTable : InTable p) {mask : BitVec 64} (signal : p'.signal = p.signal &&& mask) : InTable p' := by
  intro k high
  rw [signal, BitVec.getLsbD_and, inTable k high, Bool.false_and]

theorem InTable.same (inTable : InTable p) (signal : p'.signal = p.signal) : InTable p' := by
  intro k high
  rw [signal]
  exact inTable k high

theorem doSignal_signal (p : SignalTask) (signr : Nat) : (p.doSignal signr).signal = p.signal := by
  unfold SignalTask.doSignal SignalTask.oneShot
  simp only
  split_ifs <;> rfl

theorem InTable.deliver (inTable : InTable p) : InTable p.deliver := by
  unfold SignalTask.deliver
  split
  · exact inTable
  · have both : InTable { p with signal := p.signal &&& ~~~ p.blocked } := inTable.masked rfl
    exact (both.masked rfl).same (doSignal_signal _ _)

/-- No task gets signal 32 from `sys_kill`. -/
def SignalEvent.NoLast (e : SignalEvent) (s : SignalTable) : Prop :=
  match e with
  | .kill pid sig => sig = 32 → ∀ current, s.task s.current = some current → ∀ slot p, s.task slot = some p →
      SignalTable.killed pid current slot p = true → p.mayReceive current.euid (pid = 0) = false
  | _ => True

theorem inTable_step {e : SignalEvent} (noLast : e.NoLast s) (inTable : InTable p)
    (change : SignalChange s e p p') : InTable p' := by
  cases change with
  | kept signal => exact inTable.same signal
  | raised sig known signal =>
    have low : ∀ sig ∈ kernelSignals, sig < 32 := by decide
    exact inTable.raise (low sig known) signal
  | sent pid sig slot current isKill running there reached after =>
    subst e after
    unfold SignalTask.sendSig
    split_ifs with refused permitted
    · exact inTable
    · have other : sig.toInt ≠ 32 := by
        intro last
        have same : sig = 32 := BitVec.eq_of_toInt_eq last
        have denied := noLast same current running slot p there reached
        rw [permitted] at denied
        cases denied
      have low : sig.toInt.toNat < 32 := by omega
      exact inTable.raise low rfl
    · exact inTable
  | dropped mask signal => exact inTable.masked signal
  | delivered _ after =>
    subst after
    exact inTable.deliver
  | masked newmask after =>
    subst after
    exact inTable
  | handled signum handler restorer after =>
    subst after
    unfold SignalTask.setSignal
    split
    · exact inTable
    · exact inTable
  | acted signum byte _ after =>
    subst after
    unfold SignalTask.setAction
    split
    · exact inTable
    · exact inTable

/-- A task in slot 1 that ignores signal 32, and the idle task. -/
def signalSample : SignalTable where
  task := fun slot => if slot < 2 then some {
    pid := BitVec.ofNat 64 slot, pgrp := 0, session := 0, euid := 5, alarm := 0, signal := 0, blocked := 0
    sigaction := fun i => ⟨if i = 31 then 1 else 0, 0, 0, 0⟩ } else none
  current := 1

theorem signalSample_quiet : AllTasks (fun p => p.signal = 0) signalSample := by
  intro slot p there
  simp only [signalSample] at there
  split at there
  · cases there
    rfl
  · cases there

end K210Linux.Kernel
