import K210Linux.Kernel.ForkContract
import K210Linux.Kernel.Exit
import K210Linux.Lib.Outcome

/-! The signals of a task that sleeps in `sys_waitpid`. -/

namespace K210Linux.Kernel

open K210Linux.Mm Outcome

/-- The pending signals of the current task. -/
def Process.pending (k : Process) : Word := (k.structs k.current).signal

/-- `~((1 << SIGCHLD) - 1)`, which is meant to be the complement of one bit. -/
def waitMask : Word := (~~~ ((1 : BitVec 32) <<< sigchld - 1)).signExtend 64

/-- `current -> signal &= ~((1 << SIGCHLD) - 1)`. -/
def cutSignals (k : Process) : Process :=
  k.setStruct k.current { k.structs k.current with signal := k.pending &&& waitMask }

/-- What `schedule` comes back to: other tasks ran, and they only add to the pending signals of the one that slept. -/
structure Woken (k k' : Process) : Prop where
  current : k'.current = k.current
  arrived : ∀ b, k.pending.getLsbD b = true → k'.pending.getLsbD b = true

inductive WaitAnswer
  | reaped (pid : Int)
  | returned (value : Int)
  | interrupted

def WaitAnswer.value : WaitAnswer → Int
  | reaped pid => pid
  | returned value => value
  | interrupted => -eintr

/-- Whether the loop of `sys_waitpid` ends at a zombie. -/
def reaps (k : Process) (pid : Int) (options : BitVec 32) : Bool :=
  (waitScan k pid (options.getLsbD 1) nrTasks false).1.any fun p => (k.structs p).state = .zombie

/-- `sys_waitpid` from `repeat` on, with the states that it wakes up in. -/
inductive Waits (image : Word → Nat → Word) (pid : Int) (statAddr : Word) (options : BitVec 32) :
    Process → List Process → WaitAnswer → Process → Prop
  | returns {k k' : Process} {value : Int} (run : waitFor k image pid statAddr options = .ok (.returned value, k')) :
      Waits image pid statAddr options k [] (if reaps k pid options then .reaped value else .returned value) k'
  | again {k k₁ k₂ k' : Process} {wakes : List Process} {answer : WaitAnswer}
      (sleeps : waitFor k image pid statAddr options = .ok (.sleeps, k₁)) (woken : Woken k₁ k₂)
      (quiet : (cutSignals k₂).pending = 0) (rest : Waits image pid statAddr options (cutSignals k₂) wakes answer k') :
      Waits image pid statAddr options k (k₂ :: wakes) answer k'
  | interrupted {k k₁ k₂ : Process} (sleeps : waitFor k image pid statAddr options = .ok (.sleeps, k₁))
      (woken : Woken k₁ k₂) (signalled : (cutSignals k₂).pending ≠ 0) :
      Waits image pid statAddr options k [k₂] .interrupted (cutSignals k₂)

/-- `sys_waitpid`. -/
def SysWaitpid (image : Word → Nat → Word) (pid : Int) (statAddr : Word) (options : BitVec 32) (k : Process)
    (wakes : List Process) (answer : WaitAnswer) (k' : Process) : Prop :=
  ∃ m, verifyArea k.memory statAddr 4 = .ok m ∧ Waits image pid statAddr options (k.setMemory m) wakes answer k'

/-- A pending signal that is not `SIGCHLD`. -/
def OtherPending (w : Word) (b : Nat) : Prop := b ≠ sigchld - 1 ∧ w.getLsbD b = true

/-- No signal is lost but `SIGCHLD`, and a call that slept is interrupted if and only if such a signal is pending and no
    child was reaped. -/
structure KeepsSignals (k : Process) (wakes : List Process) (answer : WaitAnswer) (k' : Process) : Prop where
  kept : ∀ b, OtherPending k.pending b ∨ (∃ w ∈ wakes, OtherPending w.pending b) → OtherPending k'.pending b
  answers : wakes ≠ [] → (answer = .interrupted ↔ (∃ b, OtherPending k'.pending b) ∧ ∀ pid, answer ≠ .reaped pid)

theorem waitMask_bit {b : Nat} (bound : b < 64) : waitMask.getLsbD b = decide (17 ≤ b) := by
  have all : ∀ b < 64, waitMask.getLsbD b = decide (17 ≤ b) := by decide
  exact all b bound

theorem cutSignals_pending (k : Process) : (cutSignals k).pending = k.pending &&& waitMask := by
  simp only [cutSignals, Process.pending, Process.setStruct, Function.update_self]

/-- Signals from 18 on are not cut. -/
theorem cutSignals_bit (k : Process) (b : Nat) :
    (cutSignals k).pending.getLsbD b = (k.pending.getLsbD b && decide (17 ≤ b)) := by
  rw [cutSignals_pending, BitVec.getLsbD_and]
  by_cases bound : b < 64
  · rw [waitMask_bit bound]
  · rw [BitVec.getLsbD_of_ge _ _ (not_lt.mp bound), Bool.false_and, Bool.false_and]

variable {image : Word → Nat → Word} {pid : Int} {statAddr : Word} {options : BitVec 32} {k k' k₁ : Process}

theorem releaseFrom_structs {p : Word} {i left : Nat} (run : releaseFrom k p i left = .ok k') :
    k'.structs = k.structs ∧ k'.current = k.current := by
  induction left generalizing i with
  | zero => cases run
  | succ left ih =>
    unfold releaseFrom at run
    split at run
    · rcases of_bind run with ⟨m₁, -, run⟩
      rcases of_bind run with ⟨m₂, -, run⟩
      cases run
      exact ⟨rfl, rfl⟩
    · exact ih run

theorem release_structs {p : Word} (run : release k p = .ok k') : k'.structs = k.structs ∧ k'.current = k.current := by
  unfold release at run
  split at run
  · cases run
    exact ⟨rfl, rfl⟩
  · exact releaseFrom_structs run

theorem reap_pending {p : Word} {waited : Waited} (run : reap k image p statAddr = .ok (waited, k')) :
    k'.pending = k.pending := by
  unfold reap at run
  rcases of_bind run with ⟨k₁, released, run⟩
  rcases of_bind run with ⟨m, -, run⟩
  cases run
  rcases release_structs released with ⟨structs, current⟩
  simp only [Process.pending, Process.setMemory, structs, current, addChildTimes, Process.setStruct, Function.update_self]

/-- Neither the scan for a child nor what is done with it changes the pending signals. -/
theorem waitFor_pending {waited : Waited} (run : waitFor k image pid statAddr options = .ok (waited, k')) :
    k'.pending = k.pending := by
  unfold waitFor at run
  split at run
  · split at run
    · unfold reportStopped at run
      rcases of_bind run with ⟨m, -, run⟩
      cases run
      rfl
    · exact reap_pending run
  · split at run
    · cases run
      rfl
    · cases run
      simp only [Process.pending, Process.setStruct, Function.update_self]
  · cases run
    rfl

/-- The signals below `SIGCHLD` are not pending. -/
def NoneCut (k : Process) : Prop := ∀ b < 16, k.pending.getLsbD b = false

theorem otherPending_cut {b : Nat} : OtherPending (cutSignals k).pending b ↔ OtherPending k.pending b ∧ 17 ≤ b := by
  unfold OtherPending
  rw [cutSignals_bit, Bool.and_eq_true, decide_eq_true_eq, and_assoc]

theorem not_otherPending_zero {w : Word} (zero : w = 0) (b : Nat) : ¬ OtherPending w b := by
  rintro ⟨-, set⟩
  rw [zero] at set
  simp at set

/-- What was pending before the caller slept or arrived meanwhile passes the cut, unless it is one of those below
    `SIGCHLD`. -/
theorem kept_by_cut {k₂ : Process} (none : NoneCut k₂) {b : Nat} (other : OtherPending k₂.pending b) :
    OtherPending (cutSignals k₂).pending b := by
  rw [otherPending_cut]
  refine ⟨other, ?_⟩
  have apart : b ≠ 16 := other.1
  by_contra low
  have clear := none b (by omega)
  rw [other.2] at clear
  cases clear

theorem arrived_of_before {k₂ : Process} (sleeps : waitFor k image pid statAddr options = .ok (.sleeps, k₁))
    (woken : Woken k₁ k₂) {b : Nat} (before : OtherPending k.pending b) : OtherPending k₂.pending b := by
  refine ⟨before.1, woken.arrived b ?_⟩
  rw [waitFor_pending sleeps]
  exact before.2

section Run

variable {wakes : List Process} {answer : WaitAnswer}

theorem Waits.awake (run : Waits image pid statAddr options k [] answer k') :
    answer ≠ .interrupted ∧ k'.pending = k.pending := by
  cases run with
  | returns run =>
    refine ⟨?_, waitFor_pending run⟩
    split
    · exact nofun
    · exact nofun

/-- How a call ends that slept: interrupted with a signal that passed the cut, or with none. -/
theorem Waits.slept (run : Waits image pid statAddr options k wakes answer k') (some : wakes ≠ []) :
    (answer = .interrupted ∧ ∃ b, OtherPending k'.pending b) ∨ (answer ≠ .interrupted ∧ k'.pending = 0) := by
  induction run with
  | returns run => exact absurd rfl some
  | @interrupted k k₁ k₂ sleeps woken signalled =>
    have set : ∃ b, (cutSignals k₂).pending.getLsbD b = true := by
      by_contra none
      apply signalled
      apply BitVec.eq_of_getLsbD_eq
      intro b _
      simpa using not_exists.mp none b
    rcases set with ⟨b, set⟩
    refine .inl ⟨rfl, b, ?_, set⟩
    rw [cutSignals_bit, Bool.and_eq_true, decide_eq_true_eq] at set
    rw [sigchld]
    omega
  | @again k k₁ k₂ k' wakes answer sleeps woken quiet rest ih =>
    cases wakes with
    | nil =>
      have awake := rest.awake
      exact .inr ⟨awake.1, awake.2.trans quiet⟩
    | cons w wakes => exact ih (by simp)

theorem Waits.kept (run : Waits image pid statAddr options k wakes answer k') (none : ∀ w ∈ wakes, NoneCut w) {b : Nat}
    (was : OtherPending k.pending b ∨ ∃ w ∈ wakes, OtherPending w.pending b) : OtherPending k'.pending b := by
  induction run with
  | returns run =>
    rw [waitFor_pending run]
    exact was.resolve_right fun later => by simp at later
  | @interrupted k k₁ k₂ sleeps woken signalled =>
    apply kept_by_cut (none k₂ (List.mem_singleton_self _))
    rcases was with before | ⟨w, isIn, arrived⟩
    · exact arrived_of_before sleeps woken before
    · rwa [List.mem_singleton.mp isIn] at arrived
  | @again k k₁ k₂ k' wakes answer sleeps woken quiet rest ih =>
    have here : ¬ OtherPending k₂.pending b := fun other =>
      not_otherPending_zero quiet b (kept_by_cut (none k₂ List.mem_cons_self) other)
    apply ih fun w isIn => none w (List.mem_cons_of_mem _ isIn)
    rcases was with before | ⟨w, isIn, arrived⟩
    · exact absurd (arrived_of_before sleeps woken before) here
    · rcases List.mem_cons.mp isIn with rfl | later
      · exact absurd arrived here
      · exact .inr ⟨w, later, arrived⟩

theorem Waits.cut (run : Waits image pid statAddr options k wakes answer k') (some : wakes ≠ []) {b : Nat}
    (other : OtherPending k'.pending b) : 17 ≤ b := by
  induction run with
  | returns run => exact absurd rfl some
  | interrupted sleeps woken signalled => exact (otherPending_cut.mp other).2
  | @again k k₁ k₂ k' wakes answer sleeps woken quiet rest ih =>
    cases wakes with
    | nil =>
      rw [rest.awake.2] at other
      exact (otherPending_cut.mp other).2
    | cons w wakes => exact ih (by simp) other

end Run

/-- `sys_waitpid` keeps the signals exactly if none below `SIGCHLD` is pending whenever it wakes up. -/
theorem wait_keeps_signals_iff {wakes : List Process} {answer : WaitAnswer}
    (run : SysWaitpid image pid statAddr options k wakes answer k') :
    KeepsSignals k wakes answer k' ↔ ∀ w ∈ wakes, NoneCut w := by
  rcases run with ⟨m, -, run⟩
  constructor
  · intro keeps w isIn b low
    by_contra set
    have apart : b ≠ sigchld - 1 := by
      rw [sigchld]
      omega
    have other : OtherPending w.pending b := ⟨apart, by simpa using set⟩
    have high := run.cut (List.ne_nil_of_mem isIn) (keeps.kept b (.inr ⟨w, isIn, other⟩))
    omega
  · intro none
    refine ⟨fun b was => run.kept none was, ?_⟩
    intro some
    rcases run.slept some with ⟨interrupted, pending⟩ | ⟨other, clear⟩
    · refine iff_of_true interrupted ⟨pending, ?_⟩
      intro pid
      rw [interrupted]
      exact nofun
    · refine iff_of_false other ?_
      rintro ⟨⟨b, pending⟩, -⟩
      exact not_otherPending_zero clear b pending

section Example

/-- A parent at 0x80708000 and its child in slot 1, which has the state `state`; the parent has the signals `signal`. -/
def familyOf (state : TaskState) (signal : Word) : Process where
  memory := ⟨fun _ => 1, fun _ _ => 0, fun _ _ => 0, parentDir, fun _ => 0, 0x80700000⟩
  structs := fun p => if p = 0x80300000 then { sampleTask 0x4000000 with state := state, pid := 2, father := 1 }
    else if p = 0x80708000 then { sampleTask 0x4000000 with pid := 1, signal := signal } else sampleTask 0x4000000
  task := fun i => if i = 0 then 0x80708000 else if i = 1 then 0x80300000 else 0
  current := 0x80708000
  kernelStack := fun i => if i = 1 then 0x80318000 else 0
  kernelStackbottom := fun i => if i = 1 then 0x80310000 else 0
  lastPid := 2
  jiffies := 0
  trapInfo := ⟨fun _ => 0, fun _ => 0, 0⟩
  forkProcessExit := 0
  fsIsKernel := false
  fCount := fun _ => 0
  fInode := fun _ => none
  iCount := fun _ => 0

theorem familyOf_verified (state : TaskState) (signal : Word) :
    verifyArea (familyOf state signal).memory 0 4 = .ok (familyOf state signal).memory := by
  have one : (positivePart ((4 : BitVec 32) + ((0 : Word) &&& (pageSize - 1)).setWidth 32) + 4095) / 4096 = 1 := by decide
  have absent : ∀ address, writeVerify (familyOf state signal).memory address = .ok (familyOf state signal).memory := by
    intro address
    exact if_pos (by decide : (!Pte.v 0) = true)
  unfold verifyArea
  rw [one, verifyPages, absent]
  rfl

theorem familyOf_cut (state : TaskState) (signal : Word) :
    cutSignals (familyOf state signal) = familyOf state (signal &&& waitMask) := by
  have structs : (cutSignals (familyOf state signal)).structs = (familyOf state (signal &&& waitMask)).structs := by
    funext p
    unfold cutSignals Process.setStruct
    dsimp only
    by_cases parent : p = 0x80708000
    · subst parent
      exact Function.update_self ..
    · refine (Function.update_of_ne parent ..).trans ?_
      simp only [familyOf, parent, if_false]
  exact congrArg (fun structs => { familyOf state signal with structs := structs }) structs

/-- The parent asleep. -/
def asleep : Process :=
  (familyOf .running 0).setStruct 0x80708000 { (familyOf .running 0).structs 0x80708000 with state := .interruptible }

/-- The parent sleeps as long as the child runs. -/
theorem familyOf_sleeps : waitFor (familyOf .running 0) (fun _ _ => 0) (-1) 0 0 = .ok (.sleeps, asleep) := by
  have scan : waitScan (familyOf .running 0) (-1) ((0 : BitVec 32).getLsbD 1) nrTasks false = (none, true) := by
    decide +kernel
  unfold waitFor
  rw [scan]
  rfl

theorem familyOf_wakes (state : TaskState) (signal : Word) : Woken asleep (familyOf state signal) := by
  refine ⟨rfl, ?_⟩
  intro b set
  rw [show asleep.pending = 0 by decide] at set
  simp at set

/-- `SIGCONT` interrupts the parent and is still pending. -/
theorem continue_interrupts : ∃ k', SysWaitpid (fun _ _ => 0) (-1) 0 0 (familyOf .running 0)
      [familyOf .running 0x20000] .interrupted k' ∧
    KeepsSignals (familyOf .running 0) [familyOf .running 0x20000] .interrupted k' := by
  have run : SysWaitpid (fun _ _ => 0) (-1) 0 0 (familyOf .running 0) [familyOf .running 0x20000] .interrupted
      (cutSignals (familyOf .running 0x20000)) := by
    refine ⟨_, familyOf_verified .running 0, .interrupted familyOf_sleeps (familyOf_wakes ..) ?_⟩
    rw [familyOf_cut]
    decide
  refine ⟨_, run, (wait_keeps_signals_iff run).mpr ?_⟩
  intro w isIn
  rw [List.mem_singleton.mp isIn]
  exact (by decide : ∀ b < 16, (familyOf .running 0x20000).pending.getLsbD b = false)

/-- `SIGINT` arrives while the child runs. The parent does not return before the child has exited, and then the signal
    is gone. -/
theorem interrupt_swallowed : ∃ k', SysWaitpid (fun _ _ => 0) (-1) 0 0 (familyOf .running 0)
      [familyOf .running 2, familyOf .zombie 0x10000] (.reaped 2) k' ∧
    ¬ KeepsSignals (familyOf .running 0) [familyOf .running 2, familyOf .zombie 0x10000] (.reaped 2) k' := by
  have passed : (waitFor (familyOf .zombie 0) (fun _ _ => 0) (-1) 0 0).toOption.any
      (fun r => r.1 = .returned 2 ∧ r.2.pending = 0) = true := by decide +kernel
  cases found : waitFor (familyOf .zombie 0) (fun _ _ => 0) (-1) 0 0 with
  | error e =>
    rw [found] at passed
    cases passed
  | ok r =>
    rw [found] at passed
    have facts : decide (r.1 = .returned 2 ∧ r.2.pending = 0) = true := passed
    rw [decide_eq_true_eq] at facts
    have reaped : reaps (familyOf .zombie 0) (-1) 0 = true := by decide +kernel
    have last : Waits (fun _ _ => 0) (-1) 0 0 (familyOf .zombie 0) [] (.reaped 2) r.2 := by
      have returns : Waits (fun _ _ => 0) (-1) 0 0 (familyOf .zombie 0) [] _ r.2 :=
        .returns (found.trans (congrArg Except.ok (Prod.ext facts.1 rfl)))
      rwa [if_pos reaped] at returns
    have second : Waits (fun _ _ => 0) (-1) 0 0 (familyOf .running 0) [familyOf .zombie 0x10000] (.reaped 2) r.2 := by
      refine .again familyOf_sleeps (familyOf_wakes ..) ?_ ?_
      · rw [familyOf_cut]
        decide
      · rw [familyOf_cut]
        exact last
    refine ⟨r.2, ⟨_, familyOf_verified .running 0, .again familyOf_sleeps (familyOf_wakes ..) ?_ ?_⟩, ?_⟩
    · rw [familyOf_cut]
      decide
    · rw [familyOf_cut]
      exact second
    · intro keeps
      have kept := keeps.kept 1 (.inr ⟨familyOf .running 2, List.mem_cons_self, by decide, by decide⟩)
      exact not_otherPending_zero facts.2 1 kept

end Example

end K210Linux.Kernel
