import K210Linux.Kernel.SignalSets

/-! The calls that change which signals a task blocks, with what they store through the pointers of the user:
    `mem_copy_from_kernel` stores to the address that it is given, which can be that of a task. -/

namespace K210Linux.Kernel

open K210Linux.Lib K210Linux.Mm

/-- A byte stored at the offset `d` of a structure whose field `w` of `n` bytes begins at `start`. -/
def storeField (start n d : Nat) (b : Byte) (w : Word) : Word :=
  if start ≤ d ∧ d < start + n then setByte w (d - start) b else w

def SigAction.store (sa : SigAction) (start d : Nat) (b : Byte) : SigAction where
  handler := storeField start 8 d b sa.handler
  mask := (storeField (start + 8) 4 d b (sa.mask.setWidth 64)).setWidth 32
  flags := (storeField (start + 12) 4 d b (sa.flags.setWidth 64)).setWidth 32
  restorer := storeField (start + 16) 8 d b sa.restorer

/-- The offset of `sigaction` in a `task_struct`. -/
def SignalTask.sigactionOffset : Nat := 32
def SignalTask.blockedOffset : Nat := SignalTask.sigactionOffset + 32 * 24

/-- A byte stored at the offset `d` of a `task_struct`. -/
def SignalTask.store (p : SignalTask) (d : Nat) (b : Byte) : SignalTask where
  signal := storeField 24 8 d b p.signal
  sigaction := fun i => (p.sigaction i).store (SignalTask.sigactionOffset + 24 * i) d b
  blocked := storeField SignalTask.blockedOffset 8 d b p.blocked
  pid := storeField (SignalTask.blockedOffset + 56) 8 d b p.pid
  pgrp := storeField (SignalTask.blockedOffset + 72) 8 d b p.pgrp
  session := storeField (SignalTask.blockedOffset + 80) 8 d b p.session
  euid := (storeField (SignalTask.blockedOffset + 98) 2 d b (p.euid.setWidth 64)).setWidth 16
  alarm := storeField (SignalTask.blockedOffset + 112) 8 d b p.alarm

/-- The table of tasks with the addresses of the tasks. -/
structure PlacedTasks where
  table : SignalTable
  place : Nat → Word

namespace PlacedTasks

variable (s : PlacedTasks)

def onCurrent (f : SignalTask → SignalTask) : PlacedTasks := { s with table := s.table.onCurrent f }

/-- A byte stored to an address as it is. -/
def store (addr : Word) (b : Byte) : PlacedTasks :=
  let tasks := fun slot => (s.table.task slot).map fun p => p.store (addr - s.place slot).toNat b
  { s with table := { s.table with task := tasks } }

/-- `sys_sigaction`, with the byte that `get_new` finds. -/
def sysSigaction (current : SignalTask) (signum : Int) (byte : Byte) (oldaction : Word) : PlacedTasks :=
  if SignalTask.refused signum then s
  else
    let i := signum.toNat - 1
    let new := s.onCurrent fun p => p.getNew i byte
    let saved := if oldaction = 0 then new else new.store oldaction ((current.sigaction i).handler.setWidth 8)
    saved.onCurrent fun p => p.adjustMask i

/-- The stores of a frame: the bytes that `trap_info` has for the registers, the floating point registers and `epc`,
    and one of `blocked`. -/
def pushFrame (current : SignalTask) (signr : Nat) (stack : Word) (regs fregs epc : Byte) : PlacedTasks :=
  let pushed := ((s.store stack regs).store (stack + 32 * 8) fregs).store (stack + 64 * 8) epc
  if (current.sigaction (signr - 1)).flags &&& saNoMask = 0 then
    pushed.store (stack + 65 * 8) (current.blocked.setWidth 8)
  else pushed

/-- The part of `ret_from_sys_call` on signals, with the stores of `do_signal` and, as in `SignalTask.deliver`, without the
    tests of `task[0]` and of `syscall_from_kernel`. -/
def deliver (current : SignalTask) (stack : Word) (regs fregs epc : Byte) : PlacedTasks :=
  match current.pending with
  | none => s
  | some signr =>
    let taken := s.onCurrent fun p => p.takeSignal signr
    if current.handled signr then
      let once := taken.onCurrent fun p => p.oneShot signr
      (once.pushFrame current signr stack regs fregs epc).onCurrent fun p => p.blockMask signr
    else taken

end PlacedTasks

/-- What can change the signals that are blocked. `other` stands for the events that have nothing to do with a
    pointer of the user. -/
inductive MaskEvent where
  | sigaction (signum : BitVec 32) (byte : Byte) (oldaction : Word)
  | deliver (stack : Word) (regs fregs epc : Byte)
  | fork (nr : Nat) (pid place : Word)
  | other (e : SignalEvent)

/-- Whether an event has a constructor of its own in `MaskEvent`. -/
def SignalEvent.placed : SignalEvent → Bool
  | .setAction .. | .deliver | .fork .. => true
  | _ => false

def PlacedTasks.step (e : MaskEvent) (s : PlacedTasks) : Option PlacedTasks :=
  (s.table.task s.table.current).bind fun current =>
    match e with
    | .sigaction signum byte oldaction => some (s.sysSigaction current signum.toInt byte oldaction)
    | .deliver stack regs fregs epc => some (s.deliver current stack regs fregs epc)
    | .fork nr pid place => some ⟨s.table.fork nr pid current, Function.update s.place nr place⟩
    | .other e => if e.placed then none else (SignalTable.step e s.table).map fun table => { s with table }

/-- No task has its actions or its mask at the address. -/
def PlacedTasks.Spared (s : PlacedTasks) (addr : Word) : Prop := ∀ slot p, s.table.task slot = some p →
  (addr - s.place slot).toNat < SignalTask.sigactionOffset ∨ SignalTask.blockedOffset + 8 ≤ (addr - s.place slot).toNat

/-- What a call stores through a pointer of the user spares the actions and masks of the tasks, and only signals of the
    table are delivered. -/
def MaskEvent.SparesKill (e : MaskEvent) (s : PlacedTasks) : Prop :=
  match e with
  | .sigaction signum _ oldaction => SignalTask.refused signum.toInt = false → oldaction ≠ 0 → s.Spared oldaction
  | .deliver stack _ _ _ => ∀ p signr, s.table.task s.table.current = some p → p.pending = some signr →
      p.handled signr = true → signr ≤ 32 ∧ s.Spared stack ∧ s.Spared (stack + 32 * 8) ∧ s.Spared (stack + 64 * 8) ∧
        ((p.sigaction (signr - 1)).flags &&& saNoMask = 0 → s.Spared (stack + 65 * 8))
  | _ => True

/-- `SIGKILL` is not blocked, and no action of the table would block it. -/
structure KillFree (p : SignalTask) : Prop where
  blocked : p.blocked.getLsbD (sigKill - 1) = false
  masks : ∀ i < 32, (p.sigaction i).mask.getLsbD (sigKill - 1) = false

section Task

variable {p p' : SignalTask}

theorem KillFree.same (free : KillFree p) (blocked : p'.blocked = p.blocked)
    (masks : ∀ i < 32, (p'.sigaction i).mask = (p.sigaction i).mask) : KillFree p' := by
  constructor
  · rw [blocked]
    exact free.blocked
  · intro i inside
    rw [masks i inside]
    exact free.masks i inside

theorem KillFree.setEntry (free : KillFree p) (i : Nat) {sa : SigAction}
    (spares : i < 32 → sa.mask.getLsbD (sigKill - 1) = false) : KillFree (p.setEntry i sa) := by
  refine ⟨free.blocked, ?_⟩
  intro j inside
  simp only [SignalTask.setEntry, Function.update_apply]
  split
  · rename_i same
    exact spares (same ▸ inside)
  · exact free.masks j inside

theorem KillFree.getNew (free : KillFree p) (i : Nat) (byte : Byte) : KillFree (p.getNew i byte) := by
  apply free.setEntry
  intro inside
  exact free.masks i inside

/-- The bit that `sys_sigaction` adds is not that of `SIGKILL`. -/
theorem sigBit_spares {signum : Int} (accepted : SignalTask.refused signum = false) :
    (sigBit signum.toNat).getLsbD (sigKill - 1) = false := by
  simp only [SignalTask.refused, Bool.or_eq_false_iff, decide_eq_false_iff_not, beq_eq_false_iff_ne] at accepted
  have all : ∀ n < 33, n ≠ sigKill → n ≠ 0 → (sigBit n).getLsbD (sigKill - 1) = false := by decide
  apply all
  · omega
  · intro same
    apply accepted.2
    omega
  · omega

theorem KillFree.adjustMask (free : KillFree p) {signum : Int} (accepted : SignalTask.refused signum = false) :
    KillFree (p.adjustMask (signum.toNat - 1)) := by
  have other := sigBit_spares accepted
  simp only [SignalTask.refused, Bool.or_eq_false_iff, decide_eq_false_iff_not] at accepted
  apply free.setEntry
  intro inside
  simp only
  split
  · rfl
  · have same : signum.toNat - 1 + 1 = signum.toNat := by omega
    rw [BitVec.getLsbD_or, same, other, free.masks _ inside]
    rfl

theorem KillFree.takeSignal (free : KillFree p) (signr : Nat) : KillFree (p.takeSignal signr) :=
  free.same rfl fun _ _ => rfl

theorem KillFree.oneShot (free : KillFree p) (signr : Nat) : KillFree (p.oneShot signr) := by
  unfold SignalTask.oneShot
  simp only
  split
  · apply free.setEntry
    intro inside
    exact free.masks _ inside
  · exact free

theorem KillFree.blockMask (free : KillFree p) {signr : Nat} (low : 1 ≤ signr ∧ signr ≤ 32) :
    KillFree (p.blockMask signr) := by
  refine ⟨?_, free.masks⟩
  have spares := free.masks (signr - 1) (by omega)
  unfold SignalTask.blockMask
  rw [BitVec.getLsbD_or, free.blocked, BitVec.getLsbD_setWidth, spares]
  rfl

theorem storeField_beside {start n d : Nat} (beside : d < start ∨ start + n ≤ d) (b : Byte) (w : Word) :
    storeField start n d b w = w := if_neg (by omega)

/-- A store in front of the actions or behind the mask leaves both. -/
theorem KillFree.store (free : KillFree p) {d : Nat}
    (beside : d < SignalTask.sigactionOffset ∨ SignalTask.blockedOffset + 8 ≤ d) (b : Byte) : KillFree (p.store d b) := by
  unfold SignalTask.blockedOffset SignalTask.sigactionOffset at beside
  apply free.same
  · apply storeField_beside
    unfold SignalTask.blockedOffset SignalTask.sigactionOffset
    omega
  · intro i inside
    change (storeField (32 + 24 * i + 8) 4 d b ((p.sigaction i).mask.setWidth 64)).setWidth 32 = _
    rw [storeField_beside (by omega), BitVec.setWidth_setWidth_of_le _ (by decide), BitVec.setWidth_eq]

/-- The events that have nothing to do with a pointer of the user. -/
theorem KillFree.change {s : SignalTable} {e : SignalEvent} (free : KillFree p) (apart : e.placed = false)
    (change : SignalChange s e p p') : KillFree p' := by
  cases change with
  | kept _ blocked sigaction => exact free.same blocked fun i _ => by rw [sigaction]
  | raised sig _ _ blocked sigaction => exact free.same blocked fun i _ => by rw [sigaction]
  | sent pid sig slot current _ _ _ _ after =>
    subst after
    unfold SignalTask.sendSig
    split_ifs
    · exact free
    · exact free.same rfl fun _ _ => rfl
    · exact free
  | dropped mask _ blocked sigaction => exact free.same blocked fun i _ => by rw [sigaction]
  | delivered isDeliver after =>
    subst e
    cases apart
  | masked newmask after =>
    subst after
    refine ⟨?_, free.masks⟩
    change (widened (newmask &&& ~~~ sigBit sigKill)).getLsbD 8 = false
    rw [widened, BitVec.getLsbD_signExtend, if_pos (by decide), BitVec.getLsbD_and, BitVec.getLsbD_not]
    have bit : (sigBit sigKill).getLsbD 8 = true := by decide
    rw [bit]
    simp
  | handled signum handler restorer after =>
    subst after
    unfold SignalTask.setSignal
    split
    · exact free
    · exact free.setEntry _ fun _ => BitVec.getLsbD_zero
  | acted signum byte isAction after =>
    subst e
    cases apart

end Task

section Table

variable {s s' start : PlacedTasks} {addr : Word} {holds : SignalTask → Prop}

theorem onCurrent_all {f : SignalTask → SignalTask} (all : AllTasks holds s.table) (kept : ∀ p, holds p → holds (f p)) :
    AllTasks holds (s.onCurrent f).table := by
  intro slot p' there
  simp only [PlacedTasks.onCurrent, SignalTable.onCurrent, Function.update_apply] at there
  split at there
  · rcases Option.map_eq_some_iff.1 there with ⟨p, before, rfl⟩
    exact kept p (all _ p before)
  · exact all slot p' there

theorem store_killFree (all : AllTasks KillFree s.table) (spared : s.Spared addr) (b : Byte) :
    AllTasks KillFree (s.store addr b).table := by
  intro slot p' there
  rcases Option.map_eq_some_iff.1 there with ⟨p, before, rfl⟩
  exact (all slot p before).store (spared slot p before) b

theorem PlacedTasks.Spared.slots (spared : s.Spared addr) (place : s'.place = s.place)
    (slots : ∀ slot, s.table.task slot = none → s'.table.task slot = none) : s'.Spared addr := by
  intro slot p' there
  rw [place]
  cases before : s.table.task slot with
  | none =>
    rw [slots slot before] at there
    cases there
  | some p => exact spared slot p before

theorem onCurrent_empty {slot : Nat} (empty : s.table.task slot = none) (f : SignalTask → SignalTask) :
    (s.onCurrent f).table.task slot = none := by
  simp only [PlacedTasks.onCurrent, SignalTable.onCurrent, Function.update_apply]
  split
  · rename_i same
    rw [← same, empty]
    rfl
  · exact empty

theorem PlacedTasks.Spared.onCurrent (spared : s.Spared addr) (f : SignalTask → SignalTask) :
    (s.onCurrent f).Spared addr := spared.slots rfl fun _ empty => onCurrent_empty empty f

theorem PlacedTasks.Spared.store (spared : s.Spared addr) (other : Word) (b : Byte) : (s.store other b).Spared addr :=
  spared.slots rfl fun _ empty => Option.map_eq_none_iff.2 empty

theorem sigaction_killFree {current : SignalTask} {signum : Int} {oldaction : Word} (all : AllTasks KillFree s.table)
    (spared : SignalTask.refused signum = false → oldaction ≠ 0 → s.Spared oldaction) (byte : Byte) :
    AllTasks KillFree (s.sysSigaction current signum byte oldaction).table := by
  unfold PlacedTasks.sysSigaction
  split
  · exact all
  · rename_i accepted
    rw [Bool.not_eq_true] at accepted
    have new : AllTasks KillFree (s.onCurrent fun p => p.getNew (signum.toNat - 1) byte).table :=
      onCurrent_all all fun p free => free.getNew _ byte
    dsimp only
    refine onCurrent_all ?_ ?_
    · split
      · exact new
      · rename_i saved
        exact store_killFree new ((spared accepted saved).onCurrent _) _
    · exact fun p free => free.adjustMask accepted

theorem pushFrame_killFree {current : SignalTask} {signr : Nat} {stack : Word} (all : AllTasks KillFree s.table)
    (first : s.Spared stack) (second : s.Spared (stack + 32 * 8)) (third : s.Spared (stack + 64 * 8))
    (last : (current.sigaction (signr - 1)).flags &&& saNoMask = 0 → s.Spared (stack + 65 * 8)) (regs fregs epc : Byte) :
    AllTasks KillFree (s.pushFrame current signr stack regs fregs epc).table := by
  have one := store_killFree all first regs
  have two := store_killFree one (second.store stack regs) fregs
  have three := store_killFree two ((third.store stack regs).store _ fregs) epc
  unfold PlacedTasks.pushFrame
  simp only
  split
  · rename_i masked
    exact store_killFree three ((((last masked).store stack regs).store _ fregs).store _ epc) _
  · exact three

theorem deliver_killFree {current : SignalTask} {stack : Word} {regs fregs epc : Byte} (all : AllTasks KillFree s.table)
    (running : s.table.task s.table.current = some current)
    (spares : (MaskEvent.deliver stack regs fregs epc).SparesKill s) :
    AllTasks KillFree (s.deliver current stack regs fregs epc).table := by
  unfold PlacedTasks.deliver
  split
  · exact all
  · rename_i signr next
    have taken : AllTasks KillFree (s.onCurrent fun p => p.takeSignal signr).table :=
      onCurrent_all all fun p free => free.takeSignal signr
    simp only
    split
    · rename_i handled
      rcases spares current signr running next handled with ⟨high, first, second, third, last⟩
      have low : 1 ≤ signr := by
        rcases Option.map_eq_some_iff.1 next with ⟨n, -, rfl⟩
        omega
      have once := onCurrent_all taken fun p free => free.oneShot signr
      have kept {a : Word} (spared : s.Spared a) := (spared.onCurrent fun p => p.takeSignal signr).onCurrent
        fun p => p.oneShot signr
      refine onCurrent_all ?_ ?_
      · exact pushFrame_killFree once (kept first) (kept second) (kept third) (fun masked => kept (last masked)) _ _ _
      · exact fun p free => free.blockMask ⟨low, high⟩
    · exact taken

theorem killFree_step {e : MaskEvent} (all : AllTasks KillFree s.table) (spares : e.SparesKill s)
    (stepped : PlacedTasks.step e s = some s') : AllTasks KillFree s'.table := by
  rcases Option.bind_eq_some_iff.1 stepped with ⟨current, running, stepped⟩
  cases e with
  | sigaction signum byte oldaction =>
    cases stepped
    exact sigaction_killFree all spares byte
  | deliver stack regs fregs epc =>
    cases stepped
    exact deliver_killFree all running spares
  | fork nr pid place =>
    cases stepped
    intro slot p' there
    simp only [SignalTable.fork, Function.update_apply] at there
    split at there
    · cases there
      exact (all _ current running).same rfl fun _ _ => rfl
    · exact all slot p' there
  | other e =>
    simp only at stepped
    split at stepped
    · cases stepped
    · rename_i apart
      rcases Option.map_eq_some_iff.1 stepped with ⟨table, changed, rfl⟩
      refine allTasks_step all ?_ changed
      intro p p' i _ free change
      exact free.change (by simpa using apart) change

/-- The tasks of `signalSample`, a page for each. -/
def placedSample : PlacedTasks := ⟨signalSample, fun slot => 0x80700000 + BitVec.ofNat 64 slot * 4096⟩

theorem placedSample_unblocked :
    AllTasks (fun p => p.blocked = 0 ∧ ∀ i < 32, (p.sigaction i).mask = 0) placedSample.table := by
  intro slot p there
  simp only [placedSample, signalSample] at there
  split at there
  · cases there
    exact ⟨rfl, fun _ _ => rfl⟩
  · cases there

theorem placedSample_spared {addr : Word} (behind : (0x80702000 : Word) ≤ addr ∧ addr < (0x80780000 : Word)) :
    placedSample.Spared addr := by
  intro slot p there
  simp only [placedSample, signalSample] at there
  split at there
  · rename_i low
    right
    unfold SignalTask.blockedOffset SignalTask.sigactionOffset placedSample
    interval_cases slot <;> simp only [] <;> bv_omega
  · cases there

theorem step_deliver {current : SignalTask} (running : s.table.task s.table.current = some current) (stack : Word)
    (regs fregs epc : Byte) : PlacedTasks.step (.deliver stack regs fregs epc) s =
      some (s.deliver current stack regs fregs epc) := by
  unfold PlacedTasks.step
  rw [running]
  rfl

end Table

end K210Linux.Kernel
