import K210Linux.Kernel.BulkCopy
import K210Linux.Kernel.Signals

/-! Where `do_signal` puts the frame of a handler. -/

namespace K210Linux.Kernel

open K210Linux.Mm Outcome

/-- What `do_signal` runs with: the addresses of `trap_info` and of `current -> blocked`. -/
structure SignalContext where
  copies : CopyContext
  trapInfo : Word
  blocked : Word

structure SignalState where
  statics : PageTransform
  memory : Memory
  task : SignalTask
  trap : TrapInfo
  newepc : Word

/-- How `do_signal` ends: it does nothing, it ends the task, or it enters the handler. The list has the addresses that
    the copies stored to. -/
inductive SignalOutcome
  | ignored
  | exits (code : BitVec 32)
  | handled (s : SignalState) (written : List Word)

/-- `TRAP_CUSTOMBACKUPSTACKSIZE`. -/
def trapCustomBackupStackSize : Word := 70 * 8 - 64 * 8

/-- `longs`. -/
def frameLength : Word := 66 <<< 3

/-- The addresses that the loop of a copy stores to. -/
def copyWrites (c : CopyContext) (d : Direction) (s : PageTransform) (m : Memory) (source dest : Word) : Nat → List Word
  | 0 => []
  | n + 1 =>
    match d.transform c s m source dest with
    | .error _ => []
    | .ok (source, dest, s, m) =>
      match copyByte c m source dest with
      | .error _ => []
      | .ok m => dest :: copyWrites c d s m source dest n

/-- The static variables and memory after some copies, and what they stored to. -/
structure Copied where
  statics : PageTransform
  memory : Memory
  written : List Word

/-- `mem_copy_from_kernel`. -/
def Copied.out (r : Copied) (c : CopyContext) (fromaddr toaddr size : Word) : Except (Stop Memory) Copied := do
  let (statics, memory) ← memCopyFromKernel c r.statics r.memory fromaddr toaddr size
  .ok ⟨statics, memory, r.written ++ copyWrites c .out (pageTransformStart r.statics) r.memory fromaddr toaddr size.toNat⟩

/-- The registers, as far as `trap_info` points to them: what is copied begins at the pointers themselves. -/
def copyFrame (c : SignalContext) (m : Memory) (statics : PageTransform) (stack : Word) (masked : Bool) :
    Except (Stop Memory) Copied := do
  let m ← verifyArea m stack (frameLength.setWidth 32)
  let r ← Copied.out ⟨statics, m, []⟩ c.copies (c.trapInfo + 16) stack (32 * 8)
  let r ← r.out c.copies (c.trapInfo + 24) (stack + 32 * 8) (32 * 8)
  let r ← r.out c.copies c.trapInfo (stack + 64 * 8) 8
  if masked then r.out c.copies c.blocked (stack + 65 * 8) 8 else .ok r

/-- `do_signal`. -/
def doSignal (c : SignalContext) (s : SignalState) (signr : Nat) : Except (Stop Memory) SignalOutcome :=
  let sa := s.task.sigaction (signr - 1)
  if sa.handler = 1 then .ok .ignored
  else if sa.handler = 0 then .ok (if signr = sigChld then .ignored else .exits (sigBit signr))
  else do
    let stack := s.trap.regs regSp - trapCustomBackupStackSize
    let r ← copyFrame c s.memory s.statics stack (sa.flags &&& saNoMask = 0)
    let regs := Function.update s.trap.regs regRa sa.restorer
    let regs := Function.update regs regSp (regs regSp - frameLength)
    let trap := { s.trap with regs := Function.update regs regA0 (BitVec.ofNat 64 signr) }
    .ok (.handled ⟨r.statics, r.memory, s.task.doSignal signr, trap, sa.handler⟩ r.written)

/-- The doubleword at a user address. -/
def UserWord (m : Memory) (addr value : Word) : Prop :=
  ∀ j < 8, ∃ a, walk m (addr + BitVec.ofNat 64 j) = .found a ∧ loadByte m a = (value >>> (8 * j)).setWidth 8

/-- The frame is below the stack pointer, and nothing else of user memory is touched. -/
structure FramePushed (s s' : SignalState) (written : List Word) (signr : Nat) : Prop where
  writes : ∀ a ∈ written, (a - (s.trap.regs regSp - frameLength)).toNat < frameLength.toNat
  sp : s'.trap.regs regSp = s.trap.regs regSp - frameLength
  regs : ∀ i < 32, UserWord s'.memory (s'.trap.regs regSp + BitVec.ofNat 64 (8 * i)) (s.trap.regs i)
  fregs : ∀ i < 32, UserWord s'.memory (s'.trap.regs regSp + BitVec.ofNat 64 (8 * (32 + i))) (s.trap.fregs i)
  epc : UserWord s'.memory (s'.trap.regs regSp + 64 * 8) s.trap.epc
  blocked : (s.task.sigaction (signr - 1)).flags &&& saNoMask = 0 →
    UserWord s'.memory (s'.trap.regs regSp + 65 * 8) s.task.blocked
  above : ∀ addr a, s.trap.regs regSp ≤ addr → walk s.memory addr = .found a →
    ∃ a', walk s'.memory addr = .found a' ∧ loadByte s'.memory a' = loadByte s.memory a

section Copies

variable {c : CopyContext} {s : PageTransform} {m : Memory} {source dest fromaddr toaddr size : Word} {r r' : Copied}

theorem copyWrites_first (same : s.lastuseraddr = s.lastkerneladdr) (access : RawAccess c source dest) (d : Direction) (n : Nat) :
    dest ∈ copyWrites c d s m source dest (n + 1) := by
  rcases transform_eq (c := c) (m := m) same d source dest with ⟨s', done, -⟩
  simp only [copyWrites, done, copyByte_ok access]
  exact List.mem_cons_self

/-- A copy that ends has stored to the address it was given. -/
theorem Copied.out_spec (same : r.statics.lastuseraddr = r.statics.lastkerneladdr) (some : 0 < size.toNat)
    (run : r.out c fromaddr toaddr size = .ok r') :
    RawAccess c fromaddr toaddr ∧ r'.statics.lastuseraddr = r'.statics.lastkerneladdr ∧ toaddr ∈ r'.written ∧
      ∀ a ∈ r.written, a ∈ r'.written := by
  rcases of_bind run with ⟨⟨s', m'⟩, copied, rest⟩
  cases rest
  have same' := memCopy_statics same copied
  rcases Nat.exists_eq_succ_of_ne_zero (Nat.ne_of_gt some) with ⟨n, length⟩
  rw [memCopyFromKernel, memCopy, length] at copied
  have start : (pageTransformStart r.statics).lastuseraddr = (pageTransformStart r.statics).lastkerneladdr := same
  have access := of_copyLoop start copied
  refine ⟨access, same', ?_, fun a => List.mem_append_left _⟩
  rw [length]
  exact List.mem_append_right _ (copyWrites_first start access .out n)

end Copies

section Frame

variable {c : SignalContext} {s s' : SignalState} {signr : Nat} {written : List Word}

/-- A frame that is complete began at 48 below the stack pointer, and went on 208 above it. -/
theorem handled_writes (reached : Reached s.statics) (run : doSignal c s signr = .ok (.handled s' written)) :
    c.copies.ram (pageOf (s.trap.regs regSp - trapCustomBackupStackSize)) ∧
      s.trap.regs regSp - trapCustomBackupStackSize + 32 * 8 ∈ written := by
  unfold doSignal at run
  dsimp only at run
  split at run
  · cases run
  · split at run
    · split at run
      · cases run
      · cases run
    · rcases of_bind run with ⟨r, framed, rest⟩
      cases rest
      rcases of_bind framed with ⟨m, -, copied⟩
      rcases of_bind copied with ⟨r₁, regs, copied⟩
      rcases of_bind copied with ⟨r₂, fregs, copied⟩
      rcases of_bind copied with ⟨r₃, epc, last⟩
      rcases Copied.out_spec reached.same (by decide) regs with ⟨access, same₁, -, -⟩
      rcases Copied.out_spec same₁ (by decide) fregs with ⟨-, same₂, there, -⟩
      rcases Copied.out_spec same₂ (by decide) epc with ⟨-, same₃, -, kept₃⟩
      refine ⟨access.2, ?_⟩
      split at last
      · rcases Copied.out_spec same₃ (by decide) last with ⟨-, -, -, kept₄⟩
        exact kept₄ _ (kept₃ _ there)
      · cases last
        exact kept₃ _ there

theorem frame_distance (sp : Word) : sp - trapCustomBackupStackSize + 32 * 8 - (sp - frameLength) = 736 := by
  have custom : trapCustomBackupStackSize = 48 := rfl
  have length : frameLength = 528 := rfl
  rw [custom, length]
  bv_omega

/-- The copies go to where the constant for the trap stack says, and not to the frame. -/
theorem signal_frame_never (c : SignalContext) (s : SignalState) (signr : Nat) (reached : Reached s.statics) :
    ¬ ∃ s' written, doSignal c s signr = .ok (.handled s' written) ∧ FramePushed s s' written signr := by
  rintro ⟨s', written, run, pushed⟩
  have inside := pushed.writes _ (handled_writes reached run).2
  rw [frame_distance] at inside
  exact absurd inside (by decide)

end Frame

section Example

def k210Signals : SignalContext where
  copies := k210
  trapInfo := 0x80700000
  blocked := 0x80700320

/-- A task with a handler for `SIGINT` and its stack pointer at `sp`. -/
def handlerState (m : Memory) (sp : Word) : SignalState where
  statics := ⟨0, 0, false⟩
  memory := m
  task := ⟨0, 0, 0, 0, 0, 0, 0, fun _ => ⟨0xC0000010, 0, saOneShot ||| saNoMask, 0xC0000020⟩⟩
  trap := ⟨fun i => if i = regSp then sp else 0, fun _ => 0, 0xC0000000⟩
  newepc := 0xC0000004

theorem kernel_stack_frame_never : ¬ ∃ s' written,
    doSignal k210Signals (handlerState (forkedTask fun _ => 1) 0x80700800) sigInt = .ok (.handled s' written) ∧
      FramePushed (handlerState (forkedTask fun _ => 1) 0x80700800) s' written sigInt :=
  signal_frame_never _ _ _ .boot

/-- With the stack in user space, the first store of `do_signal` goes where there is no memory. -/
theorem user_stack_handler_halts : ¬ ∃ s' written,
    doSignal k210Signals (handlerState (forkedTask fun _ => 1) 0xC0000800) sigInt = .ok (.handled s' written) := by
  rintro ⟨s', written, run⟩
  have there := (handled_writes .boot run).1
  exact absurd there (by decide)

end Example

end K210Linux.Kernel
