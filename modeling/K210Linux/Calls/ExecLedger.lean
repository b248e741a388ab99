import K210Linux.Calls.Ledger
import K210Linux.Exec.FailedExec

/-! What `do_execve` takes of inodes and buffers, and gives back. -/

namespace K210Linux.Calls

open Outcome
open K210Linux.Fs
open K210Linux.Exec (ExecCall ExecState ExecResult Args)
open K210Linux.Mm (Word)
open K210Linux.Buffer (Counts)
open Volume (inodeUser)

namespace System

variable {base more : Counts} {s s' : System} {t : FileTask} {fuel : Nat} {caller : Caller}
  {e e₁ e₂ : ExecState} {c : ExecCall} {ino : Nat} {g : Args} {value : Int} {result : ExecResult}

/-- A part of `do_execve` that changes the volume alone, and takes users of it. -/
structure Took (e e' : ExecState) (more : Counts) : Prop where
  task : e'.task = e.task
  files : e'.files = e.files
  counts : e'.volume.counts = e.volume.counts + more

theorem Took.refl (e : ExecState) : Took e e 0 := ⟨rfl, rfl, (add_zero _).symm⟩

theorem Took.trans {more' : Counts} (one : Took e e₁ more) (two : Took e₁ e₂ more') : Took e e₂ (more + more') where
  task := two.task.trans one.task
  files := two.files.trans one.files
  counts := by rw [two.counts, one.counts, add_assoc]

theorem Took.congr {more' : Counts} (took : Took e e₁ more) (same : more = more') : Took e e₁ more' := by
  subst same
  exact took

theorem Took.flag (took : Took e e₁ more) (fsIsKernel : Bool) : Took e { e₁ with fsIsKernel } more where
  task := took.task
  files := took.files
  counts := took.counts

theorem brelse_took {i : Nat} (run : e.brelse i = .ok e₁) : Took e e₁ (- .buffer i) := by
  rcases of_bind run with ⟨volume, released, rest⟩
  cases rest
  exact ⟨rfl, rfl, (Volume.brelse_counts (of_mapError released)).trans (sub_eq_add_neg _ _)⟩

theorem iput_took (run : e.iput fuel c ino = .ok e₁) : Took e e₁ (- .inode ino) := by
  rcases of_bind run with ⟨volume, put, rest⟩
  cases rest
  exact ⟨rfl, rfl, (Volume.iput_counts (of_mapError put)).trans (sub_eq_add_neg _ _)⟩

theorem namei_took {mem : CStrings.Space} {path : Word} {inode : Option Nat} (run : e.namei fuel c mem path = .ok (inode, e₁)) :
    Took e e₁ (inodeUser inode) := by
  rcases Exec.namei_volume run with ⟨bytes, volume, same, walked⟩
  subst same
  exact ⟨rfl, rfl, Volume.namei_counts walked⟩

theorem copy_took {kmem : Exec.FromKmem} {m : Exec.Spaces} {argc : Int} {argv : Word} {g' : Args}
    (run : e.copy kmem m argc argv g = .ok (g', e₁)) : Took e e₁ 0 := by
  rcases of_bind run with ⟨⟨p, a, fs⟩, copied, rest⟩
  cases rest
  exact ⟨rfl, rfl, (add_zero _).symm⟩

theorem openFile_took {bh : Except Int Nat} (run : e.openFile fuel ino = .ok (bh, e₁)) :
    Took e e₁ (Counts.buffer? bh.toOption) := by
  unfold ExecState.openFile at run
  dsimp only at run
  split at run
  · cases run
    exact Took.refl e
  · split at run
    · cases run
      exact Took.refl e
    · rcases of_bind run with ⟨⟨found, volume⟩, read, rest⟩
      have counts := Volume.bread_counts (of_mapError read)
      cases found with
      | none =>
        cases rest
        exact ⟨rfl, rfl, counts⟩
      | some i =>
        cases rest
        exact ⟨rfl, rfl, counts⟩

theorem execError1_took (run : e.execError1 g value = .ok result) : ∃ e', result = .failed value e' ∧ Took e e' 0 := by
  rcases of_bind run with ⟨memory, freed, rest⟩
  cases rest
  exact ⟨_, rfl, rfl, rfl, (add_zero _).symm⟩

theorem execError2_took (run : e.execError2 fuel c ino g value = .ok result) :
    ∃ e', result = .failed value e' ∧ Took e e' (- .inode ino) := by
  rcases of_bind run with ⟨e₁, put, rest⟩
  rcases execError1_took rest with ⟨e', failed, took⟩
  exact ⟨e', failed, ((iput_took put).trans took).congr (add_zero _)⟩

/-- Every call of `do_execve` gives back what it took, or comes to `commit` with the inode of its program. -/
inductive Comes (fuel : Nat) (c : ExecCall) (e : ExecState) : ExecResult → Prop where
  | back {value : Int} {e' : ExecState} (took : Took e e' 0) : Comes fuel c e (.failed value e')
  | enters {ino : Nat} {ex : Exec.Header} {argc envc : Int} {g : Args} {e' : ExecState} {result : ExecResult}
      (took : Took e e' (.inode ino)) (entered : e'.commit fuel c ino ex argc envc g = .ok result) : Comes fuel c e result

theorem Comes.error1 (took : Took e e₁ 0) (run : e₁.execError1 g value = .ok result) : Comes fuel c e result := by
  rcases execError1_took run with ⟨e', failed, back⟩
  subst failed
  exact .back ((took.trans back).congr (add_zero 0))

theorem Comes.error2 (took : Took e e₁ (.inode ino)) (run : e₁.execError2 fuel c ino g value = .ok result) :
    Comes fuel c e result := by
  rcases execError2_took run with ⟨e', failed, back⟩
  subst failed
  exact .back ((took.trans back).congr (add_neg_cancel _))

theorem Comes.opened {bh : Except Int Nat} {i : Nat} (took : Took e e₁ (.inode ino))
    (run : e₁.openFile fuel ino = .ok (bh, e₂)) (got : bh = .ok i) {e₃ : ExecState} (released : e₂.brelse i = .ok e₃) :
    Took e e₃ (.inode ino) := by
  subst got
  apply ((took.trans (openFile_took run)).trans (brelse_took released)).congr
  exact add_neg_cancel_right _ _

theorem Comes.interpreter {argc envc : Int} (took : Took e e₁ (.inode ino))
    (run : e₁.runInterpreter fuel c ino argc envc g = .ok result) : Comes fuel c e result := by
  rcases of_bind run with ⟨⟨bh, e₂⟩, opens, rest⟩
  cases bh with
  | error value => exact Comes.error2 ((took.trans (openFile_took opens)).congr (add_zero _)) rest
  | ok i =>
    rcases of_bind rest with ⟨e₃, released, rest⟩
    have held := Comes.opened took opens rfl released
    split at rest
    · exact Comes.error2 held rest
    · exact .enters held rest

theorem copyScript_took {script : Exec.Script} {block : Block} {argc envc argc' : Int} {g' : Args}
    (run : e.copyScript c script block argc envc g = .ok (argc', g', e₁)) : Took e e₁ 0 := by
  rcases of_bind run with ⟨⟨g₁, s₃⟩, envs, rest⟩
  rcases of_bind rest with ⟨⟨g₂, s₄⟩, args, rest⟩
  rcases of_bind rest with ⟨⟨g₃, s₅⟩, name, rest⟩
  rcases of_bind rest with ⟨⟨argc₁, g₄, s₆⟩, arg, rest⟩
  rcases of_bind rest with ⟨⟨g₅, s₇⟩, last, rest⟩
  cases rest
  have three := ((copy_took envs).trans (copy_took args)).trans (copy_took name)
  have four : Took s₅ s₆ 0 := by
    unfold ExecState.copyArg at arg
    split at arg
    · cases arg
      exact Took.refl _
    · rcases of_bind arg with ⟨⟨g₆, s₈⟩, one, rest⟩
      cases rest
      exact copy_took one
  apply ((three.trans four).trans (copy_took last)).congr
  simp only [add_zero]

theorem Comes.script {script : Exec.Script} {block : Block} {argc envc : Int} (took : Took e e₁ 0)
    (run : e₁.interpret fuel c script block argc envc g = .ok result) : Comes fuel c e result := by
  rcases of_bind run with ⟨⟨argc', g₁, e₂⟩, copied, rest⟩
  have one := (took.trans (copyScript_took copied)).congr (add_zero 0)
  dsimp only at rest
  split at rest
  · exact Comes.error1 one rest
  · rcases of_bind rest with ⟨⟨inode, e₃⟩, walked, rest⟩
    have two := (one.flag true).trans (namei_took walked)
    have three : Took e { e₃ with fsIsKernel := e₂.fsIsKernel } (inodeUser inode) :=
      (two.flag e₂.fsIsKernel).congr (zero_add _)
    cases inode with
    | none => exact Comes.error1 three rest
    | some ino' => exact Comes.interpreter three rest

theorem Comes.program {ex : Exec.Header} {argc envc : Int} (took : Took e e₁ (.inode ino))
    (run : e₁.runProgram fuel c ino ex argc envc g = .ok result) : Comes fuel c e result := by
  unfold ExecState.runProgram at run
  split at run
  · exact Comes.error2 took run
  · rcases of_bind run with ⟨⟨g₁, e₂⟩, envs, rest⟩
    rcases of_bind rest with ⟨⟨g₂, e₃⟩, args, rest⟩
    have held : Took e e₃ (.inode ino) := by
      apply ((took.trans (copy_took envs)).trans (copy_took args)).congr
      simp only [add_zero]
    dsimp only at rest
    split at rest
    · exact Comes.error2 held rest
    · exact .enters held rest

theorem doExecve_comes (run : e.doExecve fuel c = .ok result) : Comes fuel c e result := by
  rcases of_bind run with ⟨⟨inode, e₁⟩, walked, rest⟩
  have held := namei_took walked
  cases inode with
  | none =>
    cases rest
    exact .back held
  | some ino =>
    dsimp only at rest
    split at rest
    · rcases of_bind rest with ⟨⟨bh, e₂⟩, opens, rest⟩
      cases bh with
      | error value => exact Comes.error2 ((held.trans (openFile_took opens)).congr (add_zero _)) rest
      | ok i =>
        dsimp only at rest
        split at rest
        · rcases of_bind rest with ⟨e₃, released, rest⟩
          rcases of_bind rest with ⟨e₄, put, rest⟩
          have back : Took e e₄ 0 :=
            ((Comes.opened held opens rfl released).trans (iput_took put)).congr (add_neg_cancel _)
          split at rest
          · exact Comes.error1 back rest
          · exact Comes.script back rest
        · rcases of_bind rest with ⟨e₃, released, rest⟩
          exact Comes.program (Comes.opened held opens rfl released) rest
    · cases rest

theorem setHere_here (s : System) : s.setHere s.here = s := by
  unfold setHere System.here
  rw [Function.update_eq_self]

theorem afterExec_took {handler : Nat → Word} {fsIsKernel : Bool} (took : Took (s.execState caller handler fsIsKernel) e more) :
    s.afterExec e = s.onVolume e.volume := by
  unfold afterExec
  rw [took.task, took.files]
  exact congrArg (onVolume · e.volume) (setHere_here s)

@[simp] theorem files_afterExec (s : System) (e : ExecState) : (s.afterExec e).files = e.files := rfl

/-- `do_execve` closes the marked descriptors as the loop of the system does. -/
theorem closeMarked_closeEach {n : Nat} (s : System) (run : e.closeMarked fuel c n = .ok e₁) :
    closeEach fuel (fun t i => t.closeOnExec.getLsbD i) c.time n (s.afterExec e) = .ok (s.afterExec e₁) ∧
      e₁.task = e.task := by
  induction n generalizing e₁ with
  | zero =>
    cases run
    exact ⟨rfl, rfl⟩
  | succ n ih =>
    rcases of_bind run with ⟨e₂, before, rest⟩
    rcases ih before with ⟨loop, task⟩
    unfold closeEach
    rw [loop]
    simp only [bind, Except.bind, files_afterExec]
    cases here : e₂.files.task e₂.files.current with
    | none =>
      simp only [here] at rest
      cases rest
      exact ⟨rfl, task⟩
    | some t =>
      simp only [here] at rest
      split at rest
      · rename_i marked
        simp only [if_pos marked]
        cases closes : Fs.sysClose e₂.files t n with
        | none =>
          simp only [closes] at rest
          cases rest
        | some r =>
          simp only [closes] at rest
          simp only [sysClose, files_afterExec, closes, reply]
          cases last : r.put with
          | none =>
            simp only [last] at rest
            cases rest
            exact ⟨rfl, task⟩
          | some k =>
            simp only [last] at rest
            rcases of_bind rest with ⟨volume, put, rest⟩
            cases rest
            have put' : (s.afterExec e₂).volume.iput fuel k c.time = .ok volume := of_mapError put
            have put'' : ((s.afterExec e₂).onFiles r.files).volume.iput fuel k c.time = .ok volume := put'
            refine ⟨?_, task⟩
            simp only [System.put, put'']
            rfl
      · rename_i kept
        simp only [if_neg kept]
        cases rest
        exact ⟨rfl, task⟩

theorem putExecutable_took (run : e.putExecutable fuel c = .ok e₁) : Took e e₁ (- inodeUser e.task.executable) := by
  unfold ExecState.putExecutable at run
  split at run
  · rename_i nothing
    cases run
    rw [nothing]
    exact (Took.refl e).congr neg_zero.symm
  · rename_i k program
    rw [program]
    exact iput_took run

/-- The inode of the program goes to the place of the old one, and the marked descriptors are closed. -/
theorem commit_balanced {ex : Exec.Header} {argc envc : Int} {handler : Nat → Word} {fsIsKernel : Bool}
    (balanced : s.Balanced base 0) (runs : s.Runs t) (took : Took (s.execState caller handler fsIsKernel) e (.inode ino))
    (run : e.commit fuel c ino ex argc envc g = .ok result) : ∃ entered, result = .running entered ∧
      (s.afterExec entered.state).Balanced base 0 ∧ (∃ t', (s.afterExec entered.state).Runs t') ∧
      Fs.closeEach (fun t i => t.closeOnExec.getLsbD i) s.files nrOpen = some (s.afterExec entered.state).files := by
  rcases of_bind run with ⟨e₁, old, rest⟩
  rcases of_bind rest with ⟨e₂, marked, rest⟩
  cases rest
  have gave := took.trans (putExecutable_took old)
  have held : (s.afterExec { e₁ with task := { e₁.task with
      executable := some ino, handler := fun i => if i < 32 then 0 else e₁.task.handler i } }).Balanced base 0 := by
    have counts : e₁.volume.counts = s.volume.counts + (Counts.inode ino + - inodeUser s.here.executable) := by
      rw [gave.counts, took.task]
      rfl
    have same : s.afterExec { e₁ with task := { e₁.task with
        executable := some ino, handler := fun i => if i < 32 then 0 else e₁.task.handler i } } =
        (s.onVolume e₁.volume).setHere { s.here with executable := some ino } := by
      unfold afterExec
      dsimp only
      rw [gave.task, gave.files]
      rfl
    rw [same]
    apply ((balanced.onVolume counts).setHere runs.exits _).congr
    simp only [TaskInodes.users]
    change 0 + _ + (inodeUser s.here.root + inodeUser s.here.pwd + inodeUser s.here.executable) -
      (inodeUser s.here.root + inodeUser s.here.pwd + Counts.inode ino) = 0
    abel
  rcases closeMarked_closeEach s marked with ⟨loop, task⟩
  have files : e₁.files = s.files := gave.files
  rcases closeEach_closing held (t := t) (by rw [Runs, files_afterExec, files]; exact runs) loop with ⟨done, closed⟩
  rw [files_afterExec, files] at closed
  exact ⟨_, rfl, done.balanced, done.runs, closed⟩

theorem sysExecve_balanced {handler : Nat → Word} {fsIsKernel : Bool} (balanced : s.Balanced base 0) (runs : s.Runs t)
    (run : sysExecve fuel caller c handler fsIsKernel s = .ok (value, s')) : s'.Balanced base 0 := by
  rcases of_bind run with ⟨result, execs, rest⟩
  cases doExecve_comes execs with
  | back took =>
    cases rest
    rw [afterExec_took took]
    exact (balanced.onVolume took.counts).congr (add_zero 0)
  | enters took entered =>
    rcases commit_balanced balanced runs took entered with ⟨entered, running, held, ⟨t', runs'⟩, closed⟩
    subst running
    dsimp only at rest
    simp only [runs'.1] at rest
    cases rest
    rcases closeOnExec_wf balanced.wf runs.1 runs.2 with ⟨files, same, wf⟩
    simp only [Fs.closeOnExec, closed, Option.bind_eq_bind, Option.bind_some, runs'.1, Option.some.injEq] at same
    subst same
    exact files_balanced held wf (Hands.setTask (t := t') runs'.1 rfl)

end System

end K210Linux.Calls
