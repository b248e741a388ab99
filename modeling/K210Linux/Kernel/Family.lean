import K210Linux.Kernel.BulkCopy
import K210Linux.Kernel.ExitRun
import K210Linux.Kernel.Pids
import K210Linux.Kernel.WaitSignals

/-! What `fork`, `exit`, `waitpid`, `setsid` and `setpgid` change of the families of tasks. -/

namespace K210Linux.Kernel

open K210Linux.Mm Outcome

/-- What the calls on families use of a task. `dead` is the exit code of a zombie. -/
structure Member where
  pid : Int
  father : Int
  pgrp : Int
  session : Int
  leader : Bool
  dead : Option (BitVec 32)

def Task.member (t : Task) : Member :=
  ⟨t.pid, t.father, t.pgrp, t.session, t.leader, if t.state = .zombie then some t.exitCode else none⟩

/-- The loop of `do_exit` on a child of `me`. -/
def Member.adopt (me : Int) (m : Member) : Member := if m.father = me then { m with father := 1 } else m

namespace Process

/-- The member in a slot. -/
def member (k : Process) (i : Nat) : Option Member :=
  if i < nrTasks ∧ k.task i ≠ 0 then some (k.structs (k.task i)).member else none

/-- The process table as `find_empty_process` reads it. -/
def table (k : Process) : TaskTable where
  task i := if k.task i ≠ 0 then some (k.structs (k.task i)) else none
  current := ((List.range nrTasks).find? fun i => k.task i = k.current).getD 0
  lastPid := k.lastPid
  jiffies := k.jiffies

/-- No two slots lead to one structure. -/
def Apart (k : Process) : Prop := ∀ i j, i < nrTasks → j < nrTasks → k.task i ≠ 0 → k.task i = k.task j → i = j

/-- The current task is in slot `c`. -/
def At (k : Process) (c : Nat) : Prop := c < nrTasks ∧ k.task c = k.current ∧ k.current ≠ 0

end Process

def sysSetpgid (k : Process) (pid pgid : Int) : Int × Process :=
  let me := k.structs k.current
  let pid := if pid = 0 then me.pid else pid
  let pgid := if pgid = 0 then me.pid else pgid
  match findPid k pid 0 nrTasks with
  | none => (-esrch, k)
  | some i =>
    let t := k.structs (k.task i)
    if t.leader then (-eperm, k)
    else if t.session ≠ me.session then (-eperm, k)
    else (0, k.setStruct (k.task i) { t with pgrp := pgid })

def sysSetsid (k : Process) (suser : Bool) : Int × Process :=
  let me := k.structs k.current
  if me.leader && !suser then (-eperm, k)
  else (me.pid, k.setStruct k.current { me with leader := true, session := me.pid, pgrp := me.pid })

/-- The tasks are in their slots, and their families do not see a change. -/
structure SameFamily (k k' : Process) : Prop where
  task : k'.task = k.task
  current : k'.current = k.current
  lastPid : k'.lastPid = k.lastPid
  each : ∀ p, (k'.structs p).member = (k.structs p).member

/-- What a step says of dead tasks: that one died, with its father, or that `sys_waitpid` took one out of the table, with
    the number that it returned and the status that it stored. -/
inductive Report where
  | nothing
  | exited (pid father : Int) (code : BitVec 32)
  | reaped (pid : Int) (code : BitVec 32)

/-- The last thing that a call of `sys_waitpid` did was `put_fs_long(code,stat_addr)`, after a release. -/
def StatusStored (k : Process) (image : Word → Nat → Word) (statAddr : Word) (code : BitVec 32) (k' : Process) : Prop :=
  ∃ m p k₁, verifyArea k.memory statAddr 4 = .ok m ∧ release (addChildTimes (k.setMemory m) p) p = .ok k₁ ∧
    k₁.task = k'.task ∧ putFsLong k₁ image k₁.memory code statAddr = .ok k'.memory

/-- The report of a call of `sys_waitpid` that ended with `waited` and left `k'`. -/
inductive WaitTells (k : Process) (image : Word → Nat → Word) (statAddr : Word) (waited : Waited) (k' : Process) : Report → Prop
  | reaped {pid : Int} {code : BitVec 32} (gone : k'.task ≠ k.task) (value : waited = .returned pid)
      (status : StatusStored k image statAddr code k') : WaitTells k image statAddr waited k' (.reaped pid code)
  | nothing (kept : k'.task = k.task) : WaitTells k image statAddr waited k' .nothing

/-- The child that the loop of `sys_waitpid` finds dead. -/
def deadChild (k : Process) (pid : Int) (options : BitVec 32) : Option Word :=
  (waitScan k pid (options.getLsbD 1) nrTasks false).1.filter fun p => (k.structs p).state = .zombie

section Members

variable {k k₁ k' : Process} {p : Word} {t : Task} {i j c n : Nat} {pid : Int} {m : Member}

theorem SameFamily.refl (k : Process) : SameFamily k k := ⟨rfl, rfl, rfl, fun _ => rfl⟩

theorem SameFamily.trans (one : SameFamily k k₁) (two : SameFamily k₁ k') : SameFamily k k' where
  task := two.task.trans one.task
  current := two.current.trans one.current
  lastPid := two.lastPid.trans one.lastPid
  each p := (two.each p).trans (one.each p)

theorem SameFamily.member (same : SameFamily k k') : k'.member = k.member := by
  funext i
  simp only [Process.member, same.task, same.each]

theorem SameFamily.apart (same : SameFamily k k') (apart : k.Apart) : k'.Apart := by
  unfold Process.Apart
  rw [same.task]
  exact apart

theorem SameFamily.at (same : SameFamily k k') (here : k.At c) : k'.At c := by
  unfold Process.At
  rw [same.task, same.current]
  exact here

theorem sameFamily_setMemory (k : Process) (m : Memory) : SameFamily k (k.setMemory m) := ⟨rfl, rfl, rfl, fun _ => rfl⟩

theorem sameFamily_setStruct (same : t.member = (k.structs p).member) : SameFamily k (k.setStruct p t) := by
  refine ⟨rfl, rfl, rfl, ?_⟩
  intro q
  by_cases here : q = p
  · rw [here, Process.setStruct_self, same]
  · rw [Process.setStruct_of_ne here]

theorem sameFamily_raise (k : Process) (p : Word) (sig : Nat) : SameFamily k (raiseSignal k p sig) := sameFamily_setStruct rfl

theorem member_some (found : k.member i = some m) : i < nrTasks ∧ k.task i ≠ 0 ∧ m = (k.structs (k.task i)).member := by
  unfold Process.member at found
  split at found
  · rename_i inside
    cases found
    exact ⟨inside.1, inside.2, rfl⟩
  · cases found

theorem member_of_slot (inside : i < nrTasks) (some : k.task i ≠ 0) :
    k.member i = Option.some (k.structs (k.task i)).member := if_pos ⟨inside, some⟩

theorem member_current (here : k.At c) : k.member c = some (k.structs k.current).member := by
  rw [← here.2.1]
  exact member_of_slot here.1 (by rw [here.2.1]; exact here.2.2)

/-- A new structure of the task in slot `i`. -/
theorem member_setStruct (apart : k.Apart) (inside : i < nrTasks) (some : k.task i ≠ 0) (t : Task) :
    (k.setStruct (k.task i) t).member = Function.update k.member i (Option.some t.member) := by
  funext j
  by_cases here : j = i
  · subst here
    rw [Function.update_self]
    refine (member_of_slot (k := k.setStruct (k.task j) t) inside some).trans ?_
    exact congrArg (fun t => Option.some (Task.member t)) (Process.setStruct_self ..)
  · rw [Function.update_of_ne here]
    unfold Process.member
    change (if j < nrTasks ∧ k.task j ≠ 0 then _ else _) = _
    split
    · rename_i other
      have ne : k.task j ≠ k.task i := fun same => here (apart j i other.1 inside other.2 same)
      exact congrArg (fun t => Option.some (Task.member t)) (Process.setStruct_of_ne ne)
    · rfl

/-- A slot that is given up. -/
theorem member_clear (k : Process) (i : Nat) : (k.setTask i 0).member = Function.update k.member i none := by
  funext j
  unfold Process.member Process.setTask
  by_cases here : j = i
  · subst here
    simp only [Function.update_self, ne_eq, not_true, and_false, if_false]
  · simp only [Function.update_of_ne here]

theorem apart_clear (apart : k.Apart) (i : Nat) : (k.setTask i 0).Apart := by
  intro a b inA inB some same
  simp only [Process.setTask] at some same
  by_cases atA : a = i
  · rw [atA, Function.update_self] at some
    exact absurd rfl some
  · by_cases atB : b = i
    · rw [atB, Function.update_self] at same
      exact absurd same some
    · rw [Function.update_of_ne atA] at some same
      rw [Function.update_of_ne atB] at same
      exact apart a b inA inB some same

theorem adopt_child {me : Int} (child : t.father = me) : t.member.adopt me = ({ t with father := 1 } : Task).member :=
  if_pos child

theorem adopt_other {me : Int} (other : m.father ≠ me) : m.adopt me = m := if_neg other

/-- The children of the current task in the first `n` slots get the father 1. -/
theorem reparent_member (apart : k.Apart) (le : n ≤ nrTasks) : (reparent k n).member = fun i =>
    if i < n then (k.member i).map (Member.adopt (k.structs k.current).pid) else k.member i := by
  induction n with
  | zero => rfl
  | succ n ih =>
    have adopted := reparent_adopts k n
    have before := ih (by omega)
    have task : (reparent k n).task = k.task := by rw [adopted.rest]
    have apart₁ : (reparent k n).Apart := by
      unfold Process.Apart
      rw [task]
      exact apart
    have own : (reparent k n).member n = k.member n := by
      rw [before]
      exact if_neg (Nat.lt_irrefl n)
    -- the slots other than `n` are as the loop left them
    have step (after : Nat → Option Member) (others : ∀ i, i ≠ n → after i = (reparent k n).member i)
        (last : after n = (k.member n).map (Member.adopt (k.structs k.current).pid)) :
        after = fun i => if i < n + 1 then (k.member i).map (Member.adopt (k.structs k.current).pid) else k.member i := by
      funext i
      by_cases here : i = n
      · rw [here, last, if_pos (Nat.lt_succ_self n)]
      · rw [others i here, before]
        dsimp only
        by_cases below : i < n
        · rw [if_pos below, if_pos (Nat.lt_succ_of_lt below)]
        · rw [if_neg below, if_neg (by omega)]
    rw [reparent]
    dsimp only
    split
    · rename_i child
      have inside : n < nrTasks := le
      have member := member_of_slot (k := reparent k n) inside child.1
      have father : ((reparent k n).structs ((reparent k n).task n)).father = (k.structs k.current).pid := by
        rw [child.2, adopted.current, adopted.pid]
      have stored := member_setStruct apart₁ inside child.1
        { (reparent k n).structs ((reparent k n).task n) with father := 1 }
      have given : ((reparent k n).setStruct ((reparent k n).task n)
          { (reparent k n).structs ((reparent k n).task n) with father := 1 }).member = fun i =>
          if i < n + 1 then (k.member i).map (Member.adopt (k.structs k.current).pid) else k.member i := by
        rw [stored]
        apply step
        · intro i other
          exact Function.update_of_ne other ..
        · rw [Function.update_self, ← own, member, Option.map_some, adopt_child father]
      split
      · rw [(sameFamily_raise _ _ _).member]
        exact given
      · exact given
    · rename_i other
      apply step
      · intro i _
        rfl
      · rw [own]
        cases found : k.member n with
        | none => rfl
        | some m =>
          rcases member_some found with ⟨-, some, same⟩
          have kept := own.trans found
          rcases member_some kept with ⟨-, some₁, same₁⟩
          rw [Option.map_some, adopt_other]
          intro child
          apply other
          refine ⟨some₁, ?_⟩
          rw [adopted.current, adopted.pid, ← child, same₁]
          rfl

theorem reparent_family (apart : k.Apart) (here : k.At c) : (reparent k nrTasks).Apart ∧ (reparent k nrTasks).At c ∧
    (reparent k nrTasks).lastPid = k.lastPid ∧
    (reparent k nrTasks).member = fun i => (k.member i).map (Member.adopt (k.structs k.current).pid) := by
  have member := reparent_member apart (Nat.le_refl nrTasks)
  have rest := (reparent_adopts k nrTasks).rest
  generalize reparent k nrTasks = k₁ at member rest ⊢
  have task : k₁.task = k.task := by rw [rest]
  have current : k₁.current = k.current := by rw [rest]
  refine ⟨?_, ?_, ?_, ?_⟩
  · unfold Process.Apart
    rw [task]
    exact apart
  · unfold Process.At
    rw [task, current]
    exact here
  · rw [rest]
  · rw [member]
    funext i
    split
    · rfl
    · rename_i outside
      have none : k.member i = none := if_neg fun inside => outside inside.1
      rw [none]
      rfl

section Exit

variable (iputLast : Process → Nat → Except (Stop Memory) Process)

/-- The part of `iput` that is not in the model has no tasks to change. -/
def KeepsFamily : Prop := ∀ k i k', iputLast k i = .ok k' → SameFamily k k'

variable {iputLast} (keeps : KeepsFamily iputLast)

include keeps

theorem iput_family {inode : Option Nat} (run : iput iputLast k inode = .ok k') : SameFamily k k' := by
  cases inode with
  | none =>
    cases run
    exact .refl k
  | some i =>
    simp only [iput] at run
    split at run
    · cases run
    · split at run
      · cases run
        exact ⟨rfl, rfl, rfl, fun _ => rfl⟩
      · exact keeps k i k' run

theorem sysClose_family {fd : Nat} (run : sysClose iputLast k fd = .ok k') : SameFamily k k' := by
  unfold sysClose at run
  dsimp only at run
  split at run
  · cases run
    exact .refl k
  · split at run
    · cases run
    · have cleared : SameFamily k (k.setStruct k.current { k.structs k.current with
          filp := Function.update (k.structs k.current).filp fd none }) := sameFamily_setStruct rfl
      have counted (fCount : Nat → BitVec 16) : SameFamily k { k.setStruct k.current { k.structs k.current with
          filp := Function.update (k.structs k.current).filp fd none } with fCount } :=
        ⟨cleared.task, cleared.current, cleared.lastPid, cleared.each⟩
      split at run
      · cases run
        exact counted _
      · exact (counted _).trans (iput_family keeps run)

theorem closeFiles_family (run : closeFiles iputLast k n = .ok k') : SameFamily k k' := by
  induction n generalizing k' with
  | zero =>
    cases run
    exact .refl k
  | succ n ih =>
    rcases of_bind run with ⟨k₁, before, rest⟩
    exact (ih before).trans (sysClose_family keeps rest)

theorem dropInodes_family (run : dropInodes iputLast k = .ok k') : SameFamily k k' := by
  rcases of_bind run with ⟨k₁, pwd, rest⟩
  rcases of_bind rest with ⟨k₂, root, rest⟩
  rcases of_bind rest with ⟨k₃, executable, rest⟩
  cases rest
  have one : SameFamily k (k₁.setStruct k₁.current { k₁.structs k₁.current with pwd := none }) :=
    (iput_family keeps pwd).trans (sameFamily_setStruct rfl)
  have two : SameFamily k (k₂.setStruct k₂.current { k₂.structs k₂.current with root := none }) :=
    (one.trans (iput_family keeps root)).trans (sameFamily_setStruct rfl)
  exact (two.trans (iput_family keeps executable)).trans (sameFamily_setStruct rfl)

omit keeps in
theorem killSession_family (k : Process) (n : Nat) : SameFamily k (killSession k n) := by
  induction n with
  | zero => exact .refl k
  | succ n ih =>
    unfold killSession
    dsimp only
    split
    · exact ih.trans (sameFamily_raise _ _ _)
    · exact ih

/-- `release` gives up one slot that leads to the structure. -/
structure Gone (k k' : Process) (i : Nat) : Prop where
  task : k'.task = Function.update k.task i 0
  structs : k'.structs = k.structs
  current : k'.current = k.current
  lastPid : k'.lastPid = k.lastPid

omit keeps in
theorem releaseFrom_gone {left : Nat} (run : releaseFrom k p i left = .ok k') :
    ∃ j, i ≤ j ∧ j < i + left ∧ k.task j = p ∧ Gone k k' j := by
  induction left generalizing i with
  | zero => cases run
  | succ left ih =>
    unfold releaseFrom at run
    split at run
    · rename_i found
      rcases of_bind run with ⟨m₁, -, run⟩
      rcases of_bind run with ⟨m₂, -, run⟩
      cases run
      exact ⟨i, Nat.le_refl i, by omega, found, rfl, rfl, rfl, rfl⟩
    · rcases ih run with ⟨j, low, high, found, gone⟩
      exact ⟨j, by omega, by omega, found, gone⟩

omit keeps in
theorem Gone.member (gone : Gone k k' i) : k'.member = Function.update k.member i none := by
  rw [← member_clear]
  funext j
  unfold Process.member
  rw [gone.task, gone.structs]
  rfl

omit keeps in
theorem Gone.apart (gone : Gone k k' i) (apart : k.Apart) : k'.Apart := by
  have cleared := apart_clear apart i
  unfold Process.Apart at cleared ⊢
  rw [gone.task]
  exact cleared

omit keeps in
theorem Gone.at (gone : Gone k k' i) (here : k.At c) (other : c ≠ i) : k'.At c := by
  refine ⟨here.1, ?_, ?_⟩
  · rw [gone.task, gone.current, Function.update_of_ne other]
    exact here.2.1
  · rw [gone.current]
    exact here.2.2

omit keeps in
theorem release_gone (apart : k.Apart) (inside : i < nrTasks) (found : k.task i = p) (some : p ≠ 0)
    (run : release k p = .ok k') : Gone k k' i := by
  rw [release, if_neg some] at run
  rcases releaseFrom_gone run with ⟨j, low, high, same, gone⟩
  have bound : j < nrTasks := by
    have : nrTasks = 64 := rfl
    omega
  rw [apart i j inside bound (by rw [found]; exact some) (found.trans same.symm)]
  exact gone

/-- What `do_exit` leaves of the families: the children go to task 1, and the task is a zombie if it has a father to
    tell, or gone if its father is task 0. -/
structure Exited (k k' : Process) (c : Nat) (code : BitVec 32) : Prop where
  apart : k'.Apart
  lastPid : k'.lastPid = k.lastPid
  told : (k.structs k.current).father ≠ 0 → (∃ i m, k.member i = some m ∧ m.pid = (k.structs k.current).father) →
    k'.member = Function.update (fun i => (k.member i).map (Member.adopt (k.structs k.current).pid)) c
      (some { (k.structs k.current).member with dead := some code })
  untold : (k.structs k.current).father = 0 →
    k'.member = Function.update (fun i => (k.member i).map (Member.adopt (k.structs k.current).pid)) c none

theorem doExit_family {code : BitVec 32} (apart : k.Apart) (here : k.At c)
    (father : (k.structs k.current).father ≠ (k.structs k.current).pid) (run : doExit iputLast k code = .ok k') :
    Exited k k' c code := by
  rcases of_bind run with ⟨m, -, rest⟩
  have adopted := reparent_family (k := k.setMemory m) apart here
  dsimp only at rest
  generalize reparent (k.setMemory m) nrTasks = k₁ at rest adopted
  rcases of_bind rest with ⟨k₂, closed, rest⟩
  rcases of_bind rest with ⟨k₃, dropped, rest⟩
  have same : SameFamily k₁ (if (k₃.structs k₃.current).leader then killSession k₃ (nrTasks - 1) else k₃) := by
    have two := (closeFiles_family keeps closed).trans (dropInodes_family keeps dropped)
    split
    · exact two.trans (killSession_family k₃ _)
    · exact two
  generalize (if (k₃.structs k₃.current).leader then killSession k₃ (nrTasks - 1) else k₃) = k₄ at rest same
  have member₄ : k₄.member = fun i => (k.member i).map (Member.adopt (k.structs k.current).pid) :=
    same.member.trans adopted.2.2.2
  have apart₄ := same.apart adopted.1
  have here₄ := same.at adopted.2.1
  have own : (k₄.structs k₄.current).member = (k.structs k.current).member := by
    have one := member_current here₄
    rw [member₄] at one
    dsimp only at one
    rw [member_current here, Option.map_some, adopt_other father] at one
    exact (Option.some.inj one).symm
  have zombie := member_setStruct apart₄ here₄.1 (by rw [here₄.2.1]; exact here₄.2.2)
    { k₄.structs k₄.current with state := .zombie, exitCode := code }
  rw [here₄.2.1] at zombie
  have dead : ({ k₄.structs k₄.current with state := .zombie, exitCode := code } : Task).member =
      { (k.structs k.current).member with dead := some code } := by
    rw [← own]
    rfl
  have fatherOf : ((k₄.setStruct k₄.current { k₄.structs k₄.current with state := .zombie, exitCode := code }).structs
      k₄.current).father = (k.structs k.current).father := by
    rw [Process.setStruct_self]
    exact congrArg Member.father own
  rw [dead, member₄] at zombie
  change tellFather (k₄.setStruct k₄.current { k₄.structs k₄.current with state := .zombie, exitCode := code })
    ((k₄.setStruct k₄.current { k₄.structs k₄.current with state := .zombie, exitCode := code }).structs
      k₄.current).father = .ok k' at rest
  rw [fatherOf] at rest
  have apart₅ : (k₄.setStruct k₄.current { k₄.structs k₄.current with state := .zombie, exitCode := code }).Apart := apart₄
  have here₅ : (k₄.setStruct k₄.current { k₄.structs k₄.current with state := .zombie, exitCode := code }).At c := here₄
  have lastPid₅ : (k₄.setStruct k₄.current { k₄.structs k₄.current with state := .zombie, exitCode := code }).lastPid =
    k.lastPid := same.lastPid.trans adopted.2.2.1
  generalize k₄.setStruct k₄.current { k₄.structs k₄.current with state := .zombie, exitCode := code } = k₅
    at rest zombie apart₅ here₅ lastPid₅
  unfold tellFather at rest
  split at rest
  · rename_i i found
    cases rest
    have raised := sameFamily_raise k₅ (k₅.task i) sigchld
    refine ⟨raised.apart apart₅, raised.lastPid.trans lastPid₅, ?_, ?_⟩
    · intro _ _
      rw [raised.member]
      exact zombie
    · intro zero
      rw [if_pos zero] at found
      cases found
  · rename_i lost
    have gone := release_gone apart₅ here₅.1 here₅.2.1 here₅.2.2 rest
    refine ⟨gone.apart apart₅, gone.lastPid.trans lastPid₅, ?_, ?_⟩
    · intro nonzero present
      exfalso
      rcases present with ⟨i, m', found, pid⟩
      rw [if_neg nonzero] at lost
      -- the father is in the table of the zombie, too
      have after : ∃ m'', k₅.member i = some m'' ∧ m''.pid = (k.structs k.current).father := by
        rw [zombie]
        by_cases own₅ : i = c
        · rw [own₅, member_current here] at found
          cases found
          exact absurd pid.symm father
        · refine ⟨m'.adopt (k.structs k.current).pid, ?_, ?_⟩
          · rw [Function.update_of_ne own₅, found]
            rfl
          · rw [← pid]
            unfold Member.adopt
            split <;> rfl
      rcases after with ⟨m'', found', pid'⟩
      rcases member_some found' with ⟨inside, some, member⟩
      have bound : i < 0 + nrTasks := by omega
      have own : (k₅.structs (k₅.task i)).pid = (k.structs k.current).father := by
        rw [← pid', member]
        rfl
      have isSome := findPid_isSome some own (Nat.zero_le i) bound
      rw [lost] at isSome
      cases isSome
    · intro _
      rw [gone.member, zombie, Function.update_idem]

end Exit

section Wait

variable {untraced flag flag' : Bool} {image : Word → Nat → Word} {statAddr : Word} {options : BitVec 32}

theorem waitMatches_father (fits : waitMatches k p pid = true) :
    (k.structs p).father = (k.structs k.current).pid := by
  unfold waitMatches at fits
  exact (of_decide_eq_true fits).1

/-- A call of `sys_waitpid` takes a dead child out of the table, returns its number and stores its exit code, or leaves
    the families alone. -/
inductive WaitEnds (k : Process) (image : Word → Nat → Word) (statAddr : Word) (c : Nat) (waited : Waited) (k' : Process) :
    Option Word → Prop
  | reaped {i : Nat} {m : Member} {code : BitVec 32} (found : k.member i = some m) (positive : 1 ≤ i) (other : i ≠ c)
      (child : m.father = (k.structs k.current).pid) (dead : m.dead = some code) (value : waited = .returned m.pid)
      (status : StatusStored k image statAddr code k') (task : k'.task = Function.update k.task i 0)
      (gone : k'.member = Function.update k.member i none) : WaitEnds k image statAddr c waited k' (some (k.task i))
  | same (task : k'.task = k.task) (member : k'.member = k.member) : WaitEnds k image statAddr c waited k' none

/-- Every call has a report. -/
theorem WaitEnds.told {waited : Waited} {child : Option Word} (ends : WaitEnds k image statAddr c waited k' child) :
    ∃ r, WaitTells k image statAddr waited k' r := by
  cases ends with
  | @reaped i m code found _ _ _ _ value status task =>
    refine ⟨_, .reaped ?_ value status⟩
    intro same
    rw [task] at same
    have slot := congrFun same i
    rw [Function.update_self] at slot
    exact (member_some found).2.1 slot.symm
  | same task => exact ⟨_, .nothing task⟩

theorem waitScan_setMemory (k : Process) (m : Memory) (pid : Int) (untraced : Bool) (n : Nat) (flag : Bool) :
    waitScan (k.setMemory m) pid untraced n flag = waitScan k pid untraced n flag := by
  induction n generalizing flag with
  | zero => rfl
  | succ n ih =>
    unfold waitScan
    simp only [ih]
    rfl

/-- The loop of `sys_waitpid` leaves out the caller. -/
theorem waitScan_other (scan : waitScan k pid untraced n flag = (some p, flag')) : p ≠ k.current := by
  induction n generalizing flag with
  | zero => cases scan
  | succ n ih =>
    unfold waitScan at scan
    split at scan
    · cases scan
    · split at scan
      · exact ih scan
      · rename_i fits
        rw [not_or, not_or] at fits
        split at scan
        · split at scan
          · cases scan
            exact fits.2.1
          · exact ih scan
        · cases scan
          exact fits.2.1
        · exact ih scan

theorem addChildTimes_family (k : Process) (p : Word) : SameFamily k (addChildTimes k p) := sameFamily_setStruct rfl

theorem zombie_member {t : Task} (zombie : t.state = .zombie) : t.member.dead = some t.exitCode := if_pos zombie

theorem wait_family {waited : Waited} (apart : k.Apart) (here : k.At c) (alive : (k.structs k.current).state ≠ .zombie)
    (run : sysWaitpid k image pid statAddr options = .ok (waited, k')) :
    WaitEnds k image statAddr c waited k' (deadChild k pid options) ∧ k'.Apart ∧ k'.At c ∧ k'.lastPid = k.lastPid := by
  rcases of_bind run with ⟨m, verified, rest⟩
  have start := sameFamily_setMemory k m
  have scanned : waitScan (k.setMemory m) pid (options.getLsbD 1) nrTasks false =
      waitScan k pid (options.getLsbD 1) nrTasks false := waitScan_setMemory ..
  have same (k' : Process) (later : SameFamily (k.setMemory m) k') :
      WaitEnds k image statAddr c waited k' none ∧ k'.Apart ∧ k'.At c ∧ k'.lastPid = k.lastPid := by
    have all := start.trans later
    exact ⟨.same all.task all.member, all.apart apart, all.at here, all.lastPid⟩
  unfold waitFor at rest
  unfold deadChild
  rw [scanned] at rest
  generalize scan : waitScan k pid (options.getLsbD 1) nrTasks false = result at rest ⊢
  rcases result with ⟨found, flag⟩
  cases found with
  | none =>
    cases flag with
    | false =>
      cases rest
      exact same _ (.refl _)
    | true =>
      dsimp only at rest
      split at rest
      · cases rest
        exact same _ (.refl _)
      · cases rest
        have asleep : ({ k.structs k.current with state := .interruptible } : Task).member =
            (k.structs k.current).member := by
          simp only [Task.member, alive, if_false, reduceCtorEq]
        exact same _ (sameFamily_setStruct asleep)
  | some p =>
    rcases waitScan_found scan with ⟨i, positive, inside, slot, some, fits, state⟩
    dsimp only at rest ⊢
    change (if (k.structs p).state = .stopped then _ else _) = _ at rest
    split at rest
    · rename_i stopped
      rw [Option.filter_some_neg (by rw [stopped]; decide)]
      rcases of_bind rest with ⟨m', -, done⟩
      cases done
      exact same _ (sameFamily_setMemory _ m')
    · rename_i running
      have zombie := state.resolve_left running
      rw [Option.filter_some_pos (by rw [zombie]; rfl)]
      rcases of_bind rest with ⟨k₁, released, rest⟩
      rcases of_bind rest with ⟨m', stored, done⟩
      cases done
      have times := (sameFamily_setMemory k m).trans (addChildTimes_family (k.setMemory m) p)
      have gone := release_gone (times.apart apart) inside (by rw [times.task]; exact slot) some released
      have member := gone.member
      rw [times.member] at member
      have task : (k₁.setMemory m').task = Function.update k.task i 0 := gone.task
      have other : i ≠ c := by
        intro own
        rw [own, here.2.1] at slot
        exact waitScan_other scan slot.symm
      have found : k.member i = Option.some (k.structs p).member := by
        rw [member_of_slot inside (by rw [slot]; exact some), slot]
      have status : StatusStored k image statAddr (k.structs p).exitCode (k₁.setMemory m') :=
        ⟨m, p, k₁, verified, released, rfl, stored⟩
      have ends : WaitEnds k image statAddr c (.returned (k.structs p).pid) (k₁.setMemory m') (Option.some (k.task i)) :=
        .reaped found positive other (waitMatches_father fits) (zombie_member zombie) rfl status task member
      rw [slot] at ends
      exact ⟨ends, gone.apart (times.apart apart), gone.at (times.at here) other.symm, gone.lastPid.trans times.lastPid⟩

/-- What a store of four bytes has stored can be read back. -/
theorem storeBytes_long_inj {a : Word} {m : Memory} {v w : BitVec 32}
    (same : storeBytes m a (longBytes v) = storeBytes m a (longBytes w)) : v = w := by
  -- the bytes of both, one by one from the last
  have fourth := congrArg (fun m => loadByte m (a + 3)) same
  have third := congrArg (fun m => loadByte m (a + 2)) same
  have second := congrArg (fun m => loadByte m (a + 1)) same
  have first := congrArg (fun m => loadByte m a) same
  simp only [longBytes, storeBytes, loadByte_storeByte, BitVec.ofNat_eq_ofNat, BitVec.add_assoc, BitVec.reduceAdd,
    left_eq_add, BitVec.reduceEq, if_true, if_false, BitVec.one_eq_zero_iff, OfNat.ofNat_ne_zero, add_right_inj] at first second third fourth
  have low := congrArg BitVec.toNat first
  have next := congrArg BitVec.toNat second
  have high := congrArg BitVec.toNat third
  have top := congrArg BitVec.toNat fourth
  simp only [BitVec.toNat_setWidth, BitVec.toNat_ushiftRight, Nat.shiftRight_eq_div_pow] at low next high top
  apply BitVec.eq_of_toNat_eq
  omega

theorem status_unique {code code' : BitVec 32} (one : StatusStored k image statAddr code k')
    (two : StatusStored k image statAddr code' k') (gone : k'.task ≠ k.task) : code = code' := by
  rcases one with ⟨m, p, k₁, verified, released, task, stored⟩
  rcases two with ⟨m', p', k₁', verified', released', task', stored'⟩
  rw [verified] at verified'
  cases verified'
  have freed {p : Word} {k₁ : Process} (released : release (addChildTimes (k.setMemory m) p) p = .ok k₁)
      (task : k₁.task = k'.task) : ∃ j, k.task j = p ∧ k.task j ≠ 0 ∧ k'.task = Function.update k.task j 0 := by
    unfold release at released
    split at released
    · cases released
      exact absurd task.symm gone
    · rename_i some
      rcases releaseFrom_gone released with ⟨j, -, -, found, cleared⟩
      have here : k.task j = p := found
      exact ⟨j, here, by rwa [here], task.symm.trans cleared.task⟩
  rcases freed released task with ⟨j, here, some, cleared⟩
  rcases freed released' task' with ⟨j', here', some', cleared'⟩
  have slot : j = j' := by
    by_contra other
    have at' := congrFun (cleared.symm.trans cleared') j
    rw [Function.update_self, Function.update_of_ne other] at at'
    exact some at'.symm
  rw [← here, slot, here', released'] at released
  cases released
  rw [putFsLong_eq] at stored stored'
  rcases of_bind stored with ⟨⟨a, m₁⟩, address, stored⟩
  rcases of_bind stored' with ⟨⟨a', m₁'⟩, address', stored'⟩
  rw [address] at address'
  cases address'
  exact storeBytes_long_inj (Except.ok.inj (stored.trans stored'.symm))

end Wait

section Fork

variable {nr : Nat}

/-- The structure that `copy_process` takes its page for is not that of a task in the table. -/
def FreshStruct (k : Process) : Prop := ∀ i, i < nrTasks → k.task i ≠ (getFreePages k.memory 5).1

/-- A child is the caller with its own number, the caller as its father, and nothing to lead. -/
theorem beforeCopy_member {stack : Word} {m m₁ m₂ : Memory} (own : p ≠ k.current) :
    ((startChild ((setStartCode (beforeCopy k nr p stack m₁ m₂) p userStartAddr).setMemory m) p).2.structs p).member =
      { (k.structs k.current).member with
        pid := k.lastPid, father := (k.structs k.current).pid, leader := false, dead := none } := by
  have parent : k.current ≠ p := own.symm
  simp only [startChild, setStartCode, beforeCopy, setUpStack, placeStack, placeTask, childOf, Process.setStruct,
    Process.setMemory, Process.setTask, Function.update_self, Task.member, reduceCtorEq, if_false]

/-- A fork that failed and gave its slot back leaves the families alone. -/
theorem refused_family (apart : k.Apart) (here : k.At c) (free : k.task nr = 0) (pid : 0 ≤ k.lastPid) (fresh : FreshStruct k)
    (run : copyProcess k nr = .ok (-eagain, k')) (back : k'.task = k.task) :
    k'.member = k.member ∧ k'.Apart ∧ k'.At c ∧ k'.lastPid = k.lastPid := by
  rcases copyProcess_refused pid free run back with ⟨current, lastPid, others⟩
  refine ⟨?_, ?_, ?_, lastPid⟩
  · funext i
    unfold Process.member
    rw [back]
    split
    · rename_i inside
      rw [others _ (fresh i inside.1)]
    · rfl
  · unfold Process.Apart
    rw [back]
    exact apart
  · unfold Process.At
    rw [back, current]
    exact here

theorem fork_family (apart : k.Apart) (here : k.At c) (inside : nr < nrTasks) (free : k.task nr = 0) (pid : 0 ≤ k.lastPid)
    (fresh : FreshStruct k) (run : copyProcess k nr = .ok (k.lastPid, k')) :
    k'.member = Function.update k.member nr (some { (k.structs k.current).member with
      pid := k.lastPid, father := (k.structs k.current).pid, leader := false, dead := none }) ∧
    k'.Apart ∧ k'.At c ∧ k'.lastPid = k.lastPid := by
  rcases copyProcess_started pid run with ⟨stack, m, m₁, m₂, some, shape⟩
  unfold FreshStruct at fresh
  generalize (getFreePages k.memory 5).1 = p at fresh some shape
  have own : p ≠ k.current := by
    rw [← here.2.1]
    exact (fresh c here.1).symm
  have child : (k'.structs p).member = { (k.structs k.current).member with
      pid := k.lastPid, father := (k.structs k.current).pid, leader := false, dead := none } := by
    rw [shape]
    exact beforeCopy_member own
  have forked : Forked k k' nr p := by
    rw [shape]
    exact beforeCopy_forked own
  have lastPid : k'.lastPid = k.lastPid := by
    rw [shape]
    rfl
  have other : c ≠ nr := by
    intro same
    rw [← same, here.2.1] at free
    exact here.2.2 free
  refine ⟨?_, ?_, ?_, lastPid⟩
  · funext i
    unfold Process.member
    rw [forked.task]
    by_cases new : i = nr
    · subst new
      simp only [Function.update_self, inside, some, ne_eq, not_false_eq_true, and_self, if_true, child]
    · simp only [Function.update_of_ne new]
      split
      · rename_i old
        rw [forked.others _ (fresh i old.1)]
      · rfl
  · intro i j inI inJ present same
    rw [forked.task] at present same
    by_cases newI : i = nr
    · by_cases newJ : j = nr
      · rw [newI, newJ]
      · rw [newI, Function.update_self, Function.update_of_ne newJ] at same
        exact absurd same.symm (fresh j inJ)
    · by_cases newJ : j = nr
      · rw [newJ, Function.update_self, Function.update_of_ne newI] at same
        exact absurd same (fresh i inI)
      · rw [Function.update_of_ne newI] at present same
        rw [Function.update_of_ne newJ] at same
        exact apart i j inI inJ present same
  · refine ⟨here.1, ?_, ?_⟩
    · rw [forked.task, forked.current, Function.update_of_ne other]
      exact here.2.1
    · rw [forked.current]
      exact here.2.2

end Fork

section Sessions

theorem findPid_some {i left : Nat} (found : findPid k pid i left = some j) :
    i ≤ j ∧ j < i + left ∧ k.task j ≠ 0 ∧ (k.structs (k.task j)).pid = pid := by
  induction left generalizing i with
  | zero => cases found
  | succ left ih =>
    unfold findPid at found
    split at found
    · rename_i here
      cases found
      exact ⟨Nat.le_refl _, by omega, here.1, here.2⟩
    · rcases ih found with ⟨low, high, rest⟩
      exact ⟨by omega, by omega, rest⟩

/-- A task that leads nothing gets another group, or nothing changes. -/
theorem setpgid_family {pgid : Int} (apart : k.Apart) (run : (sysSetpgid k pid pgid).2 = k') :
    k'.Apart ∧ k'.task = k.task ∧ k'.current = k.current ∧ k'.lastPid = k.lastPid ∧ (k'.member = k.member ∨
      ∃ i m pgrp, k.member i = some m ∧ m.leader = false ∧ k'.member = Function.update k.member i (some { m with pgrp })) := by
  subst run
  unfold sysSetpgid
  dsimp only
  split
  · exact ⟨apart, rfl, rfl, rfl, .inl rfl⟩
  · rename_i i found
    rcases findPid_some found with ⟨-, high, present, -⟩
    split
    · exact ⟨apart, rfl, rfl, rfl, .inl rfl⟩
    · rename_i follows
      split
      · exact ⟨apart, rfl, rfl, rfl, .inl rfl⟩
      · have inside : i < nrTasks := by omega
        refine ⟨apart, rfl, rfl, rfl, .inr ⟨i, (k.structs (k.task i)).member,
          if pgid = 0 then (k.structs k.current).pid else pgid, member_of_slot inside present,
          Bool.eq_false_iff.mpr follows, ?_⟩⟩
        exact member_setStruct apart inside present _

theorem setsid_family {suser : Bool} (apart : k.Apart) (here : k.At c) (run : (sysSetsid k suser).2 = k') :
    k'.Apart ∧ k'.At c ∧ k'.lastPid = k.lastPid ∧ (k'.member = k.member ∨
      k'.member = Function.update k.member c (some { (k.structs k.current).member with
        leader := true, session := (k.structs k.current).pid, pgrp := (k.structs k.current).pid })) := by
  subst run
  unfold sysSetsid
  dsimp only
  split
  · exact ⟨apart, here, rfl, .inl rfl⟩
  · refine ⟨apart, here, rfl, .inr ?_⟩
    have stored := member_setStruct apart here.1 (by rw [here.2.1]; exact here.2.2) { k.structs k.current with
      leader := true, session := (k.structs k.current).pid, pgrp := (k.structs k.current).pid }
    rw [here.2.1] at stored
    exact stored

end Sessions

end Members

end K210Linux.Kernel
