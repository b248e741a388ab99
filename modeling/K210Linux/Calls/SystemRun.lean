import K210Linux.Calls.ExecLedger

/-! After any run of system calls, every inode is counted once for each open file and each task that has it. -/

namespace K210Linux.Calls

open Outcome RefCount
open K210Linux.Fs
open K210Linux.Buffer (Halt Counts)
open Volume (inodeUser)

namespace System

/-- How many open files and tasks have the inode `k`. -/
def holders (s : System) (k : Nat) : Nat :=
  ((Finset.range nrFile).filter fun f => (s.files.file f).count ≠ 0 ∧ (s.files.file f).inode = some k).card +
    ∑ nr ∈ Finset.range nrTasks, (indicator ((s.inodes nr).root = some k) + indicator ((s.inodes nr).pwd = some k) +
      indicator ((s.inodes nr).executable = some k))

/-- Besides `base`, which has the users that no call takes or gives back, the count of an inode is the number of its
    holders, and the buffers have the users in `buffers`. -/
structure Ledger (base : Nat → Nat) (buffers : Nat → BitVec 8) (s : System) : Prop where
  wf : s.files.Wf
  tabled : Tabled s.files
  nothing : ∀ nr, exits s.files nr ≠ some false → s.inodes nr = .nothing
  inodes : ∀ k, (s.volume.inode k).count.toNat = base k + s.holders k
  buffers : ∀ i, (s.volume.drive.cache.head i).count = buffers i

variable {s s' : System} {t : FileTask} {fuel : Nat} {caller : Caller} {base : Nat → Nat} {buffers : Nat → BitVec 8}
  {more : Counts}

theorem inodeUser_fst (inode : Option Nat) (k : Nat) : (inodeUser inode).1 k = (indicator (inode = some k) : Nat) := by
  cases inode with
  | none => rfl
  | some i =>
    simp only [inodeUser, Option.elim_some, Counts.inode, Pi.single_apply, Option.some.injEq, indicator]
    by_cases same : k = i
    · simp [same]
    · simp [same, Ne.symm same]

theorem inodeUser_snd (inode : Option Nat) : (inodeUser inode).2 = 0 := by
  cases inode <;> rfl

theorem fileUser_fst (file : File) (k : Nat) :
    (fileUser file).1 k = (indicator (file.count ≠ 0 ∧ file.inode = some k) : Nat) := by
  unfold fileUser
  by_cases closed : file.count = 0
  · rw [if_pos closed, indicator, if_neg fun both => both.1 closed]
    rfl
  · rw [if_neg closed, inodeUser_fst]
    simp only [indicator, ne_eq, closed, not_false_eq_true, true_and]

/-- The users of an inode are its holders, and no file and no task uses a buffer. -/
theorem users_fst (s : System) (k : Nat) : s.users.1 k = (s.holders k : Nat) := by
  have files : (fileUsers s.files).1 k =
      (((Finset.range nrFile).filter fun f => (s.files.file f).count ≠ 0 ∧ (s.files.file f).inode = some k).card : Nat) := by
    rw [Finset.card_filter, Nat.cast_sum, fileUsers, Prod.fst_sum, Finset.sum_apply]
    apply Finset.sum_congr rfl
    intro f _
    exact fileUser_fst _ _
  have tasks : (∑ nr ∈ Finset.range nrTasks, (s.inodes nr).users).1 k =
      ((∑ nr ∈ Finset.range nrTasks, (indicator ((s.inodes nr).root = some k) + indicator ((s.inodes nr).pwd = some k) +
        indicator ((s.inodes nr).executable = some k)) : Nat) : BitVec 16) := by
    rw [Nat.cast_sum, Prod.fst_sum, Finset.sum_apply]
    apply Finset.sum_congr rfl
    intro nr _
    simp only [TaskInodes.users, Prod.fst_add, Pi.add_apply, inodeUser_fst, Nat.cast_add]
  rw [users, Prod.fst_add, Pi.add_apply, files, tasks, ← Nat.cast_add]
  rfl

theorem users_snd (s : System) : s.users.2 = 0 := by
  have files : (fileUsers s.files).2 = 0 := by
    rw [fileUsers, Prod.snd_sum]
    apply Finset.sum_eq_zero
    intro f _
    unfold fileUser
    split
    · rfl
    · exact inodeUser_snd _
  have tasks : (∑ nr ∈ Finset.range nrTasks, (s.inodes nr).users).2 = 0 := by
    rw [Prod.snd_sum]
    apply Finset.sum_eq_zero
    intro nr _
    simp only [TaskInodes.users, Prod.snd_add, inodeUser_snd, add_zero]
  rw [users, Prod.snd_add, files, tasks, add_zero]

theorem holders_le (s : System) (k : Nat) : s.holders k ≤ 256 := by
  have one (p : Prop) [Decidable p] : indicator p ≤ 1 := by
    unfold indicator
    split <;> omega
  have files : ((Finset.range nrFile).filter fun f => (s.files.file f).count ≠ 0 ∧ (s.files.file f).inode = some k).card ≤ 64 :=
    (Finset.card_filter_le _ _).trans (Finset.card_range _).le
  have tasks : ∑ nr ∈ Finset.range nrTasks, (indicator ((s.inodes nr).root = some k) + indicator ((s.inodes nr).pwd = some k) +
      indicator ((s.inodes nr).executable = some k)) ≤ ∑ nr ∈ Finset.range nrTasks, 3 := by
    apply Finset.sum_le_sum
    intro nr _
    have root := one ((s.inodes nr).root = some k)
    have pwd := one ((s.inodes nr).pwd = some k)
    have executable := one ((s.inodes nr).executable = some k)
    omega
  rw [Finset.sum_const, Finset.card_range, smul_eq_mul] at tasks
  unfold holders
  exact (Nat.add_le_add files tasks).trans (by decide)

/-- The counts as what `Balanced` speaks of. -/
def baseCounts (base : Nat → Nat) (buffers : Nat → BitVec 8) : Counts := (fun k => (base k : Nat), buffers)

theorem ledger_iff (room : ∀ k, base k + 256 < 2 ^ 16) : s.Ledger base buffers ↔ s.Balanced (baseCounts base buffers) 0 := by
  have count (k : Nat) (c : BitVec 16) : c.toNat = base k + s.holders k ↔ c = ((base k : Nat) : BitVec 16) + (s.holders k : Nat) := by
    have small := room k
    have few := s.holders_le k
    rw [← Nat.cast_add, ← BitVec.toNat_inj, BitVec.natCast_eq_ofNat, BitVec.toNat_ofNat, Nat.mod_eq_of_lt (by omega)]
  constructor
  · intro ledger
    refine ⟨ledger.wf, ledger.tabled, ledger.nothing, Prod.ext ?_ ?_⟩
    · funext k
      rw [add_zero, Prod.fst_add, Pi.add_apply, users_fst]
      exact (count k _).mp (ledger.inodes k)
    · funext i
      rw [add_zero, Prod.snd_add, users_snd, add_zero]
      exact ledger.buffers i
  · intro balanced
    refine ⟨balanced.wf, balanced.tabled, balanced.nothing, ?_, ?_⟩
    · intro k
      apply (count k _).mpr
      have same := congrFun (congrArg Prod.fst balanced.counts) k
      rwa [add_zero, Prod.fst_add, Pi.add_apply, users_fst] at same
    · intro i
      have same := congrFun (congrArg Prod.snd balanced.counts) i
      rwa [add_zero, Prod.snd_add, users_snd, add_zero] at same

section Step

variable {bound : Counts} {c : SystemCall} {e : Event}

theorem returned {α : Type} {result : Except Halt (α × System)} (run : result.toOption.map Prod.snd = some s') :
    ∃ a, result = .ok (a, s') := by
  cases result with
  | error halt => cases run
  | ok r =>
    cases run
    exact ⟨r.1, rfl⟩

theorem call_balanced (balanced : s.Balanced bound 0) (runs : s.Runs t) (clean : s.Clean fuel (.call caller c))
    (run : s.call fuel caller t c = some s') : s'.Balanced bound 0 := by
  cases c with
  | sysOpen path flag mode =>
    rcases returned run with ⟨value, done⟩
    exact sysOpen_balanced balanced runs done
  | sysCreat path mode =>
    rcases returned run with ⟨value, done⟩
    exact sysOpen_balanced balanced runs done
  | sysClose fd =>
    rcases returned run with ⟨value, done⟩
    exact sysClose_balanced balanced runs done
  | sysDup fd =>
    cases run
    exact files_balanced balanced (dupfd_wf balanced.wf runs.1 runs.2 fd 0) (dupfd_hands balanced.wf runs.1)
  | sysDup2 oldfd newfd =>
    rcases returned run with ⟨value, done⟩
    exact sysDup2_balanced balanced runs done
  | sysFcntl fd cmd arg =>
    cases run
    exact files_balanced balanced (sysFcntl_wf balanced.wf runs.1 runs.2 fd cmd arg) (sysFcntl_hands balanced.wf runs.1)
  | sysPipe =>
    rcases returned run with ⟨value, done⟩
    exact sysPipe_balanced balanced runs done
  | sysChdir path =>
    rcases returned run with ⟨value, done⟩
    exact sysChdir_balanced balanced runs done
  | sysChroot path =>
    rcases returned run with ⟨value, done⟩
    exact sysChroot_balanced balanced runs done
  | sysChmod path mode =>
    apply inVolume_balanced balanced _ run
    intro value volume done
    refine Volume.changeInode_counts ?_ done
    intro inode
    rfl
  | sysChown path uid gid =>
    apply inVolume_balanced balanced _ run
    intro value volume done
    refine Volume.changeInode_counts ?_ done
    intro inode
    rfl
  | sysUtime path times =>
    apply inVolume_balanced balanced _ run
    intro value volume done
    unfold Volume.sysUtime at done
    refine Volume.changeInode_counts ?_ done
    intro inode
    rfl
  | sysAccess ids path mode => exact inVolume_balanced balanced (fun _ _ done => Volume.sysAccess_counts done) run
  | sysStat path => exact inVolume_balanced balanced (fun _ _ done => Volume.sysStat_counts done) run
  | sysMknod path mode dev => exact inVolume_balanced balanced (fun _ _ done => Volume.sysMknod_counts done) run
  | sysMkdir path mode => exact inVolume_balanced balanced (fun _ _ done => Volume.sysMkdir_counts done) run
  | sysRmdir path =>
    apply inVolume_balanced balanced _ run
    intro value volume done
    exact (Volume.sysRmdir_counts done fun k u same => (clean k u same).1).mpr fun k u same => (clean k u same).2
  | sysUnlink path => exact inVolume_balanced balanced (fun _ _ done => Volume.sysUnlink_counts done) run
  | sysLink oldname newname => exact inVolume_balanced balanced (fun _ _ done => Volume.sysLink_counts done) run
  | sysRead fd count =>
    rcases Option.bind_eq_some_iff.mp run with ⟨place, found, run⟩
    rcases returned run with ⟨value, done⟩
    exact sysRead_balanced balanced (onFile_used balanced runs found) done
  | sysWrite fd buf count =>
    rcases Option.bind_eq_some_iff.mp run with ⟨place, found, run⟩
    rcases returned run with ⟨value, done⟩
    exact sysWrite_balanced balanced (onFile_used balanced runs found) done
  | sysSync =>
    simp only [System.call] at run
    cases synced : s.volume.sysSync fuel with
    | error halt =>
      rw [synced] at run
      cases run
    | ok volume =>
      rw [synced] at run
      cases run
      have same : volume.counts = s.volume.counts + 0 := (Volume.sysSync_counts synced).trans (add_zero _).symm
      exact (balanced.onVolume same).congr (add_zero 0)
  | sysFork nr =>
    simp only [System.call] at run
    split at run
    · rename_i slot
      cases run
      exact copyProcess_balanced balanced runs slot.1 (Option.isNone_iff_eq_none.mp slot.2)
    · cases run
  | forkFails =>
    cases run
    exact balanced
  | sysExecve call handler fsIsKernel =>
    simp only [System.call] at run
    cases result : sysExecve fuel caller call handler fsIsKernel s with
    | error fault =>
      rw [result] at run
      cases run
    | ok r =>
      rw [result] at run
      cases run
      exact sysExecve_balanced balanced runs result
  | sysExit =>
    simp only [System.call] at run
    cases exited : doExit fuel caller.time s with
    | error halt =>
      rw [exited] at run
      cases run
    | ok s₁ =>
      rw [exited] at run
      cases run
      exact doExit_balanced balanced runs exited

theorem step_balanced (balanced : s.Balanced bound 0) (clean : s.Clean fuel e) (stepped : s.step fuel e = some s') :
    s'.Balanced bound 0 := by
  cases e with
  | call caller c =>
    rcases Option.bind_eq_some_iff.mp stepped with ⟨t, here, run⟩
    split at run
    · cases run
    · rename_i running
      exact call_balanced balanced ⟨here, Bool.eq_false_iff.mpr running⟩ clean run
  | switch nr =>
    simp only [System.step] at stepped
    split at stepped
    · cases stepped
      exact switch_balanced balanced
    · cases stepped
  | release nr =>
    simp only [System.step] at stepped
    split at stepped
    · rename_i dead
      cases stepped
      cases present : s.files.task nr with
      | none =>
        rw [present] at dead
        cases dead
      | some t =>
        rw [present] at dead
        exact release_balanced balanced present dead
    · cases stepped

end Step

section FirstTask

/-- One task, which has no file and is in the root directory. -/
def firstTask : System where
  volume := Volume.sampleVolume (Volume.dotEntries (fun _ => 0) 2 1)
  files := {
    file := fun _ => ⟨0, 0, 0, none, 0⟩
    task := fun nr => if nr = 0 then some ⟨fun _ => none, 0, 0, false, 0, false⟩ else none
    current := 0
    ttyPgrp := id }
  inodes nr := if nr = 0 then ⟨some 0, some 0, none⟩ else .nothing

/-- The superblock has the root twice. -/
def rootTwice (k : Nat) : Nat := if k = 0 then 2 else 0

/-- A file is created, and a child goes to a directory, writes to the file and has it twice. -/
def childWrites : List Event :=
  let user : Caller := ⟨0, 0, 0, 1, 0⟩
  [.call user (.sysOpen [0x66] 0o102 0o644), .call user (.sysFork 1), .switch 1, .call user (.sysChdir [0x64]),
    .call user (.sysWrite 0 (fun i => BitVec.ofNat 8 i) 5), .call user (.sysDup 0)]

theorem firstTask_ledger : firstTask.Ledger rootTwice fun _ => 0 where
  wf := by
    have slot (nr : Nat) (u : FileTask) (present : firstTask.files.task nr = some u) :
        nr = 0 ∧ u = ⟨fun _ => none, 0, 0, false, 0, false⟩ := by
      simp only [firstTask, Option.ite_none_right_eq_some, Option.some.injEq] at present
      exact ⟨present.1, present.2.symm⟩
    refine ⟨?_, ?_, ?_, ?_⟩
    · intro f
      refine (refs_eq_zero.mpr ?_).symm
      intro r _ names
      rcases Option.bind_eq_some_iff.mp names with ⟨u, present, named⟩
      rw [(slot r.1 u present).2] at named
      cases named
    · intro nr u present fd marked
      rw [(slot nr u present).2] at marked
      simp at marked
    · intro nr u present exited
      rw [(slot nr u present).2] at exited
      cases exited
    · intro nr present
      rcases Option.ne_none_iff_exists'.mp present with ⟨u, same⟩
      rw [(slot nr u same).1]
      decide
  tabled _ _ := rfl
  nothing nr dead := by
    by_cases first : nr = 0
    · subst first
      exact absurd rfl dead
    · exact if_neg first
  inodes k := by
    by_cases root : k = 0
    · subst root
      decide +kernel
    · have unused : firstTask.volume.inode k = MInode.zero := if_neg root
      have none : firstTask.holders k = 0 := by
        unfold holders
        rw [Finset.filter_eq_empty_iff.mpr fun f _ opened => opened.1 rfl, Finset.card_empty, zero_add]
        apply Finset.sum_eq_zero
        intro nr _
        have inodes : firstTask.inodes nr = if nr = 0 then ⟨some 0, some 0, none⟩ else .nothing := rfl
        rw [inodes]
        split
        · simp [indicator, Ne.symm root]
        · rfl
      rw [unused, none, rootTwice, if_neg root]
      rfl
  buffers _ := rfl

end FirstTask

end System

end K210Linux.Calls
