import K210Linux.Calls.FileUsers
import K210Linux.Calls.System

/-! Every inode is counted once for each open file and each task that has it, and no buffer is kept. -/

namespace K210Linux.Calls

open Outcome
open K210Linux.Fs
open K210Linux.Buffer (Halt Counts)
open Volume (inodeUser)

def TaskInodes.users (t : TaskInodes) : Counts := inodeUser t.root + inodeUser t.pwd + inodeUser t.executable

namespace System

@[simp] theorem inodeUser_none : inodeUser none = 0 := rfl

def users (s : System) : Counts := fileUsers s.files + ∑ nr ∈ Finset.range nrTasks, (s.inodes nr).users

@[simp] theorem volume_onVolume (s : System) (volume : Volume) : (s.onVolume volume).volume = volume := rfl

theorem users_onFiles (s : System) (files : Files) (same : files.file = s.files.file) : (s.onFiles files).users = s.users := by
  simp only [users, onFiles, fileUsers, same]

@[simp] theorem users_onVolume (s : System) (volume : Volume) : (s.onVolume volume).users = s.users := by
  simp only [users, onVolume]

/-- Besides `base` and what the call has in its hands, the users of inodes and buffers are the open files and the
    tasks. -/
structure Balanced (base hands : Counts) (s : System) : Prop where
  wf : s.files.Wf
  tabled : Tabled s.files
  nothing : ∀ nr, exits s.files nr ≠ some false → s.inodes nr = .nothing
  counts : s.volume.counts = base + s.users + hands

/-- The current task, which did not exit. -/
def Runs (s : System) (t : FileTask) : Prop := s.files.task s.files.current = some t ∧ t.exited = false

variable {base hands more : Counts} {s s' : System} {t : FileTask} {fuel : Nat} {time : BitVec 32} {caller : Caller}

theorem Runs.exits (runs : s.Runs t) : Calls.exits s.files s.files.current = some false := by
  unfold Calls.exits
  rw [runs.1, Option.map_some, runs.2]

theorem Balanced.congr (balanced : s.Balanced base hands) (same : hands = more) : s.Balanced base more := by
  subst same
  exact balanced

theorem Balanced.onVolume {volume : Volume} (balanced : s.Balanced base hands)
    (counts : volume.counts = s.volume.counts + more) : (s.onVolume volume).Balanced base (hands + more) where
  wf := balanced.wf
  tabled := balanced.tabled
  nothing := balanced.nothing
  counts := by
    rw [volume_onVolume, users_onVolume, counts, balanced.counts, add_assoc]

/-- A call on files takes users from the call, or gives some back to it. -/
theorem Balanced.onFiles {files : Files} (balanced : s.Balanced base hands) (wf : files.Wf)
    (given : Hands s.files files more) : (s.onFiles files).Balanced base (hands - more) where
  wf := wf
  tabled := given.tabled balanced.tabled
  nothing nr dead := by
    rw [System.onFiles, given.exits nr] at dead
    exact balanced.nothing nr dead
  counts := by
    have users : (s.onFiles files).users = s.users + more := by
      unfold System.users System.onFiles
      dsimp only
      rw [given.users balanced.tabled]
      abel
    rw [users]
    refine balanced.counts.trans ?_
    abel

theorem Balanced.setHere (balanced : s.Balanced base hands) (alive : Calls.exits s.files s.files.current = some false)
    (t : TaskInodes) : (s.setHere t).Balanced base (hands + s.here.users - t.users) where
  wf := balanced.wf
  tabled := balanced.tabled
  nothing nr dead := by
    have other : nr ≠ s.files.current := by
      intro same
      rw [same] at dead
      exact dead alive
    exact (Function.update_of_ne other ..).trans (balanced.nothing nr dead)
  counts := by
    have present : s.files.task s.files.current ≠ none := by
      intro none
      unfold Calls.exits at alive
      rw [none] at alive
      cases alive
    have member : s.files.current ∈ Finset.range nrTasks := Finset.mem_range.mpr (balanced.wf.slots _ present)
    have users : (s.setHere t).users = s.users + (t.users - s.here.users) := by
      unfold System.users
      rw [Members.sum_change member (g := fun nr => (s.inodes nr).users)]
      · simp only [System.setHere, System.here, Function.update_self]
        abel
      · intro nr other
        exact congrArg TaskInodes.users (Function.update_of_ne other ..)
    rw [users]
    refine balanced.counts.trans ?_
    abel

/-- Only the volume changes. -/
structure SameTasks (s s' : System) : Prop where
  files : s'.files = s.files
  inodes : s'.inodes = s.inodes

theorem SameTasks.here (same : SameTasks s s') : s'.here = s.here := by
  unfold System.here
  rw [same.files, same.inodes]

theorem put_balanced {inode : Option Nat} (balanced : s.Balanced base hands) (run : put fuel inode time s = .ok s') :
    s'.Balanced base (hands - inodeUser inode) ∧ SameTasks s s' := by
  unfold put at run
  cases inode with
  | none =>
    cases run
    exact ⟨balanced.congr (sub_zero _).symm, rfl, rfl⟩
  | some k =>
    rcases of_bind run with ⟨volume, put, rest⟩
    cases rest
    refine ⟨?_, rfl, rfl⟩
    have counts : volume.counts = s.volume.counts + - Counts.inode k := by
      rw [Volume.iput_counts put, sub_eq_add_neg]
    exact (balanced.onVolume counts).congr (sub_eq_add_neg _ _).symm

theorem reply_balanced {r : Reply} {value : Int} (balanced : s.Balanced base (more + hands)) (wf : r.files.Wf)
    (given : Hands s.files r.files (more - inodeUser r.put)) (run : reply fuel r time s = .ok (value, s')) :
    s'.Balanced base hands := by
  rcases of_bind run with ⟨s₁, put, rest⟩
  cases rest
  apply (put_balanced (balanced.onFiles wf given) put).1.congr
  abel

section Calls

@[simp] theorem foundInode_opened (volume : Volume) (value : Int) (inode : Option Nat) :
    foundInode (opened volume value inode) = inode := by
  cases inode <;> rfl

theorem sysOpen_balanced {path : List Byte} {flag : BitVec 32} {mode : BitVec 16} {value : Int}
    (balanced : s.Balanced base 0) (runs : s.Runs t)
    (run : sysOpen fuel caller path flag mode t s = .ok (value, s')) : s'.Balanced base 0 := by
  unfold sysOpen at run
  split at run
  · exact reply_balanced (balanced.congr (zero_add _).symm) (sysOpen_wf balanced.wf runs.1 runs.2 _ _)
      (sysOpen_hands _ _ runs.1 (.inl rfl)) run
  · rename_i room
    rcases of_bind run with ⟨⟨⟨value₁, inode⟩, volume⟩, walked, rest⟩
    have counts := Volume.openNamei_counts walked
    have held := balanced.onVolume counts
    rw [not_or] at room
    have given : Hands s.files (Fs.sysOpen s.files t (flag.setWidth 16) (opened volume value₁ inode)).files
        (inodeUser inode - inodeUser (Fs.sysOpen s.files t (flag.setWidth 16) (opened volume value₁ inode)).put) := by
      have reached : Hands s.files _ _ :=
        sysOpen_hands (flag.setWidth 16) (opened volume value₁ inode) runs.1 (.inr room)
      rwa [foundInode_opened] at reached
    exact reply_balanced (held.congr (add_comm _ _)) (sysOpen_wf balanced.wf runs.1 runs.2 _ _) given rest

theorem sysClose_balanced {fd : Nat} {value : Int} (balanced : s.Balanced base hands) (runs : s.Runs t)
    (run : sysClose fuel time t fd s = .ok (value, s')) : s'.Balanced base hands := by
  unfold sysClose at run
  rcases sysClose_closed balanced.wf runs.1 runs.2 fd with ⟨r, closes, closed⟩
  rw [closes] at run
  exact reply_balanced (balanced.congr (zero_add _).symm) closed.wf
    ((sysClose_hands runs.1 closes).congr (zero_sub _).symm) run

theorem sysDup2_balanced {oldfd newfd : Nat} {value : Int} (balanced : s.Balanced base 0) (runs : s.Runs t)
    (run : sysDup2 fuel time t oldfd newfd s = .ok (value, s')) : s'.Balanced base 0 := by
  unfold sysDup2 at run
  rcases sysDup2_wf balanced.wf runs.1 runs.2 oldfd newfd with ⟨r, dups, wf⟩
  rw [dups] at run
  exact reply_balanced (balanced.congr (zero_add _).symm) wf
    ((sysDup2_hands balanced.wf runs.1 runs.2 dups).congr (zero_sub _).symm) run

theorem sysPipe_balanced {value : Int} (balanced : s.Balanced base 0) (runs : s.Runs t)
    (run : sysPipe fuel t s = .ok (value, s')) : s'.Balanced base 0 := by
  unfold sysPipe at run
  split at run
  · cases run
    exact balanced
  · rename_i room
    rcases of_bind run with ⟨⟨inode, volume⟩, got, rest⟩
    cases rest
    have counts := Volume.getPipeInode_counts got
    rw [add_assoc] at counts
    have held := balanced.onVolume counts
    apply (held.onFiles (sysPipe_wf balanced.wf runs.1 runs.2 inode) (sysPipe_hands runs.1 (.inr room))).congr
    abel

/-- A call that has one inode in its hands puts it in the place of another one. -/
theorem enter_balanced {path : List Byte} {old : TaskInodes → Option Nat} {set : TaskInodes → Option Nat → TaskInodes}
    (replaces : ∀ u k, (set u k).users + inodeUser (old u) = u.users + inodeUser k) {value : Int}
    (balanced : s.Balanced base 0) (runs : s.Runs t) (run : enter fuel caller path old set s = .ok (value, s')) :
    s'.Balanced base 0 := by
  rcases of_bind run with ⟨⟨inode, volume⟩, walked, rest⟩
  have held := balanced.onVolume (Volume.namei_counts walked)
  rw [zero_add] at held
  cases inode with
  | none =>
    cases rest
    exact held
  | some k =>
    dsimp only at rest
    split at rest
    · rcases of_bind rest with ⟨s₁, put, rest⟩
      cases rest
      exact (put_balanced held put).1.congr (sub_self _)
    · rcases of_bind rest with ⟨s₁, put, rest⟩
      cases rest
      have given := put_balanced held put
      have alive : Calls.exits s₁.files s₁.files.current = some false := by
        rw [given.2.files]
        exact runs.exits
      apply (given.1.setHere alive (set s₁.here (some k))).congr
      have change := replaces (s.onVolume volume).here (some k)
      rw [given.2.here, ← neg_eq_zero]
      refine Eq.trans ?_ (sub_eq_zero.mpr change)
      abel

theorem sysChdir_balanced {path : List Byte} {value : Int} (balanced : s.Balanced base 0) (runs : s.Runs t)
    (run : sysChdir fuel caller path s = .ok (value, s')) : s'.Balanced base 0 := by
  apply enter_balanced _ balanced runs run
  intro u k
  simp only [TaskInodes.users]
  abel

theorem sysChroot_balanced {path : List Byte} {value : Int} (balanced : s.Balanced base 0) (runs : s.Runs t)
    (run : sysChroot fuel caller path s = .ok (value, s')) : s'.Balanced base 0 := by
  apply enter_balanced _ balanced runs run
  intro u k
  simp only [TaskInodes.users]
  abel

theorem inVolume_balanced {α : Type} {result : Except Halt (α × Volume)} (balanced : s.Balanced base 0)
    (counts : ∀ a volume, result = .ok (a, volume) → volume.counts = s.volume.counts)
    (run : s.inVolume result = some s') : s'.Balanced base 0 := by
  unfold inVolume at run
  cases returned : result with
  | error halt =>
    rw [returned] at run
    cases run
  | ok r =>
    rw [returned] at run
    cases run
    have same : r.2.counts = s.volume.counts + 0 := (counts r.1 r.2 returned).trans (add_zero _).symm
    exact (balanced.onVolume same).congr (add_zero 0)

theorem onFile_used {f k fd : Nat} (balanced : s.Balanced base hands) (runs : s.Runs t)
    (found : s.onFile t fd = some (f, k)) : (s.files.file f).count ≠ 0 := by
  unfold onFile at found
  split at found
  · rename_i bound
    cases slot : t.filp fd with
    | none =>
      rw [slot] at found
      cases found
    | some g =>
      have positive := open_of_named balanced.wf runs.1 bound slot
      rw [slot] at found
      simp only [Option.bind_eq_bind, Option.bind_some, Option.bind_eq_some_iff, ite_eq_iff, reduceCtorEq, and_false,
        false_or, Option.some.injEq, Prod.mk.injEq] at found
      rcases found with ⟨j, -, -, same, -⟩
      subst same
      intro zero
      rw [zero] at positive
      cases positive
  · cases found

/-- A transfer leaves the counts alone, and only the position of its file changes. -/
theorem transfer_balanced {volume : Volume} {f : Nat} {pos : Int} (balanced : s.Balanced base 0)
    (used : (s.files.file f).count ≠ 0) (counts : volume.counts = s.volume.counts) :
    Balanced base 0 { s with volume, files := s.files.setFile f { s.files.file f with pos } } := by
  have same : volume.counts = s.volume.counts + 0 := counts.trans (add_zero _).symm
  have kept : Hands s.files (s.files.setFile f { s.files.file f with pos }) 0 := Hands.keep used used rfl
  have wf : (s.files.setFile f { s.files.file f with pos }).Wf := Files.Wf.setFile balanced.wf rfl
  have after : Balanced base (0 + 0 - 0) ((s.onVolume volume).onFiles _) := (balanced.onVolume same).onFiles wf kept
  apply after.congr
  rw [add_zero, sub_zero]

theorem sysRead_balanced {f k : Nat} {count : Int} {answer : List Byte × Int} (balanced : s.Balanced base 0)
    (used : (s.files.file f).count ≠ 0) (run : sysRead fuel f k count time s = .ok (answer, s')) :
    s'.Balanced base 0 := by
  unfold sysRead at run
  dsimp only at run
  split at run
  · cases run
    exact balanced
  · split at run
    · cases run
      exact balanced
    · split at run
      · rcases of_bind run with ⟨⟨⟨bytes, value, pos⟩, volume⟩, read, rest⟩
        cases rest
        exact transfer_balanced balanced used (Volume.fileRead_counts read)
      · cases run
        exact balanced

theorem sysWrite_balanced {f k : Nat} {buf : Nat → Byte} {count value : Int} (balanced : s.Balanced base 0)
    (used : (s.files.file f).count ≠ 0) (run : sysWrite fuel f k buf count time s = .ok (value, s')) :
    s'.Balanced base 0 := by
  unfold sysWrite at run
  dsimp only at run
  split at run
  · cases run
    exact balanced
  · split at run
    · cases run
      exact balanced
    · split at run
      · rcases of_bind run with ⟨⟨⟨value, pos⟩, volume⟩, written, rest⟩
        cases rest
        exact transfer_balanced balanced used (Volume.fileWrite_counts written)
      · cases run
        exact balanced

/-- The new task has the root, the directory and the program of its father once more. -/
theorem copyProcess_balanced {nr : Nat} (balanced : s.Balanced base 0) (runs : s.Runs t) (slot : nr < nrTasks)
    (empty : s.files.task nr = none) : (s.copyProcess t nr).Balanced base 0 where
  wf := copyProcess_wf balanced.wf runs.1 runs.2 slot empty
  tabled f outside := (copyProcess_open balanced.wf runs.1 runs.2 slot empty f).mpr (balanced.tabled f outside)
  nothing i dead := by
    have task : (Fs.copyProcess s.files t nr).task = Function.update s.files.task nr (some { t with leader := false }) :=
      (countChild_task ..).1
    by_cases same : i = nr
    · exfalso
      apply dead
      rw [same, System.copyProcess, Calls.exits, task, Function.update_self, Option.map_some, runs.2]
    · have before : Calls.exits (s.copyProcess t nr).files i = Calls.exits s.files i := by
        rw [System.copyProcess, Calls.exits, task, Function.update_of_ne same, Calls.exits]
      rw [before] at dead
      exact (Function.update_of_ne same ..).trans (balanced.nothing i dead)
  counts := by
    have unused : s.inodes nr = .nothing := by
      apply balanced.nothing
      rw [Calls.exits, empty]
      simp
    have users : (s.copyProcess t nr).users = s.users + s.here.users := by
      unfold System.users
      rw [Members.sum_change (Finset.mem_range.mpr slot) (g := fun nr => (s.inodes nr).users)]
      · simp only [System.copyProcess, Function.update_self, unused, copyProcess_users balanced.wf runs.1 runs.2 slot empty]
        rw [show TaskInodes.nothing.users = 0 from rfl, sub_zero, add_assoc]
      · intro i other
        exact congrArg TaskInodes.users (Function.update_of_ne other ..)
    have held (inode : Option Nat) (v : Volume) : (holdSome inode v).counts = v.counts + inodeUser inode := by
      cases inode with
      | none => exact (add_zero _).symm
      | some k => exact Volume.hold_counts v k
    rw [users]
    simp only [System.copyProcess, held, TaskInodes.users, balanced.counts]
    abel

/-- A call on files alone. -/
theorem files_balanced {files : Files} (balanced : s.Balanced base 0) (wf : files.Wf) (given : Hands s.files files 0) :
    (s.onFiles files).Balanced base 0 := (balanced.onFiles wf given).congr (sub_zero _)

/-- The files stay open, and no task is gone that has inodes. -/
theorem tasks_balanced {files : Files} (balanced : s.Balanced base 0) (wf : files.Wf) (file : files.file = s.files.file)
    (dead : ∀ i, Calls.exits files i ≠ some false → Calls.exits s.files i ≠ some false) :
    (s.onFiles files).Balanced base 0 where
  wf := wf
  tabled f outside := by
    rw [System.onFiles, file]
    exact balanced.tabled f outside
  nothing i gone := balanced.nothing i (dead i gone)
  counts := by
    rw [users_onFiles s files file]
    exact balanced.counts

theorem switch_balanced {nr : Nat} (balanced : s.Balanced base 0) :
    (s.onFiles { s.files with current := nr }).Balanced base 0 := by
  have wf : Files.Wf { s.files with current := nr } :=
    ⟨balanced.wf.counted, balanced.wf.onExec, balanced.wf.exited, balanced.wf.slots⟩
  exact tasks_balanced balanced wf rfl fun i gone => gone

theorem release_balanced {nr : Nat} (balanced : s.Balanced base 0) (present : s.files.task nr = some t)
    (exited : t.exited = true) :
    (s.onFiles { s.files with task := Function.update s.files.task nr none }).Balanced base 0 := by
  apply tasks_balanced balanced (Files.Wf.release balanced.wf present exited) rfl
  intro i gone
  by_cases same : i = nr
  · rw [same, Calls.exits, present, Option.map_some, exited]
    simp
  · simpa only [Calls.exits, Function.update_of_ne same] using gone

section Closing

variable {closes : FileTask → Nat → Bool} {n : Nat}

/-- Descriptors are closed by the current task, which goes on. -/
structure Closing (base hands : Counts) (s s' : System) : Prop where
  balanced : s'.Balanced base hands
  inodes : s'.inodes = s.inodes
  current : s'.files.current = s.files.current
  runs : ∃ t, s'.Runs t

theorem sysClose_closing {fd : Nat} {value : Int} (balanced : s.Balanced base hands) (runs : s.Runs t)
    (run : sysClose fuel time t fd s = .ok (value, s')) :
    Closing base hands s s' ∧ ∃ r, Fs.sysClose s.files t fd = some r ∧ s'.files = r.files := by
  have after := sysClose_balanced balanced runs run
  rcases sysClose_closed balanced.wf runs.1 runs.2 fd with ⟨r, closes, closed⟩
  unfold sysClose at run
  rw [closes] at run
  rcases of_bind run with ⟨s₁, put, rest⟩
  cases rest
  have same := (put_balanced (balanced.onFiles closed.wf (sysClose_hands runs.1 closes)) put).2
  rcases closed.own with ⟨t', own, exited, -⟩
  have files : s'.files = r.files := same.files
  refine ⟨⟨after, same.inodes, ?_, t', ?_, exited.trans runs.2⟩, r, closes, files⟩
  · rw [files]
    exact closed.current
  · rw [files, closed.current]
    exact own

theorem closeEach_closing (balanced : s.Balanced base hands) (runs : s.Runs t)
    (run : closeEach fuel closes time n s = .ok s') :
    Closing base hands s s' ∧ Fs.closeEach closes s.files n = some s'.files := by
  induction n generalizing s' with
  | zero =>
    cases run
    exact ⟨⟨balanced, rfl, rfl, t, runs⟩, rfl⟩
  | succ n ih =>
    rcases of_bind run with ⟨s₁, before, rest⟩
    rcases ih before with ⟨done, files⟩
    rcases done.runs with ⟨t₁, runs₁⟩
    simp only [runs₁.1] at rest
    simp only [Fs.closeEach, files, Option.bind_eq_bind, Option.bind_some, runs₁.1]
    split at rest
    · rename_i picked
      rcases of_bind rest with ⟨⟨value, s₂⟩, closed, rest⟩
      cases rest
      rcases sysClose_closing done.balanced runs₁ closed with ⟨one, r, closes', same⟩
      refine ⟨⟨one.balanced, one.inodes.trans done.inodes, one.current.trans done.current, one.runs⟩, ?_⟩
      rw [if_pos picked, closes', same]
      rfl
    · rename_i kept
      cases rest
      refine ⟨done, ?_⟩
      rw [if_neg kept]

end Closing

/-- The current task gives back one of its inodes. -/
theorem putHere_balanced {inode : Option Nat} (balanced : s.Balanced base 0) (runs : s.Runs t)
    (put : put fuel inode time s = .ok s') (u : TaskInodes) (users : s.here.users = u.users + inodeUser inode) :
    (s'.setHere u).Balanced base 0 ∧ (s'.setHere u).files = s.files ∧ (s'.setHere u).here = u := by
  rcases put_balanced balanced put with ⟨given, same⟩
  have alive : Calls.exits s'.files s'.files.current = some false := by
    rw [same.files]
    exact runs.exits
  refine ⟨?_, same.files, ?_⟩
  · apply (given.setHere alive u).congr
    rw [same.here, users]
    abel
  · simp only [System.setHere, System.here, Function.update_self]

/-- The last step of `do_exit`, with no descriptor open and no inode left. -/
theorem zombie_balanced {files : Files} (balanced : s.Balanced base 0) (wf : files.Wf)
    (dead : files = s.files.setTask { t with exited := true }) (left : s.here = .nothing) :
    (s.onFiles files).Balanced base 0 := by
  subst dead
  refine ⟨wf, balanced.tabled, ?_, ?_⟩
  · intro i gone
    by_cases same : i = s.files.current
    · rw [same]
      exact left
    · apply balanced.nothing
      simpa only [System.onFiles, Calls.exits, Files.setTask, Function.update_of_ne same] using gone
  · rw [users_onFiles s (s.files.setTask { t with exited := true }) rfl]
    exact balanced.counts

theorem doExit_balanced (balanced : s.Balanced base 0) (runs : s.Runs t) (run : doExit fuel time s = .ok s') :
    s'.Balanced base 0 := by
  rcases of_bind run with ⟨s₁, loop, rest⟩
  rcases closeEach_closing balanced runs loop with ⟨done, files⟩
  rcases done.runs with ⟨t₁, runs₁⟩
  rcases of_bind rest with ⟨s₂, pwd, rest⟩
  have one := putHere_balanced done.balanced runs₁ pwd { s₂.here with pwd := none } (by
    simp only [(put_balanced done.balanced pwd).2.here, TaskInodes.users, inodeUser_none]
    abel)
  rcases of_bind rest with ⟨s₃, root, rest⟩
  have runs₂ : (s₂.setHere { s₂.here with pwd := none }).Runs t₁ := by
    rw [Runs, one.2.1]
    exact runs₁
  have two := putHere_balanced one.1 runs₂ root { s₃.here with root := none } (by
    simp only [(put_balanced one.1 root).2.here, TaskInodes.users, inodeUser_none]
    abel)
  rcases of_bind rest with ⟨s₄, executable, rest⟩
  have runs₃ : (s₃.setHere { s₃.here with root := none }).Runs t₁ := by
    rw [Runs, two.2.1]
    exact runs₂
  have three := putHere_balanced two.1 runs₃ executable { s₄.here with executable := none } (by
    simp only [(put_balanced two.1 executable).2.here, TaskInodes.users, inodeUser_none]
    abel)
  have same : (s₄.setHere { s₄.here with executable := none }).files = s₁.files :=
    three.2.1.trans (two.2.1.trans one.2.1)
  have runs₄ : (s₄.setHere { s₄.here with executable := none }).Runs t₁ := by
    rw [Runs, same]
    exact runs₁
  have left : (s₄.setHere { s₄.here with executable := none }).here = .nothing := by
    rw [three.2.2, (put_balanced two.1 executable).2.here, two.2.2, (put_balanced one.1 root).2.here, one.2.2]
    rfl
  simp only [runs₄.1] at rest
  cases rest
  rcases doExit_wf balanced.wf runs.1 runs.2 with ⟨files₁, exits, wf⟩
  simp only [Fs.doExit, files, Option.bind_eq_bind, Option.bind_some, runs₁.1, Option.some.injEq] at exits
  rw [← exits, ← same] at wf
  exact zombie_balanced three.1 wf rfl left

end Calls

end System

end K210Linux.Calls
