import K210Linux.Fs.FileCounts
import K210Linux.Fs.VolumeReferences
import K210Linux.Lib.Members

/-! The users of inodes that the open files are, and what the calls on descriptors change about them. -/

namespace K210Linux.Calls

open K210Linux.Fs
open K210Linux.Buffer (Counts)
open Volume (inodeUser)

/-- An open file is a user of its inode. -/
def fileUser (file : File) : Counts := if file.count = 0 then 0 else inodeUser file.inode

def fileUsers (s : Files) : Counts := ∑ f ∈ Finset.range nrFile, fileUser (s.file f)

/-- Only entries of `file_table` are open. -/
def Tabled (s : Files) : Prop := ∀ f, nrFile ≤ f → (s.file f).count = 0

def exits (s : Files) (nr : Nat) : Option Bool := (s.task nr).map FileTask.exited

/-- The open files have these users more, and the tasks are the same ones. -/
structure Hands (s s' : Files) (more : Counts) : Prop where
  tabled : Tabled s → Tabled s'
  users : Tabled s → fileUsers s' = fileUsers s + more
  current : s'.current = s.current
  exits : ∀ nr, exits s' nr = exits s nr

variable {s s₁ s' : Files} {t t' : FileTask} {f fd : Nat} {file : File} {more more' : Counts}

theorem Tabled.inside (tabled : Tabled s) (some : (s.file f).count ≠ 0) : f < nrFile := by
  by_contra outside
  exact some (tabled f (not_lt.mp outside))

theorem Hands.refl (s : Files) : Hands s s 0 where
  tabled := id
  users _ := by rw [add_zero]
  current := rfl
  exits _ := rfl

theorem Hands.trans (one : Hands s s₁ more) (two : Hands s₁ s' more') : Hands s s' (more + more') where
  tabled tabled := two.tabled (one.tabled tabled)
  users tabled := by rw [two.users (one.tabled tabled), one.users tabled, add_assoc]
  current := two.current.trans one.current
  exits nr := (two.exits nr).trans (one.exits nr)

theorem Hands.congr (hands : Hands s s' more) (same : more = more') : Hands s s' more' := by
  subst same
  exact hands

theorem Hands.setTask (here : s.task s.current = some t) (same : t'.exited = t.exited) : Hands s (s.setTask t') 0 := by
  refine ⟨id, fun _ => by rw [add_zero]; rfl, rfl, ?_⟩
  intro nr
  unfold Calls.exits Files.setTask
  by_cases own : nr = s.current
  · simp [own, here, same]
  · simp [own]

@[simp] theorem file_setFile (s : Files) (f : Nat) (file : File) : (s.setFile f file).file f = file :=
  Function.update_self ..

theorem fileUsers_setFile (inside : f < nrFile) (file : File) :
    fileUsers (s.setFile f file) = fileUsers s + (fileUser file - fileUser (s.file f)) := by
  unfold fileUsers
  rw [Members.sum_change (Finset.mem_range.mpr inside) (g := fun g => fileUser (s.file g)), file_setFile]
  intro g other
  exact congrArg fileUser (Function.update_of_ne other ..)

theorem Hands.setFile (inside : Tabled s → f < nrFile) (file : File) :
    Hands s (s.setFile f file) (fileUser file - fileUser (s.file f)) where
  tabled tabled g outside := by
    have other : g ≠ f := fun same => absurd (inside tabled) (not_lt.mpr (same ▸ outside))
    exact (congrArg File.count (Function.update_of_ne other ..)).trans (tabled g outside)
  users tabled := fileUsers_setFile (inside tabled) file
  current := rfl
  exits _ := rfl

@[simp] theorem fileUser_closed (zero : file.count = 0) : fileUser file = 0 := if_pos zero

@[simp] theorem fileUser_open (some : file.count ≠ 0) : fileUser file = inodeUser file.inode := if_neg some

theorem freeFile_inside (found : freeFile s = some f) : f < nrFile :=
  List.mem_range.mp (List.mem_of_find?_eq_some found)

@[simp] theorem file_setCount (s : Files) (f : Nat) (count : BitVec 16) :
    (s.setCount f count).file f = { s.file f with count } := Function.update_self ..

/-- An open file stays open, on the same inode. -/
theorem Hands.keep (used : (s.file f).count ≠ 0) (count : file.count ≠ 0) (inode : file.inode = (s.file f).inode) :
    Hands s (s.setFile f file) 0 := by
  apply (Hands.setFile (fun tabled => tabled.inside used) _).congr
  rw [fileUser_open used, fileUser_open count, inode, sub_self]

/-- An unused file is opened. -/
theorem Hands.fill (inside : f < nrFile) (free : (s.file f).count = 0) (count : file.count ≠ 0) :
    Hands s (s.setFile f file) (inodeUser file.inode) := by
  apply (Hands.setFile (fun _ => inside) _).congr
  rw [fileUser_open count, fileUser_closed free, sub_zero]

/-- A descriptor less. -/
theorem Hands.drop (used : (s.file f).count ≠ 0) {inode : Option Nat}
    (last : inode = if (s.file f).count - 1 ≠ 0 then none else (s.file f).inode) :
    Hands s (s.setCount f ((s.file f).count - 1)) (- inodeUser inode) := by
  apply (Hands.setFile (fun tabled => tabled.inside used) _).congr
  rw [fileUser_open used, last]
  by_cases gone : (s.file f).count - 1 = 0
  · rw [fileUser_closed gone, if_neg (not_not.mpr gone), zero_sub]
  · rw [fileUser_open gone, if_pos gone, sub_self]
    exact neg_zero.symm

/-- `iput` gets the inode of a file that is closed. -/
theorem sysClose_hands {r : Reply} (here : s.task s.current = some t) (closed : sysClose s t fd = some r) :
    Hands s r.files (- inodeUser r.put) := by
  unfold sysClose at closed
  split at closed
  · cases closed
    exact (Hands.refl s).congr neg_zero.symm
  · dsimp only at closed
    split at closed
    · cases closed
      have kept : Hands s (s.setTask (t.keepOnExec fd)) 0 := Hands.setTask (t := t) here rfl
      exact kept.congr neg_zero.symm
    · rename_i g slot
      split at closed
      · cases closed
      · rename_i used
        cases closed
        have freed : Hands s (s.setTask ((t.keepOnExec fd).setFilp fd none)) 0 := Hands.setTask (t := t) here rfl
        rw [file_setCount]
        exact (freed.trans (Hands.drop used rfl)).congr (zero_add _)

/-- The descriptors of the current task name open files. -/
theorem open_of_named (wf : s.Wf) (here : s.task s.current = some t) (bound : fd < nrOpen) (slot : t.filp fd = some f) :
    0 < (s.file f).count.toNat := by
  rw [wf.counted f]
  have inside : (s.current, fd) ∈ descriptors :=
    mem_descriptors.mpr ⟨wf.slots _ (by rw [here]; exact Option.some_ne_none _), bound⟩
  apply RefCount.refs_pos inside
  rw [Files.target, here]
  exact slot

theorem dupfd_hands {arg : Nat} (wf : s.Wf) (here : s.task s.current = some t) :
    Hands s (dupfd s t fd arg).files 0 := by
  unfold dupfd
  split
  · exact Hands.refl s
  · rename_i bound
    split
    · exact Hands.refl s
    · rename_i g slot
      split
      · exact Hands.refl s
      · split
        · exact Hands.refl s
        · rename_i new found
          have positive := open_of_named wf here (not_le.mp bound) slot
          have used : (s.file g).count ≠ 0 := by
            intro zero
            rw [zero] at positive
            cases positive
          have more : (s.file g).count + 1 ≠ 0 := by
            intro zero
            have count := toNat_succ (wf.counted.lt g)
            rw [zero] at count
            cases count
          have given : Hands s (s.setTask ((t.keepOnExec new).setFilp new (some g))) 0 := Hands.setTask (t := t) here rfl
          have kept : Hands (s.setTask ((t.keepOnExec new).setFilp new (some g)))
              ((s.setTask ((t.keepOnExec new).setFilp new (some g))).setCount g ((s.file g).count + 1)) 0 :=
            Hands.keep used more rfl
          exact (given.trans kept).congr (zero_add _)

theorem sysDup2_hands {r : Reply} {oldfd newfd : Nat} (wf : s.Wf) (here : s.task s.current = some t)
    (running : t.exited = false) (run : sysDup2 s t oldfd newfd = some r) : Hands s r.files (- inodeUser r.put) := by
  rcases sysClose_closed wf here running newfd with ⟨closed, closes, spec⟩
  rcases spec.own with ⟨t', own, -⟩
  rw [← spec.current] at own
  simp only [sysDup2, closes, own, Option.bind_eq_bind, Option.bind_some, Option.some.injEq] at run
  subst run
  exact ((sysClose_hands here closes).trans (dupfd_hands spec.wf own)).congr (add_zero _)

theorem sysFcntl_hands {cmd : Nat} {arg : BitVec 64} (wf : s.Wf) (here : s.task s.current = some t) :
    Hands s (sysFcntl s t fd cmd arg).files 0 := by
  unfold sysFcntl
  split
  · exact Hands.refl s
  · rename_i bound
    split
    · exact Hands.refl s
    · rename_i g slot
      have positive := open_of_named wf here (not_le.mp bound) slot
      have used : (s.file g).count ≠ 0 := by
        intro zero
        rw [zero] at positive
        cases positive
      split
      · exact dupfd_hands wf here
      · exact Hands.refl s
      · split
        · exact Hands.setTask (t := t) here rfl
        · exact Hands.setTask (t := t) here rfl
      · exact Hands.refl s
      · exact Hands.keep used used rfl
      · exact Hands.refl s

/-- Only the file `f` changes. -/
theorem Hands.only (inside : f < nrFile) (others : ∀ g, g ≠ f → s'.file g = s.file g) (current : s'.current = s.current)
    (exits : ∀ nr, Calls.exits s' nr = Calls.exits s nr) (free : (s.file f).count = 0)
    (users : fileUser (s'.file f) = more) : Hands s s' more := by
  have stored : Hands s (s.setFile f (s'.file f)) more := by
    apply (Hands.setFile (fun _ => inside) _).congr
    rw [users, fileUser_closed free, sub_zero]
  have same : (s.setFile f (s'.file f)).file = s'.file := by
    funext g
    by_cases here : g = f
    · rw [here]
      exact Function.update_self ..
    · rw [others g here]
      exact Function.update_of_ne here ..
  refine ⟨?_, ?_, current, exits⟩
  · intro tabled g outside
    rw [← same]
    exact stored.tabled tabled g outside
  · intro tabled
    rw [← stored.users tabled, fileUsers, fileUsers, same]

theorem exits_setTask (t' : FileTask) (here : s.task s.current = some t) (same : t'.exited = t.exited) (nr : Nat) :
    exits (s.setTask t') nr = exits s nr := (Hands.setTask here same).exits nr

/-- The inode that `open_namei` found. -/
def foundInode (found : Except Int Opened) : Option Nat := found.toOption.map Opened.inode

theorem openFile_hands {flag : BitVec 16} {found : Except Int Opened} (inside : f < nrFile) (free : (s.file f).count = 0)
    (others : ∀ g, g ≠ f → s₁.file g = s.file g) (current : s₁.current = s.current)
    (exits : ∀ nr, Calls.exits s₁ nr = Calls.exits s nr) (here : s₁.task s₁.current = some t) :
    Hands s (openFile s₁ t fd f flag found).files
      (inodeUser (foundInode found) - inodeUser (openFile s₁ t fd f flag found).put) := by
  have other (s₂ : Files) (file : File) (same : s₂.file = s₁.file) (g : Nat) (ne : g ≠ f) :
      (s₂.setFile f file).file g = s.file g := by
    rw [← others g ne, ← same]
    exact Function.update_of_ne ne ..
  have undone : Hands s ((s₁.setTask (t.setFilp fd none)).setCount f 0) 0 := by
    refine Hands.only inside (other (s₁.setTask (t.setFilp fd none)) _ rfl) current ?_ free ?_
    · intro nr
      exact (exits_setTask (t.setFilp fd none) here rfl nr).trans (exits nr)
    · rw [file_setCount]
      exact fileUser_closed rfl
  unfold openFile
  cases found with
  | error e => exact undone.congr (sub_self _).symm
  | ok inode =>
    dsimp only
    split
    · exact undone.congr (sub_self _).symm
    · have stored (s₂ : Files) (same : s₂.file = s₁.file) (current₂ : s₂.current = s₁.current)
          (exits₂ : ∀ nr, Calls.exits s₂ nr = Calls.exits s₁ nr) :
          Hands s (s₂.setFile f ⟨inode.mode, flag, 1, some inode.inode, 0⟩) (inodeUser (some inode.inode)) := by
        refine Hands.only inside (other _ _ same) (current₂.trans current) ?_ free ?_
        · intro nr
          exact (exits₂ nr).trans (exits nr)
        · rw [file_setFile]
          exact fileUser_open (show (1 : BitVec 16) ≠ 0 by decide)
      split
      · have leads := stored { s₁.setTask { t with tty := minor inode.zone } with
          ttyPgrp := Function.update s₁.ttyPgrp (minor inode.zone) t.pgrp } rfl rfl (exits_setTask _ here rfl)
        exact leads.congr (sub_zero _).symm
      · exact (stored s₁ rfl rfl fun _ => rfl).congr (sub_zero _).symm

/-- `sys_open` hands the inode that was found to its file or to `iput`. -/
theorem sysOpen_hands (flag : BitVec 16) (found : Except Int Opened) (here : s.task s.current = some t)
    (reached : foundInode found = none ∨ freeFd t 0 ≠ none ∧ freeFile s ≠ none) :
    Hands s (sysOpen s t flag found).files (inodeUser (foundInode found) - inodeUser (sysOpen s t flag found).put) := by
  unfold sysOpen
  cases slot : freeFd t 0 with
  | none =>
    rcases reached with nothing | ⟨descriptor, -⟩
    · rw [nothing]
      exact (Hands.refl s).congr (sub_self _).symm
    · exact absurd slot descriptor
  | some fd =>
    dsimp only
    have same : freeFile (s.setTask (t.keepOnExec fd)) = freeFile s := rfl
    rw [same]
    cases found' : freeFile s with
    | none =>
      rcases reached with nothing | ⟨-, file⟩
      · rw [nothing]
        have kept : Hands s (s.setTask (t.keepOnExec fd)) 0 := Hands.setTask (t := t) here rfl
        exact kept.congr (sub_self _).symm
      · exact absurd found' file
    | some f =>
      have free : (s.file f).count = 0 := freeFile_spec found'
      apply openFile_hands (freeFile_inside found') free
      · intro g ne
        exact Function.update_of_ne ne ..
      · rfl
      · intro nr
        have kept : exits (s.setTask (t.keepOnExec fd)) nr = exits s nr := exits_setTask (t.keepOnExec fd) here rfl nr
        have given : exits ((s.setTask (t.keepOnExec fd)).setTask ((t.keepOnExec fd).setFilp fd (some f))) nr =
            exits (s.setTask (t.keepOnExec fd)) nr :=
          exits_setTask (t := t.keepOnExec fd) ((t.keepOnExec fd).setFilp fd (some f)) (Function.update_self ..) rfl nr
        exact given.trans kept
      · exact Function.update_self ..

/-- Both files of a new pipe are users of its inode. -/
theorem sysPipe_hands {inode : Option Nat} (here : s.task s.current = some t)
    (reached : inode = none ∨ (sysPipe s t (some 0)).2 ≠ none) :
    Hands s (sysPipe s t inode).1.files (inodeUser inode + inodeUser inode) := by
  cases inode with
  | none =>
    have same : (sysPipe s t none).1.files = s := by
      unfold sysPipe
      split
      · rename_i absent
        cases absent
      · rfl
    rw [same]
    exact (Hands.refl s).congr (add_zero _).symm
  | some i =>
    have asked := reached.resolve_left (Option.some_ne_none i)
    unfold sysPipe at asked ⊢
    split at asked
    · rename_i f₀ f₁ _ fd₀ fd₁ _ _ files fds _
      simp only [files, fds]
      rcases two_of_filter files with ⟨inside₀, inside₁, apart, free₀, free₁⟩
      simp only [decide_eq_true_eq] at free₀ free₁
      have tasks : Hands s (s.setTask ((t.setFilp fd₀ (some f₀)).setFilp fd₁ (some f₁))) 0 :=
        Hands.setTask (t := t) here rfl
      have same : (s.setTask ((t.setFilp fd₀ (some f₀)).setFilp fd₁ (some f₁))).file = s.file := rfl
      generalize s.setTask ((t.setFilp fd₀ (some f₀)).setFilp fd₁ (some f₁)) = u at tasks same
      let read : File := { u.file f₀ with mode := 1, count := 1, inode := some i, pos := 0 }
      have one : Hands u (u.setFile f₀ read) (inodeUser (some i)) :=
        Hands.fill inside₀ (by rw [same]; exact free₀) (show (1 : BitVec 16) ≠ 0 by decide)
      let write : File := { (u.setFile f₀ read).file f₁ with mode := 2, count := 1, inode := some i, pos := 0 }
      have two : Hands (u.setFile f₀ read) ((u.setFile f₀ read).setFile f₁ write) (inodeUser (some i)) := by
        apply Hands.fill inside₁ _ (show (1 : BitVec 16) ≠ 0 by decide)
        rw [count_setFile, if_neg apart.symm, same]
        exact free₁
      exact ((tasks.trans one).trans two).congr (congrArg (· + _) (zero_add _))
    · exact absurd rfl asked

theorem countChild_inode (s : Files) (filp : Nat → Option Nat) (n g : Nat) :
    ((countChild s filp n).file g).inode = (s.file g).inode := by
  induction n with
  | zero => rfl
  | succ n ih =>
    unfold countChild
    dsimp only
    split
    · rename_i f _
      rw [← ih]
      by_cases here : g = f
      · rw [here, file_setCount]
      · exact congrArg File.inode (Function.update_of_ne here ..)
    · exact ih

/-- A new task uses no other files than its father. -/
theorem copyProcess_open {nr : Nat} (wf : s.Wf) (here : s.task s.current = some t) (running : t.exited = false)
    (slot : nr < nrTasks) (empty : s.task nr = none) (f : Nat) :
    ((copyProcess s t nr).file f).count = 0 ↔ (s.file f).count = 0 := by
  have counted := (copyProcess_wf wf here running slot empty).counted f
  have task : (copyProcess s t nr).task = Function.update s.task nr (some { t with leader := false }) :=
    (countChild_task ..).1
  have zero (count : BitVec 16) : count = 0 ↔ count.toNat = 0 := BitVec.toNat_inj.symm
  rw [zero, zero, counted, wf.counted f, RefCount.refs_eq_zero, RefCount.refs_eq_zero]
  constructor
  · intro none r inside names
    by_cases same : r.1 = nr
    · simp [Files.target, same, empty] at names
    · apply none r inside
      simpa [Files.target, task, same] using names
  · intro none r inside names
    by_cases same : r.1 = nr
    · apply none (s.current, r.2)
      · rw [mem_descriptors] at inside ⊢
        exact ⟨wf.slots _ (by rw [here]; exact Option.some_ne_none _), inside.2⟩
      · simpa [Files.target, task, same, here] using names
    · apply none r inside
      simpa [Files.target, task, same] using names

theorem copyProcess_users {nr : Nat} (wf : s.Wf) (here : s.task s.current = some t) (running : t.exited = false)
    (slot : nr < nrTasks) (empty : s.task nr = none) : fileUsers (copyProcess s t nr) = fileUsers s := by
  apply Finset.sum_congr rfl
  intro f _
  have inode : ((copyProcess s t nr).file f).inode = (s.file f).inode := countChild_inode ..
  unfold fileUser
  simp only [copyProcess_open wf here running slot empty, inode]

end K210Linux.Calls
