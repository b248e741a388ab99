import K210Linux.Buffer.InodeTable
import K210Linux.Buffer.Intact
import K210Linux.Fs.FileCounts

/-! `sys_pipe` with the reservations that it takes back. -/

namespace K210Linux.Fs

open Outcome
open K210Linux.Buffer (Drive Halt bufferInit breadWith_inode brelse_inode)

/-- The files, and the inode table with its `last_inode`. -/
structure PipeState where
  files : Files
  drive : Drive
  last : Nat

/-- The first loop: unused files from `i` on are reserved until there are two. -/
def takeFiles (s : Files) (i : Nat) (got : List Nat) : Nat → Files × List Nat
  | 0 => (s, got)
  | left + 1 =>
    if 2 ≤ got.length then (s, got)
    else if (s.file i).count = 0 then takeFiles (s.setCount i ((s.file i).count + 1)) (i + 1) (got ++ [i]) left
    else takeFiles s (i + 1) got left

/-- The second loop: free descriptors from `i` on get the files. -/
def takeFds (t : FileTask) (files : List Nat) (i : Nat) (got : List Nat) : Nat → FileTask × List Nat
  | 0 => (t, got)
  | left + 1 =>
    if 2 ≤ got.length then (t, got)
    else if t.filp i = none then takeFds (t.setFilp i files[got.length]?) files (i + 1) (got ++ [i]) left
    else takeFds t files (i + 1) got left

/-- `f[0]->f_count=f[1]->f_count=0`. -/
def Files.dropFiles (s : Files) (f₀ f₁ : Nat) : Files := (s.setCount f₁ 0).setCount f₀ 0

/-- `sys_pipe` by the current task `t`: the value, the descriptors for the user, and the state. `page` is what
    `get_free_page` returns. -/
def pipeCall (fuel : Nat) (page : BitVec 32) (p : PipeState) (t : FileTask) :
    Except Halt (Int × Option (Nat × Nat) × PipeState) :=
  let (s, files) := takeFiles p.files 0 [] nrFile
  match files with
  | f₀ :: f₁ :: _ =>
    let (t, fds) := takeFds t [f₀, f₁] 0 [] nrOpen
    match fds with
    | fd₀ :: fd₁ :: _ => do
      let (inode, last, drive) ← p.drive.getPipeInode fuel p.last page
      match inode with
      | none =>
        let s := (s.setTask ((t.setFilp fd₁ none).setFilp fd₀ none)).dropFiles f₀ f₁
        .ok (-1, none, ⟨s, drive, last⟩)
      | some k =>
        let s := s.setTask t
        let s := s.setFile f₀ { s.file f₀ with mode := 1, inode := some k, pos := 0 }
        let s := s.setFile f₁ { s.file f₁ with mode := 2, inode := some k, pos := 0 }
        .ok (0, some (fd₀, fd₁), ⟨s, drive, last⟩)
    | [fd₀] => .ok (-1, none, { p with files := (s.setTask (t.setFilp fd₀ none)).dropFiles f₀ f₁ })
    | [] => .ok (-1, none, { p with files := (s.setTask t).dropFiles f₀ f₁ })
  | [f₀] => .ok (-1, none, { p with files := s.setCount f₀ 0 })
  | [] => .ok (-1, none, { p with files := s })

/-- The first two free numbers, as far as the loops have come. -/
structure Picked (free : Nat → Prop) (i : Nat) (got : List Nat) : Prop where
  sorted : got.Pairwise (· < ·)
  inside : ∀ x ∈ got, x < i ∧ free x
  all : ∀ x, x < i → free x → x ∈ got

section Picked

variable {free : Nat → Prop} {i : Nat} {got : List Nat}

theorem Picked.start (free : Nat → Prop) : Picked free 0 [] :=
  ⟨.nil, fun x isIn => absurd isIn List.not_mem_nil, fun x below => absurd below (Nat.not_lt_zero x)⟩

theorem Picked.take (picked : Picked free i got) (here : free i) : Picked free (i + 1) (got ++ [i]) where
  sorted := by
    rw [List.pairwise_append]
    refine ⟨picked.sorted, List.pairwise_singleton .., ?_⟩
    intro x isIn y last
    rw [List.mem_singleton.mp last]
    exact (picked.inside x isIn).1
  inside x isIn := by
    rcases List.mem_append.mp isIn with old | last
    · exact ⟨(picked.inside x old).1.trans (Nat.lt_succ_self i), (picked.inside x old).2⟩
    · rw [List.mem_singleton.mp last]
      exact ⟨Nat.lt_succ_self i, here⟩
  all x below isFree := by
    rw [List.mem_append, List.mem_singleton]
    by_cases last : x = i
    · exact .inr last
    · exact .inl (picked.all x (by omega) isFree)

theorem Picked.skip (picked : Picked free i got) (taken : ¬ free i) : Picked free (i + 1) got where
  sorted := picked.sorted
  inside x isIn := ⟨(picked.inside x isIn).1.trans (Nat.lt_succ_self i), (picked.inside x isIn).2⟩
  all x below isFree := by
    by_cases last : x = i
    · rw [last] at isFree
      exact absurd isFree taken
    · exact picked.all x (by omega) isFree

end Picked

/-- The files `got` are reserved. -/
def Files.reserve (s : Files) (got : List Nat) : Files :=
  { s with file := fun f => if f ∈ got then { s.file f with count := 1 } else s.file f }

/-- The descriptors `got` have the files. -/
def FileTask.give (t : FileTask) (files got : List Nat) : FileTask :=
  { t with filp := fun fd => if fd ∈ got then files[got.idxOf fd]? else t.filp fd }

theorem Files.reserve_nil (s : Files) : s.reserve [] = s := by
  unfold Files.reserve
  simp only [List.not_mem_nil, if_false]

theorem FileTask.give_nil (t : FileTask) (files : List Nat) : t.give files [] = t := by
  unfold FileTask.give
  simp only [List.not_mem_nil, if_false]

theorem takeFiles_spec (s : Files) (left : Nat) {i : Nat} {got : List Nat}
    (picked : Picked (fun f => (s.file f).count = 0) i got) (short : got.length ≤ 2) :
    ∃ n got', takeFiles (s.reserve got) i got left = (s.reserve got', got') ∧
      Picked (fun f => (s.file f).count = 0) n got' ∧ n ≤ i + left ∧ got'.length ≤ 2 := by
  induction left generalizing i got with
  | zero => exact ⟨i, got, rfl, picked, le_refl _, short⟩
  | succ left ih =>
    unfold takeFiles
    split
    · exact ⟨i, got, rfl, picked, by omega, short⟩
    · rename_i few
      have fresh : i ∉ got := fun isIn => absurd (picked.inside i isIn).1 (lt_irrefl i)
      have same : (s.reserve got).file i = s.file i := if_neg fresh
      rw [same]
      by_cases unused : (s.file i).count = 0
      · rw [if_pos unused]
        have next : (s.reserve got).setCount i ((s.file i).count + 1) = s.reserve (got ++ [i]) := by
          unfold Files.setCount Files.setFile Files.reserve
          congr 1
          funext f
          by_cases here : f = i
          · rw [here, Function.update_self]
            dsimp only
            rw [if_neg fresh, unused]
            simp
          · rw [Function.update_of_ne here]
            simp [here]
        rw [next]
        have grown : (got ++ [i]).length ≤ 2 := by
          rw [List.length_append, List.length_singleton]
          omega
        rcases ih (picked.take unused) grown with ⟨n, got', run, after, bound, short'⟩
        exact ⟨n, got', run, after, by omega, short'⟩
      · rw [if_neg unused]
        rcases ih (picked.skip unused) short with ⟨n, got', run, after, bound, short'⟩
        exact ⟨n, got', run, after, by omega, short'⟩

theorem takeFds_spec (t : FileTask) (files : List Nat) (left : Nat) {i : Nat} {got : List Nat}
    (picked : Picked (fun fd => t.filp fd = none) i got) (short : got.length ≤ 2) :
    ∃ n got', takeFds (t.give files got) files i got left = (t.give files got', got') ∧
      Picked (fun fd => t.filp fd = none) n got' ∧ n ≤ i + left ∧ got'.length ≤ 2 := by
  induction left generalizing i got with
  | zero => exact ⟨i, got, rfl, picked, le_refl _, short⟩
  | succ left ih =>
    unfold takeFds
    split
    · exact ⟨i, got, rfl, picked, by omega, short⟩
    · rename_i few
      have fresh : i ∉ got := fun isIn => absurd (picked.inside i isIn).1 (lt_irrefl i)
      have same : (t.give files got).filp i = t.filp i := if_neg fresh
      rw [same]
      by_cases free : t.filp i = none
      · rw [if_pos free]
        have next : (t.give files got).setFilp i files[got.length]? = t.give files (got ++ [i]) := by
          unfold FileTask.setFilp FileTask.give
          congr 1
          funext fd
          by_cases here : fd = i
          · rw [here, Function.update_self]
            simp [List.idxOf_append, fresh]
          · rw [Function.update_of_ne here]
            by_cases isIn : fd ∈ got
            · simp [isIn, List.idxOf_append]
            · simp [isIn, here]
        rw [next]
        have grown : (got ++ [i]).length ≤ 2 := by
          rw [List.length_append, List.length_singleton]
          omega
        rcases ih (picked.take free) grown with ⟨n, got', run, after, bound, short'⟩
        exact ⟨n, got', run, after, by omega, short'⟩
      · rw [if_neg free]
        rcases ih (picked.skip free) short with ⟨n, got', run, after, bound, short'⟩
        exact ⟨n, got', run, after, by omega, short'⟩

section PipeInode

open K210Linux.Buffer.Drive

variable {d d' : Drive} {fuel k : Nat}

theorem writeInode_count (run : writeInode fuel k d = .ok d') (j : Nat) : (d'.inode j).count = (d.inode j).count := by
  unfold writeInode at run
  dsimp only at run
  split at run
  · cases run
    rfl
  · split at run
    · cases run
    · rcases of_bind run with ⟨⟨bh, d₁⟩, read, rest⟩
      have inodes := breadWith_inode read
      cases bh with
      | none => cases rest
      | some i =>
        dsimp only at rest
        rw [brelse_inode rest]
        change (Function.update d₁.inode k _ j).count = _
        rw [inodes]
        by_cases same : j = k
        · rw [same, Function.update_self]
        · rw [Function.update_of_ne same]

theorem cleanInode_count (run : cleanInode k fuel d = .ok d') (j : Nat) : (d'.inode j).count = (d.inode j).count := by
  induction fuel generalizing d with
  | zero => cases run
  | succ fuel ih =>
    unfold cleanInode at run
    split at run
    · rcases of_bind run with ⟨d₁, written, rest⟩
      rw [ih rest, writeInode_count written]
    · cases run
      rfl

/-- `get_empty_inode` gives an inode that nobody used. -/
theorem getEmptyInode_count {last last' : Nat} (run : getEmptyInode fuel last d = .ok (k, last', d')) :
    (d.inode k).count = 0 ∧ d'.inode k = { MInode.zero with count := 1 } ∧
      ∀ j, j ≠ k → (d'.inode j).count = (d.inode j).count := by
  induction fuel generalizing d last with
  | zero => cases run
  | succ fuel ih =>
    unfold getEmptyInode at run
    split at run
    · cases run
    · rcases of_bind run with ⟨d₁, cleaned, rest⟩
      have counts := cleanInode_count cleaned
      split at rest
      · rcases ih rest with ⟨unused, taken, others⟩
        exact ⟨(counts k).symm.trans unused, taken, fun j other => (others j other).trans (counts j)⟩
      · rename_i unused
        cases rest
        refine ⟨(counts _).symm.trans (not_not.mp unused), Function.update_self .., ?_⟩
        intro j other
        rw [← counts j]
        exact congrArg MInode.count (Function.update_of_ne other ..)

/-- `get_pipe_inode` makes an inode that nobody used a pipe with two users. -/
theorem getPipeInode_new {last last' : Nat} {page : BitVec 32}
    (run : Drive.getPipeInode fuel last page d = .ok (some k, last', d')) :
    (d.inode k).count = 0 ∧ (d'.inode k).count = 2 ∧ (d'.inode k).pipe = true ∧
      ∀ j, j ≠ k → (d'.inode j).count = (d.inode j).count := by
  unfold Drive.getPipeInode at run
  rcases of_bind run with ⟨⟨i, last₁, d₁⟩, got, rest⟩
  rcases getEmptyInode_count got with ⟨unused, -, others⟩
  dsimp only at rest
  split at rest
  · cases rest
  · cases rest
    refine ⟨unused, ?_, ?_, ?_⟩
    · simp only [setInode, Function.update_self]
    · simp only [setInode, Function.update_self]
    · intro j other
      rw [← others j other]
      exact congrArg MInode.count (Function.update_of_ne other ..)

end PipeInode

section Outcomes

variable {p p' : PipeState} {t : FileTask} {fuel : Nat} {page : BitVec 32}

/-- Nothing is left of a call. -/
structure PipeFailed (p p' : PipeState) (t : FileTask) : Prop where
  files : p'.files.file = p.files.file
  current : p'.files.current = p.files.current
  own : ∃ t', p'.files.task p.files.current = some t' ∧ t'.filp = t.filp
  others : ∀ nr, nr ≠ p.files.current → p'.files.task nr = p.files.task nr

/-- The two ends of a new pipe. -/
structure PipeOpened (p p' : PipeState) (t : FileTask) (fd₀ fd₁ f₀ f₁ k : Nat) : Prop where
  lowest : fd₀ < fd₁ ∧ fd₁ < nrOpen ∧ t.filp fd₀ = none ∧ t.filp fd₁ = none ∧
    ∀ fd, fd < fd₁ → fd ≠ fd₀ → t.filp fd ≠ none
  unused : f₀ ≠ f₁ ∧ f₀ < nrFile ∧ f₁ < nrFile ∧ (p.files.file f₀).count = 0 ∧ (p.files.file f₁).count = 0
  readEnd : p'.files.file f₀ = { p.files.file f₀ with mode := 1, count := 1, inode := some k, pos := 0 }
  writeEnd : p'.files.file f₁ = { p.files.file f₁ with mode := 2, count := 1, inode := some k, pos := 0 }
  otherFiles : ∀ f, f ≠ f₀ → f ≠ f₁ → p'.files.file f = p.files.file f
  own : ∃ t', p'.files.task p.files.current = some t' ∧ t'.filp fd₀ = some f₀ ∧ t'.filp fd₁ = some f₁ ∧
    ∀ fd, fd ≠ fd₀ → fd ≠ fd₁ → t'.filp fd = t.filp fd
  others : ∀ nr, nr ≠ p.files.current → p'.files.task nr = p.files.task nr
  inode : (p.drive.inode k).count = 0 ∧ (p'.drive.inode k).count = 2 ∧ (p'.drive.inode k).pipe = true ∧
    ∀ j, j ≠ k → (p'.drive.inode j).count = (p.drive.inode j).count

/-- Two files that were reserved are unused again. -/
theorem dropFiles_file (s : Files) {u : FileTask} {f₀ f₁ : Nat} (unused₀ : (s.file f₀).count = 0)
    (unused₁ : (s.file f₁).count = 0) : (((s.reserve [f₀, f₁]).setTask u).dropFiles f₀ f₁).file = s.file := by
  funext f
  unfold Files.dropFiles Files.setCount Files.setFile Files.setTask Files.reserve
  dsimp only
  by_cases first : f = f₀
  · subst first
    rw [Function.update_self]
    by_cases same : f = f₁
    · subst same
      simp [← unused₀]
    · rw [Function.update_of_ne same]
      simp [← unused₀]
  · rw [Function.update_of_ne first]
    by_cases second : f = f₁
    · subst second
      rw [Function.update_self]
      simp [← unused₁]
    · rw [Function.update_of_ne second]
      simp [first, second]

theorem Picked.two {free : Nat → Prop} {n x y : Nat} (picked : Picked free n [x, y]) :
    x < y ∧ y < n ∧ free x ∧ free y ∧ ∀ z, z < y → z ≠ x → ¬ free z := by
  have sorted := List.pairwise_cons.mp picked.sorted
  have last := picked.inside y (by simp)
  refine ⟨sorted.1 y (by simp), last.1, (picked.inside x (by simp)).2, last.2, ?_⟩
  intro z below other isFree
  have isIn := picked.all z (below.trans last.1) isFree
  simp only [List.mem_cons, List.not_mem_nil, or_false] at isIn
  omega

/-- A call that gives its files back, and leaves descriptors as they were. -/
theorem PipeFailed.of_drop {u : FileTask} {f₀ f₁ : Nat} {drive : Drive} {last : Nat}
    (unused₀ : (p.files.file f₀).count = 0) (unused₁ : (p.files.file f₁).count = 0) (filp : u.filp = t.filp) :
    PipeFailed p ⟨((p.files.reserve [f₀, f₁]).setTask u).dropFiles f₀ f₁, drive, last⟩ t where
  files := dropFiles_file p.files unused₀ unused₁
  current := rfl
  own := ⟨u, Function.update_self .., filp⟩
  others nr other := Function.update_of_ne other ..

/-- Descriptors that were free are free again. -/
theorem give_undone {fd₀ fd₁ : Nat} {files : List Nat} (free₀ : t.filp fd₀ = none) (free₁ : t.filp fd₁ = none) :
    (((t.give files [fd₀, fd₁]).setFilp fd₁ none).setFilp fd₀ none).filp = t.filp := by
  funext fd
  by_cases first : fd = fd₀
  · rw [first, filp_setFilp, free₀]
  · rw [filp_setFilp_of_ne _ _ first]
    by_cases second : fd = fd₁
    · rw [second, filp_setFilp, free₁]
    · rw [filp_setFilp_of_ne _ _ second]
      exact if_neg (by simp [first, second])

theorem give_undone_one {fd₀ : Nat} {files : List Nat} (free₀ : t.filp fd₀ = none) :
    ((t.give files [fd₀]).setFilp fd₀ none).filp = t.filp := by
  funext fd
  by_cases first : fd = fd₀
  · rw [first, filp_setFilp, free₀]
  · rw [filp_setFilp_of_ne _ _ first]
    exact if_neg (by simp [first])

/-- `sys_pipe` opens a pipe at the two lowest free descriptors, or changes nothing. -/
theorem pipe_all_or_nothing {value : Int} {fds : Option (Nat × Nat)}
    (here : p.files.task p.files.current = some t) (run : pipeCall fuel page p t = .ok (value, fds, p')) :
    (value = -1 ∧ PipeFailed p p' t) ∨
      value = 0 ∧ ∃ fd₀ fd₁ f₀ f₁ k, fds = some (fd₀, fd₁) ∧ PipeOpened p p' t fd₀ fd₁ f₀ f₁ k := by
  have first := takeFiles_spec p.files nrFile (.start _) (by decide)
  rw [Files.reserve_nil] at first
  rcases first with ⟨n, files, reserved, picked, bound, few⟩
  unfold pipeCall at run
  rw [reserved] at run
  match files, picked, few with
  | [], picked, _ =>
    cases run
    exact .inl ⟨rfl, by rw [Files.reserve_nil], rfl, ⟨t, here, rfl⟩, fun _ _ => rfl⟩
  | [f₀], picked, _ =>
    cases run
    refine .inl ⟨rfl, ?_, rfl, ⟨t, here, rfl⟩, fun _ _ => rfl⟩
    have unused := (picked.inside f₀ (by simp)).2
    funext f
    by_cases same : f = f₀
    · subst same
      simp [Files.setCount, Files.setFile, Files.reserve, ← unused]
    · simp [Files.setCount, Files.setFile, Files.reserve, same]
  | [f₀, f₁], picked, _ =>
    rcases picked.two with ⟨apart, inTable, unused₀, unused₁, -⟩
    have second := takeFds_spec t [f₀, f₁] nrOpen (.start _) (by decide)
    rw [FileTask.give_nil] at second
    rcases second with ⟨n', got, given, pickedFds, bound', few'⟩
    dsimp only at run
    rw [given] at run
    match got, pickedFds, few' with
    | [], pickedFds, _ =>
      cases run
      refine .inl ⟨rfl, .of_drop unused₀ unused₁ ?_⟩
      rw [FileTask.give_nil]
    | [fd₀], pickedFds, _ =>
      cases run
      exact .inl ⟨rfl, .of_drop unused₀ unused₁ (give_undone_one (pickedFds.inside fd₀ (by simp)).2)⟩
    | [fd₀, fd₁], pickedFds, _ =>
      rcases pickedFds.two with ⟨ascending, inside, free₀, free₁, lower⟩
      rcases of_bind run with ⟨⟨inode, last, drive⟩, pipe, rest⟩
      cases inode with
      | none =>
        cases rest
        exact .inl ⟨rfl, .of_drop unused₀ unused₁ (give_undone free₀ free₁)⟩
      | some k =>
        cases rest
        refine .inr ⟨rfl, fd₀, fd₁, f₀, f₁, k, rfl, ?_⟩
        have other : f₀ ≠ f₁ := ne_of_lt apart
        constructor
        · exact ⟨ascending, by omega, free₀, free₁, lower⟩
        · exact ⟨other, by omega, by omega, unused₀, unused₁⟩
        · simp [Files.setFile, Files.setTask, Files.reserve, other]
        · simp [Files.setFile, Files.setTask, Files.reserve, other.symm]
        · intro f not₀ not₁
          simp [Files.setFile, Files.setTask, Files.reserve, not₀, not₁]
        · refine ⟨t.give [f₀, f₁] [fd₀, fd₁], Function.update_self .., ?_, ?_, ?_⟩
          · simp [FileTask.give]
          · have index : [fd₀, fd₁].idxOf fd₁ = 1 := by
              rw [List.idxOf_cons_ne _ (ne_of_lt ascending), List.idxOf_cons_self]
            simp [FileTask.give, index]
          · intro fd not₀ not₁
            simp [FileTask.give, not₀, not₁]
        · intro nr different
          exact Function.update_of_ne different ..
        · exact getPipeInode_new pipe

end Outcomes

/-- A task without open files makes a pipe. -/
def firstPipe : PipeState :=
  { files := bootFiles
    drive :=
      { cache := bufferInit 1 (fun _ => 0) (fun _ _ => 0), disk := fun _ _ => 0, start := 0, length := 0,
        inode := fun _ => MInode.zero, imapBlocks := 0, zmapBlocks := 0 }
    last := 0 }

theorem first_pipe_opens : ∃ p', pipeCall 2 0x80100000 firstPipe bootTask = .ok (0, some (0, 1), p') ∧
    ∃ f₀ f₁ k, PipeOpened firstPipe p' bootTask 0 1 f₀ f₁ k := by
  have value : ((pipeCall 2 0x80100000 firstPipe bootTask).toOption.map fun r => (r.1, r.2.1)) = some (0, some (0, 1)) := by
    decide +kernel
  rcases Option.map_eq_some_iff.mp value with ⟨⟨v, fds, p'⟩, run, same⟩
  cases same
  cases call : pipeCall 2 0x80100000 firstPipe bootTask with
  | error e =>
    rw [call] at run
    cases run
  | ok r =>
    rw [call] at run
    cases run
    rcases pipe_all_or_nothing rfl call with ⟨failed, -⟩ | ⟨-, fd₀, fd₁, f₀, f₁, k, same, opened⟩
    · cases failed
    · cases same
      exact ⟨p', rfl, f₀, f₁, k, opened⟩

end K210Linux.Fs
