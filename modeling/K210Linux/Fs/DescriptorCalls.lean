import K210Linux.Fs.ReadWrite

/-! What `sys_lseek` and `sys_dup2` return and change, compared with what they are for. -/

namespace K210Linux.Fs

section Seek

/-- A descriptor of an open file on a seekable device that is no pipe. -/
structure Seekable (d : Desk) (t : FileTask) (fd f ino : Nat) : Prop where
  bound : fd < nrOpen
  slot : t.filp fd = some f
  inode : (d.files.file f).inode = some ino
  device : isSeekable (d.fs.inode ino).dev = true
  noPipe : (d.fs.inode ino).pipe = false

/-- The position that an origin names. -/
def seekBase (d : Desk) (f ino : Nat) (origin : Int) : Int :=
  if origin = 0 then 0 else if origin = 1 then (d.files.file f).pos else (d.fs.inode ino).size.toNat

/-- The call fails exactly below 0, and else goes to the position `target`. -/
structure SeeksTo (d : Desk) (f : Nat) (target : Int) (result : Int × Desk) : Prop where
  fails : result.1 = -einval ↔ target < 0
  unchanged : target < 0 → (result.2.files.file f).pos = (d.files.file f).pos
  exact : 0 ≤ target → (result.2.files.file f).pos = target ∧ result.1 = target

variable {d : Desk} {t : FileTask} {fd f ino : Nat} {origin : Int} {offset : BitVec 64}

theorem seek_pos (d : Desk) (f : Nat) {pos : Int} (inside : 0 ≤ pos) :
    (d.seek f pos).1 = pos ∧ ((d.seek f pos).2.files.file f).pos = pos := by
  unfold Desk.seek
  rw [if_neg (by omega)]
  refine ⟨rfl, ?_⟩
  simp only [Files.setFile, Function.update_self]

theorem seek_negative (d : Desk) (f : Nat) {pos : Int} (below : pos < 0) : d.seek f pos = (-einval, d) := if_pos below

/-- A seek to what came out of the sum is right if and only if it is the sum, or both are negative. -/
theorem seek_seeksTo (d : Desk) (f : Nat) (pos target : Int) :
    SeeksTo d f target (d.seek f pos) ↔ pos = target ∨ pos < 0 ∧ target < 0 := by
  by_cases below : pos < 0
  · rw [seek_negative d f below]
    constructor
    · intro seeks
      exact .inr ⟨below, seeks.fails.mp rfl⟩
    · rintro (same | both)
      · subst same
        exact ⟨iff_of_true rfl below, fun _ => rfl, fun inside => by omega⟩
      · exact ⟨iff_of_true rfl both.2, fun _ => rfl, fun inside => by omega⟩
  · rcases seek_pos d f (not_lt.mp below) with ⟨value, moved⟩
    have noError : ¬ (d.seek f pos).1 = -einval := by
      rw [value, einval]
      omega
    constructor
    · intro seeks
      have inside : 0 ≤ target := by
        by_contra negative
        exact noError (seeks.fails.mpr (not_le.mp negative))
      rw [← (seeks.exact inside).2, value]
      exact .inl rfl
    · rintro (same | both)
      · subst same
        exact ⟨iff_of_false noError below, fun negative => absurd negative below, fun _ => ⟨moved, value⟩⟩
      · exact absurd both.1 below

/-- The sum as the code computes it. -/
def seekSum (d : Desk) (f ino : Nat) (offset : BitVec 64) (origin : Int) : Int :=
  if origin = 0 then offset.toInt
  else if origin = 1 then (BitVec.ofInt 64 ((d.files.file f).pos + offset.toInt)).toInt
  else toInt32 ((d.fs.inode ino).size.toNat + offset.toInt)

theorem Seekable.sysLseek (seekable : Seekable d t fd f ino) (which : origin = 0 ∨ origin = 1 ∨ origin = 2) :
    sysLseek d t fd offset origin = d.seek f (seekSum d f ino offset origin) := by
  have bound := seekable.bound
  unfold Fs.sysLseek seekSum
  rw [if_neg (by omega), seekable.slot]
  dsimp only
  rw [seekable.inode]
  dsimp only
  rw [seekable.device, seekable.noPipe]
  rcases which with rfl | rfl | rfl <;> rfl

theorem toInt_ofInt_64 {value : Int} (low : -2 ^ 63 ≤ value) (high : value < 2 ^ 63) :
    (BitVec.ofInt 64 value).toInt = value := by
  rw [BitVec.toInt_ofInt, Int.bmod_def]
  split <;> omega

/-- The sum with the size goes through an `int`, and is right if and only if nothing is lost there: neither the value,
    if it is a position, nor its sign, if it is none. -/
theorem toInt32_or_iff (value : Int) : toInt32 value = value ∨ toInt32 value < 0 ∧ value < 0 ↔
    (0 ≤ value → value < 2 ^ 31) ∧ (value < 0 → 2 ^ 31 ≤ value % 2 ^ 32) := by
  unfold toInt32
  rw [BitVec.toInt_ofInt, Int.bmod_def]
  split <;> omega

theorem lseek_exact_iff (seekable : Seekable d t fd f ino)
    (which : origin = 0 ∨ origin = 1 ∨ origin = 2) (low : -2 ^ 63 ≤ seekBase d f ino origin + offset.toInt)
    (high : seekBase d f ino origin + offset.toInt < 2 ^ 63) :
    SeeksTo d f (seekBase d f ino origin + offset.toInt) (sysLseek d t fd offset origin) ↔
      (origin = 2 → (0 ≤ (d.fs.inode ino).size.toNat + offset.toInt →
          (d.fs.inode ino).size.toNat + offset.toInt < 2 ^ 31) ∧
        ((d.fs.inode ino).size.toNat + offset.toInt < 0 →
          2 ^ 31 ≤ ((d.fs.inode ino).size.toNat + offset.toInt) % 2 ^ 32)) := by
  rw [seekable.sysLseek which, seek_seeksTo]
  rcases which with rfl | rfl | rfl
  · refine iff_of_true (.inl ?_) (fun two => absurd two (by decide))
    exact (zero_add _).symm
  · refine iff_of_true (.inl ?_) (fun two => absurd two (by decide))
    exact toInt_ofInt_64 low high
  · rw [forall_prop_of_true rfl]
    exact toInt32_or_iff _

def seekTask : FileTask := { bootTask with filp := fun fd => if fd = 0 then some 0 else none }

/-- Descriptor 0 is open at position 0, on a file of size 0. -/
def seekDesk : Desk where
  files := { bootFiles with
    file := fun _ => ⟨0o100644, 0, 1, some 9, 0⟩
    task := fun nr => if nr = 0 then some seekTask else none }
  fs := { blankDevice with inode := fun _ => { MInode.zero with mode := 0o100644, nlinks := 1, dev := 0x101 } }
  caller := fun _ => ⟨0, 0, 0, 1, 0⟩

theorem seekDesk_seekable : Seekable seekDesk seekTask 0 0 9 where
  bound := by decide
  slot := rfl
  inode := rfl
  device := by decide
  noPipe := rfl

theorem seek_behind_end : SeeksTo seekDesk 0 (seekBase seekDesk 0 9 2 + (5 : BitVec 64).toInt)
    (sysLseek seekDesk seekTask 0 5 2) := by
  have low : -2 ^ 63 ≤ seekBase seekDesk 0 9 2 + (5 : BitVec 64).toInt := by decide
  have high : seekBase seekDesk 0 9 2 + (5 : BitVec 64).toInt < 2 ^ 63 := by decide
  refine (lseek_exact_iff seekDesk_seekable (.inr (.inr rfl)) low high).mpr ?_
  intro _
  exact ⟨fun _ => by decide, fun negative => absurd negative (by decide)⟩

/-- Two gigabytes behind the end of an empty file the sum is negative as an `int`. -/
theorem seek_far_behind_end : ¬ SeeksTo seekDesk 0 (seekBase seekDesk 0 9 2 + (2 ^ 31 : BitVec 64).toInt)
    (sysLseek seekDesk seekTask 0 (2 ^ 31) 2) := by
  intro seeks
  have value : (sysLseek seekDesk seekTask 0 (2 ^ 31) 2).1 = -einval := by decide
  exact absurd (seeks.fails.mp value) (by decide)

end Seek

section Dup2

variable {s : Files} {t : FileTask} {oldfd newfd : Nat}

/-- What `sys_dup2` is for: a valid call makes `newfd` another name of what `oldfd` names, and no other call changes a
    descriptor or a count. -/
structure Dup2Law (s : Files) (t : FileTask) (oldfd newfd : Nat) (reply : Reply) : Prop where
  valid : oldfd < nrOpen → t.filp oldfd ≠ none → newfd < nrOpen → reply.value = newfd ∧
    ∃ t', reply.files.task s.current = some t' ∧ t'.filp newfd = t.filp oldfd ∧ t'.filp oldfd = t.filp oldfd ∧
      ∀ i, i ≠ newfd → t'.filp i = t.filp i
  invalid : ¬ (oldfd < nrOpen ∧ t.filp oldfd ≠ none ∧ newfd < nrOpen) → reply.value < 0 ∧
    (∃ t', reply.files.task s.current = some t' ∧ ∀ i, t'.filp i = t.filp i) ∧
      ∀ f, (reply.files.file f).count = (s.file f).count
  others : ∀ nr, nr ≠ s.current → reply.files.task nr = s.task nr

/-- What `sys_close` leaves of a descriptor that can be closed. -/
structure ClosedFd (s : Files) (t : FileTask) (fd : Nat) (reply : Reply) : Prop where
  current : reply.files.current = s.current
  others : ∀ nr, nr ≠ s.current → reply.files.task nr = s.task nr
  own : ∃ t', reply.files.task s.current = some t' ∧ (∀ i, t'.filp i = if i = fd ∧ fd < nrOpen then none else t.filp i)
  counts : (fd < nrOpen → t.filp fd = none) → ∀ f, (reply.files.file f).count = (s.file f).count

theorem sysClose_closedFd (here : s.task s.current = some t) (fd : Nat)
    (used : ∀ f, t.filp fd = some f → (s.file f).count ≠ 0) :
    ∃ reply, sysClose s t fd = some reply ∧ ClosedFd s t fd reply := by
  unfold sysClose
  by_cases outside : nrOpen ≤ fd
  · rw [if_pos outside]
    refine ⟨_, rfl, rfl, fun _ _ => rfl, ⟨t, here, ?_⟩, fun _ _ => rfl⟩
    intro i
    rw [if_neg (by omega)]
  · rw [if_neg outside]
    have keeps : (t.keepOnExec fd).filp = t.filp := rfl
    dsimp only
    rw [keeps]
    cases slot : t.filp fd with
    | none =>
      refine ⟨_, rfl, rfl, ?_, ⟨t.keepOnExec fd, Function.update_self .., ?_⟩, fun _ _ => rfl⟩
      · intro nr other
        exact Function.update_of_ne other ..
      · intro i
        split
        · rename_i same
          rw [keeps, same.1, slot]
        · rfl
    | some f =>
      dsimp only
      have positive : ¬ ((s.setTask ((t.keepOnExec fd).setFilp fd none)).file f).count = 0 := used f slot
      rw [if_neg positive]
      refine ⟨_, rfl, rfl, ?_, ⟨(t.keepOnExec fd).setFilp fd none, Function.update_self .., ?_⟩, ?_⟩
      · intro nr other
        exact Function.update_of_ne other ..
      · intro i
        by_cases same : i = fd
        · rw [same, filp_setFilp, if_pos ⟨rfl, not_le.mp outside⟩]
        · rw [filp_setFilp_of_ne _ _ same, if_neg (fun both => same both.1), keeps]
      · intro free
        rw [slot] at free
        cases free (not_le.mp outside)

/-- `dupfd` into a descriptor that is free. -/
theorem dupfd_free {f : Nat} (inside : oldfd < nrOpen) (opened : t.filp oldfd = some f) (bound : newfd < nrOpen)
    (free : t.filp newfd = none) : dupfd s t oldfd newfd = ⟨newfd, none,
      (s.setTask ((t.keepOnExec newfd).setFilp newfd (some f))).setCount f ((s.file f).count + 1)⟩ := by
  have first : freeFd t newfd = some newfd := by
    unfold freeFd
    rw [List.find?_range_eq_some]
    refine ⟨decide_eq_true ⟨le_refl _, free⟩, List.mem_range.mpr bound, ?_⟩
    intro j below
    simp [not_le.mpr below]
  unfold dupfd
  rw [if_neg (by omega), opened]
  dsimp only
  rw [if_neg (by omega), first]

theorem dupfd_invalid (missing : nrOpen ≤ oldfd ∨ t.filp oldfd = none) : dupfd s t oldfd newfd = ⟨-ebadf, none, s⟩ := by
  unfold dupfd
  by_cases outside : nrOpen ≤ oldfd
  · rw [if_pos outside]
  · rw [if_neg outside, missing.resolve_left outside]

theorem dupfd_outside (inside : oldfd < nrOpen) (opened : t.filp oldfd ≠ none) (outside : nrOpen ≤ newfd) :
    dupfd s t oldfd newfd = ⟨-einval, none, s⟩ := by
  unfold dupfd
  rw [if_neg (by omega)]
  cases slot : t.filp oldfd with
  | none => exact absurd slot opened
  | some f =>
    dsimp only
    rw [if_pos outside]

/-- `sys_dup2` closes `newfd` before it looks at `oldfd`. -/
theorem dup2_law_iff (oldfd newfd : Nat) (here : s.task s.current = some t)
    (used : ∀ fd f, t.filp fd = some f → (s.file f).count ≠ 0) :
    ∃ reply, sysDup2 s t oldfd newfd = some reply ∧ (Dup2Law s t oldfd newfd reply ↔
      if oldfd < nrOpen ∧ t.filp oldfd ≠ none ∧ newfd < nrOpen then oldfd ≠ newfd
      else newfd < nrOpen → t.filp newfd = none) := by
  rcases sysClose_closedFd here newfd (used newfd) with ⟨closed, closes, current, others, ⟨t₁, own, filp⟩, counts⟩
  refine ⟨{ dupfd closed.files t₁ oldfd newfd with put := closed.put }, ?_, ?_⟩
  · rw [← current] at own
    simp only [sysDup2, closes, own, Option.bind_eq_bind, Option.bind_some]
  by_cases valid : oldfd < nrOpen ∧ t.filp oldfd ≠ none ∧ newfd < nrOpen
  · rw [if_pos valid]
    rcases valid with ⟨inside, opened, bound⟩
    by_cases same : oldfd = newfd
    · -- the descriptor is closed before it is duplicated
      refine iff_of_false ?_ (not_not.mpr same)
      intro law
      have value := (law.valid inside opened bound).1
      rw [dupfd_invalid (.inr (by rw [filp, if_pos ⟨same, bound⟩]))] at value
      have negative : (-ebadf : Int) < 0 := by decide
      dsimp only at value
      omega
    · refine iff_of_true ?_ same
      cases slot : t.filp oldfd with
      | none => exact absurd slot opened
      | some f =>
        have old : t₁.filp oldfd = some f := by rw [filp, if_neg (fun both => same both.1), slot]
        have free : t₁.filp newfd = none := by rw [filp, if_pos ⟨rfl, bound⟩]
        rw [dupfd_free inside old bound free]
        refine ⟨?_, fun notValid => absurd ⟨inside, opened, bound⟩ notValid, ?_⟩
        · intro _ _ _
          refine ⟨rfl, (t₁.keepOnExec newfd).setFilp newfd (some f), ?_, ?_, ?_, ?_⟩
          · rw [← current]
            exact Function.update_self ..
          · rw [filp_setFilp, slot]
          · rw [filp_setFilp_of_ne _ _ same, slot]
            exact old
          · intro i other
            rw [filp_setFilp_of_ne _ _ other]
            exact (filp i).trans (if_neg fun both => other both.1)
        · intro nr other
          refine (Function.update_of_ne ?_ ..).trans (others nr other)
          rw [current]
          exact other
  · rw [if_neg valid]
    have same : ∀ i, (newfd < nrOpen → t.filp newfd = none) → t₁.filp i = t.filp i := by
      intro i free
      rw [filp]
      split
      · rename_i here
        rw [here.1, free here.2]
      · rfl
    have failed : ∃ e : Int, e < 0 ∧ dupfd closed.files t₁ oldfd newfd = ⟨e, none, closed.files⟩ := by
      by_cases opened : oldfd < nrOpen ∧ t.filp oldfd ≠ none
      · have outside : nrOpen ≤ newfd := not_lt.mp fun bound => valid ⟨opened.1, opened.2, bound⟩
        have still : t₁.filp oldfd ≠ none := by
          rw [same oldfd (fun bound => by omega)]
          exact opened.2
        exact ⟨-einval, by decide, dupfd_outside opened.1 still outside⟩
      · refine ⟨-ebadf, by decide, dupfd_invalid ?_⟩
        by_cases outside : nrOpen ≤ oldfd
        · exact .inl outside
        · right
          rw [filp]
          split
          · rfl
          · by_contra some
            exact opened ⟨not_le.mp outside, some⟩
    rcases failed with ⟨e, negative, call⟩
    rw [call]
    constructor
    · intro law bound
      rcases (law.invalid valid).2.1 with ⟨t', task, unchanged⟩
      obtain rfl := Option.some.inj (own.symm.trans task)
      rw [← unchanged newfd, filp, if_pos ⟨rfl, bound⟩]
    · intro free
      exact ⟨fun inside opened bound => absurd ⟨inside, opened, bound⟩ valid,
        fun _ => ⟨negative, ⟨t₁, own, fun i => same i free⟩, counts free⟩, others⟩

/-- Descriptors 0 and 1 name file 0. -/
def dupTask : FileTask := { bootTask with filp := fun fd => if fd < 2 then some 0 else none }

def dupFiles : Files := { bootFiles with
  file := fun f => if f = 0 then ⟨1, 0, 2, some 3, 0⟩ else ⟨0, 0, 0, none, 0⟩
  task := fun nr => if nr = 0 then some dupTask else none }

theorem dupTask_used : ∀ fd f, dupTask.filp fd = some f → (dupFiles.file f).count ≠ 0 := by
  intro fd f slot
  have zero : f = 0 := by
    simp only [dupTask] at slot
    split at slot
    · exact (Option.some.inj slot).symm
    · cases slot
  rw [zero]
  decide

theorem dup2_to_free : ∃ reply, sysDup2 dupFiles dupTask 0 7 = some reply ∧ Dup2Law dupFiles dupTask 0 7 reply := by
  rcases dup2_law_iff 0 7 (rfl : dupFiles.task dupFiles.current = some dupTask) dupTask_used with ⟨reply, call, law⟩
  exact ⟨reply, call, law.mpr (by decide)⟩

/-- A descriptor that is duplicated to itself is closed. -/
theorem dup2_to_itself : ∃ reply, sysDup2 dupFiles dupTask 1 1 = some reply ∧ ¬ Dup2Law dupFiles dupTask 1 1 reply := by
  refine ⟨_, rfl, ?_⟩
  intro law
  have value := (law.valid (by decide) (by decide) (by decide)).1
  exact absurd value (by decide)

end Dup2

end K210Linux.Fs
