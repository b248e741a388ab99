import K210Linux.Fs.VolumeReferences

/-! The calls on paths give back every inode and every buffer that they take. -/

namespace K210Linux.Fs.Volume

open Outcome
open K210Linux.Buffer (Halt Counts ramdisk bufferInit)

variable {v v₁ v' : Volume} {dir k i j fuel : Nat} {w : Walker} {name path : List Byte} {value : Int}

section Parts

theorem findEntry_missing (run : v.findEntry fuel w k name = .ok (none, dir, v')) :
    v'.counts = v.counts - .inode k + .inode dir := (findEntry_counts run).trans (add_zero _)

theorem findEntry_found (run : v.findEntry fuel w k name = .ok (some (i, j), dir, v')) :
    v'.counts = v.counts - .inode k + .inode dir + .buffer i := findEntry_counts run

theorem addEntry_full {time : BitVec 32} (run : v.addEntry fuel k name time = .ok (none, v')) : v'.counts = v.counts :=
  (addEntry_counts run).trans (add_zero _)

theorem addEntry_placed {time : BitVec 32} (run : v.addEntry fuel k name time = .ok (some (i, j), v')) :
    v'.counts = v.counts + .buffer i := addEntry_counts run

theorem newInode_none {dev : BitVec 16} (run : v.newInode fuel w dev = .ok (none, v')) : v'.counts = v.counts :=
  (newInode_counts run).trans (add_zero _)

theorem newInode_some {dev : BitVec 16} (run : v.newInode fuel w dev = .ok (some k, v')) :
    v'.counts = v.counts + .inode k := newInode_counts run

theorem dirNamei_none (run : v.dirNamei fuel w path = .ok (none, v')) : v'.counts = v.counts :=
  (dirNamei_counts run).trans (add_zero _)

theorem dirNamei_some (run : v.dirNamei fuel w path = .ok (some (dir, name), v')) :
    v'.counts = v.counts + .inode dir := dirNamei_counts run

theorem bread_none {dev : BitVec 16} {block : Nat} (read : v.bread fuel dev block = .ok (none, v')) : v'.counts = v.counts :=
  (bread_counts read).trans (add_zero _)

theorem bread_some {dev : BitVec 16} {block : Nat} (read : v.bread fuel dev block = .ok (some i, v')) :
    v'.counts = v.counts + .buffer i := bread_counts read

theorem enter_counts (v : Volume) (i j : Nat) (num : BitVec 16) : (v.enter i j num).counts = v.counts :=
  store_counts v i _

end Parts

section Creating

/-- The end of `open_namei` with a new inode. -/
theorem openNew_counts {flag : BitVec 32} {mode : BitVec 16} {inode : Option Nat}
    (run : v.openNew fuel w dir name flag mode = .ok ((value, inode), v')) :
    v'.counts = v.counts - .inode dir + inodeUser inode := by
  -- the exits that only put the directory
  have refused {v₁ : Volume} {error : Int} (same : v₁.counts = v.counts)
      (put : v₁.putAnd fuel w dir (error, none) = .ok ((value, inode), v')) :
      v'.counts = v.counts - .inode dir + inodeUser inode := by
    rcases putAnd_counts put with ⟨one, gives⟩
    cases gives
    rw [one, same]
    exact (add_zero _).symm
  unfold openNew at run
  split at run
  · exact refused rfl run
  · split at run
    · exact refused rfl run
    · rcases of_bind run with ⟨⟨new, v₁⟩, made, rest⟩
      cases new with
      | none => exact refused (newInode_none made) rest
      | some k =>
        rcases of_bind rest with ⟨⟨place, v₂⟩, added, rest⟩
        cases place with
        | none =>
          rcases putBothAnd_counts rest with ⟨one, gives⟩
          cases gives
          rw [one, setInode_counts, addEntry_full added, setInode_counts, newInode_some made]
          · rw [add_sub_cancel_right]
            exact (add_zero _).symm
          · rfl
          · rfl
        | some place =>
          rcases of_bind rest with ⟨v₃, released, rest⟩
          rcases putAnd_counts rest with ⟨one, gives⟩
          cases gives
          rw [one, brelse_counts released, enter_counts, addEntry_placed added, setInode_counts, newInode_some made]
          · change _ = _ + Counts.inode k
            abel
          · rfl

theorem openOld_counts {flag : BitVec 32} {inode : Option Nat}
    (run : v.openOld fuel w dir i j flag = .ok ((value, inode), v')) :
    v'.counts = v.counts - .buffer i - .inode dir + inodeUser inode := by
  rcases of_bind run with ⟨v₁, released, rest⟩
  rcases of_bind rest with ⟨v₂, put, rest⟩
  have two : v₂.counts = v.counts - .buffer i - .inode dir := by rw [iput_counts put, brelse_counts released]
  split at rest
  · cases rest
    exact two.trans (add_zero _).symm
  · rcases of_bind rest with ⟨⟨k, v₃⟩, got, rest⟩
    have three := iget_counts got
    rw [two] at three
    dsimp only at rest
    split at rest
    · rcases putAnd_counts rest with ⟨four, gives⟩
      cases gives
      rw [four, three, add_sub_cancel_right]
      exact (add_zero _).symm
    · split at rest
      · rcases of_bind rest with ⟨v₄, cut, rest⟩
        cases rest
        rw [truncate_counts cut, setInode_counts]
        · exact three
        · rfl
      · cases rest
        refine Eq.trans (setInode_counts ?_) three
        rfl

theorem openNamei_counts {flag : BitVec 32} {mode : BitVec 16} {inode : Option Nat}
    (run : v.openNamei fuel w path flag mode = .ok ((value, inode), v')) : v'.counts = v.counts + inodeUser inode := by
  rcases of_bind run with ⟨⟨start, v₁⟩, walked, rest⟩
  cases start with
  | none =>
    cases rest
    exact (dirNamei_none walked).trans (add_zero _).symm
  | some start =>
    have one := dirNamei_some walked
    -- a path that ends in a slash
    have bare (harmless : Prop) [Decidable harmless] (run : (if harmless then .ok ((0, some start.1), v₁)
        else v₁.putAnd fuel w start.1 (-eisdir, none)) = .ok ((value, inode), v')) :
        v'.counts = v.counts + inodeUser inode := by
      split at run
      · cases run
        exact one
      · rcases putAnd_counts run with ⟨two, gives⟩
        cases gives
        rw [two, one, add_sub_cancel_right]
        exact (add_zero _).symm
    dsimp only at rest
    split at rest
    · exact bare _ rest
    · rcases of_bind rest with ⟨⟨found, dir, v₂⟩, looked, rest⟩
      cases found with
      | none =>
        rw [openNew_counts rest, findEntry_missing looked, one]
        abel
      | some entry =>
        rw [openOld_counts rest, findEntry_found looked, one]
        abel

/-- What the call holds, unless it returns with a value. -/
theorem newName_counts {start : Int ⊕ Nat × List Byte} (run : v.newName fuel w path = .ok (start, v')) :
    v'.counts = v.counts + start.elim (fun _ => 0) fun place => .inode place.1 := by
  unfold newName at run
  split at run
  · cases run
    exact (add_zero _).symm
  · rcases of_bind run with ⟨⟨found, v₁⟩, walked, rest⟩
    cases found with
    | none =>
      cases rest
      exact (dirNamei_none walked).trans (add_zero _).symm
    | some found =>
      have one := dirNamei_some walked
      have refused {v₂ : Volume} {k : Nat} {error : Int} (same : v₂.counts = v.counts + .inode k)
          (put : v₂.putAnd fuel w k (.inl error) = .ok (start, v')) :
          v'.counts = v.counts + start.elim (fun _ => 0) fun place => .inode place.1 := by
        rcases putAnd_counts put with ⟨two, gives⟩
        cases gives
        rw [two, same, add_sub_cancel_right]
        exact (add_zero _).symm
      dsimp only at rest
      split at rest
      · exact refused one rest
      · split at rest
        · exact refused one rest
        · rcases of_bind rest with ⟨⟨entry, dir, v₂⟩, looked, rest⟩
          cases entry with
          | none =>
            cases rest
            rw [findEntry_missing looked, one, add_sub_cancel_right]
            rfl
          | some entry =>
            rcases of_bind rest with ⟨v₃, released, rest⟩
            refine refused ?_ rest
            rw [brelse_counts released, findEntry_found looked, one]
            abel

theorem mknodIn_counts {mode dev : BitVec 16} (run : v.mknodIn fuel w dir name mode dev = .ok (value, v')) :
    v'.counts = v.counts - .inode dir := by
  rcases of_bind run with ⟨⟨new, v₁⟩, made, rest⟩
  cases new with
  | none => rw [(putAnd_counts rest).1, newInode_none made]
  | some k =>
    have one := newInode_some made
    rcases of_bind rest with ⟨⟨place, v₂⟩, added, rest⟩
    cases place with
    | none =>
      rcases of_bind rest with ⟨v₃, put, rest⟩
      rw [(putAnd_counts rest).1, setInode_counts, iput_counts put, addEntry_full added, setInode_counts, one]
      · abel
      · rfl
      · rfl
    | some place =>
      rw [(putBothReleaseAnd_counts rest).1, enter_counts, addEntry_placed added, setInode_counts, one]
      · abel
      · rfl

theorem sysMknod_counts {mode dev : BitVec 16} (run : v.sysMknod fuel w path mode dev = .ok (value, v')) :
    v'.counts = v.counts := by
  rcases of_bind run with ⟨⟨start, v₁⟩, began, rest⟩
  have one := newName_counts began
  cases start with
  | inl value =>
    cases rest
    exact one.trans (add_zero _)
  | inr place =>
    rw [mknodIn_counts rest, one]
    exact add_sub_cancel_right ..

theorem mkdirEntry_counts (run : v.mkdirEntry fuel w dir k name = .ok (value, v')) :
    v'.counts = v.counts - .inode dir - .inode k := by
  rcases of_bind run with ⟨⟨place, v₁⟩, added, rest⟩
  cases place with
  | none =>
    rcases of_bind rest with ⟨v₂, put, rest⟩
    rcases of_bind rest with ⟨v₃, freed, rest⟩
    rw [(putAnd_counts rest).1, setInode_counts, freeBlock_counts freed, iput_counts put, addEntry_full added]
    rfl
  | some place =>
    rw [(putBothReleaseAnd_counts rest).1, setInode_counts, enter_counts, addEntry_placed added]
    · abel
    · rfl

theorem mkdirIn_counts {mode : BitVec 16} (run : v.mkdirIn fuel w dir name mode = .ok (value, v')) :
    v'.counts = v.counts - .inode dir := by
  rcases of_bind run with ⟨⟨new, v₁⟩, made, rest⟩
  cases new with
  | none => rw [(putAnd_counts rest).1, newInode_none made]
  | some k =>
    rcases of_bind rest with ⟨⟨z, v₂⟩, block, rest⟩
    have two (inode : MInode) (count : inode.count = (v₂.inode k).count) :
        (v₂.setInode k inode).counts = v.counts + .inode k := by
      rw [setInode_counts count, newBlock_counts block, setInode_counts, newInode_some made]
      rfl
    dsimp only at rest
    split at rest
    · rcases of_bind rest with ⟨v₃, put, rest⟩
      rw [(putAnd_counts rest).1, setInode_counts, iput_counts put, two]
      · abel
      · rfl
      · rfl
    · rcases of_bind rest with ⟨⟨bh, v₃⟩, read, rest⟩
      have three := bread_counts read
      rw [setInode_counts, two] at three
      · cases bh with
        | none =>
          rcases of_bind rest with ⟨v₄, put, rest⟩
          rcases of_bind rest with ⟨v₅, freed, rest⟩
          rw [(putAnd_counts rest).1, setInode_counts, freeBlock_counts freed, iput_counts put, three]
          · change _ + 0 - _ - _ = _
            abel
          · rfl
        | some b =>
          rcases of_bind rest with ⟨v₄, released, rest⟩
          rw [mkdirEntry_counts rest, setInode_counts, brelse_counts released, setInode_counts, store_counts, three]
          · change _ + Counts.buffer b - _ - _ - _ = _
            abel
          · rfl
          · rfl
      · rfl
      · rfl

theorem sysMkdir_counts {mode : BitVec 16} (run : v.sysMkdir fuel w path mode = .ok (value, v')) :
    v'.counts = v.counts := by
  rcases of_bind run with ⟨⟨start, v₁⟩, began, rest⟩
  have one := newName_counts began
  cases start with
  | inl value =>
    cases rest
    exact one.trans (add_zero _)
  | inr place =>
    rw [mkdirIn_counts rest, one]
    exact add_sub_cancel_right ..

end Creating

section Removing

theorem bind_of {α β : Type} {x : Except Halt α} {f : α → Except Halt β} {b : β} {a : α} (one : x = .ok a) (two : f a = .ok b) :
    (x >>= f) = .ok b := (bind_ok one).trans two

/-- Without a hole the loop gives its buffer back. -/
theorem emptyLoop_counts {len left nr : Nat} {empty : Bool} (run : emptyLoop fuel k len left nr j i v = .ok (empty, v'))
    (whole : loopMeetsHole fuel k len left nr j i v = false) : v'.counts = v.counts - .buffer i := by
  induction left generalizing nr j i v with
  | zero => cases run
  | succ left ih =>
    unfold emptyLoop at run
    unfold loopMeetsHole at whole
    split at run
    · rcases of_bind run with ⟨v₁, released, rest⟩
      cases rest
      exact brelse_counts released
    · rename_i more
      rw [if_neg more] at whole
      split at run
      · rename_i full
        rw [if_pos full] at whole
        rcases of_bind run with ⟨v₁, released, rest⟩
        rcases of_bind rest with ⟨⟨z, v₂⟩, mapped, rest⟩
        have two : v₂.counts = v.counts - .buffer i := (bmap_counts mapped).trans (brelse_counts released)
        rw [bind_of released mapped] at whole
        dsimp only at rest whole
        rw [Bool.or_eq_false_iff, decide_eq_false_iff_not] at whole
        rw [if_neg whole.1] at rest
        rcases of_bind rest with ⟨⟨bh, v₃⟩, read, rest⟩
        rw [read] at whole
        cases bh with
        | none =>
          cases rest
          exact (bread_none read).trans two
        | some b =>
          have three := bread_some read
          rw [two] at three
          dsimp only at rest whole
          split at rest
          · rcases of_bind rest with ⟨v₄, dropped, rest⟩
            cases rest
            rw [brelse_counts dropped, three, add_sub_cancel_right]
          · rename_i free
            rw [decide_eq_true (not_not.1 free), Bool.true_and] at whole
            rw [ih rest whole.2, three, add_sub_cancel_right]
      · rename_i inside
        rw [if_neg inside] at whole
        split at run
        · rcases of_bind run with ⟨v₁, released, rest⟩
          cases rest
          exact brelse_counts released
        · rename_i free
          rw [decide_eq_true (not_not.1 free), Bool.true_and] at whole
          exact ih run whole

/-- `empty_dir` keeps the buffer of a block that starts badly, and nothing else. -/
theorem emptyDir_counts {empty : Bool} (run : v.emptyDir fuel k = .ok (empty, v')) (whole : v.meetsHole fuel k = false) :
    (v.startsBadly fuel k = false ∧ v'.counts = v.counts) ∨
      (v.startsBadly fuel k = true ∧ empty = false ∧ ∃ i, v'.counts = v.counts + .buffer i) := by
  unfold emptyDir at run
  unfold meetsHole firstBlock at whole
  unfold startsBadly firstBlock
  dsimp only at run
  split at run
  · rename_i short
    cases run
    rw [if_pos short]
    exact .inl ⟨rfl, rfl⟩
  · rename_i long
    rw [if_neg long] at whole ⊢
    rcases of_bind run with ⟨⟨bh, v₁⟩, read, rest⟩
    rw [read] at whole ⊢
    cases bh with
    | none =>
      cases rest
      exact .inl ⟨rfl, bread_none read⟩
    | some b =>
      have one := bread_some read
      dsimp only [Option.any_some] at rest whole ⊢
      split at rest
      · rename_i right
        rw [right, Bool.true_and] at whole
        rw [right]
        refine .inl ⟨rfl, ?_⟩
        rw [emptyLoop_counts rest whole, one, add_sub_cancel_right]
      · rename_i wrong
        cases rest
        rw [Bool.not_eq_true] at wrong
        rw [wrong]
        exact .inr ⟨rfl, rfl, b, one⟩

theorem oldName_counts {start : Int ⊕ Nat × Nat × Nat} (run : v.oldName fuel w path = .ok (start, v')) :
    v'.counts = v.counts + start.elim (fun _ => 0) fun place => .inode place.1 + .buffer place.2.1 := by
  rcases of_bind run with ⟨⟨found, v₁⟩, walked, rest⟩
  cases found with
  | none =>
    cases rest
    exact (dirNamei_none walked).trans (add_zero _).symm
  | some found =>
    have one := dirNamei_some walked
    have refused {v₂ : Volume} {k : Nat} {error : Int} (same : v₂.counts = v.counts + .inode k)
        (put : v₂.putAnd fuel w k (.inl error) = .ok (start, v')) :
        v'.counts = v.counts + start.elim (fun _ => 0) fun place => .inode place.1 + .buffer place.2.1 := by
      rcases putAnd_counts put with ⟨two, gives⟩
      cases gives
      rw [two, same, add_sub_cancel_right]
      exact (add_zero _).symm
    dsimp only at rest
    split at rest
    · exact refused one rest
    · split at rest
      · exact refused one rest
      · rcases of_bind rest with ⟨⟨entry, dir, v₂⟩, looked, rest⟩
        cases entry with
        | none =>
          refine refused ?_ rest
          rw [findEntry_missing looked, one, add_sub_cancel_right]
        | some entry =>
          cases rest
          rw [findEntry_found looked, one, add_sub_cancel_right]
          exact add_assoc ..

theorem rmdirStart_counts {start : Int ⊕ Nat × Nat × Nat × Nat} (run : v.rmdirStart fuel w path = .ok (start, v')) :
    v'.counts = v.counts +
      start.elim (fun _ => 0) fun place => .inode place.1 + .buffer place.2.1 + .inode place.2.2.2 := by
  unfold rmdirStart at run
  split at run
  · cases run
    exact (add_zero _).symm
  · rcases of_bind run with ⟨⟨found, v₁⟩, began, rest⟩
    have one := oldName_counts began
    cases found with
    | inl value =>
      cases rest
      exact one
    | inr found =>
      rcases of_bind rest with ⟨⟨k, v₂⟩, got, rest⟩
      have two : v₂.counts = v.counts + (.inode found.1 + .buffer found.2.1) + .inode k := by
        rw [iget_counts got, one]
        rfl
      -- the exits that put both inodes, in either order
      have refused {a b : Nat} {error : Int}
          (both : Counts.inode a + Counts.inode b = Counts.inode found.1 + Counts.inode k)
          (put : v₂.putBothReleaseAnd fuel w a b found.2.1 (.inl error) = .ok (start, v')) :
          v'.counts = v.counts +
            start.elim (fun _ => 0) fun place => .inode place.1 + .buffer place.2.1 + .inode place.2.2.2 := by
        rcases putBothReleaseAnd_counts put with ⟨three, gives⟩
        cases gives
        rw [three, two, sub_sub _ (Counts.inode a), both]
        change _ = _ + 0
        abel
      dsimp only at rest
      split at rest
      · exact refused rfl rest
      · split at rest
        · exact refused rfl rest
        · split at rest
          · exact refused (add_comm _ _) rest
          · split at rest
            · exact refused (add_comm _ _) rest
            · cases rest
              rw [two, add_assoc]
              rfl

theorem sysRmdir_counts (run : v.sysRmdir fuel w path = .ok (value, v'))
    (whole : ∀ k u, (PathCall.rmdir path).emptied fuel w v = some (k, u) → u.meetsHole fuel k = false) :
    v'.counts = v.counts ↔
      ∀ k u, (PathCall.rmdir path).emptied fuel w v = some (k, u) → u.startsBadly fuel k = false := by
  rcases of_bind run with ⟨⟨start, v₁⟩, began, rest⟩
  have one := rmdirStart_counts began
  cases start with
  | inl value =>
    cases rest
    have unasked : (PathCall.rmdir path).emptied fuel w v = none := by
      unfold PathCall.emptied
      dsimp only
      rw [began]
    rw [unasked]
    exact iff_of_true (one.trans (add_zero _)) nofun
  | inr place =>
    rcases place with ⟨dir, bh, j, k⟩
    have asked : (PathCall.rmdir path).emptied fuel w v = some (k, v₁) := by
      unfold PathCall.emptied
      dsimp only
      rw [began]
    rcases of_bind rest with ⟨⟨empty, v₂⟩, tested, rest⟩
    have two := emptyDir_counts tested (whole k v₁ asked)
    change v₁.counts = v.counts + (Counts.inode dir + Counts.buffer bh + Counts.inode k) at one
    -- the call gives back what it held when it came to `empty_dir`
    have back : v'.counts = v₂.counts - (Counts.inode dir + Counts.buffer bh + Counts.inode k) := by
      dsimp only at rest
      split at rest
      · rw [(putBothReleaseAnd_counts rest).1]
        abel
      · rcases of_bind rest with ⟨v₃, released, rest⟩
        rw [(putBothAnd_counts rest).1, setInode_counts, setInode_counts, brelse_counts released, enter_counts]
        · abel
        · rfl
        · rfl
    rw [asked]
    rcases two with ⟨well, same⟩ | ⟨badly, -, i, kept⟩
    · refine iff_of_true ?_ ?_
      · rw [back, same, one, add_sub_cancel_right]
      · rintro k' u ⟨⟩
        exact well
    · refine iff_of_false ?_ ?_
      · rw [back, kept, one]
        intro balanced
        apply Counts.buffer_ne i
        calc Counts.buffer i = v.counts + (Counts.inode dir + Counts.buffer bh + Counts.inode k) + Counts.buffer i -
              (Counts.inode dir + Counts.buffer bh + Counts.inode k) - v.counts := by abel
          _ = 0 := by rw [balanced, sub_self]
      · intro all
        rw [all k v₁ rfl] at badly
        cases badly

theorem sysUnlink_counts (run : v.sysUnlink fuel w path = .ok (value, v')) : v'.counts = v.counts := by
  rcases of_bind run with ⟨⟨start, v₁⟩, began, rest⟩
  have one := oldName_counts began
  cases start with
  | inl value =>
    cases rest
    exact one.trans (add_zero _)
  | inr place =>
    rcases place with ⟨dir, bh, j⟩
    rcases of_bind rest with ⟨⟨k, v₂⟩, got, rest⟩
    have two : v₂.counts = v.counts + (.inode dir + .buffer bh) + .inode k := by
      rw [iget_counts got, one]
      rfl
    dsimp only at rest
    split at rest
    · rw [(putBothReleaseAnd_counts rest).1, two]
      abel
    · split at rest
      · rw [(putBothReleaseAnd_counts rest).1, two]
        abel
      · rcases of_bind rest with ⟨v₃, released, rest⟩
        rw [(putBothAnd_counts rest).1, setInode_counts, brelse_counts released, enter_counts, setInode_counts, two]
        · abel
        · rfl
        · rfl

theorem linkTo_counts {old : Nat} (run : v.linkTo fuel w old path = .ok (value, v')) :
    v'.counts = v.counts - .inode old := by
  rcases of_bind run with ⟨⟨found, v₁⟩, walked, rest⟩
  cases found with
  | none => rw [(putAnd_counts rest).1, dirNamei_none walked]
  | some found =>
    have one := dirNamei_some walked
    dsimp only at rest
    split at rest
    · rw [(putBothAnd_counts rest).1, one]
      abel
    · split at rest
      · rw [(putBothAnd_counts rest).1, one]
        abel
      · split at rest
        · rw [(putBothAnd_counts rest).1, one]
          abel
        · rcases of_bind rest with ⟨⟨entry, dir, v₂⟩, looked, rest⟩
          cases entry with
          | some entry =>
            rcases of_bind rest with ⟨v₃, released, rest⟩
            rw [(putBothAnd_counts rest).1, brelse_counts released, findEntry_found looked, one]
            abel
          | none =>
            have two := findEntry_missing looked
            rw [one, add_sub_cancel_right] at two
            rcases of_bind rest with ⟨⟨place, v₃⟩, added, rest⟩
            cases place with
            | none =>
              rw [(putBothAnd_counts rest).1, addEntry_full added, two]
              abel
            | some place =>
              rcases of_bind rest with ⟨v₄, released, rest⟩
              rcases of_bind rest with ⟨v₅, put, rest⟩
              rw [(putAnd_counts rest).1, setInode_counts, iput_counts put, brelse_counts released, enter_counts,
                addEntry_placed added, two]
              · abel
              · rfl

theorem sysLink_counts {oldname newname : List Byte} (run : v.sysLink fuel w oldname newname = .ok (value, v')) :
    v'.counts = v.counts := by
  rcases of_bind run with ⟨⟨old, v₁⟩, walked, rest⟩
  have one := namei_counts walked
  cases old with
  | none =>
    cases rest
    exact one.trans (add_zero _)
  | some old =>
    have back : v₁.counts - .inode old = v.counts := by
      rw [one]
      exact add_sub_cancel_right ..
    dsimp only at rest
    split at rest
    · rw [(putAnd_counts rest).1, back]
    · rw [linkTo_counts rest, back]

end Removing

theorem counts_iff {inode : Option Nat} : v'.counts = v.counts + inodeUser inode ↔
    (∀ i, (v'.drive.cache.head i).count = (v.drive.cache.head i).count) ∧
      ∀ k, (v'.inode k).count = (v.inode k).count + if inode = some k then 1 else 0 := by
  have user (k : Nat) : (inodeUser inode).1 k = if inode = some k then 1 else 0 := by
    cases inode with
    | none => rfl
    | some k' =>
      change (Pi.single k' 1 : Nat → BitVec 16) k = _
      rw [Pi.single_apply]
      refine if_congr ?_ rfl rfl
      rw [Option.some.injEq]
      exact eq_comm
  have buffers : (inodeUser inode).2 = 0 := by cases inode <;> rfl
  constructor
  · intro same
    refine ⟨fun i => ?_, fun k => ?_⟩
    · have here := congrFun (congrArg Prod.snd same) i
      rw [Prod.snd_add, buffers, add_zero] at here
      exact here
    · have here := congrFun (congrArg Prod.fst same) k
      rw [Prod.fst_add, Pi.add_apply, user] at here
      exact here
  · rintro ⟨heads, inodes⟩
    refine Prod.ext (funext fun k => ?_) (funext fun i => ?_)
    · rw [Prod.fst_add, Pi.add_apply, user]
      exact inodes k
    · rw [Prod.snd_add, buffers, add_zero]
      exact heads i

/-- A call that returns has counted every inode and every buffer as often as before, and the inode that it returns once
    more, exactly if it handed no badly starting directory to `empty_dir`. The place of an inode that was freed had no
    user before the call either. -/
theorem path_calls_balanced {call : PathCall} {inode : Option Nat} (run : call.run fuel w v = .ok (inode, v'))
    (whole : ∀ k u, call.emptied fuel w v = some (k, u) → u.meetsHole fuel k = false) :
    ((∀ i, (v'.drive.cache.head i).count = (v.drive.cache.head i).count) ∧
        ∀ k, (v'.inode k).count = (v.inode k).count + if inode = some k then 1 else 0) ↔
      ∀ k u, call.emptied fuel w v = some (k, u) → u.startsBadly fuel k = false := by
  rw [← counts_iff]
  -- the calls that return no inode
  have plain {call : Except Halt (Int × Volume)} (run : (call.map fun r => ((none : Option Nat), r.2)) = .ok (inode, v')) :
      ∃ value, call = .ok (value, v') ∧ inode = none := by
    rcases of_map run with ⟨⟨value, v₁⟩, done, same⟩
    cases same
    exact ⟨value, done, rfl⟩
  cases call with
  | namei path => exact iff_of_true (namei_counts run) nofun
  | openNamei path flag mode =>
    rcases of_map run with ⟨⟨⟨value, inode₁⟩, v₁⟩, done, same⟩
    cases same
    exact iff_of_true (openNamei_counts done) nofun
  | mknod path mode dev =>
    rcases plain run with ⟨value, done, rfl⟩
    exact iff_of_true ((sysMknod_counts done).trans (add_zero _).symm) nofun
  | mkdir path mode =>
    rcases plain run with ⟨value, done, rfl⟩
    exact iff_of_true ((sysMkdir_counts done).trans (add_zero _).symm) nofun
  | rmdir path =>
    rcases plain run with ⟨value, done, rfl⟩
    rw [← sysRmdir_counts done whole]
    exact Eq.congr_right (add_zero _)
  | unlink path =>
    rcases plain run with ⟨value, done, rfl⟩
    exact iff_of_true ((sysUnlink_counts done).trans (add_zero _).symm) nofun
  | link oldname newname =>
    rcases plain run with ⟨value, done, rfl⟩
    exact iff_of_true ((sysLink_counts done).trans (add_zero _).symm) nofun

section Sample

def sampleRoot : MInode :=
  { MInode.zero with mode := 0o040755, size := 48, nlinks := 3, zone := fun z => if z = 0 then 10 else 0, dev := ramdisk, num := 1 }

def sampleDir : MInode :=
  { MInode.zero with mode := 0o040755, size := 32, nlinks := 2, zone := fun z => if z = 0 then 11 else 0 }

/-- The root directory, with an entry `d` behind `.` and `..`. -/
def sampleEntries : Block := strcpyEntry (setEntryInode (dotEntries (fun _ => 0) 1 1) 2 2) 2 [0x64]

/-- A ramdisk whose root holds a directory `d` with this block. -/
def sampleVolume (block : Block) : Volume where
  device := {
    drive := {
      cache := bufferInit 4 (fun _ => 0) fun _ _ => 0
      disk := fun b => if b = 4 then Buffer.storeInode (fun _ => 0) 1 sampleDir else if b = 10 then sampleEntries
        else if b = 11 then block else fun _ => 0
      start := 0x8007D000
      length := 65536
      inode := fun k => if k = 0 then { sampleRoot with count := 4 } else MInode.zero
      imapBlocks := 1
      zmapBlocks := 1 }
    sb := ⟨32, 64, 1, 1, 5, ramdisk, fun i => if i = 0 then some ⟨fun n => if n = 0 then 7 else 0, false⟩ else none,
      fun i => if i = 0 then some ⟨fun n => if n = 0 then 0xC1 else 0, false⟩ else none⟩ }
  imount := some 0
  last := 0
  memory := ⟨fun _ => 0, fun _ _ => 0, fun _ _ => 0, 0, fun _ => 0, 0⟩

/-- The superuser in the root directory. -/
def superUser : Walker := ⟨⟨0, 0, 0, 1, 0⟩, some 0, some 0⟩

/-- `rmdir` of an empty directory. -/
theorem emptied_directory_balanced : ∃ v', (PathCall.rmdir [0x64]).run 8 superUser (sampleVolume (dotEntries (fun _ => 0) 2 1)) =
      .ok (none, v') ∧
    (∀ i, (v'.drive.cache.head i).count = ((sampleVolume (dotEntries (fun _ => 0) 2 1)).drive.cache.head i).count) ∧
      ∀ k, (v'.inode k).count = ((sampleVolume (dotEntries (fun _ => 0) 2 1)).inode k).count +
        if none = some k then 1 else 0 := by
  generalize given : sampleVolume (dotEntries (fun _ => 0) 2 1) = v
  have test : ((PathCall.rmdir [0x64]).run 8 superUser v).toOption.map Prod.fst = some none := by
    subst given
    decide +kernel
  have asked : ((PathCall.rmdir [0x64]).emptied 8 superUser v).all
      (fun p => !p.2.meetsHole 8 p.1 && !p.2.startsBadly 8 p.1) = true := by
    subst given
    decide +kernel
  have both (k : Nat) (u : Volume) (same : (PathCall.rmdir [0x64]).emptied 8 superUser v = some (k, u)) :
      u.meetsHole 8 k = false ∧ u.startsBadly 8 k = false := by
    rw [same] at asked
    simpa using asked
  cases run : (PathCall.rmdir [0x64]).run 8 superUser v with
  | error fault =>
    rw [run] at test
    cases test
  | ok result =>
    rw [run] at test
    rcases result with ⟨inode, v'⟩
    have gives : inode = none := Option.some.inj test
    subst gives
    exact ⟨v', rfl, (path_calls_balanced run fun k u same => (both k u same).1).2 fun k u same => (both k u same).2⟩

/-- `rmdir` of a directory whose block is full of zeros keeps the buffer of the block. -/
theorem bad_directory_pins_buffer :
    ((PathCall.rmdir [0x64]).emptied 8 superUser (sampleVolume fun _ => 0)).any (fun (k, u) => u.meetsHole 8 k) = false ∧
      ((PathCall.rmdir [0x64]).run 8 superUser (sampleVolume fun _ => 0)).toOption.map (fun r =>
        (r.1, (r.2.drive.cache.head 2).count)) = some (none, 1) ∧
      ((sampleVolume fun _ => 0).drive.cache.head 2).count = 0 := by
  decide +kernel

end Sample

end K210Linux.Fs.Volume
