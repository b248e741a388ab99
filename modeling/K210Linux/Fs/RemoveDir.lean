import K210Linux.Fs.AddEntry
import K210Linux.Fs.DirectoryRun

/-! `empty_dir` and `sys_rmdir`. -/

namespace K210Linux.Fs

open Outcome

/-- `strcmp` of a text without zeros with the name of an entry finds no difference. -/
def sameString (text : List Byte) (name : Nat → Byte) : Bool :=
  (List.range text.length).all (fun i => text.getD i 0 = name i) && decide (name text.length = 0)

/-- The loop of `empty_dir` at index `nr`, which is entry `j` of block `z`. Where a block is missing, the buffer that was
    released already is released once more. -/
def emptyLoop (fs : FileSystem) (ino len nr j z : Nat) : Nat → Except String Bool
  | 0 => .error "no end"
  | fuel + 1 =>
    if len ≤ nr then .ok true
    else if dirEntriesPerBlock ≤ j then do
      let z ← bmap fs ino (nr / dirEntriesPerBlock)
      if z = 0 then .error "Trying to free free buffer"
      else if entryInode (fs.disk z) 0 ≠ 0 then .ok false
      else emptyLoop fs ino len (nr + 1) 1 z fuel
    else if entryInode (fs.disk z) j ≠ 0 then .ok false
    else emptyLoop fs ino len (nr + 1) (j + 1) z fuel

def emptyDir (fs : FileSystem) (ino : Nat) : Except String Bool :=
  let inode := fs.inode ino
  let len := inode.size.toNat / 16
  let z := (inode.zone 0).toNat
  let block := fs.disk z
  if len < 2 ∨ z = 0 then .ok false
  else if entryInode block 0 ≠ inode.num ∨ entryInode block 1 = 0 ∨ ¬ sameString [dot] (entryName block 0) ∨
      ¬ sameString [dot, dot] (entryName block 1) then .ok false
  else emptyLoop fs ino len 2 2 z len

/-- `sys_rmdir` for an entry that is there. -/
def removeEntry (m : Mount) (stale : Nat → Block) (caller : Caller) (dir : BitVec 16) (place : Nat × Nat) :
    Except String (Int × Mount) :=
  let inr := m.entry place
  let m := iget m inr
  let inode := m.fs.inode inr.toNat
  let owner := m.fs.inode dir.toNat
  if owner.mode &&& 0o1000 ≠ 0 ∧ caller.euid ≠ 0 ∧ inode.uid ≠ caller.euid then
    putBothAnd m stale caller.time dir inr (-eperm)
  else if inode.dev ≠ owner.dev ∨ 1 < inode.count then putBothAnd m stale caller.time dir inr (-eperm)
  else if inr = dir then putBothAnd m stale caller.time inr dir (-eperm)
  else if ¬ isDir inode.mode then putBothAnd m stale caller.time inr dir (-enotdir)
  else do
    let empty ← emptyDir m.fs inr.toNat
    if ¬ empty then putBothAnd m stale caller.time inr dir (-enotempty)
    else
      let m := { m with fs := storeEntry m.fs place 0 }
      let m := m.setInode inr.toNat { inode with nlinks := 0, dirt := true }
      let m := m.setInode dir.toNat { owner with
        nlinks := owner.nlinks - 1, ctime := caller.time, mtime := caller.time, dirt := true }
      putBothAnd m stale caller.time dir inr 0

/-- `sys_rmdir`, behind the `dir_namei` that gave it the directory and the rest of the path. -/
def sysRmdir (m : Mount) (stale : Nat → Block) (caller : Caller) (dir : BitVec 16) (name : List Byte) :
    Except String (Int × Mount) :=
  if caller.euid ≠ 0 then .ok (-eperm, m)
  else
    let m := iget m dir
    if name = [] then putAnd m stale caller.time dir (-enoent)
    else if ¬ permission (m.fs.inode dir.toNat) caller mayWrite then putAnd m stale caller.time dir (-eperm)
    else do
      match ← findEntry m.fs dir.toNat (dir = caller.root) name with
      | none => putAnd m stale caller.time dir (-enoent)
      | some place => removeEntry m stale caller dir place

variable {fs : FileSystem} {ino : Nat}

/-- Entry `i` has a name. -/
def NamedSlot (fs : FileSystem) (ino i : Nat) (name : List Byte) : Prop :=
  (∀ k, k < name.length → slotName fs ino i k = name.getD k 0) ∧ slotName fs ino i name.length = 0

/-- A directory that holds nothing but itself and its parent. -/
structure HoldsNothing (fs : FileSystem) (ino : Nat) : Prop where
  two : 2 ≤ (fs.inode ino).size.toNat / 16
  self : slotInode fs ino 0 = (fs.inode ino).num ∧ NamedSlot fs ino 0 [dot]
  parent : slotInode fs ino 1 ≠ 0 ∧ NamedSlot fs ino 1 [dot, dot]
  free : ∀ i, 2 ≤ i → i < (fs.inode ino).size.toNat / 16 → slotInode fs ino i = 0

theorem sameString_iff (text : List Byte) (name : Nat → Byte) :
    sameString text name = true ↔ (∀ k, k < text.length → name k = text.getD k 0) ∧ name text.length = 0 := by
  unfold sameString
  simp only [Bool.and_eq_true, List.all_eq_true, List.mem_range, decide_eq_true_eq]
  constructor
  · rintro ⟨bytes, ends⟩
    exact ⟨fun k inside => (bytes k inside).symm, ends⟩
  · rintro ⟨bytes, ends⟩
    exact ⟨fun k inside => (bytes k inside).symm, ends⟩

section Loop

variable {i j z fuel : Nat}

theorem NoHoles.entry (noHoles : NoHoles fs ino) (inside : i < (fs.inode ino).size.toNat / 16) :
    i / dirEntriesPerBlock < bigBlock ∧ fs.zoneOf (blockRef ino (i / dirEntriesPerBlock)) ≠ 0 := by
  apply noHoles
  rw [blockSize, dirEntriesPerBlock]
  omega

/-- The loop says whether the entries from `i` on are free. -/
theorem emptyLoop_spec (noHoles : NoHoles fs ino) (position : Position fs ino i j z)
    (enough : (fs.inode ino).size.toNat / 16 - i < fuel) :
    ∃ empty, emptyLoop fs ino ((fs.inode ino).size.toNat / 16) i j z fuel = .ok empty ∧
      (empty = true ↔ ∀ k, i ≤ k → k < (fs.inode ino).size.toNat / 16 → slotInode fs ino k = 0) := by
  induction fuel generalizing i j z with
  | zero => omega
  | succ fuel ih =>
    unfold emptyLoop
    by_cases finished : (fs.inode ino).size.toNat / 16 ≤ i
    · rw [if_pos finished]
      exact ⟨true, rfl, iff_of_true rfl fun k above below => by omega⟩
    · rcases noHoles.entry (not_le.mp finished) with ⟨bound, present⟩
      -- one entry, at any place of its block
      have round : ∃ empty, (if entryInode (fs.disk (fs.zoneOf (blockRef ino (i / dirEntriesPerBlock))))
            (i % dirEntriesPerBlock) ≠ 0 then .ok false
          else emptyLoop fs ino ((fs.inode ino).size.toNat / 16) (i + 1) (i % dirEntriesPerBlock + 1)
            (fs.zoneOf (blockRef ino (i / dirEntriesPerBlock))) fuel) = Except.ok empty ∧
          (empty = true ↔ ∀ k, i ≤ k → k < (fs.inode ino).size.toNat / 16 → slotInode fs ino k = 0) := by
        rw [← slot_eq present]
        by_cases live : slotInode fs ino i ≠ 0
        · rw [if_pos live]
          refine ⟨false, rfl, iff_of_false Bool.false_ne_true ?_⟩
          intro free
          exact live (free i (le_refl _) (not_le.mp finished))
        · rw [if_neg live]
          rcases ih (.next bound present) (by omega) with ⟨empty, run, iff⟩
          refine ⟨empty, run, iff.trans ?_⟩
          constructor
          · intro free k above below
            by_cases here : k = i
            · rw [here]
              exact not_not.mp live
            · exact free k (by omega) below
          · intro free k above below
            exact free k (by omega) below
      rw [if_neg finished]
      cases position with
      | inside _ _ _ =>
        have index : ¬ dirEntriesPerBlock ≤ i % dirEntriesPerBlock := not_le.mpr (Nat.mod_lt _ (by decide))
        rw [if_neg index]
        exact round
      | behind z edge =>
        rw [if_pos (le_refl _), bind_ok (bmap_eq fs ino bound)]
        rw [if_neg present]
        rw [edge] at round
        exact round

end Loop

/-- `empty_dir` finds out whether a directory without holes holds nothing. -/
theorem emptyDir_spec (noHoles : NoHoles fs ino) :
    ∃ empty, emptyDir fs ino = .ok empty ∧ (empty = true ↔ HoldsNothing fs ino) := by
  unfold emptyDir
  dsimp only
  by_cases short : (fs.inode ino).size.toNat / 16 < 2
  · rw [if_pos (.inl short)]
    refine ⟨false, rfl, iff_of_false Bool.false_ne_true ?_⟩
    intro nothing
    have two := nothing.two
    omega
  · have first : fs.zoneOf (blockRef ino 0) ≠ 0 := (noHoles.entry (by omega : 0 < _)).2
    have zone : ((fs.inode ino).zone 0).toNat ≠ 0 := first
    have number : ∀ i, i < 2 → entryInode (fs.disk ((fs.inode ino).zone 0).toNat) i = slotInode fs ino i := by
      intro i small
      have block : i / dirEntriesPerBlock = 0 ∧ i % dirEntriesPerBlock = i := by
        rw [dirEntriesPerBlock]
        omega
      rw [slot_eq (by rw [block.1]; exact first), block.1, block.2]
      rfl
    have named : ∀ i text, i < 2 → (sameString text (entryName (fs.disk ((fs.inode ino).zone 0).toNat) i) = true ↔
        NamedSlot fs ino i text) := by
      intro i text small
      have block : i / dirEntriesPerBlock = 0 ∧ i % dirEntriesPerBlock = i := by
        rw [dirEntriesPerBlock]
        omega
      have name : entryName (fs.disk ((fs.inode ino).zone 0).toNat) i = slotName fs ino i := by
        funext k
        unfold slotName entryByte FileSystem.dataAt entryName
        rw [block.1, block.2, if_neg first, Nat.add_assoc]
        rfl
      rw [sameString_iff, name]
      rfl
    rw [if_neg (not_or.mpr ⟨short, zone⟩), number 0 (by decide), number 1 (by decide)]
    have dot₀ := named 0 [dot] (by decide)
    have dots₁ := named 1 [dot, dot] (by decide)
    generalize sameString [dot] (entryName (fs.disk ((fs.inode ino).zone 0).toNat) 0) = isDot at *
    generalize sameString [dot, dot] (entryName (fs.disk ((fs.inode ino).zone 0).toNat) 1) = isDots at *
    by_cases bad : slotInode fs ino 0 ≠ (fs.inode ino).num ∨ slotInode fs ino 1 = 0 ∨ ¬ isDot ∨ ¬ isDots
    · rw [if_pos bad]
      refine ⟨false, rfl, iff_of_false Bool.false_ne_true ?_⟩
      intro nothing
      rcases bad with other | none | name | name
      · exact other nothing.self.1
      · exact nothing.parent.1 none
      · exact name (dot₀.mpr nothing.self.2)
      · exact name (dots₁.mpr nothing.parent.2)
    · rw [if_neg bad]
      simp only [not_or, not_not] at bad
      rcases bad with ⟨self, parent, isDot, isDots⟩
      have position : Position fs ino 2 2 ((fs.inode ino).zone 0).toNat := .inside (by decide) first (.inr (by decide))
      rcases emptyLoop_spec noHoles position (by omega : _ < (fs.inode ino).size.toNat / 16) with ⟨empty, run, iff⟩
      refine ⟨empty, run, iff.trans ?_⟩
      exact ⟨fun free => ⟨not_lt.mp short, ⟨self, dot₀.mp isDot⟩, ⟨parent, dots₁.mp isDots⟩, free⟩,
        fun nothing => nothing.free⟩

section Remove

variable {m m' : Mount} {stale : Nat → Block} {caller : Caller} {dir nr : BitVec 16} {name : List Byte} {i : Nat}

/-- `iget` changes no zone and no block. -/
theorem iget_tree (m : Mount) (nr : BitVec 16) : SameTree m.fs (iget m nr).fs := SameTree.setInode rfl

theorem SameTree.slotInode {fs fs' : FileSystem} (same : SameTree fs fs') (ino i : Nat) :
    slotInode fs' ino i = slotInode fs ino i := by
  unfold Fs.slotInode entryByte
  rw [same.dataAt, same.dataAt]

theorem iget_size (m : Mount) (nr : BitVec 16) (ino : Nat) : ((iget m nr).fs.inode ino).size = (m.fs.inode ino).size := by
  unfold iget Mount.setInode FileSystem.setInode
  dsimp only
  by_cases same : ino = nr.toNat
  · rw [same, Function.update_self]
  · rw [Function.update_of_ne same]

theorem iget_noHoles {ino : Nat} (noHoles : NoHoles m.fs ino) (nr : BitVec 16) : NoHoles (iget m nr).fs ino := by
  intro b below
  rw [iget_size] at below
  rw [(iget_tree m nr).zoneOf]
  exact noHoles b below

theorem of_putBothAnd {α : Type} {time : BitVec 32} {ino ino' : BitVec 16} {value result : α}
    (run : putBothAnd m stale time ino ino' value = .ok (result, m')) : result = value := by
  unfold putBothAnd putAnd at run
  rcases of_bind run with ⟨m₁, -, rest⟩
  rcases of_bind rest with ⟨m₂, -, last⟩
  cases last
  rfl

theorem of_putAnd {α : Type} {time : BitVec 32} {ino : BitVec 16} {value result : α}
    (run : putAnd m stale time ino value = .ok (result, m')) : result = value := by
  unfold putAnd at run
  rcases of_bind run with ⟨m₁, -, last⟩
  cases last
  rfl

theorem removeEntry_empty {place : Nat × Nat} (noHoles : NoHoles m.fs (m.entry place).toNat)
    (run : removeEntry m stale caller dir place = .ok (0, m')) :
    ∀ i, 2 ≤ i → i < (m.fs.inode (m.entry place).toNat).size.toNat / 16 → slotInode m.fs (m.entry place).toNat i = 0 := by
  unfold removeEntry at run
  dsimp only at run
  split_ifs at run
  · exact absurd (of_putBothAnd run) (by decide)
  · exact absurd (of_putBothAnd run) (by decide)
  · exact absurd (of_putBothAnd run) (by decide)
  · rcases emptyDir_spec (iget_noHoles noHoles (m.entry place)) with ⟨empty, test, iff⟩
    rw [bind_ok test] at run
    split at run
    · exact absurd (of_putBothAnd run) (by decide)
    · rename_i nothing
      have free := (iff.mp (not_not.mp nothing)).free
      intro i above below
      rw [← (iget_tree m (m.entry place)).slotInode]
      refine free i above ?_
      rw [iget_size]
      exact below
  · exact absurd (of_putBothAnd run) (by decide)

end Remove

/-- `empty_dir` is right about every directory without holes, and so `sys_rmdir` removes no entry of one that holds
    more than itself and its parent. -/
theorem empty_dir_iff_holds_nothing :
    (∀ (fs : FileSystem) (ino : Nat), NoHoles fs ino →
      ∃ empty, emptyDir fs ino = .ok empty ∧ (empty = true ↔ HoldsNothing fs ino)) ∧
    ∀ (m m' : Mount) (stale : Nat → Block) (caller : Caller) (dir : BitVec 16) (name : List Byte),
      sysRmdir m stale caller dir name = .ok (0, m') →
      ∃ place, findEntry (iget m dir).fs dir.toNat (dir = caller.root) name = .ok (some place) ∧
        (NoHoles m.fs (m.entry place).toNat → ∀ i, 2 ≤ i →
          i < (m.fs.inode (m.entry place).toNat).size.toNat / 16 → slotInode m.fs (m.entry place).toNat i = 0) := by
  refine ⟨fun fs ino noHoles => emptyDir_spec noHoles, ?_⟩
  intro m m' stale caller dir name run
  unfold sysRmdir at run
  dsimp only at run
  split_ifs at run
  · cases run
  · exact absurd (of_putAnd run) (by decide)
  · rcases of_bind run with ⟨found, lookup, rest⟩
    cases found with
    | none => exact absurd (of_putAnd rest) (by decide)
    | some place =>
      refine ⟨place, lookup, ?_⟩
      intro noHoles i above below
      rw [← (iget_tree m dir).slotInode]
      refine removeEntry_empty (iget_noHoles noHoles dir) rest i above ?_
      rw [iget_size]
      exact below
  · exact absurd (of_putAnd run) (by decide)

theorem newDirectory_holds_nothing : HoldsNothing (iget ⟨newDirectory, []⟩ 2).fs 2 := by
  have noHoles : NoHoles (Mount.mk newDirectory []).fs 2 := by
    intro b below
    have size : (newDirectory.inode 2).size.toNat = 32 := rfl
    have first : b = 0 := by
      rw [size, blockSize] at below
      omega
    subst first
    exact ⟨by decide, by decide⟩
  rcases empty_dir_iff_holds_nothing.1 _ 2 (iget_noHoles noHoles 2) with ⟨empty, run, iff⟩
  have result : emptyDir (iget ⟨newDirectory, []⟩ 2).fs 2 = .ok true := by decide +kernel
  rw [run] at result
  exact iff.mp (Except.ok.inj result)

end K210Linux.Fs
