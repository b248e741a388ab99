import K210Linux.Fs.BlockMap

namespace K210Linux.Fs

open Outcome

def nameLen : Nat := 14
def dirEntriesPerBlock : Nat := 64
def dot : Byte := 0x2E

/-- The fields of the `struct dir_entry` with index `j` in a block. -/
def entryInode (block : Block) (j : Nat) : BitVec 16 := block (16 * j + 1) ++ block (16 * j)
def entryName (block : Block) (j i : Nat) : Byte := block (16 * j + 2 + i)

def setEntryInode (block : Block) (j : Nat) (inr : BitVec 16) : Block :=
  Function.update (Function.update block (16 * j) (inr.setWidth 8)) (16 * j + 1) ((inr >>> 8).setWidth 8)

def setEntryName (block : Block) (j : Nat) (name : List Byte) : Block := fun i =>
  if 16 * j + 2 ≤ i ∧ i < 16 * j + 16 then name.getD (i - (16 * j + 2)) 0 else block i

/-- `match`. -/
def matchEntry (name : List Byte) (block : Block) (j : Nat) : Bool :=
  if entryInode block j = 0 ∨ nameLen < name.length then false
  else if name.length < nameLen ∧ entryName block j name.length ≠ 0 then false
  else (List.range name.length).all fun i => name.getD i 0 = entryName block j i

/-- The loop of `find_entry`: `de` is entry `j` of block `z`, and 0 stands for a `bh` that is NULL.
    Entry 64 of a block is taken for one of the block, and then the next block starts with index 65. -/
def findLoop (fs : FileSystem) (dir entries : Nat) (name : List Byte) (i j z : Nat) :
    Nat → Except String (Option (Nat × Nat))
  | 0 => .error "no end"
  | fuel + 1 =>
    if entries ≤ i then .ok none
    else if z = 0 then .error "bh is NULL"
    else if 64 < j then do
      let z ← bmap fs dir (i / dirEntriesPerBlock)
      if z = 0 then findLoop fs dir entries name (i + dirEntriesPerBlock) j 0 fuel
      else if matchEntry name (fs.disk z) 0 then .ok (some (z, 0))
      else findLoop fs dir entries name (i + 1) 1 z fuel
    else if matchEntry name (fs.disk z) j then .ok (some (z, j))
    else findLoop fs dir entries name (i + 1) (j + 1) z fuel

/-- The name that `find_entry` looks for: cut, and with ".." taken for "." in the root of the process. -/
def lookedUp (atRoot : Bool) (name : List Byte) : List Byte :=
  if atRoot ∧ name.take nameLen = [dot, dot] then [dot] else name.take nameLen

/-- `find_entry` in a directory of the root device: the block and the index of the entry. -/
def findEntry (fs : FileSystem) (dir : Nat) (atRoot : Bool) (name : List Byte) : Except String (Option (Nat × Nat)) :=
  let entries := (fs.inode dir).size.toNat / 16
  let z := ((fs.inode dir).zone 0).toNat
  if name.take nameLen = [] ∨ z = 0 then .ok none
  else findLoop fs dir entries (lookedUp atRoot name) 0 0 z (entries + 1)

/-- `i_size` raised to hold entry `i`, if it does not. -/
def growDirectory (inode : MInode) (i : Nat) (time : BitVec 32) : MInode :=
  if inode.size.toNat ≤ i * 16 then
    { inode with size := BitVec.ofNat 32 ((i + 1) * 16), dirt := true, ctime := time }
  else inode

/-- One round of the loop of `add_entry` at index `i`, which is entry `j` of block `z`: the entry, if it is free. -/
def tryEntry (fs : FileSystem) (dir : Nat) (name : List Byte) (time : BitVec 32) (i j z : Nat) :
    Bool × FileSystem :=
  let isNew := (fs.inode dir).size.toNat ≤ i * 16
  let inode := growDirectory (fs.inode dir) i time
  let block := if isNew then setEntryInode (fs.disk z) j 0 else fs.disk z
  if entryInode block j = 0 then
    (true, (fs.setInode dir { inode with mtime := time }).setBlock z (setEntryName block j name))
  else (false, fs)

/-- The loop of `add_entry`. -/
def addLoop (fs : FileSystem) (dir : Nat) (name : List Byte) (time : BitVec 32) (i j z : Nat) :
    Nat → Except String (Option (Nat × Nat) × FileSystem)
  | 0 => .error "no end"
  | fuel + 1 =>
    if dirEntriesPerBlock ≤ j then do
      let (z, fs) ← createBlock fs dir (i / dirEntriesPerBlock) time
      if z = 0 then .ok (none, fs)
      else
        let found := tryEntry fs dir name time i 0 z
        if found.1 then .ok (some (z, 0), found.2) else addLoop fs dir name time (i + 1) 1 z fuel
    else
      let found := tryEntry fs dir name time i j z
      if found.1 then .ok (some (z, j), found.2) else addLoop fs dir name time (i + 1) (j + 1) z fuel

/-- `add_entry`. The last index it can look at is the first one behind the entries. -/
def addEntry (fs : FileSystem) (dir : Nat) (name : List Byte) (time : BitVec 32) :
    Except String (Option (Nat × Nat) × FileSystem) :=
  let z := ((fs.inode dir).zone 0).toNat
  if name.take nameLen = [] ∨ z = 0 then .ok (none, fs)
  else addLoop fs dir (name.take nameLen) time 0 0 z ((fs.inode dir).size.toNat / 16 + 2)

/-- `de -> inode = inr`. -/
def storeEntry (fs : FileSystem) (place : Nat × Nat) (inr : BitVec 16) : FileSystem :=
  fs.setBlock place.1 (setEntryInode (fs.disk place.1) place.2 inr)

section Entries

variable {block : Block} {j : Nat}

theorem entryInode_setEntryInode (block : Block) (j : Nat) (inr : BitVec 16) (j' : Nat) :
    entryInode (setEntryInode block j inr) j' = if j' = j then inr else entryInode block j' := by
  unfold entryInode setEntryInode
  by_cases same : j' = j
  · subst same
    rw [if_pos rfl, Function.update_self, Function.update_of_ne (by omega), Function.update_self]
    apply BitVec.eq_of_getLsbD_eq
    intro b bound
    simp only [BitVec.getLsbD_append, BitVec.getLsbD_setWidth, BitVec.getLsbD_ushiftRight]
    split
    · rename_i low
      simp [low]
    · rw [show 8 + (b - 8) = b by omega]
      simp [show b - 8 < 8 by omega]
  · rw [if_neg same, Function.update_of_ne (by omega), Function.update_of_ne (by omega),
      Function.update_of_ne (by omega), Function.update_of_ne (by omega)]

theorem entryName_setEntryInode (block : Block) (j : Nat) (inr : BitVec 16) (j' : Nat) {i : Nat} (bound : i < 14) :
    entryName (setEntryInode block j inr) j' i = entryName block j' i := by
  unfold entryName setEntryInode
  rw [Function.update_of_ne (by omega), Function.update_of_ne (by omega)]

theorem entryInode_setEntryName (block : Block) (j : Nat) (name : List Byte) (j' : Nat) :
    entryInode (setEntryName block j name) j' = entryInode block j' := by
  unfold entryInode setEntryName
  rw [if_neg (by omega), if_neg (by omega)]

theorem entryName_setEntryName (block : Block) (j : Nat) (name : List Byte) (j' : Nat) {i : Nat} (bound : i < 14) :
    entryName (setEntryName block j name) j' i = if j' = j then name.getD i 0 else entryName block j' i := by
  unfold entryName setEntryName
  by_cases same : j' = j
  · subst same
    rw [if_pos (by omega), if_pos rfl]
    congr 1
    omega
  · rw [if_neg (by omega), if_neg same]

/-- The name of an entry, with zeros behind it. -/
def HasName (block : Block) (j : Nat) (name : List Byte) : Prop :=
  ∀ i, i < 14 → entryName block j i = name.getD i 0

/-- What a path hands over as a name, cut to 14 bytes. -/
structure IsName (name : List Byte) : Prop where
  some : name ≠ []
  cut : name.length ≤ 14
  noNul : ∀ b ∈ name, b ≠ 0

theorem getD_ne_zero {name : List Byte} (isName : IsName name) {i : Nat} (inside : i < name.length) :
    name.getD i 0 ≠ 0 := by
  rw [List.getD_eq_getElem _ _ inside]
  exact isName.noNul _ (List.getElem_mem inside)

/-- Two names with the same bytes and zeros behind them are one. -/
theorem name_eq {name name' : List Byte} (isName : IsName name) (isName' : IsName name')
    (same : ∀ i, i < 14 → name.getD i 0 = name'.getD i 0) : name = name' := by
  have length : ∀ a b : List Byte, IsName a → IsName b → (∀ i, i < 14 → a.getD i 0 = b.getD i 0) →
      a.length ≤ b.length := by
    intro a b isA isB equal
    by_contra longer
    have inside : b.length < a.length := not_le.mp longer
    have short := isA.cut
    have byte := equal b.length (by omega)
    rw [List.getD_eq_default b _ (le_refl _)] at byte
    exact getD_ne_zero isA inside byte
  have lengths : name.length = name'.length :=
    le_antisymm (length _ _ isName isName' same) (length _ _ isName' isName fun i bound => (same i bound).symm)
  apply List.ext_getElem lengths
  intro i inside inside'
  have short := isName.cut
  have byte := same i (by omega)
  rwa [List.getD_eq_getElem _ _ inside, List.getD_eq_getElem _ _ inside'] at byte

theorem HasName.unique {name name' : List Byte} (has : HasName block j name) (has' : HasName block j name')
    (isName : IsName name) (isName' : IsName name') : name = name' :=
  name_eq isName isName' fun i bound => (has i bound).symm.trans (has' i bound)

/-- `match` compares the bytes of the name and the one behind them. -/
theorem matchEntry_iff {name stored : List Byte} (isName : IsName name) (isStored : IsName stored)
    (has : HasName block j stored) : matchEntry name block j = true ↔ entryInode block j ≠ 0 ∧ name = stored := by
  have short := isName.cut
  constructor
  · intro matched
    unfold matchEntry at matched
    split at matched
    · cases matched
    · rename_i live
      split at matched
      · cases matched
      · rename_i ends
        refine ⟨fun dead => live (.inl dead), ?_⟩
        apply name_eq isName isStored
        have bytes : ∀ i, i < name.length → name.getD i 0 = stored.getD i 0 := by
          intro i inside
          rw [← has i (by omega)]
          exact of_decide_eq_true (List.all_eq_true.mp matched i (List.mem_range.mpr inside))
        intro i bound
        by_cases inside : i < name.length
        · exact bytes i inside
        · -- behind the name the entry holds 0, and no name goes on behind a 0
          have stops : stored.length ≤ name.length := by
            by_contra longer
            have next : name.length < 14 := by omega
            have zero : entryName block j name.length = 0 := by
              by_contra some
              exact ends ⟨next, some⟩
            rw [has _ next] at zero
            exact getD_ne_zero isStored (not_le.mp longer) zero
          rw [List.getD_eq_default _ _ (not_lt.mp inside),
            List.getD_eq_default _ _ (stops.trans (not_lt.mp inside))]
  · intro both
    rcases both with ⟨live, same⟩
    subst same
    have fits : ¬ (entryInode block j = 0 ∨ nameLen < name.length) := by
      rw [not_or, nameLen]
      exact ⟨live, not_lt.mpr short⟩
    have ends : ¬ (name.length < nameLen ∧ entryName block j name.length ≠ 0) := by
      intro wrong
      apply wrong.2
      rw [has _ wrong.1]
      exact List.getD_eq_default _ _ (le_refl _)
    unfold matchEntry
    rw [if_neg fits, if_neg ends, List.all_eq_true]
    intro i inside
    have bound := List.mem_range.mp inside
    rw [has i (by omega)]
    exact decide_eq_true rfl

end Entries

end K210Linux.Fs
