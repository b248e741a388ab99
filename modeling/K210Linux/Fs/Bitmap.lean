import K210Linux.Fs.Inode
import Mathlib.Data.List.Range
import Mathlib.Tactic

namespace K210Linux.Fs

/-- The bytes from the start of a block on; those from 1024 on lie behind it. -/
abbrev Block := Nat → Byte

def mapSlots : Nat := 8
def bitsPerBlock : Nat := 8192

def bitAt (block : Block) (nr : Nat) : Bool := (block (nr / 8)).getLsbD (nr % 8)

def markBit (nr : Nat) (block : Block) : Block :=
  Function.update block (nr / 8) (block (nr / 8) ||| BitVec.twoPow 8 (nr % 8))

def unmarkBit (nr : Nat) (block : Block) : Block :=
  Function.update block (nr / 8) (block (nr / 8) &&& ~~~ BitVec.twoPow 8 (nr % 8))

/-- The byte of a bit begins a doubleword of the block. -/
def BitAligned (nr : Nat) : Prop := nr / 8 % 8 = 0

instance : DecidablePred BitAligned := fun nr => inferInstanceAs (Decidable (nr / 8 % 8 = 0))

/-- The exception of a load whose address is not a multiple of 8, in which `machine_exception_handler` loops. -/
def misaligned : String := "load address misaligned"

/-- `set_bit`, with the old bit. It loads and stores a doubleword at the address of the byte; the other bits of it stay as
    they were. -/
def setBit (nr : Nat) (block : Block) : Except String (Bool × Block) :=
  if BitAligned nr then .ok (bitAt block nr, markBit nr block) else .error misaligned

/-- `clear_bit`, which returns whether the bit was clear. -/
def clearBit (nr : Nat) (block : Block) : Except String (Bool × Block) :=
  if BitAligned nr then .ok (!bitAt block nr, unmarkBit nr block) else .error misaligned

/-- The loop of `find_first_zero`, which looks at the same first word every time. -/
def findFirstZeroFrom (block : Block) (i : Nat) : Nat → Nat
  | 0 => i * 8
  | left + 1 =>
    match (List.range 64).find? fun j => !bitAt block j with
    | some j => i * 8 + j
    | none => findFirstZeroFrom block (i + 8) left

def findFirstZero (block : Block) : Nat := findFirstZeroFrom block 0 128

structure MapBlock where
  data : Block
  dirt : Bool

/-- The fields of `super_block` that the allocation of inodes and zones uses. -/
structure SuperBlock where
  ninodes : BitVec 16
  nzones : BitVec 16
  imapBlocks : BitVec 16
  zmapBlocks : BitVec 16
  firstdatazone : BitVec 16
  dev : BitVec 16
  imap : Nat → Option MapBlock
  zmap : Nat → Option MapBlock

/-- The search of `new_inode` and `new_block` through the blocks of a bitmap from `i` on: the values of `i`,
    `j` and `bh` behind the loop. -/
def searchMap (map : Nat → Option MapBlock) (i j : Nat) (bh : Option MapBlock) :
    Nat → Nat × Nat × Option MapBlock
  | 0 => (i, j, bh)
  | left + 1 =>
    match map i with
    | none => searchMap map (i + 1) j none left
    | some b =>
      let j := findFirstZero b.data
      if j < bitsPerBlock then (i, j, some b) else searchMap map (i + 1) j (some b) left

/-- What `new_inode` takes from the current task and the clock. -/
structure Creator where
  euid : BitVec 16
  egid : Byte
  time : BitVec 32

def freshInode (dev num : BitVec 16) (creator : Creator) : MInode :=
  { MInode.zero with
    count := 1, nlinks := 1, dev := dev, uid := creator.euid, gid := creator.egid, dirt := true, num := num
    mtime := creator.time, atime := creator.time, ctime := creator.time }

/-- `new_inode`, on an empty inode that it found; NULL is `none`. -/
def newInode (sb : SuperBlock) (creator : Creator) : Except String (Option MInode × SuperBlock) :=
  match searchMap sb.imap 0 bitsPerBlock none mapSlots with
  | (_, _, none) => .ok (none, sb)
  | (i, j, some bh) =>
    if bitsPerBlock ≤ j ∨ sb.ninodes.toNat < j + i * bitsPerBlock then .ok (none, sb)
    else do
      let (old, data) ← setBit j bh.data
      if old then .error "new_inode: bit already set"
      else .ok (some (freshInode sb.dev (BitVec.ofNat 16 (j + i * bitsPerBlock)) creator),
        { sb with imap := Function.update sb.imap i (some ⟨data, true⟩) })

/-- `free_inode` on an inode of the device; the mask for the bit is `1 << 13` and not `(1 << 13) - 1`. -/
def freeInode (sb : SuperBlock) (inode : MInode) : Except String (MInode × SuperBlock) :=
  if inode.dev = 0 then .ok (.zero, sb)
  else if 1 < inode.count then .error "free_inode"
  else if inode.nlinks ≠ 0 then .error "trying to free inode with links"
  else if inode.dev ≠ sb.dev then .error "trying to free inode on nonexistent device"
  else if inode.num < 1 ∨ sb.ninodes < inode.num then .error "trying to free inode 0 or nonexistent inode"
  else
    match sb.imap (inode.num >>> 13).toNat with
    | none => .error "nonexistent imap in superblock"
    | some bh => do
      let (_, data) ← clearBit (inode.num &&& 8192).toNat bh.data
      .ok (.zero, { sb with imap := Function.update sb.imap (inode.num >>> 13).toNat (some ⟨data, true⟩) })

theorem bitAt_markBit (block : Block) (nr n : Nat) :
    bitAt (markBit nr block) n = (bitAt block n || decide (n = nr)) := by
  simp only [bitAt, markBit]
  by_cases byte : n / 8 = nr / 8
  · rw [byte, Function.update_self, BitVec.getLsbD_or, BitVec.getLsbD_twoPow]
    have iff : nr % 8 = n % 8 ↔ n = nr := by omega
    have small : nr % 8 < 8 := Nat.mod_lt _ (by decide)
    simp [iff, small]
  · rw [Function.update_of_ne byte]
    have other : n ≠ nr := fun same => byte (by rw [same])
    simp [other]

theorem bitAt_unmarkBit (block : Block) (nr n : Nat) :
    bitAt (unmarkBit nr block) n = (bitAt block n && decide (n ≠ nr)) := by
  simp only [bitAt, unmarkBit]
  by_cases byte : n / 8 = nr / 8
  · rw [byte, Function.update_self, BitVec.getLsbD_and, BitVec.getLsbD_not, BitVec.getLsbD_twoPow]
    have iff : nr % 8 = n % 8 ↔ n = nr := by omega
    have small : nr % 8 < 8 := Nat.mod_lt _ (by decide)
    have small' : n % 8 < 8 := Nat.mod_lt _ (by decide)
    simp [iff, small, small']
  · rw [Function.update_of_ne byte]
    have other : n ≠ nr := fun same => byte (by rw [same])
    simp [other]

section Aligned

variable {nr : Nat} {block : Block} {r : Bool × Block}

theorem setBit_of_aligned (aligned : BitAligned nr) : setBit nr block = .ok (bitAt block nr, markBit nr block) := if_pos aligned

theorem setBit_of_not (not : ¬ BitAligned nr) : setBit nr block = .error misaligned := if_neg not

theorem clearBit_of_aligned (aligned : BitAligned nr) : clearBit nr block = .ok (!bitAt block nr, unmarkBit nr block) :=
  if_pos aligned

theorem of_setBit (done : setBit nr block = .ok r) : BitAligned nr ∧ r = (bitAt block nr, markBit nr block) := by
  unfold setBit at done
  split at done
  · exact ⟨‹_›, (Except.ok.inj done).symm⟩
  · cases done

theorem of_clearBit (done : clearBit nr block = .ok r) : BitAligned nr ∧ r = (!bitAt block nr, unmarkBit nr block) := by
  unfold clearBit at done
  split at done
  · exact ⟨‹_›, (Except.ok.inj done).symm⟩
  · cases done

/-- The offset of a bit in its block decides. -/
theorem bitAligned_mod (n : Nat) : BitAligned (n % bitsPerBlock) ↔ BitAligned n := by
  unfold BitAligned bitsPerBlock
  omega

end Aligned

theorem findFirstZero_some {block : Block} {j : Nat} (first : (List.range 64).find? (fun j => !bitAt block j) = some j) :
    findFirstZero block = j := by
  rw [findFirstZero, findFirstZeroFrom, first]
  simp

theorem findFirstZero_none {block : Block} (first : (List.range 64).find? (fun j => !bitAt block j) = none) :
    findFirstZero block = bitsPerBlock := by
  have ends : ∀ left i, findFirstZeroFrom block i left = (i + 8 * left) * 8 := by
    intro left
    induction left with
    | zero => intro i; rfl
    | succ left ih =>
      intro i
      rw [findFirstZeroFrom, first]
      simp only
      rw [ih (i + 8)]
      omega
  exact ends 128 0

/-- `find_first_zero` finds a clear bit among the first 64, if it finds one. -/
theorem findFirstZero_clear {block : Block} (found : findFirstZero block < bitsPerBlock) :
    findFirstZero block < 64 ∧ bitAt block (findFirstZero block) = false := by
  cases first : (List.range 64).find? fun j => !bitAt block j with
  | some j =>
    rw [findFirstZero_some first]
    exact ⟨List.mem_range.mp (List.mem_of_find?_eq_some first), by simpa using List.find?_some first⟩
  | none =>
    rw [findFirstZero_none first] at found
    exact absurd found (lt_irrefl _)

/-- A block of a bitmap with a clear bit. -/
theorem searchMap_found {map : Nat → Option MapBlock} {i j i' j' left : Nat} {bh : Option MapBlock} {b : MapBlock}
    (none : bitsPerBlock ≤ j) (found : searchMap map i j bh left = (i', j', some b)) (inside : j' < bitsPerBlock) :
    map i' = some b ∧ i' < i + left ∧ j' < 64 ∧ bitAt b.data j' = false := by
  induction left generalizing i j bh with
  | zero =>
    cases found
    omega
  | succ left ih =>
    rw [searchMap] at found
    cases here : map i with
    | none =>
      rw [here] at found
      obtain ⟨present, le, clear⟩ := ih none found
      exact ⟨present, by omega, clear⟩
    | some b' =>
      simp only [here] at found
      split at found
      · rename_i has
        cases found
        exact ⟨here, by omega, findFirstZero_clear has⟩
      · rename_i full
        obtain ⟨present, le, clear⟩ := ih (not_lt.mp full) found
        exact ⟨present, by omega, clear⟩

/-- Bit `n` of a bitmap that goes over several blocks. -/
def mapBit (map : Nat → Option MapBlock) (n : Nat) : Bool :=
  match map (n / bitsPerBlock) with
  | none => false
  | some b => bitAt b.data (n % bitsPerBlock)

section MapBit

variable {map : Nat → Option MapBlock} {i j n : Nat} {b : MapBlock}

theorem mapBit_at (present : map i = some b) (inside : j < bitsPerBlock) :
    mapBit map (j + i * bitsPerBlock) = bitAt b.data j := by
  have block : (j + i * bitsPerBlock) / bitsPerBlock = i := by
    rw [bitsPerBlock] at *
    omega
  have bit : (j + i * bitsPerBlock) % bitsPerBlock = j := by
    rw [bitsPerBlock] at *
    omega
  rw [mapBit, block, present, bit]

theorem mapBit_markBit (present : map i = some b) (inside : j < bitsPerBlock) :
    mapBit (Function.update map i (some ⟨markBit j b.data, true⟩)) n =
      (mapBit map n || decide (n = j + i * bitsPerBlock)) := by
  unfold mapBit
  by_cases same : n / bitsPerBlock = i
  · have iff : n % bitsPerBlock = j ↔ n = j + i * bitsPerBlock := by
      rw [bitsPerBlock] at *
      omega
    simp only [same, Function.update_self, present, bitAt_markBit, iff]
  · have other : n ≠ j + i * bitsPerBlock := by
      rw [bitsPerBlock] at *
      omega
    simp [Function.update_of_ne same, other]

theorem mapBit_unmarkBit (present : map i = some b) (inside : j < bitsPerBlock) :
    mapBit (Function.update map i (some ⟨unmarkBit j b.data, true⟩)) n =
      (mapBit map n && decide (n ≠ j + i * bitsPerBlock)) := by
  unfold mapBit
  by_cases same : n / bitsPerBlock = i
  · have iff : n % bitsPerBlock = j ↔ n = j + i * bitsPerBlock := by
      rw [bitsPerBlock] at *
      omega
    simp only [same, Function.update_self, present, bitAt_unmarkBit, ne_eq, iff]
  · have other : n ≠ j + i * bitsPerBlock := by
      rw [bitsPerBlock] at *
      omega
    simp [Function.update_of_ne same, other]

end MapBit

end K210Linux.Fs
