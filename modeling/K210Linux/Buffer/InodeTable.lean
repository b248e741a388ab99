import K210Linux.Buffer.Contents

namespace K210Linux.Buffer

open Outcome K210Linux.Lib
open K210Linux.Fs (Block MInode)

/-- Two bytes of a block, the low one first. -/
def word (block : Block) (k : Nat) : BitVec 16 := block (k + 1) ++ block k

/-- The `struct d_inode` in place `n` of a block, read into an inode. -/
def loadInode (block : Block) (n : Nat) (inode : MInode) : MInode :=
  { inode with
    mode := word block (32 * n)
    uid := word block (32 * n + 2)
    size := word block (32 * n + 6) ++ word block (32 * n + 4)
    mtime := word block (32 * n + 10) ++ word block (32 * n + 8)
    gid := block (32 * n + 12)
    nlinks := block (32 * n + 13)
    zone := fun z => if z < 9 then word block (32 * n + 14 + 2 * z) else inode.zone z }

namespace Drive

def setInode (s : Drive) (k : Nat) (inode : MInode) : Drive := { s with inode := Function.update s.inode k inode }

/-- `read_inode`. -/
def readInode (fuel k : Nat) (s : Drive) : Except Halt Drive :=
  let inode := s.inode k
  if inode.dev ≠ ramdisk then .error (.panic "trying to read inode without device")
  else do
    let (bh, s) ← breadWith stuck inode.dev (BitVec.ofNat 64 (s.inodeBlock inode.num.toNat)) fuel s
    match bh with
    | none => .error (.panic "unable to read i-node block")
    | some i =>
      let s := s.setInode k (loadInode (s.cache.head i).data ((inode.num.toNat - 1) % 32) inode)
      s.brelse i

/-- The `for` loop of `get_empty_inode`, with `last_inode` and the inode found so far. -/
def scanEmpty (table : Nat → MInode) : Nat → Nat → Option Nat → Nat × Option Nat
  | 0, last, found => (last, found)
  | left + 1, last, found =>
    let last := if nrInode ≤ last + 1 then 0 else last + 1
    if (table last).count = 0 then
      if (table last).dirt then scanEmpty table left last (some last) else (last, some last)
    else scanEmpty table left last found

/-- The inner `while` loop of `get_empty_inode`. -/
def cleanInode (k : Nat) : Nat → Drive → Except Halt Drive
  | 0, _ => .error .asleep
  | fuel + 1, s =>
    if (s.inode k).dirt then do
      let s ← writeInode fuel k s
      cleanInode k fuel s
    else .ok s

/-- `get_empty_inode`: the inode, `last_inode`, and the drive. -/
def getEmptyInode : Nat → Nat → Drive → Except Halt (Nat × Nat × Drive)
  | 0, _, _ => .error .asleep
  | fuel + 1, last, s =>
    match scanEmpty s.inode nrInode last none with
    | (_, none) => .error (.panic "No free inodes in mem")
    | (last, some k) => do
      let s ← cleanInode k fuel s
      if (s.inode k).count ≠ 0 then getEmptyInode fuel last s
      else .ok (k, last, s.setInode k { MInode.zero with count := 1 })

/-- The loop of `iget` over the inode table. -/
def findInode (table : Nat → MInode) (num : BitVec 16) : Nat → Option Nat
  | 0 => none
  | left + 1 =>
    let k := nrInode - (left + 1)
    if (table k).dev = ramdisk ∧ (table k).num = num then some k else findInode table num left

/-- `iget` on the ramdisk; no inode is a mount point. The empty inode that is not needed goes to `iput`, which
    only clears it: it has no device and no links. -/
def iget (fuel last : Nat) (num : BitVec 16) (s : Drive) : Except Halt (Nat × Nat × Drive) := do
  let (empty, last, s) ← getEmptyInode fuel last s
  match findInode s.inode num nrInode with
  | some k =>
    let s := s.setInode k { s.inode k with count := (s.inode k).count + 1 }
    .ok (k, last, s.setInode empty MInode.zero)
  | none =>
    let s := s.setInode empty { s.inode empty with dev := ramdisk, num := num }
    let s ← readInode fuel empty s
    .ok (empty, last, s)

/-- `get_pipe_inode`, with what `get_free_page` returns. -/
def getPipeInode (fuel last : Nat) (page : BitVec 32) (s : Drive) : Except Halt (Option Nat × Nat × Drive) := do
  let (k, last, s) ← getEmptyInode fuel last s
  if page = 0 then .ok (none, last, s.setInode k { s.inode k with size := page, count := 0 })
  else
    .ok (some k, last, s.setInode k { s.inode k with
      size := page, count := 2, pipe := true, zone := Function.update (Function.update (s.inode k).zone 1 0) 0 0 })

end Drive

variable {s s' : Drive} {flat : Nat → Block} {k : Nat}

/-- The number of an inode on the ramdisk: its place in the inode table is inside the ramdisk. -/
def Numbered (s : Drive) (num : BitVec 16) : Prop :=
  1 ≤ num.toNat ∧ Inside s (s.inodeBlock num.toNat)

theorem findInode_none {table : Nat → MInode} {num : BitVec 16} {left : Nat} (bound : left ≤ Drive.nrInode)
    (missing : Drive.findInode table num left = none) :
    ∀ j, Drive.nrInode - left ≤ j → j < Drive.nrInode → ¬ ((table j).dev = ramdisk ∧ (table j).num = num) := by
  induction left with
  | zero =>
    intro j first last
    omega
  | succ left ih =>
    unfold Drive.findInode at missing
    simp only at missing
    split at missing
    · cases missing
    · rename_i other
      intro j first last
      by_cases here : j = Drive.nrInode - (left + 1)
      · rw [here]
        exact other
      · exact ih (by omega) missing j (by omega) last

theorem Steady.setInode (s : Drive) (k : Nat) (inode : MInode) : Steady s (s.setInode k inode) :=
  ⟨rfl, rfl, rfl, ⟨rfl, rfl⟩, fun _ => rfl, fun _ _ => ⟨rfl, rfl⟩, fun _ used => used⟩

end K210Linux.Buffer
