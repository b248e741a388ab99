import Mathlib.Data.BitVec
import Mathlib.Logic.Function.Basic

namespace K210Linux.Fs

abbrev Byte := BitVec 8

/-- `struct m_inode`. The first seven fields are those of `struct d_inode`. -/
structure MInode where
  mode : BitVec 16
  uid : BitVec 16
  size : BitVec 32
  mtime : BitVec 32
  gid : Byte
  nlinks : Byte
  zone : Nat → BitVec 16
  atime : BitVec 32
  ctime : BitVec 32
  dev : BitVec 16
  num : BitVec 16
  count : BitVec 16
  lock : Bool
  dirt : Bool
  pipe : Bool
  mount : Bool

/-- `memset(inode, 0, sizeof(*inode))`. -/
def MInode.zero : MInode where
  mode := 0
  uid := 0
  size := 0
  mtime := 0
  gid := 0
  nlinks := 0
  zone := fun _ => 0
  atime := 0
  ctime := 0
  dev := 0
  num := 0
  count := 0
  lock := false
  dirt := false
  pipe := false
  mount := false

end K210Linux.Fs
