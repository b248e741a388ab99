import K210Linux.Lib.Links
import K210Linux.Fs.Bitmap

namespace K210Linux.Buffer

open K210Linux.Fs (Block)

/-- The fields of `buffer_head` that are no links, with the block that `b_data` points to. -/
structure BufferHead where
  dev : BitVec 16
  blocknr : BitVec 64
  uptodate : Bool
  dirt : Bool
  lock : Bool
  count : BitVec 8
  data : Block

/-- The buffers, numbered from `start_buffer` on, with their links, `hash_table` and `free_list`. -/
structure Cache where
  nrBuffers : Nat
  head : Nat → BufferHead
  prev : Nat → Option Nat
  next : Nat → Option Nat
  prevFree : Nat → Option Nat
  nextFree : Nat → Option Nat
  hash : Nat → Option Nat
  freeList : Option Nat

def nrHash : Nat := 307

/-- `_hashfn`. -/
def hashfn (dev : BitVec 16) (block : BitVec 64) : Nat := (dev ^^^ block.setWidth 16).toNat % nrHash

namespace Cache

variable (c : Cache)

def setHead (i : Nat) (head : BufferHead) : Cache := { c with head := Function.update c.head i head }

/-- The chain of `hash(bh -> b_dev,bh -> b_blocknr)`. -/
def slot (i : Nat) : Nat := hashfn (c.head i).dev (c.head i).blocknr

/-- `bh -> b_next -> b_prev = bh -> b_prev`, if there is a next buffer. -/
def linkBack (i : Nat) : Cache :=
  match c.next i with
  | some n => { c with prev := Function.update c.prev n (c.prev i) }
  | none => c

/-- `bh -> b_prev -> b_next = bh -> b_next`, if there is a previous buffer. -/
def linkForward (i : Nat) : Cache :=
  match c.prev i with
  | some p => { c with next := Function.update c.next p (c.next i) }
  | none => c

/-- The part of `remove_from_queues` on the hash queue. -/
def unhash (i : Nat) : Cache :=
  let c := (c.linkBack i).linkForward i
  if c.hash (c.slot i) = some i then { c with hash := Function.update c.hash (c.slot i) (c.next i) } else c

/-- `remove_from_queues`; `none` is the panic. -/
def removeFromQueues (i : Nat) : Option Cache :=
  let c := c.unhash i
  match c.prevFree i, c.nextFree i with
  | some p, some n =>
    let c := { c with nextFree := Function.update c.nextFree p (some n) }
    let c := { c with prevFree := Function.update c.prevFree n (some p) }
    some (if c.freeList = some i then { c with freeList := c.nextFree i } else c)
  | _, _ => none

/-- `bh -> b_next -> b_prev = bh`, if there is a next buffer. -/
def linkSelf (i : Nat) : Cache :=
  match c.next i with
  | some n => { c with prev := Function.update c.prev n (some i) }
  | none => c

/-- The part of `insert_into_queues` on the hash queue. -/
def rehash (i : Nat) : Cache :=
  let c := { c with prev := Function.update c.prev i none, next := Function.update c.next i none }
  if (c.head i).dev = 0 then c
  else
    let c := { c with next := Function.update c.next i (c.hash (c.slot i)) }
    let c := { c with hash := Function.update c.hash (c.slot i) (some i) }
    c.linkSelf i

/-- `insert_into_queues`; `none` where it would follow a null pointer. -/
def insertIntoQueues (i : Nat) : Option Cache :=
  match c.freeList with
  | none => none
  | some f =>
    let c := { c with nextFree := Function.update c.nextFree i (some f) }
    let c := { c with prevFree := Function.update c.prevFree i (c.prevFree f) }
    match c.prevFree f with
    | none => none
    | some p =>
      let c := { c with nextFree := Function.update c.nextFree p (some i) }
      let c := { c with prevFree := Function.update c.prevFree f (some i) }
      some (c.rehash i)

/-- The end of `getblk`: the buffer gets a new block. -/
def assign (i : Nat) (dev : BitVec 16) (block : BitVec 64) : Option Cache :=
  let c := c.setHead i { c.head i with count := 1, dirt := false, uptodate := false }
  match c.removeFromQueues i with
  | none => none
  | some c => (c.setHead i { c.head i with dev := dev, blocknr := block }).insertIntoQueues i

/-- The loop of `find_buffer` from `tmp` on. -/
def findFrom (dev : BitVec 16) (block : BitVec 64) (tmp : Option Nat) : Nat → Option Nat
  | 0 => none
  | left + 1 =>
    match tmp with
    | none => none
    | some i =>
      if (c.head i).dev = dev ∧ (c.head i).blocknr = block then some i else findFrom dev block (c.next i) left

/-- `find_buffer`. A chain has no more nodes than there are buffers. -/
def findBuffer (dev : BitVec 16) (block : BitVec 64) : Option Nat :=
  c.findFrom dev block (c.hash (hashfn dev block)) (c.nrBuffers + 1)

/-- `BADNESS`. -/
def badness (i : Nat) : Nat := (c.head i).dirt.toNat * 2 + (c.head i).lock.toNat

/-- The loop of `getblk` over the free list, at `tmp` with `bh` the best buffer so far. -/
def pickFrom (tmp : Nat) (bh : Option Nat) : Nat → Option Nat
  | 0 => bh
  | left + 1 =>
    let onward (bh : Option Nat) : Option Nat :=
      match c.nextFree tmp with
      | none => bh
      | some n => if some n = c.freeList then bh else pickFrom n bh left
    if (c.head tmp).count ≠ 0 then onward bh
    else
      match bh with
      | none => if c.badness tmp = 0 then some tmp else onward (some tmp)
      | some b =>
        if c.badness tmp < c.badness b then if c.badness tmp = 0 then some tmp else onward (some tmp)
        else onward (some b)

/-- The unused buffer that `getblk` chooses. -/
def pick : Option Nat :=
  match c.freeList with
  | none => none
  | some f => c.pickFrom f none c.nrBuffers

end Cache

/-- The cache after `buffer_init` found room for `n` buffers. It leaves `b_blocknr` and the blocks as they
    were in memory. -/
def bufferInit (n : Nat) (blocknr : Nat → BitVec 64) (data : Nat → Block) : Cache where
  nrBuffers := n
  head := fun i => {
    dev := 0, blocknr := blocknr i, uptodate := false, dirt := false, lock := false, count := 0, data := data i }
  prev := fun _ => none
  next := fun _ => none
  prevFree := fun i => some (if i = 0 then n - 1 else i - 1)
  nextFree := fun i => some (if i + 1 = n then 0 else i + 1)
  hash := fun _ => none
  freeList := some 0

end K210Linux.Buffer
