import K210Linux.Lib.Run
import K210Linux.Fs.InodeCache

/-! The inode table under any number of tasks that call `iget` and `iput`, and sleep in between. -/

namespace K210Linux.Fs

open K210Linux.Lib
open K210Linux.Buffer.Drive (nrInode)

/-- Where a task is: outside, in `iget` for `dev` and `num`, in `iput`, or in `sync_inodes`. The slot that `iget` gets
    from `get_empty_inode` is `empty`; `ret` is what `iget` returns when `iput` has put back its empty slot. -/
inductive InodePhase where
  | idle
  -- `get_empty_inode`: `wait_on_inode`, and the block of `write_inode`
  | chosen (dev num : BitVec 16) (k : Nat)
  | cleaning (dev num : BitVec 16) (k : Nat)
  -- `iget`: the start of the search, `wait_on_inode`, `lock_inode` and the block of `read_inode`
  | searching (dev num : BitVec 16) (empty : Nat)
  | matched (dev num : BitVec 16) (empty k : Nat)
  | locking (empty : Nat)
  | reading (empty : Nat)
  -- `iput`: `wait_on_inode`, `sync_dev`, `wait_on_inode` before `repeat`, and the block of `write_inode`
  | putting (k : Nat) (ret : Option Nat)
  | syncing (k : Nat) (ret : Option Nat)
  | resting (k : Nat) (ret : Option Nat)
  | storing (k : Nat) (ret : Option Nat)
  -- a turn of the loop of `sync_inodes`
  | flushing (k : Nat)
  | flushed (k : Nat)
  -- at a mount point, at a pipe, or in the release of an inode of a device without links
  | elsewhere

/-- `inode_table` with `last_inode`, and the inodes on the devices as the buffers have them. -/
structure SharedInodes where
  inode : Nat → MInode
  last : Nat
  stored : BitVec 16 → BitVec 16 → MInode

/-- The `for` loop of `get_empty_inode`, with `last_inode` and the inode found so far. -/
def scanUnused (table : Nat → MInode) : Nat → Nat → Option Nat → Nat × Option Nat
  | 0, last, found => (last, found)
  | left + 1, last, found =>
    let last := if nrInode ≤ last + 1 then 0 else last + 1
    if (table last).count = 0 then
      if (table last).dirt = false ∧ (table last).lock = false then (last, some last)
      else scanUnused table left last (some last)
    else scanUnused table left last found

/-- The first inode of the table that is inode `num` of `dev`. -/
def searchTable (table : Nat → MInode) (dev num : BitVec 16) : Nat → Option Nat
  | 0 => none
  | left + 1 =>
    let k := nrInode - (left + 1)
    if (table k).dev = dev ∧ (table k).num = num then some k else searchTable table dev num left

namespace SharedInodes

variable (c : SharedInodes)

def setInode (k : Nat) (inode : MInode) : SharedInodes := { c with inode := Function.update c.inode k inode }

/-- `write_inode` of an inode that is not locked: it returns to `back`, or its task has to wait for the block. -/
def writeInode (k : Nat) (back during : InodePhase) : InodePhase × SharedInodes :=
  if (c.inode k).dirt = false ∨ (c.inode k).dev = 0 then (back, c)
  else (during, c.setInode k { c.inode k with lock := true })

/-- `write_inode` when it has the block. -/
def store (k : Nat) : SharedInodes where
  inode := Function.update c.inode k { c.inode k with dirt := false, lock := false }
  last := c.last
  stored := fun dev num => if dev = (c.inode k).dev ∧ num = (c.inode k).num then c.inode k else c.stored dev num

/-- `read_inode` of an inode with its device and number set: its task has to wait for the lock, or for the block. -/
def readInode (k : Nat) : InodePhase × SharedInodes :=
  if (c.inode k).lock then (.locking k, c) else (.reading k, c.setInode k { c.inode k with lock := true })

/-- `read_inode` when it has the block. -/
def load (k : Nat) : SharedInodes :=
  c.setInode k { (c.inode k).withRecord (c.stored (c.inode k).dev (c.inode k).num) with lock := false }

/-- The search of `get_empty_inode`; `none` is the panic. -/
def choose (dev num : BitVec 16) : Option (InodePhase × SharedInodes) :=
  match scanUnused c.inode nrInode c.last none with
  | (_, none) => none
  | (last, some k) => some (.chosen dev num k, { c with last := last })

/-- The loop of `iget`. -/
def search (dev num : BitVec 16) (empty : Nat) : InodePhase × SharedInodes :=
  match searchTable c.inode dev num nrInode with
  | some k => (.matched dev num empty k, c)
  | none => (c.setInode empty { c.inode empty with dev := dev, num := num }).readInode empty

/-- `iput` from the label `repeat` on, with what the call returns when it ends. -/
def release (k : Nat) (ret : Option Nat) : InodePhase × Option Nat × SharedInodes :=
  let inode := c.inode k
  if 1 < inode.count then (.idle, ret, c.setInode k { inode with count := inode.count - 1 })
  else if inode.nlinks = 0 then
    if inode.dev = 0 ∧ isReg inode.mode = false ∧ isDir inode.mode = false then (.idle, ret, c.setInode k MInode.zero)
    else (.elsewhere, none, c)
  else if inode.dirt then
    let (phase, c) := c.writeInode k (.resting k ret) (.storing k ret)
    (phase, none, c)
  else (.idle, ret, c.setInode k { inode with count := inode.count - 1 })

/-- A task goes on from one point where it can sleep to the next, or to its return, with the inode that `iget` returns.
    It is `none` where the task sleeps on, and at a panic. -/
def turn : InodePhase → Option (InodePhase × Option Nat × SharedInodes)
  | .idle => none
  | .chosen dev num k =>
    let inode := c.inode k
    if inode.lock then none
    else if inode.dirt then
      let (phase, c) := c.writeInode k (.chosen dev num k) (.cleaning dev num k)
      some (phase, none, c)
    else if inode.count ≠ 0 then (c.choose dev num).map fun (phase, c) => (phase, none, c)
    else some (.searching dev num k, none, c.setInode k { MInode.zero with count := 1 })
  | .cleaning dev num k => some (.chosen dev num k, none, c.store k)
  | .searching dev num empty =>
    let (phase, c) := c.search dev num empty
    some (phase, none, c)
  | .matched dev num empty k =>
    let inode := c.inode k
    if inode.lock then none
    else if inode.dev ≠ dev ∨ inode.num ≠ num then some (.searching dev num empty, none, c)
    else
      let c := c.setInode k { inode with count := inode.count + 1 }
      if inode.mount then some (.elsewhere, none, c) else some (.putting empty (some k), none, c)
  | .locking empty =>
    if (c.inode empty).lock then none
    else some (.reading empty, none, c.setInode empty { c.inode empty with lock := true })
  | .reading empty => some (.idle, some empty, c.load empty)
  | .putting k ret =>
    let inode := c.inode k
    if inode.lock then none
    else if inode.count = 0 then none
    else if inode.pipe then some (.elsewhere, none, c)
    else if isBlk inode.mode then some (.syncing k ret, none, c)
    else some (c.release k ret)
  | .syncing k ret => some (.resting k ret, none, c)
  | .resting k ret => if (c.inode k).lock then none else some (c.release k ret)
  | .storing k ret => some (.resting k ret, none, c.store k)
  | .flushing k =>
    let inode := c.inode k
    if inode.lock then none
    else if inode.dirt ∧ inode.pipe = false then
      let (phase, c) := c.writeInode k .idle (.flushed k)
      some (phase, none, c)
    else some (.idle, none, c)
  | .flushed k => some (.idle, none, c.store k)
  | .elsewhere => none

end SharedInodes

/-- The table, where each task is, and how many references it has to each inode outside of its calls. -/
structure InodeTasks (τ : Type) where
  shared : SharedInodes
  phase : τ → InodePhase
  held : τ → Nat → Nat

/-- A task calls `iget` or `iput`, goes on, or changes an inode that it has; or it writes an inode in `sync_inodes`,
    which a call that waits for a block may be in as well. -/
inductive InodeEvent (τ : Type) where
  | iget (task : τ) (dev num : BitVec 16)
  | iput (task : τ) (k : Nat)
  | change (task : τ) (k : Nat) (record : MInode)
  | sync (task : τ) (k : Nat)
  | turn (task : τ)

namespace InodeTasks

variable {τ : Type} [DecidableEq τ]

/-- A task is somewhere else, with other references of its own. -/
def move (s : InodeTasks τ) (t : τ) (phase : InodePhase) (held : Nat → Nat) (shared : SharedInodes) : InodeTasks τ where
  shared := shared
  phase := Function.update s.phase t phase
  held := Function.update s.held t held

/-- One reference more, if there is one. -/
def gain (held : Nat → Nat) : Option Nat → Nat → Nat
  | none => held
  | some k => Function.update held k (held k + 1)

def step (e : InodeEvent τ) (s : InodeTasks τ) : Option (InodeTasks τ) :=
  match e with
  | .iget t dev num =>
    match s.phase t with
    | .idle =>
      if dev = 0 then none
      else (s.shared.choose dev num).map fun (phase, shared) => s.move t phase (s.held t) shared
    | _ => none
  | .iput t k =>
    match s.phase t with
    | .idle => some (s.move t (.putting k none) (Function.update (s.held t) k (s.held t k - 1)) s.shared)
    | _ => none
  | .change t k record =>
    match s.phase t with
    | .idle =>
      some (s.move t .idle (s.held t) (s.shared.setInode k { (s.shared.inode k).withRecord record with dirt := true }))
    | _ => none
  | .sync t k =>
    match s.phase t with
    | .idle => some (s.move t (.flushing k) (s.held t) s.shared)
    | _ => none
  | .turn t =>
    (s.shared.turn (s.phase t)).map fun (phase, ret, shared) => s.move t phase (gain (s.held t) ret) shared

end InodeTasks

end K210Linux.Fs
