import K210Linux.Buffer.InodeTable
import K210Linux.Fs.Links

/-! The inode table over the inodes that are stored on the root device. -/

namespace K210Linux.Fs

open Outcome
open K210Linux.Buffer (Halt ramdisk findInode_none)
open K210Linux.Buffer.Drive (nrInode scanEmpty findInode)

/-- `inode_table` with its `last_inode`, and the inodes of the root device by number, as they are on it. Nothing else
    is mounted and no inode is locked. -/
structure InodeTable where
  inode : Nat → MInode
  last : Nat
  stored : BitVec 16 → MInode

/-- An inode with the fields of `struct d_inode` from another one. -/
def MInode.withRecord (inode record : MInode) : MInode :=
  { inode with
    mode := record.mode, uid := record.uid, size := record.size, mtime := record.mtime, gid := record.gid
    nlinks := record.nlinks, zone := record.zone }

namespace InodeTable

variable (t : InodeTable)

def setInode (k : Nat) (inode : MInode) : InodeTable := { t with inode := Function.update t.inode k inode }

/-- `inode->i_count++`. -/
def hold (k : Nat) : InodeTable := t.setInode k { t.inode k with count := (t.inode k).count + 1 }

/-- `read_inode`. -/
def readInode (k : Nat) : Except Halt InodeTable :=
  if (t.inode k).dev ≠ ramdisk then .error (.panic "trying to read inode without device")
  else .ok (t.setInode k ((t.inode k).withRecord (t.stored (t.inode k).num)))

/-- `write_inode`. -/
def writeInode (k : Nat) : Except Halt InodeTable :=
  let inode := t.inode k
  if inode.dirt = false ∨ inode.dev = 0 then .ok t
  else if inode.dev ≠ ramdisk then .error (.panic "trying to write inode without device")
  else .ok { t.setInode k { inode with dirt := false } with stored := Function.update t.stored inode.num inode }

/-- A turn of the loop of `sync_inodes`. -/
def syncInode (k : Nat) : Except Halt InodeTable :=
  if (t.inode k).dirt && !(t.inode k).pipe then t.writeInode k else .ok t

/-- The loop of `sync_inodes` over the inodes from `k` on. -/
def syncInodesFrom (k : Nat) : Nat → InodeTable → Except Halt InodeTable
  | 0, t => .ok t
  | left + 1, t => do
    let t ← t.syncInode k
    syncInodesFrom (k + 1) left t

/-- What `iput` does first with a block special file; the buffers that `sync_dev` writes are no part of the table. -/
def syncBlk (k : Nat) : Except Halt InodeTable :=
  if isBlk (t.inode k).mode then syncInodesFrom 0 nrInode t else .ok t

/-- `get_empty_inode`. Writing does not clean an inode without device, and the inner loop does not end then. -/
def getEmptyInode : Except Halt (Nat × InodeTable) :=
  match scanEmpty t.inode nrInode t.last none with
  | (_, none) => .error (.panic "No free inodes in mem")
  | (last, some k) => do
    let t ← { t with last := last }.writeInode k
    if (t.inode k).dirt then .error .asleep
    else .ok (k, t.setInode k { MInode.zero with count := 1 })

end InodeTable

section Table

-- `truncate` and `free_inode` of an inode of a device that has no links
variable (release : Nat → InodeTable → Except Halt InodeTable)

namespace InodeTable

/-- The end of `iput`, behind the label `repeat`. -/
def dropLast (k : Nat) (t : InodeTable) : Except Halt InodeTable :=
  let inode := t.inode k
  if 1 < inode.count then .ok (t.setInode k { inode with count := inode.count - 1 })
  else if inode.nlinks = 0 then
    if inode.dev = 0 ∧ isReg inode.mode = false ∧ isDir inode.mode = false then .ok (t.setInode k MInode.zero)
    else release k t
  else do
    let t ← t.writeInode k
    if (t.inode k).dirt then .error .asleep
    else .ok (t.setInode k { t.inode k with count := (t.inode k).count - 1 })

/-- `iput`. -/
def iput (k : Nat) (t : InodeTable) : Except Halt InodeTable := do
  let inode := t.inode k
  if inode.count = 0 then .error (.panic "iput: trying to free free inode")
  else if inode.pipe then
    if inode.count - 1 ≠ 0 then .ok (t.setInode k { inode with count := inode.count - 1 })
    else .ok (t.setInode k { inode with count := 0, dirt := false, pipe := false })
  else
    let t ← t.syncBlk k
    dropLast release k t

/-- `iget` on the root device. -/
def iget (num : BitVec 16) (t : InodeTable) : Except Halt (Nat × InodeTable) := do
  let (empty, t) ← t.getEmptyInode
  match findInode t.inode num nrInode with
  | some k =>
    let t ← iput release empty (t.hold k)
    .ok (k, t)
  | none =>
    let t ← (t.setInode empty { t.inode empty with dev := ramdisk, num := num }).readInode empty
    .ok (empty, t)

end InodeTable

end Table

section Scan

variable {table : Nat → MInode} {left last last' k : Nat} {found : Option Nat}

theorem scanEmpty_unused (before : ∀ j, found = some j → j < nrInode ∧ (table j).count = 0)
    (scanned : scanEmpty table left last found = (last', some k)) : k < nrInode ∧ (table k).count = 0 := by
  induction left generalizing last found with
  | zero =>
    cases scanned
    exact before k rfl
  | succ left ih =>
    have inside : (if nrInode ≤ last + 1 then 0 else last + 1) < nrInode := by
      split
      · decide
      · omega
    unfold scanEmpty at scanned
    dsimp only at scanned
    generalize (if nrInode ≤ last + 1 then 0 else last + 1) = here at scanned inside
    split at scanned
    · rename_i unused
      split at scanned
      · exact ih (fun j same => Option.some.inj same ▸ ⟨inside, unused⟩) scanned
      · cases scanned
        exact ⟨inside, unused⟩
    · exact ih before scanned

/-- A search that finds nothing has looked at `left` inodes from the one behind `last_inode` on. -/
theorem scanEmpty_none (scanned : scanEmpty table left last found = (last', none)) :
    found = none ∧ ∀ i, i < left → (table ((min last 31 + 1 + i) % 32)).count ≠ 0 := by
  induction left generalizing last found with
  | zero =>
    cases scanned
    exact ⟨rfl, fun i below => absurd below (Nat.not_lt_zero i)⟩
  | succ left ih =>
    have next : (if nrInode ≤ last + 1 then 0 else last + 1) = (min last 31 + 1) % 32 := by
      change (if 32 ≤ last + 1 then 0 else last + 1) = _
      split <;> omega
    unfold scanEmpty at scanned
    dsimp only at scanned
    rw [next] at scanned
    split at scanned
    · split at scanned
      · cases (ih scanned).1
      · cases scanned
    · rename_i used
      have rest := ih scanned
      refine ⟨rest.1, ?_⟩
      intro i below
      by_cases first : i = 0
      · rw [first]
        exact used
      · have later := rest.2 (i - 1) (by omega)
        rw [show (min ((min last 31 + 1) % 32) 31 + 1 + (i - 1)) % 32 = (min last 31 + 1 + i) % 32 by omega] at later
        exact later

/-- `get_empty_inode` finds an unused inode when there is one. -/
theorem scanEmpty_finds (last : Nat) (free : ∃ k, k < nrInode ∧ (table k).count = 0) :
    ∃ last' k, scanEmpty table nrInode last none = (last', some k) ∧ k < nrInode ∧ (table k).count = 0 := by
  rcases scanned : scanEmpty table nrInode last none with ⟨last', _ | k⟩
  · rcases free with ⟨k, inside, unused⟩
    change k < 32 at inside
    have used := (scanEmpty_none scanned).2 ((k + 63 - min last 31) % 32) (by change _ < 32; omega)
    rw [show (min last 31 + 1 + (k + 63 - min last 31) % 32) % 32 = k by omega] at used
    exact absurd unused used
  · have start (j : Nat) (same : none = some j) : j < nrInode ∧ (table j).count = 0 := nomatch same
    exact ⟨last', k, rfl, scanEmpty_unused start scanned⟩

theorem findInode_some {num : BitVec 16} (located : findInode table num left = some k) :
    (table k).dev = ramdisk ∧ (table k).num = num := by
  induction left with
  | zero => cases located
  | succ left ih =>
    unfold findInode at located
    dsimp only at located
    split at located
    · rename_i here
      cases located
      exact here
    · exact ih located

end Scan

/-- The fields that `permission` and the tests for a directory read. -/
structure SameAccess (a b : MInode) : Prop where
  mode : a.mode = b.mode
  uid : a.uid = b.uid
  gid : a.gid = b.gid
  nlinks : a.nlinks = b.nlinks

theorem SameAccess.refl (a : MInode) : SameAccess a a := ⟨rfl, rfl, rfl, rfl⟩

theorem SameAccess.trans {a b c : MInode} (one : SameAccess a b) (two : SameAccess b c) : SameAccess a c :=
  ⟨one.mode.trans two.mode, one.uid.trans two.uid, one.gid.trans two.gid, one.nlinks.trans two.nlinks⟩

theorem SameAccess.symm {a b : MInode} (same : SameAccess a b) : SameAccess b a :=
  ⟨same.mode.symm, same.uid.symm, same.gid.symm, same.nlinks.symm⟩

/-- What the inode table keeps: every inode of the root device at most once, and the clean ones are as on the device. -/
structure Cached (t : InodeTable) : Prop where
  device : ∀ k, (t.inode k).dev = 0 ∨ (t.inode k).dev = ramdisk
  outside : ∀ k, nrInode ≤ k → (t.inode k).dev = 0
  distinct : ∀ j k, (t.inode j).dev ≠ 0 → (t.inode k).dev ≠ 0 → (t.inode j).num = (t.inode k).num → j = k
  dirty : ∀ k, (t.inode k).dirt = true → (t.inode k).dev ≠ 0
  clean : ∀ k, (t.inode k).dev ≠ 0 → (t.inode k).dirt = false → SameAccess (t.inode k) (t.stored (t.inode k).num)
  pipes : ∀ k, (t.inode k).pipe = true → (t.inode k).dev = 0

/-- An inode of the root device, as the calls see it. -/
def InodeTable.record (t : InodeTable) (num : BitVec 16) : MInode :=
  match findInode t.inode num nrInode with
  | some k => t.inode k
  | none => { t.stored num with dev := ramdisk }

section Record

variable {t t' : InodeTable} {k : Nat} {num : BitVec 16}

theorem ramdisk_ne : ramdisk ≠ 0 := by decide

theorem Cached.record_here (cached : Cached t) (used : (t.inode k).dev ≠ 0) : t.record (t.inode k).num = t.inode k := by
  have device : (t.inode k).dev = ramdisk := (cached.device k).resolve_left used
  have inside : k < nrInode := by
    by_contra beyond
    exact used (cached.outside k (by omega))
  unfold InodeTable.record
  cases located : findInode t.inode (t.inode k).num nrInode with
  | none => exact absurd ⟨device, rfl⟩ (findInode_none (Nat.le_refl _) located k (by omega) inside)
  | some j =>
    have there := findInode_some located
    rw [cached.distinct j k (there.1 ▸ ramdisk_ne) used there.2]

theorem record_missing (missing : ∀ j, (t.inode j).dev = ramdisk → (t.inode j).num ≠ num) :
    t.record num = { t.stored num with dev := ramdisk } := by
  unfold InodeTable.record
  cases located : findInode t.inode num nrInode with
  | none => rfl
  | some j =>
    have there := findInode_some located
    exact absurd there.2 (missing j there.1)

/-- Every number is in one place of the table, or only on the device. -/
theorem slot_cases (t : InodeTable) (num : BitVec 16) :
    (∃ j, (t.inode j).dev = ramdisk ∧ (t.inode j).num = num) ∨ ∀ j, (t.inode j).dev = ramdisk → (t.inode j).num ≠ num := by
  by_cases here : ∃ j, (t.inode j).dev = ramdisk ∧ (t.inode j).num = num
  · exact .inl here
  · exact .inr fun j device same => here ⟨j, device, same⟩

end Record

/-- The inodes are as before, wherever they are, and those in use are where they were. -/
structure TableKept (t t' : InodeTable) : Prop where
  cached : Cached t'
  view : ∀ num, SameAccess (t'.record num) (t.record num)
  used : ∀ j, (t.inode j).count ≠ 0 → (t'.inode j).dev = (t.inode j).dev ∧ (t'.inode j).num = (t.inode j).num ∧
    (t'.inode j).mount = (t.inode j).mount

section TableKept

variable {t t₁ t' : InodeTable} {k : Nat} {num : BitVec 16}

theorem TableKept.refl (cached : Cached t) : TableKept t t := ⟨cached, fun _ => .refl _, fun _ _ => ⟨rfl, rfl, rfl⟩⟩

theorem TableKept.trans (one : TableKept t t₁) (two : TableKept t₁ t')
    (still : ∀ j, (t.inode j).count ≠ 0 → (t₁.inode j).count ≠ 0) : TableKept t t' where
  cached := two.cached
  view num := (two.view num).trans (one.view num)
  used j used := by
    have first := one.used j used
    have second := two.used j (still j used)
    exact ⟨second.1.trans first.1, second.2.1.trans first.2.1, second.2.2.trans first.2.2⟩

/-- Nothing changes but counts and fields that are only in memory. -/
theorem TableKept.of_same (cached : Cached t) (stored : t'.stored = t.stored)
    (identity : ∀ j, (t'.inode j).dev = (t.inode j).dev ∧ (t'.inode j).num = (t.inode j).num ∧
      (t'.inode j).mount = (t.inode j).mount)
    (flags : ∀ j, (t'.inode j).pipe = (t.inode j).pipe ∧ (t'.inode j).dirt = (t.inode j).dirt)
    (access : ∀ j, SameAccess (t'.inode j) (t.inode j)) : TableKept t t' := by
  have cached' : Cached t' := by
    constructor
    · intro j
      rw [(identity j).1]
      exact cached.device j
    · intro j
      rw [(identity j).1]
      exact cached.outside j
    · intro i j
      rw [(identity i).1, (identity j).1, (identity i).2.1, (identity j).2.1]
      exact cached.distinct i j
    · intro j
      rw [(identity j).1, (flags j).2]
      exact cached.dirty j
    · intro j
      rw [(identity j).1, (identity j).2.1, (flags j).2, stored]
      exact fun used clean => (access j).trans (cached.clean j used clean)
    · intro j
      rw [(identity j).1, (flags j).1]
      exact cached.pipes j
  refine ⟨cached', ?_, fun j _ => identity j⟩
  intro num
  rcases slot_cases t num with ⟨j, device, rfl⟩ | missing
  · have used : (t.inode j).dev ≠ 0 := device ▸ ramdisk_ne
    rw [cached.record_here used, ← (identity j).2.1, cached'.record_here ((identity j).1 ▸ used)]
    exact access j
  · rw [record_missing missing, record_missing (t := t'), stored]
    · exact .refl _
    · intro j
      rw [(identity j).1, (identity j).2.1]
      exact missing j

theorem TableKept.setCount (cached : Cached t) (k : Nat) (count : BitVec 16) :
    TableKept t (t.setInode k { t.inode k with count := count }) := by
  have inodes (j : Nat) : (t.setInode k { t.inode k with count := count }).inode j =
      if j = k then { t.inode k with count := count } else t.inode j := by
    simp only [InodeTable.setInode, Function.update_apply]
  refine .of_same cached rfl ?_ ?_ ?_
  all_goals
    intro j
    rw [inodes]
    split
  · rename_i here
    rw [here]
    exact ⟨rfl, rfl, rfl⟩
  · exact ⟨rfl, rfl, rfl⟩
  · rename_i here
    rw [here]
    exact ⟨rfl, rfl⟩
  · exact ⟨rfl, rfl⟩
  · rename_i here
    rw [here]
    exact ⟨rfl, rfl, rfl, rfl⟩
  · exact .refl _

/-- An inode that is on the device and at most in one place, where it has nothing to write. -/
theorem Cached.record_clean (cached : Cached t) (clean : (t.inode k).dirt = false)
    (others : ∀ j, j ≠ k → (t.inode j).dev = ramdisk → (t.inode j).num ≠ num) :
    SameAccess (t.record num) (t.stored num) := by
  rcases slot_cases t num with ⟨j, device, rfl⟩ | missing
  · have here : j = k := by
      by_contra other
      exact others j other device rfl
    have used : (t.inode j).dev ≠ 0 := device ▸ ramdisk_ne
    rw [cached.record_here used]
    exact cached.clean j used (here ▸ clean)
  · rw [record_missing missing]
    exact ⟨rfl, rfl, rfl, rfl⟩

/-- A place that nobody uses and that has nothing to write gets another inode, or none. -/
theorem TableKept.replace (cached : Cached t) (unused : (t.inode k).count = 0) (clean : (t.inode k).dirt = false)
    {inode : MInode} (dirt : inode.dirt = false) (pipe : inode.pipe = false)
    (fits : inode.dev ≠ 0 → k < nrInode ∧ inode.dev = ramdisk ∧ SameAccess inode (t.stored inode.num) ∧
      ∀ j, j ≠ k → (t.inode j).dev ≠ 0 → (t.inode j).num ≠ inode.num) : TableKept t (t.setInode k inode) := by
  have here : (t.setInode k inode).inode k = inode := Function.update_self ..
  have there (j : Nat) (other : j ≠ k) : (t.setInode k inode).inode j = t.inode j := Function.update_of_ne other ..
  have cached' : Cached (t.setInode k inode) := by
    constructor
    · intro j
      by_cases same : j = k
      · rw [same, here]
        by_cases used : inode.dev = 0
        · exact .inl used
        · exact .inr (fits used).2.1
      · rw [there j same]
        exact cached.device j
    · intro j beyond
      by_cases same : j = k
      · rw [same, here]
        by_contra used
        have inside := (fits used).1
        omega
      · rw [there j same]
        exact cached.outside j beyond
    · intro i j usedI usedJ same
      by_cases atI : i = k
      · by_cases atJ : j = k
        · rw [atI, atJ]
        · rw [atI, here] at usedI same
          rw [there j atJ] at usedJ same
          exact absurd same.symm ((fits usedI).2.2.2 j atJ usedJ)
      · rw [there i atI] at usedI same
        by_cases atJ : j = k
        · rw [atJ, here] at usedJ same
          exact absurd same ((fits usedJ).2.2.2 i atI usedI)
        · rw [there j atJ] at usedJ same
          exact cached.distinct i j usedI usedJ same
    · intro j isDirty
      by_cases same : j = k
      · rw [same, here, dirt] at isDirty
        cases isDirty
      · rw [there j same] at isDirty ⊢
        exact cached.dirty j isDirty
    · intro j
      by_cases same : j = k
      · rw [same, here]
        exact fun used _ => (fits used).2.2.1
      · rw [there j same]
        exact cached.clean j
    · intro j isPipe
      by_cases same : j = k
      · rw [same, here, pipe] at isPipe
        cases isPipe
      · rw [there j same] at isPipe ⊢
        exact cached.pipes j isPipe
  refine ⟨cached', ?_, ?_⟩
  · intro num
    by_cases elsewhere : ∃ j, j ≠ k ∧ (t.inode j).dev = ramdisk ∧ (t.inode j).num = num
    · rcases elsewhere with ⟨j, other, device, rfl⟩
      have used : (t.inode j).dev ≠ 0 := device ▸ ramdisk_ne
      have after := cached'.record_here (k := j) (by rwa [there j other])
      rw [there j other] at after
      rw [cached.record_here used, after]
      exact .refl _
    · have others (j : Nat) (other : j ≠ k) (device : (t.inode j).dev = ramdisk) : (t.inode j).num ≠ num :=
        fun same => elsewhere ⟨j, other, device, same⟩
      refine (cached'.record_clean (here ▸ dirt) ?_).trans (cached.record_clean clean others).symm
      intro j other
      rw [there j other]
      exact others j other
  · intro j used
    have other : j ≠ k := fun same => used (same ▸ unused)
    rw [there j other]
    exact ⟨rfl, rfl, rfl⟩

/-- `write_inode` of a dirty inode. -/
theorem TableKept.write (cached : Cached t) (used : (t.inode k).dev ≠ 0) :
    TableKept t { t.setInode k { t.inode k with dirt := false } with
      stored := Function.update t.stored (t.inode k).num (t.inode k) } := by
  let t' : InodeTable := { t.setInode k { t.inode k with dirt := false } with
    stored := Function.update t.stored (t.inode k).num (t.inode k) }
  have here : t'.inode k = { t.inode k with dirt := false } := Function.update_self ..
  have there (j : Nat) (other : j ≠ k) : t'.inode j = t.inode j := Function.update_of_ne other ..
  have identity (j : Nat) : (t'.inode j).dev = (t.inode j).dev ∧ (t'.inode j).num = (t.inode j).num ∧
      (t'.inode j).mount = (t.inode j).mount ∧ (t'.inode j).pipe = (t.inode j).pipe := by
    by_cases same : j = k
    · rw [same, here]
      exact ⟨rfl, rfl, rfl, rfl⟩
    · rw [there j same]
      exact ⟨rfl, rfl, rfl, rfl⟩
  have access (j : Nat) : SameAccess (t'.inode j) (t.inode j) := by
    by_cases same : j = k
    · rw [same, here]
      exact ⟨rfl, rfl, rfl, rfl⟩
    · rw [there j same]
      exact .refl _
  have otherNum (j : Nat) (other : j ≠ k) (usedJ : (t.inode j).dev ≠ 0) : (t.inode j).num ≠ (t.inode k).num :=
    fun same => other (cached.distinct j k usedJ used same)
  have cached' : Cached t' := by
    constructor
    · intro j
      rw [(identity j).1]
      exact cached.device j
    · intro j
      rw [(identity j).1]
      exact cached.outside j
    · intro i j
      rw [(identity i).1, (identity j).1, (identity i).2.1, (identity j).2.1]
      exact cached.distinct i j
    · intro j isDirty
      rw [(identity j).1]
      by_cases same : j = k
      · rw [same]
        exact used
      · rw [there j same] at isDirty
        exact cached.dirty j isDirty
    · intro j usedJ isClean
      rw [(identity j).2.1]
      by_cases same : j = k
      · subst j
        rw [show t'.stored (t.inode k).num = t.inode k from Function.update_self ..]
        exact access k
      · rw [there j same] at usedJ isClean ⊢
        rw [show t'.stored (t.inode j).num = t.stored (t.inode j).num from Function.update_of_ne (otherNum j same usedJ) ..]
        exact cached.clean j usedJ isClean
    · intro j
      rw [(identity j).1, (identity j).2.2.2]
      exact cached.pipes j
  refine ⟨cached', ?_, fun j _ => ⟨(identity j).1, (identity j).2.1, (identity j).2.2.1⟩⟩
  intro num
  rcases slot_cases t num with ⟨j, device, rfl⟩ | missing
  · have usedJ : (t.inode j).dev ≠ 0 := device ▸ ramdisk_ne
    have after := cached'.record_here (k := j) (by rwa [(identity j).1])
    rw [(identity j).2.1] at after
    rw [cached.record_here usedJ, after]
    exact access j
  · have other : num ≠ (t.inode k).num := fun same => missing k ((cached.device k).resolve_left used) same.symm
    have missing' (j : Nat) : (t'.inode j).dev = ramdisk → (t'.inode j).num ≠ num := by
      rw [(identity j).1, (identity j).2.1]
      exact missing j
    rw [record_missing missing, record_missing missing', show t'.stored num = t.stored num from Function.update_of_ne other ..]
    exact .refl _

end TableKept

/-- Some inodes were written. -/
structure Written (t t' : InodeTable) : Prop where
  kept : TableKept t t'
  only : ∀ j, t'.inode j = { t.inode j with dirt := (t'.inode j).dirt }

section Calls

variable {t t₁ t' : InodeTable} {k : Nat} {num : BitVec 16}

theorem Written.count (written : Written t t') (j : Nat) : (t'.inode j).count = (t.inode j).count := by
  rw [written.only j]

theorem Written.trans (one : Written t t₁) (two : Written t₁ t') : Written t t' where
  kept := by
    refine one.kept.trans two.kept ?_
    intro j used
    rw [one.count]
    exact used
  only j := by
    rw [two.only j, one.only j]

theorem writeInode_written (cached : Cached t) (k : Nat) :
    ∃ t', t.writeInode k = .ok t' ∧ Written t t' ∧ (t'.inode k).dirt = false := by
  unfold InodeTable.writeInode
  dsimp only
  cases dirt : (t.inode k).dirt with
  | false =>
    rw [if_pos (.inl rfl)]
    exact ⟨t, rfl, ⟨.refl cached, fun _ => rfl⟩, dirt⟩
  | true =>
    have used := cached.dirty k dirt
    have due : ¬ (true = false ∨ (t.inode k).dev = 0) := fun none => none.elim nofun used
    rw [if_neg due, if_neg (not_not.2 ((cached.device k).resolve_left used))]
    refine ⟨_, rfl, ⟨.write cached used, ?_⟩, ?_⟩
    · intro j
      simp only [InodeTable.setInode, Function.update_apply]
      split
      · rename_i here
        rw [here]
      · rfl
    · simp only [InodeTable.setInode, Function.update_self]

theorem syncInodesFrom_written (cached : Cached t) (k left : Nat) :
    ∃ t', InodeTable.syncInodesFrom k left t = .ok t' ∧ Written t t' := by
  induction left generalizing t k with
  | zero => exact ⟨t, rfl, .refl cached, fun _ => rfl⟩
  | succ left ih =>
    have turn : ∃ t₁, t.syncInode k = .ok t₁ ∧ Written t t₁ := by
      unfold InodeTable.syncInode
      split
      · rcases writeInode_written cached k with ⟨t₁, done, written, -⟩
        exact ⟨t₁, done, written⟩
      · exact ⟨t, rfl, .refl cached, fun _ => rfl⟩
    rcases turn with ⟨t₁, done₁, written₁⟩
    rcases ih written₁.kept.cached (k + 1) with ⟨t₂, done₂, written₂⟩
    refine ⟨t₂, ?_, written₁.trans written₂⟩
    unfold InodeTable.syncInodesFrom
    rw [bind_ok done₁]
    exact done₂

/-- `get_empty_inode` takes a place that nobody uses, when its inode is written. -/
theorem getEmptyInode_takes (cached : Cached t) (free : ∃ k, k < nrInode ∧ (t.inode k).count = 0) :
    ∃ k t₁, t.getEmptyInode = .ok (k, t₁.setInode k { MInode.zero with count := 1 }) ∧ Written t t₁ ∧ k < nrInode ∧
      (t₁.inode k).count = 0 ∧ (t₁.inode k).dirt = false := by
  rcases scanEmpty_finds t.last free with ⟨last, k, scanned, inside, unused⟩
  have moved : Written t { t with last := last } :=
    ⟨.of_same cached rfl (fun _ => ⟨rfl, rfl, rfl⟩) (fun _ => ⟨rfl, rfl⟩) (fun _ => .refl _), fun _ => rfl⟩
  rcases writeInode_written moved.kept.cached k with ⟨t₁, done, written, clean⟩
  have all := moved.trans written
  refine ⟨k, t₁, ?_, all, inside, ?_, clean⟩
  · unfold InodeTable.getEmptyInode
    rw [scanned]
    dsimp only
    rw [bind_ok done, if_neg (by simp [clean])]
  · rw [all.count]
    exact unused

variable (release : Nat → InodeTable → Except Halt InodeTable)

/-- `iput` of an inode of the device that has links. -/
theorem iput_drops (cached : Cached t) (used : (t.inode k).count ≠ 0) (device : (t.inode k).dev ≠ 0)
    (linked : (t.inode k).nlinks ≠ 0) :
    ∃ t', InodeTable.iput release k t = .ok t' ∧ TableKept t t' ∧
      ∀ j, (t'.inode j).count = if j = k then (t.inode k).count - 1 else (t.inode j).count := by
  have noPipe : (t.inode k).pipe = false := by
    rw [← Bool.not_eq_true]
    exact fun isPipe => device (cached.pipes k isPipe)
  have flushed : ∃ t₁, t.syncBlk k = .ok t₁ ∧ Written t t₁ := by
    unfold InodeTable.syncBlk
    split
    · exact syncInodesFrom_written cached 0 nrInode
    · exact ⟨t, rfl, .refl cached, fun _ => rfl⟩
  rcases flushed with ⟨t₁, done₁, written₁⟩
  have dropped (t₂ : InodeTable) (written : Written t t₂) :
      TableKept t (t₂.setInode k { t₂.inode k with count := (t₂.inode k).count - 1 }) ∧
      ∀ j, ((t₂.setInode k { t₂.inode k with count := (t₂.inode k).count - 1 }).inode j).count =
        if j = k then (t.inode k).count - 1 else (t.inode j).count := by
    refine ⟨written.kept.trans (.setCount written.kept.cached k _) ?_, ?_⟩
    · intro j inUse
      rw [written.count]
      exact inUse
    · intro j
      simp only [InodeTable.setInode, Function.update_apply]
      split
      · rw [written.count]
      · rw [written.count]
  have start : InodeTable.iput release k t = InodeTable.dropLast release k t₁ := by
    unfold InodeTable.iput
    dsimp only
    rw [if_neg used, noPipe, if_neg (by decide), bind_ok done₁]
  rw [start]
  unfold InodeTable.dropLast
  dsimp only
  by_cases many : 1 < (t₁.inode k).count
  · rw [if_pos many]
    exact ⟨_, rfl, dropped t₁ written₁⟩
  · have linked₁ : (t₁.inode k).nlinks ≠ 0 := by
      rw [written₁.only k]
      exact linked
    rcases writeInode_written written₁.kept.cached k with ⟨t₂, done₂, written₂, clean⟩
    rw [if_neg many, if_neg linked₁, bind_ok done₂, if_neg (by simp [clean])]
    exact ⟨_, rfl, dropped t₂ (written₁.trans written₂)⟩

/-- The empty inode that `iget` did not need. -/
theorem iput_empty (empty : t.inode k = { MInode.zero with count := 1 }) :
    InodeTable.iput release k t = .ok (t.setInode k MInode.zero) := by
  have plain : t.syncBlk k = .ok t := by
    unfold InodeTable.syncBlk
    rw [empty]
    rfl
  unfold InodeTable.iput
  dsimp only
  rw [if_neg (by rw [empty]; decide), if_neg (by rw [empty]; decide), bind_ok plain]
  unfold InodeTable.dropLast
  dsimp only
  rw [if_neg (by rw [empty]; decide), if_pos (by rw [empty]; decide), if_pos (by rw [empty]; decide)]

theorem hold_setInode {e : Nat} {inode inode' : MInode} (other : k ≠ e) :
    ((t.setInode e inode).hold k).setInode e inode' = (t.setInode e inode').hold k := by
  simp only [InodeTable.hold, InodeTable.setInode, Function.update_of_ne other]
  rw [Function.update_comm other, Function.update_idem]

/-- A place for inode `num` that counts one user more. -/
structure Got (t t' : InodeTable) (k : Nat) (num : BitVec 16) : Prop where
  kept : TableKept t t'
  inside : k < nrInode
  device : (t'.inode k).dev = ramdisk
  number : (t'.inode k).num = num
  count : ∀ j, (t'.inode j).count = if j = k then (t.inode k).count + 1 else (t.inode j).count

theorem iget_gets (cached : Cached t) (free : ∃ k, k < nrInode ∧ (t.inode k).count = 0) (num : BitVec 16) :
    ∃ k t', InodeTable.iget release num t = .ok (k, t') ∧ Got t t' k num := by
  rcases getEmptyInode_takes cached free with ⟨e, t₁, taken, written, inside, unused, clean⟩
  have still (j : Nat) (used : (t.inode j).count ≠ 0) : (t₁.inode j).count ≠ 0 := by
    rw [written.count]
    exact used
  have there (inode : MInode) (j : Nat) (other : j ≠ e) : (t₁.setInode e inode).inode j = t₁.inode j :=
    Function.update_of_ne other ..
  unfold InodeTable.iget
  rw [bind_ok taken]
  dsimp only
  cases located : findInode (t₁.setInode e { MInode.zero with count := 1 }).inode num nrInode with
  | some k =>
    have found := findInode_some located
    have other : k ≠ e := by
      rintro rfl
      have device := found.1
      simp only [InodeTable.setInode, Function.update_self] at device
      exact ramdisk_ne device.symm
    rw [there _ k other] at found
    have empty : ((t₁.setInode e { MInode.zero with count := 1 }).hold k).inode e = { MInode.zero with count := 1 } := by
      simp only [InodeTable.hold, InodeTable.setInode, Function.update_of_ne other.symm, Function.update_self]
    have cleared : TableKept t₁ (t₁.setInode e MInode.zero) :=
      .replace written.kept.cached unused clean rfl rfl fun used => absurd rfl used
    refine ⟨k, (t₁.setInode e MInode.zero).hold k, ?_, ?_⟩
    · dsimp only
      rw [bind_ok (iput_empty release empty), hold_setInode other]
    · have zeroed (j : Nat) : ((t₁.setInode e MInode.zero).inode j).count = (t₁.inode j).count := by
        by_cases here : j = e
        · rw [here, unused]
          simp only [InodeTable.setInode, Function.update_self, MInode.zero]
        · rw [there _ j here]
      have held : ((t₁.setInode e MInode.zero).hold k).inode k = { t₁.inode k with count := (t₁.inode k).count + 1 } := by
        simp only [InodeTable.hold, InodeTable.setInode, Function.update_self, Function.update_of_ne other]
      refine ⟨?_, ?_, ?_, ?_, ?_⟩
      · refine (written.kept.trans cleared still).trans (.setCount cleared.cached k _) ?_
        intro j used
        rw [zeroed]
        exact still j used
      · by_contra beyond
        rw [written.kept.cached.outside k (by omega)] at found
        exact ramdisk_ne found.1.symm
      · rw [held]
        exact found.1
      · rw [held]
        exact found.2
      · intro j
        by_cases here : j = k
        · rw [if_pos here, here, held, ← written.count]
        · rw [if_neg here, ← written.count, ← zeroed]
          simp only [InodeTable.hold, InodeTable.setInode, Function.update_of_ne here]
  | none =>
    let loaded : MInode := MInode.withRecord { MInode.zero with count := 1, dev := ramdisk, num := num } (t₁.stored num)
    have missing (j : Nat) (other : j ≠ e) (used : (t₁.inode j).dev ≠ 0) : (t₁.inode j).num ≠ num := by
      intro same
      have inside : j < nrInode := by
        by_contra beyond
        exact used (written.kept.cached.outside j (by omega))
      apply findInode_none (Nat.le_refl _) located j (by omega) inside
      rw [there _ j other]
      exact ⟨(written.kept.cached.device j).resolve_left used, same⟩
    have put : TableKept t₁ (t₁.setInode e loaded) :=
      .replace written.kept.cached unused clean rfl rfl fun _ => ⟨inside, rfl, ⟨rfl, rfl, rfl, rfl⟩, missing⟩
    have here : (t₁.setInode e loaded).inode e = loaded := Function.update_self ..
    refine ⟨e, t₁.setInode e loaded, ?_, written.kept.trans put still, inside, ?_, ?_, ?_⟩
    · dsimp only
      unfold InodeTable.readInode
      simp only [InodeTable.setInode, Function.update_self, Function.update_idem]
      rfl
    · rw [here]
      rfl
    · rw [here]
      rfl
    · intro j
      by_cases same : j = e
      · rw [if_pos same, same, here, ← written.count, unused]
        rfl
      · rw [if_neg same, there _ j same, written.count]

end Calls

end K210Linux.Fs
