import K210Linux.Fs.PathWalk
import K210Linux.Fs.ReadSuper

/-! `sys_mount`, which asks `i_mount` for the type of the device file. -/

namespace K210Linux.Fs

open Outcome
open K210Linux.Buffer (Halt ramdisk)
open K210Linux.Buffer.Drive (nrInode scanEmpty findInode)

def rootIno : BitVec 16 := 1

/-- The inode table and the table of super blocks. -/
structure MountState where
  table : InodeTable
  supers : Supers

/-- A call ends in the code of the inodes, or in `read_super`. -/
inductive MountFault where
  | inode (halt : Halt)
  | super (fault : SuperFault)

section Calls

variable (release : Nat → InodeTable → Except Halt InodeTable) (w : Walk)

/-- `namei`; `gets` says whether its own `iget` returns an inode. -/
def nameiIn (gets : Bool) (path : List Byte) (t : InodeTable) : Except Halt (Option Nat × InodeTable) := do
  let (dir, t) ← dirNamei release w path t
  match dir with
  | none => .ok (none, t)
  | some (k, name, namelen) =>
    if namelen = 0 then .ok (some k, t)
    else
      match w.findEntry (t.inode k).num (name.take namelen) with
      | none => putNone release k t
      | some inr => do
        let t ← InodeTable.iput release k t
        if gets then do
          let (k, t) ← InodeTable.iget release inr t
          .ok (some k, t.setInode k { t.inode k with atime := w.caller.time, dirt := true })
        else .ok (none, t)

/-- The end of `sys_mount` that puts an inode. -/
def putMount (k : Nat) (value : Int) (p : MountState) : Except MountFault (Int × MountState) := do
  let t ← (InodeTable.iput release k p.table).mapError .inode
  .ok (value, { p with table := t })

/-- `sys_mount` from the second `namei` on, with the inode it gave. -/
def mountOn (reads : Reads) (dev : BitVec 16) (k : Nat) (p : MountState) : Except MountFault (Int × MountState) :=
  if (p.table.inode k).count ≠ 1 then putMount release k (-ebusy) p
  else
    -- `dir_i -> i_num = ROOT_INO`
    let p := { p with table := p.table.setInode k { p.table.inode k with num := rootIno } }
    if (p.table.inode k).num ≠ 0 then putMount release k (-ebusy) p
    else if ¬ isDir (p.table.inode k).mode then putMount release k (-eperm) p
    else do
      let (super, supers) ← (readSuper reads dev p.supers).mapError .super
      let p := { p with supers := supers }
      match super with
      | none => putMount release k (-ebusy) p
      | some j =>
        if (p.supers.slot j).imount.isSome then putMount release k (-ebusy) p
        else if (p.table.inode k).mount then putMount release k (-eperm) p
        else .ok (0, ⟨p.table.setInode k { p.table.inode k with mount := true, dirt := true },
          p.supers.setSlot j { p.supers.slot j with imount := some k }⟩)

/-- Which calls of `iget` and `bread` succeed in a `sys_mount`. -/
structure MountReads where
  dev : Bool
  dir : Bool
  dirSteps : Nat → Bool
  super : Reads

/-- `sys_mount`. -/
def sysMount (gets : MountReads) (devName dirName : List Byte) (p : MountState) : Except MountFault (Int × MountState) := do
  let (inode, t) ← (nameiIn release w gets.dev devName p.table).mapError .inode
  let p := { p with table := t }
  match inode with
  | none => .ok (-enoent, p)
  | some i =>
    let dev := (p.table.inode i).zone 0
    if ¬ isBlk (if (p.table.inode i).mount then 1 else 0) then putMount release i (-eperm) p
    else do
      let t ← (InodeTable.iput release i p.table).mapError .inode
      let (inode, t) ← (nameiIn release { w with gets := gets.dirSteps } gets.dir dirName t).mapError .inode
      let p := { p with table := t }
      match inode with
      | none => .ok (-enoent, p)
      | some k => mountOn release gets.super dev k p

/-- What the call asks for: a block special file, an unused directory other than the root that is no mount point, and
    a super block that is not mounted. -/
def mountable (gets : MountReads) (devName dirName : List Byte) (p : MountState) : Bool :=
  match nameiIn release w gets.dev devName p.table with
  | .ok (some i, t) =>
    isBlk (t.inode i).mode &&
      match InodeTable.iput release i t with
      | .error _ => false
      | .ok t' =>
        match nameiIn release { w with gets := gets.dirSteps } gets.dir dirName t' with
        | .ok (some k, t') =>
          isDir (t'.inode k).mode && (t'.inode k).count = 1 && (t'.inode k).num ≠ rootIno && !(t'.inode k).mount &&
            match readSuper gets.super ((t.inode i).zone 0) p.supers with
            | .ok (some j, supers) => (supers.slot j).imount.isNone
            | _ => false
        | _ => false
  | _ => false

end Calls

/-- Only flags of inodes that wait to be written change. -/
def OnlyDirt (t t' : InodeTable) : Prop := ∀ j, t'.inode j = { t.inode j with dirt := (t'.inode j).dirt }

/-- The inodes in use are the same ones, and no count changes. A place that nobody uses may get another inode. -/
structure Neutral (t t' : InodeTable) : Prop where
  count : ∀ j, (t'.inode j).count = (t.inode j).count
  used : ∀ j, (t.inode j).count ≠ 0 → (t'.inode j).num = (t.inode j).num ∧ (t'.inode j).mount = (t.inode j).mount

/-- The same with one user more for place `k`. -/
structure Holding (t t' : InodeTable) (k : Nat) : Prop where
  count : ∀ j, (t'.inode j).count = if j = k then (t.inode k).count + 1 else (t.inode j).count
  used : ∀ j, (t.inode j).count ≠ 0 → (t'.inode j).num = (t.inode j).num ∧ (t'.inode j).mount = (t.inode j).mount

/-- `truncate` and `free_inode` end with a cleared inode, and leave the others alone. -/
def Releases (release : Nat → InodeTable → Except Halt InodeTable) : Prop :=
  ∀ k t t', release k t = .ok t' → (t'.inode k).count = 0 ∧ ∀ j, j ≠ k → t'.inode j = t.inode j

section Neutral

variable {t t₁ t' : InodeTable} {k : Nat} {release : Nat → InodeTable → Except Halt InodeTable}

theorem OnlyDirt.trans (one : OnlyDirt t t₁) (two : OnlyDirt t₁ t') : OnlyDirt t t' := by
  intro j
  rw [two j, one j]

theorem Neutral.refl (t : InodeTable) : Neutral t t := ⟨fun _ => rfl, fun _ _ => ⟨rfl, rfl⟩⟩

theorem Neutral.trans (one : Neutral t t₁) (two : Neutral t₁ t') : Neutral t t' where
  count j := (two.count j).trans (one.count j)
  used j used := by
    have still := two.used j (one.count j ▸ used)
    have before := one.used j used
    exact ⟨still.1.trans before.1, still.2.trans before.2⟩

theorem Neutral.andHolding (one : Neutral t t₁) (two : Holding t₁ t' k) : Holding t t' k where
  count j := by
    rw [two.count, one.count, one.count]
  used j used := by
    have still := two.used j (one.count j ▸ used)
    have before := one.used j used
    exact ⟨still.1.trans before.1, still.2.trans before.2⟩

theorem OnlyDirt.neutral (written : OnlyDirt t t') : Neutral t t' where
  count j := by rw [written j]
  used j _ := by
    rw [written j]
    exact ⟨rfl, rfl⟩

theorem Holding.onlyDirt (holding : Holding t t₁ k) (written : OnlyDirt t₁ t') : Holding t t' k where
  count j := by
    rw [written j]
    exact holding.count j
  used j used := by
    rw [written j]
    exact holding.used j used

theorem writeInode_only (written : t.writeInode k = .ok t') : OnlyDirt t t' := by
  unfold InodeTable.writeInode at written
  dsimp only at written
  split at written
  · cases written
    exact fun _ => rfl
  · split at written
    · cases written
    · cases written
      intro j
      simp only [InodeTable.setInode, Function.update_apply]
      split
      · rename_i here
        rw [here]
      · rfl

theorem syncInodesFrom_only {left : Nat} (synced : InodeTable.syncInodesFrom k left t = .ok t') : OnlyDirt t t' := by
  induction left generalizing t k with
  | zero =>
    cases synced
    exact fun _ => rfl
  | succ left ih =>
    unfold InodeTable.syncInodesFrom at synced
    rcases of_bind synced with ⟨t₁, turn, rest⟩
    have first : OnlyDirt t t₁ := by
      unfold InodeTable.syncInode at turn
      split at turn
      · exact writeInode_only turn
      · cases turn
        exact fun _ => rfl
    exact first.trans (ih rest)

theorem syncBlk_only (synced : t.syncBlk k = .ok t') : OnlyDirt t t' := by
  unfold InodeTable.syncBlk at synced
  split at synced
  · exact syncInodesFrom_only synced
  · cases synced
    exact fun _ => rfl

/-- Other fields of an inode may change. -/
theorem Holding.relabel (holding : Holding t t₁ k) {j : Nat} {inode : MInode} (count : inode.count = (t₁.inode j).count)
    (num : inode.num = (t₁.inode j).num) (mount : inode.mount = (t₁.inode j).mount) :
    Holding t (t₁.setInode j inode) k where
  count i := by
    rw [← holding.count]
    simp only [InodeTable.setInode, Function.update_apply]
    split
    · rename_i here
      rw [count, here]
    · rfl
  used i used := by
    have before := holding.used i used
    simp only [InodeTable.setInode, Function.update_apply]
    split
    · rename_i here
      rw [num, mount, ← here]
      exact before
    · exact before

/-- The reference is given back by a change of place `k` alone. -/
theorem Holding.drop (holding : Holding t t₁ k) (others : ∀ j, j ≠ k → t'.inode j = t₁.inode j)
    (count : (t'.inode k).count = (t.inode k).count)
    (used : (t.inode k).count ≠ 0 → (t'.inode k).num = (t₁.inode k).num ∧ (t'.inode k).mount = (t₁.inode k).mount) :
    Neutral t t' where
  count j := by
    by_cases here : j = k
    · rw [here, count]
    · rw [others j here, holding.count, if_neg here]
  used j inUse := by
    have before := holding.used j inUse
    by_cases here : j = k
    · subst j
      have same := used inUse
      exact ⟨same.1.trans before.1, same.2.trans before.2⟩
    · rw [others j here]
      exact before

theorem Holding.counted (holding : Holding t t₁ k) (count : BitVec 16) (value : (t₁.inode k).count - 1 = count) :
    Neutral t (t₁.setInode k { t₁.inode k with count := count }) := by
  have here : (t₁.setInode k { t₁.inode k with count := count }).inode k = { t₁.inode k with count := count } :=
    Function.update_self ..
  have before := holding.count k
  rw [if_pos rfl] at before
  refine holding.drop (fun j other => Function.update_of_ne other ..) ?_ ?_
  · rw [here, ← value, before]
    exact BitVec.add_sub_cancel ..
  · intro _
    rw [here]
    exact ⟨rfl, rfl⟩

theorem dropLast_neutral (releases : Releases release) (holding : Holding t t₁ k) (held : (t₁.inode k).count ≠ 0)
    (dropped : InodeTable.dropLast release k t₁ = .ok t') : Neutral t t' := by
  unfold InodeTable.dropLast at dropped
  dsimp only at dropped
  split at dropped
  · cases dropped
    exact holding.counted _ rfl
  · rename_i single
    have one : (t₁.inode k).count = 1 := by
      rw [BitVec.lt_def] at single
      have positive : (t₁.inode k).count.toNat ≠ 0 := fun zero => held (BitVec.eq_of_toNat_eq zero)
      apply BitVec.eq_of_toNat_eq
      change ¬ 1 < _ at single
      change _ = 1
      omega
    have unused : (t.inode k).count = 0 := by
      have before := holding.count k
      rw [if_pos rfl, one] at before
      have same := congrArg (· - 1) before
      simp only [BitVec.add_sub_cancel] at same
      exact same.symm
    split at dropped
    · split at dropped
      · cases dropped
        refine holding.drop (fun j other => Function.update_of_ne other ..) ?_ (fun used => absurd unused used)
        rw [unused]
        simp only [InodeTable.setInode, Function.update_self, MInode.zero]
      · have freed := releases k t₁ t' dropped
        exact holding.drop freed.2 (freed.1.trans unused.symm) fun used => absurd unused used
    · rcases of_bind dropped with ⟨t₂, written, rest⟩
      split at rest
      · cases rest
      · cases rest
        exact (holding.onlyDirt (writeInode_only written)).counted _ rfl

theorem iput_neutral (releases : Releases release) (holding : Holding t t₁ k)
    (put : InodeTable.iput release k t₁ = .ok t') : Neutral t t' := by
  unfold InodeTable.iput at put
  dsimp only at put
  split at put
  · cases put
  · rename_i held
    split at put
    · split at put
      · cases put
        exact holding.counted _ rfl
      · rename_i last
        cases put
        have here : (t₁.setInode k { t₁.inode k with count := 0, dirt := false, pipe := false }).inode k =
          { t₁.inode k with count := 0, dirt := false, pipe := false } := Function.update_self ..
        have before := holding.count k
        rw [if_pos rfl] at before
        refine holding.drop (fun j other => Function.update_of_ne other ..) ?_ ?_
        · rw [here]
          change 0 = _
          rw [not_not.1 last |>.symm, before]
          exact BitVec.add_sub_cancel ..
        · intro _
          rw [here]
          exact ⟨rfl, rfl⟩
    · rcases of_bind put with ⟨t₂, synced, rest⟩
      have written := syncBlk_only synced
      refine dropLast_neutral releases (holding.onlyDirt written) ?_ rest
      rw [written k]
      exact held

/-- An unused place may get anything. -/
theorem Neutral.reuse (unused : (t.inode k).count = 0) {inode : MInode} (count : inode.count = 0) :
    Neutral t (t.setInode k inode) where
  count j := by
    simp only [InodeTable.setInode, Function.update_apply]
    split
    · rename_i here
      rw [here, count, unused]
    · rfl
  used j used := by
    have other : j ≠ k := fun same => used (same ▸ unused)
    simp only [InodeTable.setInode, Function.update_of_ne other]
    trivial

/-- An unused place gets an inode with its first user. -/
theorem Holding.fill (unused : (t.inode k).count = 0) {inode : MInode} (count : inode.count = 1) :
    Holding t (t.setInode k inode) k where
  count j := by
    simp only [InodeTable.setInode, Function.update_apply]
    split
    · rw [count, unused]
      rfl
    · rfl
  used j used := by
    have other : j ≠ k := fun same => used (same ▸ unused)
    simp only [InodeTable.setInode, Function.update_of_ne other]
    trivial

theorem hold_holding (t : InodeTable) (k : Nat) : Holding t (t.hold k) k where
  count j := by
    simp only [InodeTable.hold, InodeTable.setInode, Function.update_apply]
    split <;> rfl
  used j _ := by
    simp only [InodeTable.hold, InodeTable.setInode, Function.update_apply]
    split
    · rename_i here
      rw [here]
      exact ⟨rfl, rfl⟩
    · exact ⟨rfl, rfl⟩

theorem getEmptyInode_unused {e : Nat} (taken : t.getEmptyInode = .ok (e, t')) :
    ∃ t₁, OnlyDirt t t₁ ∧ (t₁.inode e).count = 0 ∧ t' = t₁.setInode e { MInode.zero with count := 1 } := by
  unfold InodeTable.getEmptyInode at taken
  rcases scanned : scanEmpty t.inode nrInode t.last none with ⟨last, _ | k⟩
  · rw [scanned] at taken
    cases taken
  · rw [scanned] at taken
    dsimp only at taken
    rcases of_bind taken with ⟨t₁, written, rest⟩
    have only : OnlyDirt { t with last := last } t₁ := writeInode_only written
    split at rest
    · cases rest
    · cases rest
      have start (j : Nat) (same : none = some j) : j < nrInode ∧ (t.inode j).count = 0 := nomatch same
      refine ⟨t₁, fun j => only j, ?_, rfl⟩
      rw [only.neutral.count]
      exact (scanEmpty_unused start scanned).2

theorem iget_holding {num : BitVec 16} (got : InodeTable.iget release num t = .ok (k, t')) : Holding t t' k := by
  unfold InodeTable.iget at got
  rcases of_bind got with ⟨⟨e, t₂⟩, taken, rest⟩
  rcases getEmptyInode_unused taken with ⟨t₁, only, unused, rfl⟩
  dsimp only at rest
  split at rest
  · rename_i j located
    rcases of_bind rest with ⟨t₂, put, rest⟩
    cases rest
    have found := findInode_some located
    have other : k ≠ e := by
      rintro rfl
      have device := found.1
      simp only [InodeTable.setInode, Function.update_self] at device
      exact ramdisk_ne device.symm
    have empty : ((t₁.setInode e { MInode.zero with count := 1 }).hold k).inode e = { MInode.zero with count := 1 } := by
      simp only [InodeTable.hold, InodeTable.setInode, Function.update_of_ne other.symm, Function.update_self]
    rw [iput_empty release empty, hold_setInode other] at put
    cases put
    exact (only.neutral.trans (.reuse unused rfl)).andHolding (hold_holding _ k)
  · rcases of_bind rest with ⟨t₂, read, rest⟩
    cases rest
    unfold InodeTable.readInode at read
    split at read
    · cases read
    · cases read
      simp only [InodeTable.setInode, Function.update_self, Function.update_idem]
      exact only.neutral.andHolding (.fill unused rfl)

/-- How a call ends that returns an inode with a reference, or none. -/
def Returned (t : InodeTable) : Option Nat × InodeTable → Prop
  | (none, t') => Neutral t t'
  | (some k, t') => Holding t t' k

theorem putNone_neutral {α : Type} {result : Option α} (releases : Releases release) (holding : Holding t t₁ k)
    (put : putNone release k t₁ = .ok (result, t')) : result = none ∧ Neutral t t' := by
  rcases of_bind put with ⟨t₂, done, rest⟩
  cases rest
  exact ⟨rfl, iput_neutral releases holding done⟩

variable {w : Walk} {path : List Byte} {result : Option Nat}

theorem getDirFrom_returned (releases : Releases release) {fuel step : Nat} (holding : Holding t t₁ k)
    (run : getDirFrom release w fuel step k path t₁ = .ok (result, t')) : Returned t (result, t') := by
  induction fuel generalizing step k path t₁ with
  | zero => cases run
  | succ fuel ih =>
    unfold getDirFrom at run
    split at run
    · rcases putNone_neutral releases holding run with ⟨rfl, neutral⟩
      exact neutral
    · rcases scanned : scanName path with ⟨n, _ | rest⟩
      · rw [scanned] at run
        cases run
        exact holding
      · rw [scanned] at run
        dsimp only at run
        split at run
        · rcases putNone_neutral releases holding run with ⟨rfl, neutral⟩
          exact neutral
        · rcases of_bind run with ⟨t₂, put, rest⟩
          have neutral := iput_neutral releases holding put
          split at rest
          · rcases of_bind rest with ⟨⟨k₃, t₃⟩, got, rest⟩
            exact ih (neutral.andHolding (iget_holding got)) rest
          · cases rest
            exact neutral

theorem getDir_returned (releases : Releases release) (run : getDir release w path t = .ok (result, t')) :
    Returned t (result, t') := by
  unfold getDir at run
  split at run
  · split at run
    · cases run
    · split at run
      · cases run
      · split at run
        · cases run
          exact .refl t
        · split at run
          · exact getDirFrom_returned releases (hold_holding t _) run
          · split at run
            · exact getDirFrom_returned releases (hold_holding t _) run
            · cases run
              exact .refl t
  · cases run
  · cases run

theorem nameiIn_returned (releases : Releases release) {gets : Bool}
    (run : nameiIn release w gets path t = .ok (result, t')) : Returned t (result, t') := by
  rcases of_bind run with ⟨⟨dir, t₁⟩, walked, rest⟩
  rcases of_bind walked with ⟨⟨found, t₂⟩, got, named⟩
  have returned := getDir_returned releases got
  cases found with
  | none =>
    cases named
    cases rest
    exact returned
  | some k =>
    cases named
    dsimp only at rest
    split at rest
    · cases rest
      exact returned
    · split at rest
      · rcases putNone_neutral releases returned rest with ⟨rfl, neutral⟩
        exact neutral
      · rcases of_bind rest with ⟨t₃, put, rest⟩
        have neutral := iput_neutral releases returned put
        split at rest
        · rcases of_bind rest with ⟨⟨k₄, t₄⟩, got, rest⟩
          cases rest
          exact (neutral.andHolding (iget_holding got)).relabel rfl rfl rfl
        · cases rest
          exact neutral

end Neutral

/-- What `sys_mount` promises: 0 exactly for a mountable device and directory, which then know each other, and
    otherwise no change of an inode in use. -/
structure MountRight (release : Nat → InodeTable → Except Halt InodeTable) (w : Walk) (gets : MountReads)
    (devName dirName : List Byte) (p : MountState) (result : Except MountFault (Int × MountState)) : Prop where
  success : (∃ p', result = .ok (0, p')) ↔ mountable release w gets devName dirName p = true
  joined : ∀ p', result = .ok (0, p') → ∃ j k, (p'.supers.slot j).imount = some k ∧ (p'.table.inode k).mount = true
  neutral : ∀ value p', result = .ok (value, p') → value ≠ 0 → Neutral p.table p'.table

section Mount

variable {release : Nat → InodeTable → Except Halt InodeTable} {w : Walk} {gets : MountReads}
  {devName dirName : List Byte} {p p' : MountState} {value : Int}

theorem putMount_neutral (releases : Releases release) {k : Nat} {t : InodeTable} (holding : Holding t p.table k)
    {code : Int} (put : putMount release k code p = .ok (value, p')) : value = code ∧ Neutral t p'.table := by
  rcases of_bind put with ⟨t₁, done, rest⟩
  cases rest
  exact ⟨rfl, iput_neutral releases holding (of_mapError done)⟩

/-- `i_mount` is never the mode of a block special file, so that the call ends at its first test. -/
theorem sysMount_fails (releases : Releases release)
    (run : sysMount release w gets devName dirName p = .ok (value, p')) : value ≠ 0 ∧ Neutral p.table p'.table := by
  rcases of_bind run with ⟨⟨inode, t⟩, named, rest⟩
  have returned := nameiIn_returned releases (of_mapError named)
  cases inode with
  | none =>
    cases rest
    exact ⟨by decide, returned⟩
  | some i =>
    have flag : ¬ isBlk (if (t.inode i).mount then 1 else 0) = true := by
      cases (t.inode i).mount <;> decide
    dsimp only at rest
    rw [if_pos flag] at rest
    have holding : Holding p.table t i := returned
    rcases putMount_neutral (p := ⟨t, p.supers⟩) releases holding rest with ⟨code, neutral⟩
    rw [code]
    exact ⟨by decide, neutral⟩

end Mount

/-- `sys_mount` does what it promises exactly when there is nothing to mount. -/
theorem mount_right_iff {release : Nat → InodeTable → Except Halt InodeTable} (releases : Releases release) (w : Walk)
    (gets : MountReads) (devName dirName : List Byte) (p : MountState) :
    MountRight release w gets devName dirName p (sysMount release w gets devName dirName p) ↔
      mountable release w gets devName dirName p = false := by
  have never : ¬ ∃ p', sysMount release w gets devName dirName p = .ok (0, p') :=
    fun ⟨p', run⟩ => (sysMount_fails releases run).1 rfl
  rw [← Bool.not_eq_true]
  constructor
  · exact fun right asked => never (right.success.2 asked)
  · intro nothing
    refine ⟨⟨fun done => absurd done never, fun asked => absurd asked nothing⟩, ?_, ?_⟩
    · exact fun p' run => absurd ⟨p', run⟩ never
    · exact fun value p' run _ => (sysMount_fails releases run).2

/-- The root directory in the table, and a disk `d` and a directory `m` in it. -/
def withDisk : MountState where
  table :=
    { inode := fun k =>
        if k = 0 then { MInode.zero with mode := 0o040755, nlinks := 3, dev := ramdisk, num := 1, count := 4 } else MInode.zero
      last := 0
      stored := fun num =>
        if num = 2 then { MInode.zero with mode := 0o060600, nlinks := 1, zone := fun _ => 0x0201 }
        else { MInode.zero with mode := 0o040755, nlinks := 2 } }
  supers := newSupers 3 2

def superUser : Walk where
  caller := ⟨0, 0, 0, 1, 0⟩
  root := some 0
  pwd := some 0
  lookup _ name := if name = [100] then some 2 else if name = [109] then some 3 else none
  gets _ := true

def clearInode (k : Nat) (t : InodeTable) : Except Halt InodeTable := .ok (t.setInode k MInode.zero)

theorem clearInode_releases : Releases clearInode := by
  intro k t t' freed
  cases freed
  refine ⟨?_, fun j other => Function.update_of_ne other ..⟩
  simp only [InodeTable.setInode, Function.update_self, MInode.zero]

def everything : MountReads := ⟨true, true, fun _ => true, allReads⟩

/-- The root directory is in use, so that `d` cannot be mounted on it: the inode of `d` is found and put back. -/
theorem mount_on_root_refused :
    ((sysMount clearInode superUser everything [100] [47] withDisk).toOption.map Prod.fst = some (-eperm)) ∧
      MountRight clearInode superUser everything [100] [47] withDisk (sysMount clearInode superUser everything [100] [47] withDisk) := by
  refine ⟨by decide +kernel, ?_⟩
  rw [mount_right_iff clearInode_releases]
  decide +kernel

/-- Device `d` could be mounted on `m`, and is not. -/
theorem disk_is_not_mounted :
    mountable clearInode superUser everything [100] [109] withDisk = true ∧
    ¬ MountRight clearInode superUser everything [100] [109] withDisk (sysMount clearInode superUser everything [100] [109] withDisk) := by
  have asked : mountable clearInode superUser everything [100] [109] withDisk = true := by decide +kernel
  refine ⟨asked, ?_⟩
  intro right
  rcases right.success.2 asked with ⟨p', run⟩
  exact (sysMount_fails clearInode_releases run).1 rfl

end K210Linux.Fs
