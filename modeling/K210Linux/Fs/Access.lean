import K210Linux.Fs.VolumeCounts

namespace K210Linux.Fs

open Buffer Outcome

/-- The real user and group of the current task. -/
structure Ids where
  uid : BitVec 16
  gid : BitVec 16

/-- The bits of a class that a mode asks for are all there. -/
def grants (bits mode : BitVec 16) : Bool := bits &&& 7 &&& mode = mode

/-- `sys_access` on the inode that `namei` found, from its `i_mode` and after `iput`. -/
def accessInode (ids : Ids) (inode : MInode) (mode : BitVec 32) : Int :=
  let mode := (mode &&& 7).setWidth 16
  let iMode := inode.mode &&& 0o777
  let res := if ids.uid = inode.uid then iMode >>> 6
    else if ids.gid = inode.gid.setWidth 16 then iMode >>> 6 else iMode
  if grants res mode then 0
  else if ids.uid = 0 ∧ (mode &&& 1 = 0 ∨ iMode &&& 0o111 ≠ 0) then 0
  else -eacces

/-- `sys_access`. The owner is read from the inode after it was put. -/
def sysAccess (fuel : Nat) (w : Walker) (ids : Ids) (path : List Byte) (mode : BitVec 32) (v : Volume) :
    Except Halt (Int × Volume) := do
  let (inode, v) ← v.namei fuel w path
  match inode with
  | none => .ok (-eacces, v)
  | some k => do
    let iMode := (v.inode k).mode
    let v ← v.iput fuel k w.caller.time
    .ok (accessInode ids { v.inode k with mode := iMode } mode, v)

/-- The two answers on an inode are the same. -/
def AccessAgrees (ids : Ids) (caller : Caller) (inode : MInode) (mode : BitVec 32) : Prop :=
  accessInode ids inode mode = 0 ↔ permission inode caller ((mode &&& 7).setWidth 16) = true

/-- A task of the group that does not own the file is not told apart by the bits of owner and group. -/
def GroupLikeOwner (ids : Ids) (inode : MInode) (mode : BitVec 32) : Prop :=
  ids.uid ≠ inode.uid → ids.gid = inode.gid.setWidth 16 →
    grants (inode.mode >>> 6) ((mode &&& 7).setWidth 16) = grants (inode.mode >>> 3) ((mode &&& 7).setWidth 16)

variable {ids : Ids} {caller : Caller} {inode : MInode} {mode : BitVec 32}

/-- The mask of `sys_access` keeps the bits of each class. -/
theorem grants_masked (bits mode : BitVec 16) :
    grants ((bits &&& 0o777) >>> 6) mode = grants (bits >>> 6) mode ∧ grants (bits &&& 0o777) mode = grants bits mode := by
  have owner : (bits &&& 0o777) >>> 6 &&& (7 : BitVec 16) = bits >>> 6 &&& 7 := by
    rw [BitVec.ushiftRight_and_distrib, BitVec.and_assoc]
    rfl
  have other : bits &&& 0o777 &&& (7 : BitVec 16) = bits &&& 7 := by
    rw [BitVec.and_assoc]
    rfl
  unfold grants
  rw [owner, other]
  exact ⟨rfl, rfl⟩

theorem permission_eq (caller : Caller) (linked : inode.nlinks ≠ 0) (noRoot : caller.euid ≠ 0) (mask : BitVec 16) :
    permission inode caller (mask &&& 7) =
      if caller.euid = inode.uid then grants (inode.mode >>> 6) (mask &&& 7)
      else if caller.egid = inode.gid.setWidth 16 then grants (inode.mode >>> 3) (mask &&& 7)
      else grants inode.mode (mask &&& 7) := by
  have masked : ∀ bits : BitVec 16, (bits &&& (mask &&& 7) &&& 7 = mask &&& 7) ↔ grants bits (mask &&& 7) = true := by
    intro bits
    have swapped : bits &&& (mask &&& 7) &&& 7 = bits &&& 7 &&& (mask &&& 7) := by
      rw [BitVec.and_assoc bits, BitVec.and_comm (mask &&& 7), ← BitVec.and_assoc]
    rw [grants, decide_eq_true_eq, swapped]
  unfold permission
  rw [if_neg fun both => linked both.2]
  simp only [decide_eq_false noRoot, Bool.or_false, masked, Bool.decide_eq_true]
  split_ifs <;> rfl

theorem accessInode_iff (noRoot : ids.uid ≠ 0) :
    accessInode ids inode mode = 0 ↔
      (if ids.uid = inode.uid then grants (inode.mode >>> 6) ((mode &&& 7).setWidth 16)
      else if ids.gid = inode.gid.setWidth 16 then grants (inode.mode >>> 6) ((mode &&& 7).setWidth 16)
      else grants inode.mode ((mode &&& 7).setWidth 16)) = true := by
  have denied : -eacces ≠ 0 := by decide
  unfold accessInode
  dsimp only
  generalize (mode &&& 7).setWidth 16 = asked
  rw [if_neg (show ¬ (ids.uid = 0 ∧ _) from fun both => noRoot both.1), apply_ite (grants · asked),
    apply_ite (grants · asked), (grants_masked _ asked).1, (grants_masked _ asked).2]
  split_ifs <;> simp_all

/-- `sys_access` agrees with `permission` exactly where a group is like the owner: it gives both the bits of the
    owner. -/
theorem access_agrees_iff (ids : Ids) (caller : Caller) (inode : MInode) (mode : BitVec 32) (linked : inode.nlinks ≠ 0)
    (sameUser : caller.euid = ids.uid) (sameGroup : caller.egid = ids.gid) (noRoot : ids.uid ≠ 0) :
    AccessAgrees ids caller inode mode ↔ GroupLikeOwner ids inode mode := by
  have small : ((mode &&& 7).setWidth 16 : BitVec 16) = mode.setWidth 16 &&& 7 := BitVec.setWidth_and
  have permitted := permission_eq caller linked (sameUser ▸ noRoot) (mode.setWidth 16)
  unfold AccessAgrees GroupLikeOwner
  rw [accessInode_iff noRoot, small, permitted, sameUser, sameGroup]
  by_cases owner : ids.uid = inode.uid
  · simp [owner]
  · by_cases group : ids.gid = inode.gid.setWidth 16
    · simp only [owner, group, if_false, if_true, ne_eq, not_false_eq_true, true_implies]
      exact Bool.eq_iff_iff.symm
    · simp [owner, group]

section Call

variable {fuel k : Nat} {time : BitVec 32} {v v₁ v' : Volume} {w : Walker} {path : List Byte}

/-- The fields of an inode that stay while it has links. -/
structure SameOwner (inode inode' : MInode) : Prop where
  uid : inode'.uid = inode.uid
  gid : inode'.gid = inode.gid
  nlinks : inode'.nlinks = inode.nlinks

theorem SameOwner.trans {i₁ i₂ i₃ : MInode} (one : SameOwner i₁ i₂) (two : SameOwner i₂ i₃) : SameOwner i₁ i₃ :=
  ⟨two.uid.trans one.uid, two.gid.trans one.gid, two.nlinks.trans one.nlinks⟩

theorem OnlyDirtied.sameOwner {drive : Drive} (dirtied : OnlyDirtied v.drive drive) (k : Nat) :
    SameOwner (v.inode k) ((v.onDrive drive).inode k) := by
  have same : (v.onDrive drive).inode k = { v.inode k with dirt := (drive.inode k).dirt } := dirtied k
  rw [same]
  exact ⟨rfl, rfl, rfl⟩

theorem sameOwner_setInode {inode : MInode} (same : SameOwner (v.inode k) inode) :
    SameOwner (v.inode k) ((v.setInode k inode).inode k) := by
  rw [setInode_inode, if_pos rfl]
  exact same

theorem dropLast_sameOwner {left : Nat} (linked : Buffer.Linked v.drive) (links : (v.inode k).nlinks ≠ 0)
    (dropped : v.dropLast fuel k time left = .ok v') : SameOwner (v.inode k) (v'.inode k) := by
  induction left generalizing v with
  | zero => cases dropped
  | succ left ih =>
    unfold Volume.dropLast at dropped
    dsimp only at dropped
    rw [if_neg links] at dropped
    split_ifs at dropped
    · cases dropped
      exact sameOwner_setInode ⟨rfl, rfl, rfl⟩
    · rcases of_bind dropped with ⟨drive, written, rest⟩
      have wrote := writeInode_wroteBack linked written
      have owner := OnlyDirtied.sameOwner wrote.dirtied k
      exact owner.trans (ih wrote.intact.1 (owner.nlinks ▸ links) rest)
    · cases dropped
      exact sameOwner_setInode ⟨rfl, rfl, rfl⟩

theorem iput_sameOwner (linked : Buffer.Linked v.drive) (links : (v.inode k).nlinks ≠ 0)
    (put : v.iput fuel k time = .ok v') : SameOwner (v.inode k) (v'.inode k) := by
  unfold Volume.iput at put
  dsimp only at put
  split_ifs at put
  · cases put
    exact sameOwner_setInode ⟨rfl, rfl, rfl⟩
  · rcases of_bind put with ⟨memory, _, rest⟩
    cases rest
    exact sameOwner_setInode ⟨rfl, rfl, rfl⟩
  · rcases of_bind put with ⟨v₁, synced, rest⟩
    have first : SameOwner (v.inode k) (v₁.inode k) ∧ Buffer.Linked v₁.drive := by
      unfold Volume.syncBlk at synced
      split at synced
      · rcases of_bind synced with ⟨drive, run, done⟩
        cases done
        have wrote := syncDev_wroteBack linked run
        exact ⟨OnlyDirtied.sameOwner wrote.dirtied k, wrote.intact.1⟩
      · cases synced
        exact ⟨⟨rfl, rfl, rfl⟩, linked⟩
    exact first.1.trans (dropLast_sameOwner first.2 (first.1.nlinks ▸ links) rest)

/-- What the call returns is the check of the inode as `namei` found it. -/
theorem sysAccess_eq {r : Int} (found : v.namei fuel w path = .ok (some k, v₁)) (linked : Buffer.Linked v₁.drive)
    (links : (v₁.inode k).nlinks ≠ 0) (ran : sysAccess fuel w ids path mode v = .ok (r, v')) :
    r = accessInode ids (v₁.inode k) mode := by
  unfold sysAccess at ran
  rw [found] at ran
  rcases of_bind ran with ⟨_, same, rest⟩
  cases same
  rcases of_bind rest with ⟨v₂, put, rest⟩
  have owner := iput_sameOwner linked links put
  cases rest
  unfold accessInode
  rw [owner.uid, owner.gid]

end Call

/-- A file with the mode `0o740` of another user and of the task's group. -/
def groupFile : MInode := { MInode.zero with mode := 0o100740, uid := 1, gid := 5, nlinks := 1 }

def groupMember : Caller := ⟨2, 5, 0, 1, 0⟩

theorem read_agrees : GroupLikeOwner ⟨2, 5⟩ groupFile 4 ∧ AccessAgrees ⟨2, 5⟩ groupMember groupFile 4 := by
  have alike : GroupLikeOwner ⟨2, 5⟩ groupFile 4 := fun _ _ => by decide
  exact ⟨alike, (access_agrees_iff ⟨2, 5⟩ groupMember groupFile 4 (by decide) rfl rfl (by decide)).2 alike⟩

/-- `access` promises the group a write that `open` refuses. -/
theorem write_disagrees : ¬ ∀ (ids : Ids) (caller : Caller) (inode : MInode) (mode : BitVec 32), inode.nlinks ≠ 0 →
    caller.euid = ids.uid → caller.egid = ids.gid → ids.uid ≠ 0 → AccessAgrees ids caller inode mode := by
  intro law
  have agrees := law ⟨2, 5⟩ groupMember groupFile 2 (by decide) rfl rfl (by decide)
  have granted : accessInode ⟨2, 5⟩ groupFile 2 = 0 := by decide
  have refused : permission groupFile groupMember ((2 &&& 7 : BitVec 32).setWidth 16) = false := by decide
  rw [agrees.1 granted] at refused
  cases refused

end K210Linux.Fs
