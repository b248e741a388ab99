import K210Linux.Headers
import K210Linux.Lib.Run
import Mathlib.Tactic

namespace K210Linux.Kernel

open K210Linux.Lib

/-- The identity fields of `task_struct` that the calls read or set. -/
structure Identity where
  uid : BitVec 16
  euid : BitVec 16
  gid : BitVec 16
  egid : BitVec 16
  sgid : BitVec 16
deriving DecidableEq

namespace Identity

def suser (s : Identity) : Prop := s.euid = 0

instance (s : Identity) : Decidable s.suser := inferInstanceAs (Decidable (_ = _))

/-- The value of a 16-bit id in a comparison with an `int`. -/
def wide (id : BitVec 16) : BitVec 32 := id.setWidth 32

/-- The second half of `sys_setregid`. The third test assigns to `sgid`, and its value is what was stored. -/
def setEgid (s : Identity) (egid : BitVec 32) : Int × Identity :=
  if 0 < egid.toInt then
    if wide s.gid = egid ∨ wide s.egid = egid then (0, { s with egid := egid.setWidth 16 })
    else
      let s := { s with sgid := egid.setWidth 16 }
      if s.sgid ≠ 0 ∨ s.suser then (0, { s with egid := egid.setWidth 16 }) else (-eperm, s)
  else (0, s)

/-- `sys_setregid`. -/
def setregid (s : Identity) (rgid egid : BitVec 32) : Int × Identity :=
  if 0 < rgid.toInt then
    if wide s.gid = rgid ∨ s.suser then { s with gid := rgid.setWidth 16 }.setEgid egid else (-eperm, s)
  else s.setEgid egid

/-- `sys_setgid`. -/
def setgid (s : Identity) (gid : BitVec 32) : Int × Identity := s.setregid gid gid

/-- The second half of `sys_setreuid`, where `euid` is unsigned. -/
def setEuid (s : Identity) (oldRuid : BitVec 16) (euid : BitVec 32) : Int × Identity :=
  if 0 < euid.toNat then
    if wide oldRuid = euid ∨ wide s.euid = euid ∨ s.suser then (0, { s with euid := euid.setWidth 16 })
    else (-eperm, { s with uid := oldRuid })
  else (0, s)

/-- `sys_setreuid`. -/
def setreuid (s : Identity) (ruid euid : BitVec 32) : Int × Identity :=
  if 0 < ruid.toInt then
    if wide s.euid = ruid ∨ wide s.uid = ruid ∨ s.suser then { s with uid := ruid.setWidth 16 }.setEuid s.uid euid
    else (-eperm, s)
  else s.setEuid s.uid euid

/-- `sys_setuid`. -/
def setuid (s : Identity) (uid : BitVec 32) : Int × Identity := s.setreuid uid uid

end Identity

inductive IdentityCall where
  | setreuid (ruid euid : BitVec 32)
  | setuid (uid : BitVec 32)
  | setregid (rgid egid : BitVec 32)
  | setgid (gid : BitVec 32)

def Identity.step (e : IdentityCall) (s : Identity) : Option Identity :=
  match e with
  | .setreuid ruid euid => some (s.setreuid ruid euid).2
  | .setuid uid => some (s.setuid uid).2
  | .setregid rgid egid => some (s.setregid rgid egid).2
  | .setgid gid => some (s.setgid gid).2

/-- The group id that `sys_setregid` stores is one the task has, or the call returns before it looks at it. -/
def Identity.OwnGroup (s : Identity) (rgid egid : BitVec 32) : Prop :=
  (0 < rgid.toInt ∧ Identity.wide s.gid ≠ rgid) ∨ egid.toInt ≤ 0 ∨
    (egid.setWidth 16 = s.gid ∨ egid.setWidth 16 = s.egid ∨ egid.setWidth 16 = s.sgid)

def IdentityCall.OwnGroups (e : IdentityCall) (s : Identity) : Prop :=
  match e with
  | .setregid rgid egid => s.OwnGroup rgid egid
  | .setgid gid => s.OwnGroup gid gid
  | _ => True

/-- The ids of a task are among those it started with. -/
structure Within (start s : Identity) : Prop where
  uid : s.uid = start.uid ∨ s.uid = start.euid
  euid : s.euid = start.uid ∨ s.euid = start.euid
  gid : s.gid = start.gid ∨ s.gid = start.egid ∨ s.gid = start.sgid
  egid : s.egid = start.gid ∨ s.egid = start.egid ∨ s.egid = start.sgid
  sgid : s.sgid = start.gid ∨ s.sgid = start.egid ∨ s.sgid = start.sgid

variable {start s s' : Identity}

theorem setWidth_wide (id : BitVec 16) : (Identity.wide id).setWidth 16 = id := by
  rw [Identity.wide, BitVec.setWidth_setWidth_of_le _ (by decide)]
  exact BitVec.setWidth_eq id

theorem Within.not_suser (within : Within start s) (uid : start.uid ≠ 0) (euid : start.euid ≠ 0) : ¬ s.suser := by
  intro super
  rcases within.euid with same | same
  · exact uid (same.symm.trans super)
  · exact euid (same.symm.trans super)

/-- `sys_setreuid` only stores the two user ids the task has. -/
theorem setreuid_within (within : Within start s) (uid : start.uid ≠ 0) (euid : start.euid ≠ 0)
    (ruid newEuid : BitVec 32) : Within start (s.setreuid ruid newEuid).2 := by
  have ordinary := within.not_suser uid euid
  -- the second half, after the first one stored `real`
  have second (real : BitVec 16) (known : real = start.uid ∨ real = start.euid) :
      Within start ({ s with uid := real }.setEuid s.uid newEuid).2 := by
    have first : Within start { s with uid := real } := ⟨known, within.euid, within.gid, within.egid, within.sgid⟩
    unfold Identity.setEuid
    split
    · split
      · rename_i test
        refine ⟨known, ?_, within.gid, within.egid, within.sgid⟩
        rcases test with same | same | super
        · rw [← same]
          simpa only [setWidth_wide] using within.uid
        · rw [← same]
          simpa only [setWidth_wide] using within.euid
        · exact absurd super ordinary
      · exact ⟨within.uid, within.euid, within.gid, within.egid, within.sgid⟩
    · exact first
  unfold Identity.setreuid
  split
  · split
    · rename_i test
      apply second
      rcases test with same | same | super
      · rw [← same, setWidth_wide]
        exact within.euid
      · rw [← same, setWidth_wide]
        exact within.uid
      · exact absurd super ordinary
    · exact within
  · exact second s.uid within.uid

/-- `sys_setregid` stores a group id that the task has, as far as its argument is one. -/
theorem setregid_within (within : Within start s) (uid : start.uid ≠ 0) (euid : start.euid ≠ 0)
    {rgid egid : BitVec 32} (own : s.OwnGroup rgid egid) : Within start (s.setregid rgid egid).2 := by
  have ordinary := within.not_suser uid euid
  have second (looked : ¬ (0 < rgid.toInt ∧ Identity.wide s.gid ≠ rgid)) : Within start (s.setEgid egid).2 := by
    have known : 0 < egid.toInt → egid.setWidth 16 = start.gid ∨ egid.setWidth 16 = start.egid ∨
        egid.setWidth 16 = start.sgid := by
      intro positive
      rcases own with returned | low | same | same | same
      · exact absurd returned looked
      · omega
      · rw [same]
        exact within.gid
      · rw [same]
        exact within.egid
      · rw [same]
        exact within.sgid
    unfold Identity.setEgid
    split
    · rename_i positive
      split
      · exact ⟨within.uid, within.euid, within.gid, known positive, within.sgid⟩
      · simp only
        split
        · exact ⟨within.uid, within.euid, within.gid, known positive, known positive⟩
        · exact ⟨within.uid, within.euid, within.gid, within.egid, known positive⟩
    · exact within
  unfold Identity.setregid
  split
  · split
    · rename_i test
      have same : Identity.wide s.gid = rgid := by
        rcases test with same | super
        · exact same
        · exact absurd super ordinary
      have unchanged : { s with gid := rgid.setWidth 16 } = s := by
        rw [← same, setWidth_wide]
      rw [unchanged]
      exact second fun returned => returned.2 same
    · exact within
  · rename_i low
    exact second fun returned => low returned.1

/-- No sequence of the identity calls leads outside the ids a task started with, as far as `sys_setregid` is only
    asked for group ids the task has. -/
theorem identity_calls_within (uid : start.uid ≠ 0) (euid : start.euid ≠ 0)
    (run : Run Identity.step IdentityCall.OwnGroups start s) : Within start s := by
  refine run.invariant (I := Within start) ⟨.inl rfl, .inr rfl, .inl rfl, .inr (.inl rfl), .inr (.inr rfl)⟩ ?_
  intro e s s' within own stepped
  cases e with
  | setreuid ruid newEuid =>
    cases stepped
    exact setreuid_within within uid euid ruid newEuid
  | setuid newUid =>
    cases stepped
    exact setreuid_within within uid euid newUid newUid
  | setregid rgid egid =>
    cases stepped
    exact setregid_within within uid euid own
  | setgid gid =>
    cases stepped
    exact setregid_within within uid euid own

/-- A user with three different group ids takes over the saved one. -/
theorem saved_group_taken :
    ∃ s, Run Identity.step IdentityCall.OwnGroups ⟨10, 11, 20, 21, 22⟩ s ∧ s.egid = 22 ∧
      Within ⟨10, 11, 20, 21, 22⟩ s := by
  let start : Identity := ⟨10, 11, 20, 21, 22⟩
  have run : Run Identity.step IdentityCall.OwnGroups start ⟨10, 11, 20, 22, 22⟩ :=
    Run.start.next (e := .setregid 0 22) (.inr (.inr (.inr (.inr (by decide))))) rfl
  exact ⟨_, run, rfl, identity_calls_within (by decide) (by decide) run⟩

/-- An ordinary user becomes a member of the group 7. -/
theorem foreign_group_taken :
    ∃ s, Run Identity.step (fun _ _ => True) ⟨10, 10, 20, 20, 20⟩ s ∧ s.egid = 7 ∧ s.sgid = 7 ∧
      ¬ Within ⟨10, 10, 20, 20, 20⟩ s := by
  have run : Run Identity.step (fun _ _ => True) ⟨10, 10, 20, 20, 20⟩ ⟨10, 10, 20, 7, 7⟩ :=
    Run.start.next (e := .setregid 0 7) trivial rfl
  refine ⟨_, run, rfl, rfl, ?_⟩
  intro within
  rcases within.egid with same | same | same <;> cases same

end K210Linux.Kernel
