import K210Linux.Fs.InodeTasks
import Mathlib.Algebra.BigOperators.Group.Finset.Basic
import Mathlib.Algebra.Order.BigOperators.Group.Finset

/-! What the tasks have the inodes of the table for, and what each kind of step keeps of it. -/

namespace K210Linux.Fs

open K210Linux.Lib
open K210Linux.Buffer.Drive (nrInode)

/-- The references to inode `i` that a task has in its call. -/
def InodePhase.refs : InodePhase → Nat → Nat
  | .searching _ _ empty, i => if i = empty then 1 else 0
  | .matched _ _ empty _, i => if i = empty then 1 else 0
  | .locking empty, i => if i = empty then 1 else 0
  | .reading empty, i => if i = empty then 1 else 0
  | .putting k ret, i => (if i = k then 1 else 0) + if ret = some i then 1 else 0
  | .syncing k ret, i => (if i = k then 1 else 0) + if ret = some i then 1 else 0
  | .resting k ret, i => (if i = k then 1 else 0) + if ret = some i then 1 else 0
  | .storing k ret, i => (if i = k then 1 else 0) + if ret = some i then 1 else 0
  | _, _ => 0

/-- What a task can have an inode for: a slot from `get_empty_inode`, one that it reads, one that it writes, or an
    inode in use. -/
inductive InodeRole where
  | reserved
  | loading
  | writing
  | used
deriving DecidableEq

/-- What a call has an inode for. -/
def InodePhase.Plays : InodePhase → InodeRole → Nat → Prop
  | .searching _ _ empty, .reserved, i => i = empty
  | .matched _ _ empty _, .reserved, i => i = empty
  | .reading empty, .loading, i => i = empty
  | .cleaning _ _ k, .writing, i => i = k
  | .storing k _, .writing, i => i = k
  | .flushed k, .writing, i => i = k
  | .putting k (some _), .reserved, i => i = k
  | .putting _ (some k), .used, i => i = k
  | .putting k none, .used, i => i = k
  | .syncing k _, .used, i => i = k
  | .resting k _, .used, i => i = k
  | .storing k _, .used, i => i = k
  | _, _, _ => False

/-- What holds of a call by itself. -/
def InodePhase.Fits : InodePhase → Prop
  | .chosen dev _ k => dev ≠ 0 ∧ k < nrInode
  | .cleaning dev _ k => dev ≠ 0 ∧ k < nrInode
  | .searching dev _ _ => dev ≠ 0
  | .matched dev _ _ _ => dev ≠ 0
  | .syncing _ ret => ret = none
  | .resting _ ret => ret = none
  | .storing _ ret => ret = none
  | .locking _ => False
  | .elsewhere => False
  | _ => True

namespace InodeTasks

variable {τ : Type}

def inode (s : InodeTasks τ) (i : Nat) : MInode := s.shared.inode i

/-- The references to inode `i` that a task has, and all of them. -/
def share (s : InodeTasks τ) (t : τ) (i : Nat) : Nat := (s.phase t).refs i + s.held t i

def refs [Fintype τ] (s : InodeTasks τ) (i : Nat) : Nat := ∑ t, s.share t i

/-- What a task has an inode for. -/
def Plays (s : InodeTasks τ) (t : τ) (r : InodeRole) (i : Nat) : Prop :=
  (s.phase t).Plays r i ∨ r = .used ∧ 0 < s.held t i

/-- What a task that has an inode for something relies on. -/
def RoleOk [Fintype τ] (s : InodeTasks τ) (i : Nat) : InodeRole → Prop
  | .reserved => i < nrInode ∧ s.refs i = 1 ∧ s.inode i = { MInode.zero with count := 1 }
  | .loading => s.refs i = 1 ∧ (s.inode i).dev ≠ 0 ∧ (s.inode i).lock = true ∧ (s.inode i).nlinks = 0
  | .writing => (s.inode i).dev ≠ 0 ∧ (s.inode i).lock = true ∧ (s.inode i).nlinks ≠ 0
  | .used => (s.inode i).dev ≠ 0 ∧ (s.inode i).nlinks ≠ 0

/-- The inode has what is stored for it. -/
def Stored (s : InodeTasks τ) (i : Nat) : Prop :=
  (s.inode i).withRecord (s.shared.stored (s.inode i).dev (s.inode i).num) = s.inode i

/-- What holds of an entry. An entry without links that has a device is still to be read. -/
structure EntryOk [Fintype τ] (s : InodeTasks τ) (i : Nat) : Prop where
  counted : (s.inode i).count = BitVec.ofNat 16 (s.refs i)
  plain : (s.inode i).pipe = false ∧ (s.inode i).mount = false
  placed : (s.inode i).dev ≠ 0 → i < nrInode
  read : (s.inode i).dev ≠ 0 → (s.inode i).nlinks = 0 → ∃ t, s.phase t = .reading i
  clean : (s.inode i).dev ≠ 0 → (s.inode i).nlinks ≠ 0 → (s.inode i).dirt = false → s.Stored i

/-- What the tasks keep. -/
structure Sound [Fintype τ] (s : InodeTasks τ) : Prop where
  entries : ∀ i, s.EntryOk i
  unique : ∀ i j, (s.inode i).dev ≠ 0 → (s.inode i).dev = (s.inode j).dev → (s.inode i).num = (s.inode j).num → i = j
  linked : ∀ dev num, (s.shared.stored dev num).nlinks ≠ 0
  apart : ∀ t t' r r' i, r = .loading ∨ r = .writing → r' = .loading ∨ r' = .writing → s.Plays t r i →
    s.Plays t' r' i → t = t'
  fits : ∀ t, (s.phase t).Fits
  roles : ∀ t r i, s.Plays t r i → s.RoleOk i r

/-- Only task `t` goes on, and it changes and gets or puts back only inode `k`. -/
structure Change (s s' : InodeTasks τ) (t : τ) (k : Nat) : Prop where
  phase : ∀ t', t' ≠ t → s'.phase t' = s.phase t'
  held : ∀ t', t' ≠ t → s'.held t' = s.held t'
  inode : ∀ i, i ≠ k → s'.inode i = s.inode i
  share : ∀ i, i ≠ k → s'.share t i = s.share t i

variable {s s' : InodeTasks τ} {t t' : τ} {i k : Nat} {r r' : InodeRole}

theorem Change.plays (change : Change s s' t k) (other : t' ≠ t) : s'.Plays t' r i ↔ s.Plays t' r i := by
  unfold Plays
  rw [change.phase t' other, change.held t' other]

theorem Change.share_other (change : Change s s' t k) (other : t' ≠ t) (i : Nat) : s'.share t' i = s.share t' i := by
  unfold InodeTasks.share
  rw [change.phase t' other, change.held t' other]

theorem Change.reading (change : Change s s' t k) (moved : s.phase t ≠ .reading i) {u : τ}
    (reads : s.phase u = .reading i) : s'.phase u = .reading i := by
  have differs : u ≠ t := by
    rintro rfl
    exact moved reads
  rw [change.phase u differs, reads]

section Refs

variable [Fintype τ] [DecidableEq τ]

/-- The references change as those of the task do. -/
theorem Change.refs (change : Change s s' t k) (i : Nat) : s'.refs i + s.share t i = s.refs i + s'.share t i := by
  have rest : ∑ u ∈ Finset.univ.erase t, s'.share u i = ∑ u ∈ Finset.univ.erase t, s.share u i := by
    apply Finset.sum_congr rfl
    intro u member
    exact change.share_other (Finset.ne_of_mem_erase member) i
  unfold InodeTasks.refs
  rw [← Finset.add_sum_erase _ _ (Finset.mem_univ t), ← Finset.add_sum_erase _ _ (Finset.mem_univ t), rest]
  omega

theorem Change.refs_other (change : Change s s' t k) (other : i ≠ k) : s'.refs i = s.refs i := by
  have refs := change.refs i
  rw [change.share i other] at refs
  omega

omit [DecidableEq τ] in
theorem share_le_refs (s : InodeTasks τ) (t : τ) (i : Nat) : s.share t i ≤ s.refs i :=
  Finset.single_le_sum (f := fun t => s.share t i) (fun _ _ => Nat.zero_le _) (Finset.mem_univ t)

theorem shares_le_refs (s : InodeTasks τ) (apart : t ≠ t') (i : Nat) : s.share t i + s.share t' i ≤ s.refs i := by
  have rest : s.share t' i ≤ ∑ u ∈ Finset.univ.erase t, s.share u i :=
    Finset.single_le_sum (f := fun t => s.share t i) (fun _ _ => Nat.zero_le _)
      (Finset.mem_erase.mpr ⟨apart.symm, Finset.mem_univ t'⟩)
  unfold InodeTasks.refs
  rw [← Finset.add_sum_erase _ _ (Finset.mem_univ t)]
  omega

end Refs

/-- A task that has an inode for more than its writing has a reference to it. -/
theorem Plays.share (plays : s.Plays t r i) (more : r ≠ .writing) : 0 < s.share t i := by
  unfold InodeTasks.share
  rcases plays with plays | ⟨-, held⟩
  · have counts : 0 < (s.phase t).refs i := by
      cases phase : s.phase t <;> rw [phase] at plays
      case putting k ret => cases ret <;> cases r <;> simp_all [InodePhase.Plays, InodePhase.refs]
      all_goals cases r <;> simp_all [InodePhase.Plays, InodePhase.refs]
    omega
  · omega

section Kept

variable [Fintype τ] [DecidableEq τ]

omit [DecidableEq τ] in
theorem RoleOk.congr (inode : s'.inode i = s.inode i) (refs : s'.refs i = s.refs i) (ok : s.RoleOk i r) :
    s'.RoleOk i r := by
  cases r <;> simpa only [RoleOk, inode, refs] using ok

omit [DecidableEq τ] in
theorem EntryOk.congr (inode : s'.inode i = s.inode i) (refs : s'.refs i = s.refs i)
    (stored : (s.inode i).dev ≠ 0 →
      s'.shared.stored (s.inode i).dev (s.inode i).num = s.shared.stored (s.inode i).dev (s.inode i).num)
    (reads : ∀ u, s.phase u = .reading i → s'.phase u = .reading i) (ok : s.EntryOk i) : s'.EntryOk i := by
  refine ⟨?_, ?_, ?_, ?_, ?_⟩
  · rw [inode, refs]
    exact ok.counted
  · rw [inode]
    exact ok.plain
  · rw [inode]
    exact ok.placed
  · intro device unread
    rw [inode] at device unread
    obtain ⟨u, reading⟩ := ok.read device unread
    exact ⟨u, reads u reading⟩
  · intro device linked clean
    rw [inode] at device linked clean
    unfold Stored
    rw [inode, stored device]
    exact ok.clean device linked clean

/-- What is stored for the other inodes stays. -/
def StoredOthers (s s' : InodeTasks τ) (k : Nat) : Prop :=
  ∀ i, i ≠ k → (s.inode i).dev ≠ 0 →
    s'.shared.stored (s.inode i).dev (s.inode i).num = s.shared.stored (s.inode i).dev (s.inode i).num

/-- What a step at inode `k` has to show: that the entry is right, that no other entry is the same inode, and that the
    task and the others have inodes for what they think. -/
structure Step (s s' : InodeTasks τ) (t : τ) (k : Nat) : Prop where
  change : Change s s' t k
  stored : StoredOthers s s' k
  moved : ∀ i, i ≠ k → s.phase t ≠ .reading i
  entry : s'.EntryOk k
  unique : ∀ i, i ≠ k → (s'.inode k).dev ≠ 0 → (s.inode i).dev = (s'.inode k).dev →
    (s.inode i).num ≠ (s'.inode k).num
  linked : ∀ dev num, (s'.shared.stored dev num).nlinks ≠ 0
  locks : ∀ r i, r = .loading ∨ r = .writing → s'.Plays t r i →
    ∃ r', (r' = .loading ∨ r' = .writing) ∧ s.Plays t r' i ∨ (s.inode i).lock = false
  fits : (s'.phase t).Fits
  roles : ∀ r i, s'.Plays t r i → s'.RoleOk i r
  others : ∀ t' r, t' ≠ t → s.Plays t' r k → s.RoleOk k r → s'.RoleOk k r

omit [DecidableEq τ] in
theorem RoleOk.locked (ok : s.RoleOk i r) (locks : r = .loading ∨ r = .writing) : (s.inode i).lock = true := by
  rcases locks with rfl | rfl
  · exact ok.2.2.1
  · exact ok.2.1

theorem Sound.step (sound : s.Sound) (step : Step s s' t k) : s'.Sound where
  entries := by
    intro i
    by_cases here : i = k
    · rw [here]
      exact step.entry
    · exact (sound.entries i).congr (step.change.inode i here) (step.change.refs_other here) (step.stored i here)
        fun _ => step.change.reading (step.moved i here)
  unique := by
    intro i j device dev num
    by_cases first : i = k <;> by_cases second : j = k
    · rw [first, second]
    · rw [first] at device dev num
      rw [step.change.inode j second] at dev num
      exact absurd num.symm (step.unique j second device dev.symm)
    · rw [second] at dev num
      rw [step.change.inode i first] at device dev num
      exact absurd num (step.unique i first (dev ▸ device) dev)
    · rw [step.change.inode i first] at device dev num
      rw [step.change.inode j second] at dev num
      exact sound.unique i j device dev num
  linked := step.linked
  apart := by
    -- Only a lock that was free is taken.
    have alone (u : τ) (r r' : InodeRole) (i : Nat) (other : u ≠ t) (locks : r = .loading ∨ r = .writing)
        (locks' : r' = .loading ∨ r' = .writing) (mine : s'.Plays t r i) (yours : s'.Plays u r' i) : False := by
      rw [step.change.plays other] at yours
      obtain ⟨before, held⟩ := step.locks r i locks mine
      rcases held with ⟨locked, plays⟩ | free
      · exact other (sound.apart u t r' before i locks' locked yours plays)
      · have locked := (sound.roles u r' i yours).locked locks'
        rw [free] at locked
        cases locked
    intro u u' r r' i locks locks' mine yours
    by_contra differs
    by_cases first : u = t
    · subst first
      exact alone u' r r' i (Ne.symm differs) locks locks' mine yours
    · by_cases second : u' = t
      · subst second
        exact alone u r' r i differs locks' locks yours mine
      · rw [step.change.plays first] at mine
        rw [step.change.plays second] at yours
        exact differs (sound.apart u u' r r' i locks locks' mine yours)
  fits := by
    intro u
    by_cases here : u = t
    · rw [here]
      exact step.fits
    · rw [step.change.phase u here]
      exact sound.fits u
  roles := by
    intro u r i plays
    by_cases here : u = t
    · rw [here] at plays
      exact step.roles r i plays
    · rw [step.change.plays here] at plays
      by_cases place : i = k
      · rw [place] at plays ⊢
        exact step.others u r here plays (sound.roles u r k plays)
      · exact (sound.roles u r i plays).congr (step.change.inode i place) (step.change.refs_other place)

variable {dev num : BitVec 16}

theorem Change.refs_same (change : Change s s' t k) (share : s'.share t k = s.share t k) : s'.refs k = s.refs k := by
  have refs := change.refs k
  rw [share] at refs
  omega

/-- A task goes on and leaves the inodes as they are. -/
theorem Sound.pass (sound : s.Sound) (change : Change s s' t k) (entry : s'.inode k = s.inode k)
    (stored : s'.shared.stored = s.shared.stored) (share : s'.share t k = s.share t k)
    (moved : ∀ i, s.phase t ≠ .reading i) (fits : (s'.phase t).Fits) (plays : ∀ r i, s'.Plays t r i → s.Plays t r i) :
    s'.Sound := by
  have refs := change.refs_same share
  apply sound.step (k := k) (t := t)
  exact {
    change
    stored := fun _ _ _ => by rw [stored]
    moved := fun i _ => moved i
    entry := (sound.entries k).congr entry refs (fun _ => by rw [stored]) fun _ => change.reading (moved k)
    unique := by
      intro i other device dev num
      rw [entry] at device dev num
      exact other (sound.unique i k (dev ▸ device) dev num)
    linked := by
      rw [stored]
      exact sound.linked
    locks := fun r i locks mine => ⟨r, .inl ⟨locks, plays r i mine⟩⟩
    fits
    roles := by
      intro r i mine
      by_cases here : i = k
      · rw [here] at mine ⊢
        exact (sound.roles t r k (plays r k mine)).congr entry refs
      · exact (sound.roles t r i (plays r i mine)).congr (change.inode i here) (change.refs_other here)
    others := fun _ _ _ _ ok => ok.congr entry refs }

omit [DecidableEq τ] in
/-- An inode of a device that is not locked has its record. -/
theorem Sound.loaded (sound : s.Sound) (device : (s.inode k).dev ≠ 0) (unlocked : (s.inode k).lock = false) :
    (s.inode k).nlinks ≠ 0 := by
  intro unread
  obtain ⟨u, reads⟩ := (sound.entries k).read device unread
  have loading : s.Plays u .loading k := by
    left
    rw [reads]
    rfl
  have locked := (sound.roles u _ _ loading).locked (.inl rfl)
  rw [unlocked] at locked
  cases locked

/-- A task locks an inode to write it. -/
theorem Sound.lock (sound : s.Sound) (change : Change s s' t k) (unlocked : (s.inode k).lock = false)
    (dirty : (s.inode k).dirt = true) (device : (s.inode k).dev ≠ 0)
    (entry : s'.inode k = { s.inode k with lock := true }) (stored : s'.shared.stored = s.shared.stored)
    (share : s'.share t k = s.share t k)
    (moved : ∀ i, s.phase t ≠ .reading i) (fits : (s'.phase t).Fits)
    (plays : ∀ r i, s'.Plays t r i → s.Plays t r i ∨ r = .writing ∧ i = k) : s'.Sound := by
  have linked := sound.loaded device unlocked
  have refs := change.refs_same share
  have kept (r : InodeRole) (ok : s.RoleOk k r) : s'.RoleOk k r := by
    cases r with
    | reserved =>
      rw [ok.2.2] at dirty
      cases dirty
    | loading =>
      have locked := ok.2.2.1
      rw [unlocked] at locked
      cases locked
    | writing =>
      have locked := ok.2.1
      rw [unlocked] at locked
      cases locked
    | used =>
      rw [RoleOk, entry]
      exact ok
  apply sound.step (k := k) (t := t)
  exact {
    change
    stored := fun _ _ _ => by rw [stored]
    moved := fun i _ => moved i
    entry := by
      refine ⟨?_, ?_, ?_, ?_, ?_⟩ <;> rw [entry]
      · rw [refs]
        exact (sound.entries k).counted
      · exact (sound.entries k).plain
      · exact (sound.entries k).placed
      · exact fun _ unread => absurd unread linked
      · intro _ _ clean
        rw [dirty] at clean
        cases clean
    unique := by
      intro i other device dev num
      rw [entry] at device dev num
      exact other (sound.unique i k (dev ▸ device) dev num)
    linked := by
      rw [stored]
      exact sound.linked
    locks := by
      intro r i locks mine
      rcases plays r i mine with before | ⟨-, rfl⟩
      · exact ⟨r, .inl ⟨locks, before⟩⟩
      · exact ⟨r, .inr unlocked⟩
    fits
    roles := by
      intro r i mine
      rcases plays r i mine with before | ⟨rfl, rfl⟩
      · by_cases here : i = k
        · rw [here] at before ⊢
          exact kept r (sound.roles t r k before)
        · exact (sound.roles t r i before).congr (change.inode i here) (change.refs_other here)
      · rw [RoleOk, entry]
        exact ⟨device, rfl, linked⟩
    others := fun _ r _ _ ok => kept r ok }

/-- A task that wrote an inode unlocks it. -/
theorem Sound.wrote (sound : s.Sound) (change : Change s s' t k) (writes : s.Plays t .writing k)
    (entry : s'.inode k = { s.inode k with dirt := false, lock := false })
    (stored : s'.shared.stored = fun dev num =>
      if dev = (s.inode k).dev ∧ num = (s.inode k).num then s.inode k else s.shared.stored dev num)
    (share : s'.share t k = s.share t k) (moved : ∀ i, s.phase t ≠ .reading i) (fits : (s'.phase t).Fits)
    (plays : ∀ r i, s'.Plays t r i → r = .used ∧ s.Plays t r i) : s'.Sound := by
  obtain ⟨device, locked, linked⟩ := sound.roles t .writing k writes
  have refs := change.refs_same share
  have used (ok : s.RoleOk k .used) : s'.RoleOk k .used := by
    rw [RoleOk, entry]
    exact ok
  apply sound.step (k := k) (t := t)
  exact {
    change
    stored := by
      intro i other device
      rw [stored]
      apply if_neg
      rintro ⟨dev, num⟩
      exact other (sound.unique i k device dev num)
    moved := fun i _ => moved i
    entry := by
      refine ⟨?_, ?_, ?_, ?_, ?_⟩
      · rw [entry, refs]
        exact (sound.entries k).counted
      · rw [entry]
        exact (sound.entries k).plain
      · rw [entry]
        exact (sound.entries k).placed
      · rw [entry]
        exact fun _ unread => absurd unread linked
      · intro _ _ _
        rw [Stored, entry, stored]
        exact congrArg _ (if_pos ⟨rfl, rfl⟩)
    unique := by
      intro i other device dev num
      rw [entry] at device dev num
      exact other (sound.unique i k (dev ▸ device) dev num)
    linked := by
      intro dev num
      rw [stored]
      dsimp only
      split
      · exact linked
      · exact sound.linked dev num
    locks := by
      intro r i locks mine
      obtain ⟨rfl, -⟩ := plays r i mine
      rcases locks with locks | locks <;> cases locks
    fits
    roles := by
      intro r i mine
      obtain ⟨rfl, before⟩ := plays r i mine
      by_cases here : i = k
      · rw [here] at before ⊢
        exact used (sound.roles t _ k before)
      · exact (sound.roles t _ i before).congr (change.inode i here) (change.refs_other here)
    others := by
      intro u r other mine ok
      cases r with
      | reserved =>
        rw [ok.2.2] at device
        exact absurd rfl device
      | loading => exact absurd ok.2.2.2 linked
      | writing => exact absurd (sound.apart u t _ _ k (.inr rfl) (.inr rfl) mine writes) other
      | used => exact used ok }

omit [DecidableEq τ] in
theorem EntryOk.unused (ok : s.EntryOk k) (bound : s.refs k < 2 ^ 16) (zero : (s.inode k).count = 0) :
    s.refs k = 0 := by
  have counted := congrArg BitVec.toNat ok.counted
  rw [zero, BitVec.toNat_ofNat, Nat.mod_eq_of_lt bound] at counted
  exact counted.symm

/-- `get_empty_inode` takes a slot. -/
theorem Sound.take (sound : s.Sound) (change : Change s s' t k) (inside : k < nrInode)
    (unlocked : (s.inode k).lock = false) (unused : s.refs k = 0)
    (entry : s'.inode k = { MInode.zero with count := 1 }) (stored : s'.shared.stored = s.shared.stored)
    (share : s'.share t k = 1) (moved : ∀ i, s.phase t ≠ .reading i) (fits : (s'.phase t).Fits)
    (plays : ∀ r i, s'.Plays t r i → r = .reserved ∧ i = k ∨ r = .used ∧ i ≠ k ∧ s.Plays t r i) : s'.Sound := by
  have refs : s'.refs k = 1 := by
    have refs := change.refs k
    have old := share_le_refs s t k
    omega
  apply sound.step (k := k) (t := t)
  exact {
    change
    stored := fun _ _ _ => by rw [stored]
    moved := fun i _ => moved i
    entry := by
      refine ⟨?_, ?_, ?_, ?_, ?_⟩
      · rw [entry, refs]
        rfl
      · rw [entry]
        exact ⟨rfl, rfl⟩
      all_goals
        rw [entry]
        exact fun device => absurd rfl device
    unique := by
      intro i _ device
      rw [entry] at device
      exact absurd rfl device
    linked := by
      rw [stored]
      exact sound.linked
    locks := by
      intro r i locks mine
      rcases plays r i mine with ⟨rfl, -⟩ | ⟨rfl, -⟩ <;> rcases locks with locks | locks <;> cases locks
    fits
    roles := by
      intro r i mine
      rcases plays r i mine with ⟨rfl, rfl⟩ | ⟨rfl, other, before⟩
      · exact ⟨inside, refs, entry⟩
      · exact (sound.roles t _ i before).congr (change.inode i other) (change.refs_other other)
    others := by
      -- Nobody has an inode that is not locked and not referred to.
      intro u r _ mine ok
      cases r with
      | reserved => exact absurd (ok.2.1.symm.trans unused) (by decide)
      | loading => exact absurd (ok.1.symm.trans unused) (by decide)
      | writing =>
        have locked := ok.2.1
        rw [unlocked] at locked
        cases locked
      | used =>
        have referred := mine.share (by decide)
        have within := share_le_refs s u k
        omega }

/-- Two tasks do not have one reference. -/
theorem Plays.alone (mine : s.Plays t r i) (yours : s.Plays t' r' i) (more : r ≠ .writing) (more' : r' ≠ .writing)
    (one : s.refs i = 1) : t' = t := by
  by_contra other
  have first := mine.share more
  have second := yours.share more'
  have within := shares_le_refs s (Ne.symm other) i
  omega

/-- A reserved slot is not another task's. -/
theorem Sound.reserved_alone (sound : s.Sound) (mine : s.Plays t .reserved i) (other : t' ≠ t)
    (yours : s.Plays t' r i) : False := by
  obtain ⟨-, one, entry⟩ := sound.roles t _ i mine
  have ok := sound.roles t' r i yours
  have absent : (s.inode i).dev = 0 := by rw [entry]; rfl
  cases r with
  | reserved => exact other (mine.alone yours (by decide) (by decide) one)
  | loading => exact ok.2.1 absent
  | writing => exact ok.1 absent
  | used => exact ok.1 absent

/-- `iget` makes its slot the inode that it did not find, and locks it to read it. -/
theorem Sound.assign (sound : s.Sound) (change : Change s s' t k) (reserved : s.Plays t .reserved k) (device : dev ≠ 0)
    (missing : ∀ i, i < nrInode → (s.inode i).dev = dev → (s.inode i).num ≠ num)
    (entry : s'.inode k = { s.inode k with dev := dev, num := num, lock := true })
    (stored : s'.shared.stored = s.shared.stored) (share : s'.share t k = s.share t k)
    (moved : ∀ i, s.phase t ≠ .reading i) (reads : s'.phase t = .reading k)
    (plays : ∀ r i, s'.Plays t r i → r = .loading ∧ i = k ∨ r = .used ∧ s.Plays t r i) : s'.Sound := by
  obtain ⟨inside, one, zero⟩ := sound.roles t _ k reserved
  have refs := change.refs_same share
  rw [zero] at entry
  apply sound.step (k := k) (t := t)
  exact {
    change
    stored := fun _ _ _ => by rw [stored]
    moved := fun i _ => moved i
    entry := by
      refine ⟨?_, ?_, ?_, ?_, ?_⟩
      · rw [entry, refs, one]
        rfl
      · rw [entry]
        exact ⟨rfl, rfl⟩
      · exact fun _ => inside
      · exact fun _ _ => ⟨t, reads⟩
      · intro _ linked
        rw [entry] at linked
        exact absurd rfl linked
    unique := by
      intro i _ _ same
      rw [entry] at same ⊢
      exact missing i ((sound.entries i).placed (same ▸ device)) same
    linked := by
      rw [stored]
      exact sound.linked
    locks := by
      intro r i _ mine
      rcases plays r i mine with ⟨-, rfl⟩ | ⟨rfl, -⟩
      · refine ⟨r, .inr ?_⟩
        rw [zero]
        rfl
      · rename_i locks
        rcases locks with locks | locks <;> cases locks
    fits := by
      rw [reads]
      trivial
    roles := by
      intro r i mine
      rcases plays r i mine with ⟨rfl, rfl⟩ | ⟨rfl, before⟩
      · rw [RoleOk, entry, refs]
        exact ⟨one, device, rfl, rfl⟩
      · have ok := sound.roles t _ i before
        have other : i ≠ k := by
          rintro rfl
          rw [RoleOk, zero] at ok
          exact ok.1 rfl
        exact ok.congr (change.inode i other) (change.refs_other other)
    others := fun _ _ other yours _ => (sound.reserved_alone reserved other yours).elim }

/-- `iget` returns the inode that it read. -/
theorem Sound.load (sound : s.Sound) (change : Change s s' t k) (loading : s.Plays t .loading k)
    (entry : s'.inode k =
      { (s.inode k).withRecord (s.shared.stored (s.inode k).dev (s.inode k).num) with lock := false })
    (stored : s'.shared.stored = s.shared.stored) (share : s'.share t k = s.share t k)
    (moved : ∀ i, i ≠ k → s.phase t ≠ .reading i) (fits : (s'.phase t).Fits)
    (plays : ∀ r i, s'.Plays t r i → r = .used ∧ (i = k ∨ s.Plays t r i)) : s'.Sound := by
  obtain ⟨one, device, locked, unread⟩ := sound.roles t _ k loading
  have refs := change.refs_same share
  have linked := sound.linked (s.inode k).dev (s.inode k).num
  apply sound.step (k := k) (t := t)
  exact {
    change
    stored := fun _ _ _ => by rw [stored]
    moved
    entry := by
      refine ⟨?_, ?_, ?_, ?_, ?_⟩
      · rw [entry, refs]
        exact (sound.entries k).counted
      · rw [entry]
        exact (sound.entries k).plain
      · rw [entry]
        exact (sound.entries k).placed
      · rw [entry]
        exact fun _ unread => absurd unread linked
      · intro _ _ _
        rw [Stored, entry, stored]
        rfl
    unique := by
      intro i other device dev num
      rw [entry] at device dev num
      exact other (sound.unique i k (dev ▸ device) dev num)
    linked := by
      rw [stored]
      exact sound.linked
    locks := by
      intro r i locks mine
      obtain ⟨rfl, -⟩ := plays r i mine
      rcases locks with locks | locks <;> cases locks
    fits
    roles := by
      intro r i mine
      obtain ⟨rfl, before⟩ := plays r i mine
      by_cases here : i = k
      · rw [here, RoleOk, entry]
        exact ⟨device, linked⟩
      · have before := before.resolve_left here
        exact (sound.roles t _ i before).congr (change.inode i here) (change.refs_other here)
    others := by
      intro u r other yours ok
      cases r with
      | reserved =>
        rw [ok.2.2] at device
        exact absurd rfl device
      | loading => exact absurd (loading.alone yours (by decide) (by decide) one) other
      | writing => exact absurd unread ok.2.2
      | used => exact absurd unread ok.2 }

/-- A task gets or puts back a reference to an inode that has its record, or changes its record. -/
theorem Sound.recount (sound : s.Sound) (change : Change s s' t k) (device : (s.inode k).dev ≠ 0)
    (linked : (s.inode k).nlinks ≠ 0) (linked' : (s'.inode k).nlinks ≠ 0) (dev : (s'.inode k).dev = (s.inode k).dev)
    (num : (s'.inode k).num = (s.inode k).num) (lock : (s'.inode k).lock = (s.inode k).lock)
    (plain : (s'.inode k).pipe = false ∧ (s'.inode k).mount = false)
    (counted : (s'.inode k).count = BitVec.ofNat 16 (s'.refs k))
    (clean : (s'.inode k).dirt = false → s'.Stored k) (stored : s'.shared.stored = s.shared.stored)
    (moved : ∀ i, s.phase t ≠ .reading i) (fits : (s'.phase t).Fits)
    (plays : ∀ r i, s'.Plays t r i →
      r = .used ∧ (i = k ∨ s.Plays t r i) ∨ r = .reserved ∧ i ≠ k ∧ s.Plays t r i) : s'.Sound := by
  have used : s'.RoleOk k .used := ⟨by rw [dev]; exact device, linked'⟩
  apply sound.step (k := k) (t := t)
  exact {
    change
    stored := fun _ _ _ => by rw [stored]
    moved := fun i _ => moved i
    entry := {
      counted
      plain
      placed := by
        rw [dev]
        exact (sound.entries k).placed
      read := fun _ unread => absurd unread linked'
      clean := fun _ _ => clean }
    unique := by
      intro i other present dev' num'
      rw [dev] at dev'
      rw [num] at num'
      exact other (sound.unique i k (dev' ▸ device) dev' num')
    linked := by
      rw [stored]
      exact sound.linked
    locks := by
      intro r i locks mine
      rcases plays r i mine with ⟨rfl, -⟩ | ⟨rfl, -⟩ <;> rcases locks with locks | locks <;> cases locks
    fits
    roles := by
      intro r i mine
      by_cases here : i = k
      · rcases plays r i mine with ⟨rfl, -⟩ | ⟨-, other, -⟩
        · rw [here]
          exact used
        · exact absurd here other
      · have before : s.Plays t r i := by
          rcases plays r i mine with ⟨-, before⟩ | ⟨-, -, before⟩
          · exact before.resolve_left here
          · exact before
        exact (sound.roles t r i before).congr (change.inode i here) (change.refs_other here)
    others := by
      intro u r _ _ ok
      cases r with
      | reserved =>
        rw [ok.2.2] at device
        exact absurd rfl device
      | loading => exact absurd ok.2.2.2 linked
      | writing => exact ⟨by rw [dev]; exact device, by rw [lock]; exact ok.2.1, linked'⟩
      | used => exact used }

/-- A task puts back a slot that it does not need. -/
theorem Sound.clear (sound : s.Sound) (change : Change s s' t k) (reserved : s.Plays t .reserved k)
    (entry : s'.inode k = MInode.zero) (stored : s'.shared.stored = s.shared.stored)
    (share : s'.share t k + 1 = s.share t k) (moved : ∀ i, s.phase t ≠ .reading i) (fits : (s'.phase t).Fits)
    (plays : ∀ r i, s'.Plays t r i → r = .used ∧ s.Plays t r i) : s'.Sound := by
  obtain ⟨-, one, zero⟩ := sound.roles t _ k reserved
  have refs : s'.refs k = 0 := by
    have refs := change.refs k
    omega
  apply sound.step (k := k) (t := t)
  exact {
    change
    stored := fun _ _ _ => by rw [stored]
    moved := fun i _ => moved i
    entry := by
      refine ⟨?_, ?_, ?_, ?_, ?_⟩
      · rw [entry, refs]
        rfl
      · rw [entry]
        exact ⟨rfl, rfl⟩
      all_goals
        rw [entry]
        exact fun device => absurd rfl device
    unique := by
      intro i _ device
      rw [entry] at device
      exact absurd rfl device
    linked := by
      rw [stored]
      exact sound.linked
    locks := by
      intro r i locks mine
      obtain ⟨rfl, -⟩ := plays r i mine
      rcases locks with locks | locks <;> cases locks
    fits
    roles := by
      intro r i mine
      obtain ⟨rfl, before⟩ := plays r i mine
      have ok := sound.roles t _ i before
      have other : i ≠ k := by
        rintro rfl
        rw [RoleOk, zero] at ok
        exact ok.1 rfl
      exact ok.congr (change.inode i other) (change.refs_other other)
    others := fun _ _ other yours _ => (sound.reserved_alone reserved other yours).elim }

end Kept

end InodeTasks

end K210Linux.Fs
