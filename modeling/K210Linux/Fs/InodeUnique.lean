import K210Linux.Fs.InodeRoles

/-! Runs of `iget` and `iput`: what every call keeps of the inode table. -/

namespace K210Linux.Fs

open K210Linux.Lib
open K210Linux.Buffer.Drive (nrInode)

namespace InodeTasks

variable {τ : Type} {s s' : InodeTasks τ} {t t' : τ} {i k : Nat} {r r' : InodeRole}

section Kept

variable [Fintype τ] [DecidableEq τ]
variable {phase : InodePhase} {held : Nat → Nat} {shared : SharedInodes} {dev num : BitVec 16} {empty : Nat}

omit [Fintype τ] in
theorem move_change (inode : ∀ i, i ≠ k → shared.inode i = s.shared.inode i)
    (share : ∀ i, i ≠ k → phase.refs i + held i = s.share t i) : Change s (s.move t phase held shared) t k where
  phase := fun _ other => Function.update_of_ne other ..
  held := fun _ other => Function.update_of_ne other ..
  inode := inode
  share := by
    intro i other
    rw [← share i other]
    simp [InodeTasks.share, move]

omit [Fintype τ] in
@[simp] theorem move_phase (s : InodeTasks τ) (t : τ) (phase : InodePhase) (held : Nat → Nat) (shared : SharedInodes) :
    (s.move t phase held shared).phase t = phase := Function.update_self ..

omit [Fintype τ] in
@[simp] theorem move_share (s : InodeTasks τ) (t : τ) (phase : InodePhase) (held : Nat → Nat) (shared : SharedInodes)
    (i : Nat) : (s.move t phase held shared).share t i = phase.refs i + held i := by
  simp [InodeTasks.share, move]

omit [Fintype τ] in
theorem move_plays (s : InodeTasks τ) (t : τ) (phase : InodePhase) (held : Nat → Nat) (shared : SharedInodes)
    (r : InodeRole) (i : Nat) :
    (s.move t phase held shared).Plays t r i ↔ phase.Plays r i ∨ r = .used ∧ 0 < held i := by
  simp [Plays, move]

/-- A slot that nobody has and that has nothing to write. -/
def Unused (s : InodeTasks τ) (i : Nat) : Prop :=
  (s.inode i).count = 0 ∧ (s.inode i).lock = false ∧ (s.inode i).dirt = false

/-- What a step does to the identities: only a slot that is not used gets another one, or gets reserved. -/
structure Keeps (s s' : InodeTasks τ) : Prop where
  identity : ∀ i, (s.inode i).dev ≠ 0 →
    (s'.inode i).dev = (s.inode i).dev ∧ (s'.inode i).num = (s.inode i).num ∨ s.Unused i
  reserved : ∀ t i, s'.Plays t .reserved i → s.Plays t .reserved i ∨ s.Unused i

omit [Fintype τ] [DecidableEq τ] in
theorem Change.keeps (change : Change s s' t k)
    (identity : (s.inode k).dev ≠ 0 →
      (s'.inode k).dev = (s.inode k).dev ∧ (s'.inode k).num = (s.inode k).num ∨ s.Unused k)
    (reserved : ∀ i, s'.Plays t .reserved i → s.Plays t .reserved i ∨ s.Unused i) : Keeps s s' where
  identity := by
    intro i device
    by_cases here : i = k
    · rw [here] at device ⊢
      exact identity device
    · rw [change.inode i here]
      exact .inl ⟨rfl, rfl⟩
  reserved := by
    intro u i mine
    by_cases here : u = t
    · rw [here] at mine ⊢
      exact reserved i mine
    · exact .inl ((change.plays here).mp mine)

/-- A task goes on in its call and leaves the inodes as they are. -/
theorem Sound.goes (sound : s.Sound) (inode : shared.inode = s.shared.inode) (stored : shared.stored = s.shared.stored)
    (refs : phase.refs = (s.phase t).refs) (moved : ∀ i, s.phase t ≠ .reading i) (fits : phase.Fits)
    (plays : ∀ r i, phase.Plays r i → (s.phase t).Plays r i) :
    (s.move t phase (s.held t) shared).Sound ∧ Keeps s (s.move t phase (s.held t) shared) := by
  have change : Change s (s.move t phase (s.held t) shared) t 0 :=
    move_change (fun i _ => congrFun inode i) fun i _ => by rw [refs, InodeTasks.share]
  have entry : (s.move t phase (s.held t) shared).inode 0 = s.inode 0 := congrFun inode 0
  have plays (r : InodeRole) (i : Nat) (mine : (s.move t phase (s.held t) shared).Plays t r i) : s.Plays t r i :=
    ((move_plays ..).mp mine).imp_left (plays r i)
  refine ⟨sound.pass change entry stored ?_ moved ?_ plays, change.keeps ?_ fun i mine => .inl (plays _ i mine)⟩
  · rw [move_share, refs, InodeTasks.share]
  · rw [move_phase]
    exact fits
  · rw [entry]
    exact fun _ => .inl ⟨rfl, rfl⟩

/-- `write_inode` up to the point where it waits for the block. -/
theorem Sound.writeInode {back during : InodePhase} (sound : s.Sound) (unlocked : (s.inode k).lock = false)
    (written : s.shared.writeInode k back during = (phase, shared)) (moved : ∀ i, s.phase t ≠ .reading i)
    (dirty : (s.inode k).dirt = true) (back_refs : back.refs = (s.phase t).refs) (back_fits : back.Fits)
    (back_plays : ∀ r i, back.Plays r i → (s.phase t).Plays r i) (refs : during.refs = (s.phase t).refs)
    (fits : during.Fits) (plays : ∀ r i, during.Plays r i → (s.phase t).Plays r i ∨ r = .writing ∧ i = k) :
    (s.move t phase (s.held t) shared).Sound ∧ Keeps s (s.move t phase (s.held t) shared) := by
  unfold SharedInodes.writeInode at written
  split at written
  · cases written
    exact sound.goes rfl rfl back_refs moved back_fits back_plays
  · rename_i needed
    have device : (s.inode k).dev ≠ 0 := fun absent => needed (.inr absent)
    cases written
    have change : Change s (s.move t phase (s.held t) (s.shared.setInode k { s.inode k with lock := true })) t k :=
      move_change (fun i other => Function.update_of_ne other ..) fun i _ => by rw [refs, InodeTasks.share]
    have entry : (s.move t phase (s.held t) (s.shared.setInode k { s.inode k with lock := true })).inode k =
        { s.inode k with lock := true } := Function.update_self ..
    have plays (r : InodeRole) (i : Nat)
        (mine : (s.move t phase (s.held t) (s.shared.setInode k { s.inode k with lock := true })).Plays t r i) :
        s.Plays t r i ∨ r = .writing ∧ i = k := by
      rcases (move_plays ..).mp mine with mine | mine
      · exact (plays r i mine).imp_left .inl
      · exact .inl (.inr mine)
    refine ⟨sound.lock change unlocked dirty device entry rfl ?_ moved ?_ plays, change.keeps ?_ ?_⟩
    · rw [move_share, refs, InodeTasks.share]
    · rw [move_phase]
      exact fits
    · rw [entry]
      exact fun _ => .inl ⟨rfl, rfl⟩
    · intro i mine
      rcases plays _ i mine with mine | ⟨mine, -⟩
      · exact .inl mine
      · cases mine

/-- `write_inode` when it has the block. -/
theorem Sound.store (sound : s.Sound) (writes : (s.phase t).Plays .writing k) (moved : ∀ i, s.phase t ≠ .reading i)
    (refs : phase.refs = (s.phase t).refs) (fits : phase.Fits)
    (plays : ∀ r i, phase.Plays r i → r = .used ∧ (s.phase t).Plays r i) :
    (s.move t phase (s.held t) (s.shared.store k)).Sound ∧ Keeps s (s.move t phase (s.held t) (s.shared.store k)) := by
  have change : Change s (s.move t phase (s.held t) (s.shared.store k)) t k :=
    move_change (fun i other => Function.update_of_ne other ..) fun i _ => by rw [refs, InodeTasks.share]
  have entry : (s.move t phase (s.held t) (s.shared.store k)).inode k =
      { s.inode k with dirt := false, lock := false } := Function.update_self ..
  have plays (r : InodeRole) (i : Nat) (mine : (s.move t phase (s.held t) (s.shared.store k)).Plays t r i) :
      r = .used ∧ s.Plays t r i := by
    rcases (move_plays ..).mp mine with mine | ⟨rfl, held⟩
    · exact ⟨(plays r i mine).1, .inl (plays r i mine).2⟩
    · exact ⟨rfl, .inr ⟨rfl, held⟩⟩
  refine ⟨sound.wrote change (.inl writes) entry rfl ?_ moved ?_ plays, change.keeps ?_ ?_⟩
  · rw [move_share, refs, InodeTasks.share]
  · rw [move_phase]
    exact fits
  · rw [entry]
    exact fun _ => .inl ⟨rfl, rfl⟩
  · intro i mine
    cases (plays _ i mine).1

omit [Fintype τ] [DecidableEq τ] in
theorem scanUnused_lt {table : Nat → MInode} {left last last' : Nat} {found : Option Nat}
    (before : ∀ j, found = some j → j < nrInode) (scanned : scanUnused table left last found = (last', some k)) :
    k < nrInode := by
  induction left generalizing last found with
  | zero =>
    cases scanned
    exact before k rfl
  | succ left ih =>
    have inside : (if nrInode ≤ last + 1 then 0 else last + 1) < nrInode := by
      split
      · decide
      · omega
    unfold scanUnused at scanned
    dsimp only at scanned
    generalize (if nrInode ≤ last + 1 then 0 else last + 1) = here at scanned inside
    split at scanned
    · split at scanned
      · cases scanned
        exact inside
      · exact ih (fun j same => Option.some.inj same ▸ inside) scanned
    · exact ih before scanned

omit [Fintype τ] [DecidableEq τ] in
theorem searchTable_none {table : Nat → MInode} {left : Nat} (missing : searchTable table dev num left = none)
    (from_ : nrInode - left ≤ i) (inside : i < nrInode) (device : (table i).dev = dev) : (table i).num ≠ num := by
  induction left with
  | zero => omega
  | succ left ih =>
    unfold searchTable at missing
    dsimp only at missing
    split at missing
    · cases missing
    · rename_i differs
      by_cases here : i = nrInode - (left + 1)
      · rw [here] at device ⊢
        exact fun same => differs ⟨device, same⟩
      · exact ih missing (by omega)

/-- `get_empty_inode` chooses a slot. -/
theorem Sound.choose (sound : s.Sound) (device : dev ≠ 0) (quiet : (s.phase t).refs = fun _ => 0)
    (moved : ∀ i, s.phase t ≠ .reading i) (chosen : s.shared.choose dev num = some (phase, shared)) :
    (s.move t phase (s.held t) shared).Sound ∧ Keeps s (s.move t phase (s.held t) shared) := by
  unfold SharedInodes.choose at chosen
  split at chosen
  · cases chosen
  · rename_i scanned
    cases chosen
    refine sound.goes rfl rfl ?_ moved ?_ ?_
    · rw [quiet]
      rfl
    · exact ⟨device, scanUnused_lt (fun _ found => by cases found) scanned⟩
    · intro r i plays
      cases r <;> cases plays

/-- The last step of `get_empty_inode`. -/
theorem Sound.takes (sound : s.Sound) (bound : s.refs k < 2 ^ 16) (at_ : s.phase t = .chosen dev num k)
    (unlocked : (s.inode k).lock = false) (clean : (s.inode k).dirt = false) (zero : (s.inode k).count = 0) :
    (s.move t (.searching dev num k) (s.held t) (s.shared.setInode k { MInode.zero with count := 1 })).Sound ∧
      Keeps s (s.move t (.searching dev num k) (s.held t) (s.shared.setInode k { MInode.zero with count := 1 })) := by
  have unused := (sound.entries k).unused bound zero
  have fits := sound.fits t
  rw [at_] at fits
  have held : s.held t k = 0 := by
    have within := share_le_refs s t k
    unfold InodeTasks.share at within
    omega
  have change : Change s (s.move t (.searching dev num k) (s.held t)
      (s.shared.setInode k { MInode.zero with count := 1 })) t k := by
    apply move_change
    · exact fun i other => Function.update_of_ne other ..
    · intro i other
      simp [InodeTasks.share, at_, InodePhase.refs, other]
  have entry : (s.move t (.searching dev num k) (s.held t)
      (s.shared.setInode k { MInode.zero with count := 1 })).inode k = { MInode.zero with count := 1 } :=
    Function.update_self ..
  have plays (r : InodeRole) (i : Nat) (mine : (s.move t (.searching dev num k) (s.held t)
      (s.shared.setInode k { MInode.zero with count := 1 })).Plays t r i) :
      r = .reserved ∧ i = k ∨ r = .used ∧ i ≠ k ∧ s.Plays t r i := by
    rcases (move_plays ..).mp mine with mine | ⟨rfl, positive⟩
    · cases r <;> first | exact .inl ⟨rfl, mine⟩ | cases mine
    · refine .inr ⟨rfl, ?_, .inr ⟨rfl, positive⟩⟩
      rintro rfl
      omega
  refine ⟨sound.take change fits.2 unlocked unused entry rfl ?_ ?_ ?_ plays, change.keeps ?_ ?_⟩
  · simp [InodePhase.refs, held]
  · simp [at_]
  · rw [move_phase]
    exact fits.1
  · exact fun _ => .inr ⟨zero, unlocked, clean⟩
  · intro i mine
    rcases plays _ i mine with ⟨-, rfl⟩ | ⟨mine, -⟩
    · exact .inr ⟨zero, unlocked, clean⟩
    · cases mine

/-- The search of `iget`: it finds an inode, or takes its slot for it. -/
theorem Sound.search (sound : s.Sound) (at_ : s.phase t = .searching dev num empty)
    (searched : s.shared.search dev num empty = (phase, shared)) :
    (s.move t phase (s.held t) shared).Sound ∧ Keeps s (s.move t phase (s.held t) shared) := by
  have device := sound.fits t
  rw [at_] at device
  have reserved : s.Plays t .reserved empty := .inl (by rw [at_]; exact rfl)
  have zero := (sound.roles t _ empty reserved).2.2
  unfold SharedInodes.search at searched
  split at searched
  · cases searched
    refine sound.goes rfl rfl ?_ ?_ device ?_
    · rw [at_]
      rfl
    · simp [at_]
    · intro r i plays
      rw [at_]
      cases r <;> exact plays
  · rename_i missing
    have unlocked :
        ((s.shared.setInode empty { s.shared.inode empty with dev := dev, num := num }).inode empty).lock = false := by
      simp only [SharedInodes.setInode, Function.update_self]
      change (s.inode empty).lock = false
      rw [zero]
      rfl
    rw [SharedInodes.readInode, unlocked, if_neg Bool.false_ne_true] at searched
    obtain ⟨rfl, made⟩ := Prod.mk.inj searched
    have inode (i : Nat) (other : i ≠ empty) : shared.inode i = s.inode i := by
      rw [← made]
      simp [SharedInodes.setInode, other, InodeTasks.inode]
    have entry : shared.inode empty = { s.inode empty with dev := dev, num := num, lock := true } := by
      rw [← made]
      simp [SharedInodes.setInode, InodeTasks.inode]
    have stored : shared.stored = s.shared.stored := by rw [← made]; rfl
    have change : Change s (s.move t (.reading empty) (s.held t) shared) t empty :=
      move_change inode fun i _ => by rw [InodeTasks.share, at_]; rfl
    have plays (r : InodeRole) (i : Nat) (mine : (s.move t (.reading empty) (s.held t) shared).Plays t r i) :
        r = .loading ∧ i = empty ∨ r = .used ∧ s.Plays t r i := by
      rcases (move_plays ..).mp mine with mine | ⟨rfl, positive⟩
      · cases r <;> first | exact .inl ⟨rfl, mine⟩ | cases mine
      · exact .inr ⟨rfl, .inr ⟨rfl, positive⟩⟩
    refine ⟨sound.assign change reserved device ?_ entry stored ?_ ?_ ?_ plays, change.keeps ?_ ?_⟩
    · exact fun i inside => searchTable_none missing (by omega) inside
    · rw [move_share, InodeTasks.share, at_]
      rfl
    · simp [at_]
    · exact move_phase ..
    · rw [zero]
      exact fun device => absurd rfl device
    · intro i mine
      rcases plays _ i mine with ⟨mine, -⟩ | ⟨mine, -⟩ <;> cases mine

/-- `iget` finds an inode, and has its empty slot to put back. -/
theorem Sound.hold (sound : s.Sound) (at_ : s.phase t = .matched dev num empty k) (unlocked : (s.inode k).lock = false)
    (device : (s.inode k).dev ≠ 0) :
    (s.move t (.putting empty (some k)) (s.held t)
        (s.shared.setInode k { s.inode k with count := (s.inode k).count + 1 })).Sound ∧
      Keeps s (s.move t (.putting empty (some k)) (s.held t)
        (s.shared.setInode k { s.inode k with count := (s.inode k).count + 1 })) := by
  have linked := sound.loaded device unlocked
  have reserved : s.Plays t .reserved empty := .inl (by rw [at_]; exact rfl)
  have other : empty ≠ k := by
    rintro rfl
    rw [(sound.roles t _ _ reserved).2.2] at device
    exact device rfl
  have change : Change s (s.move t (.putting empty (some k)) (s.held t)
      (s.shared.setInode k { s.inode k with count := (s.inode k).count + 1 })) t k := by
    apply move_change
    · exact fun i other => Function.update_of_ne other ..
    · intro i other
      simp [InodeTasks.share, at_, InodePhase.refs, Ne.symm other]
  have share : (s.move t (.putting empty (some k)) (s.held t)
      (s.shared.setInode k { s.inode k with count := (s.inode k).count + 1 })).share t k = s.share t k + 1 := by
    rw [move_share]
    simp only [InodeTasks.share, at_, InodePhase.refs, if_neg (Ne.symm other), if_true]
    omega
  have entry : (s.move t (.putting empty (some k)) (s.held t)
      (s.shared.setInode k { s.inode k with count := (s.inode k).count + 1 })).inode k =
      { s.inode k with count := (s.inode k).count + 1 } := Function.update_self ..
  have stored : (s.move t (.putting empty (some k)) (s.held t)
      (s.shared.setInode k { s.inode k with count := (s.inode k).count + 1 })).shared.stored = s.shared.stored := rfl
  have plays (r : InodeRole) (i : Nat) (mine : (s.move t (.putting empty (some k)) (s.held t)
      (s.shared.setInode k { s.inode k with count := (s.inode k).count + 1 })).Plays t r i) :
      r = .used ∧ (i = k ∨ s.Plays t r i) ∨ r = .reserved ∧ i ≠ k ∧ s.Plays t r i := by
    rcases (move_plays ..).mp mine with mine | ⟨rfl, positive⟩
    · cases r with
      | reserved =>
        have here : i = empty := mine
        exact .inr ⟨rfl, by rw [here]; exact other, by rw [here]; exact reserved⟩
      | used => exact .inl ⟨rfl, .inl mine⟩
      | loading => cases mine
      | writing => cases mine
    · exact .inl ⟨rfl, .inr (.inr ⟨rfl, positive⟩)⟩
  have phase := move_phase s t (.putting empty (some k)) (s.held t)
    (s.shared.setInode k { s.inode k with count := (s.inode k).count + 1 })
  generalize s.move t (.putting empty (some k)) (s.held t)
    (s.shared.setInode k { s.inode k with count := (s.inode k).count + 1 }) = s'
    at change share entry stored plays phase ⊢
  refine ⟨sound.recount change device linked ?_ ?_ ?_ ?_ ?_ ?_ ?_ stored ?_ ?_ plays, change.keeps ?_ ?_⟩
  · rw [entry]
    exact linked
  · rw [entry]
  · rw [entry]
  · rw [entry]
  · rw [entry]
    exact (sound.entries k).plain
  · have refs : s'.refs k = s.refs k + 1 := by
      have refs := change.refs k
      omega
    rw [entry, refs, BitVec.ofNat_add, ← (sound.entries k).counted]
    rfl
  · intro clean
    have same : s.Stored k := by
      rw [entry] at clean
      exact (sound.entries k).clean device linked clean
    rw [Stored, entry, stored]
    exact congrArg (fun inode : MInode => { inode with count := (s.inode k).count + 1 }) same
  · simp [at_]
  · rw [phase]
    trivial
  · rw [entry]
    exact fun _ => .inl ⟨rfl, rfl⟩
  · intro i mine
    rcases plays _ i mine with ⟨mine, -⟩ | ⟨-, -, mine⟩
    · cases mine
    · exact .inl mine

/-- The end of `iget` for an inode that it read. -/
theorem Sound.loads (sound : s.Sound) (at_ : s.phase t = .reading k) :
    (s.move t .idle (gain (s.held t) (some k)) (s.shared.load k)).Sound ∧
      Keeps s (s.move t .idle (gain (s.held t) (some k)) (s.shared.load k)) := by
  have loading : s.Plays t .loading k := .inl (by rw [at_]; exact rfl)
  have change : Change s (s.move t .idle (gain (s.held t) (some k)) (s.shared.load k)) t k := by
    apply move_change
    · exact fun i other => Function.update_of_ne other ..
    · intro i other
      simp [InodeTasks.share, at_, InodePhase.refs, other, gain]
  have share : (s.move t .idle (gain (s.held t) (some k)) (s.shared.load k)).share t k = s.share t k := by
    rw [move_share]
    simp only [InodeTasks.share, at_, InodePhase.refs, gain, Function.update_self, if_true]
    omega
  have entry : (s.move t .idle (gain (s.held t) (some k)) (s.shared.load k)).inode k =
      { (s.inode k).withRecord (s.shared.stored (s.inode k).dev (s.inode k).num) with lock := false } :=
    Function.update_self ..
  have plays (r : InodeRole) (i : Nat)
      (mine : (s.move t .idle (gain (s.held t) (some k)) (s.shared.load k)).Plays t r i) :
      r = .used ∧ (i = k ∨ s.Plays t r i) := by
    rcases (move_plays ..).mp mine with mine | ⟨rfl, positive⟩
    · cases r <;> cases mine
    · by_cases here : i = k
      · exact ⟨rfl, .inl here⟩
      · rw [gain, Function.update_of_ne here] at positive
        exact ⟨rfl, .inr (.inr ⟨rfl, positive⟩)⟩
  refine ⟨sound.load change loading entry rfl share ?_ ?_ plays, change.keeps ?_ ?_⟩
  · intro i other same
    rw [at_] at same
    exact other (InodePhase.reading.inj same).symm
  · rw [move_phase]
    trivial
  · rw [entry]
    exact fun _ => .inl ⟨rfl, rfl⟩
  · intro i mine
    cases (plays _ i mine).1

/-- A task puts back a reference of a call of `iput`. -/
theorem Sound.drop (sound : s.Sound) (used : (s.phase t).Plays .used k)
    (refs : (s.phase t).refs = fun i => if i = k then 1 else 0) (moved : ∀ i, s.phase t ≠ .reading i) :
    (s.move t .idle (s.held t) (s.shared.setInode k { s.inode k with count := (s.inode k).count - 1 })).Sound ∧
      Keeps s (s.move t .idle (s.held t)
        (s.shared.setInode k { s.inode k with count := (s.inode k).count - 1 })) := by
  obtain ⟨device, linked⟩ := sound.roles t .used k (.inl used)
  have change : Change s (s.move t .idle (s.held t)
      (s.shared.setInode k { s.inode k with count := (s.inode k).count - 1 })) t k := by
    apply move_change
    · exact fun i other => Function.update_of_ne other ..
    · intro i other
      rw [InodeTasks.share, refs]
      exact congrArg (· + s.held t i) (if_neg other).symm
  have share : (s.move t .idle (s.held t)
      (s.shared.setInode k { s.inode k with count := (s.inode k).count - 1 })).share t k + 1 = s.share t k := by
    rw [move_share, InodeTasks.share, refs]
    simp only [InodePhase.refs, if_true]
    omega
  have entry : (s.move t .idle (s.held t)
      (s.shared.setInode k { s.inode k with count := (s.inode k).count - 1 })).inode k =
      { s.inode k with count := (s.inode k).count - 1 } := Function.update_self ..
  have stored : (s.move t .idle (s.held t)
      (s.shared.setInode k { s.inode k with count := (s.inode k).count - 1 })).shared.stored = s.shared.stored := rfl
  have plays (r : InodeRole) (i : Nat) (mine : (s.move t .idle (s.held t)
      (s.shared.setInode k { s.inode k with count := (s.inode k).count - 1 })).Plays t r i) :
      r = .used ∧ (i = k ∨ s.Plays t r i) ∨ r = .reserved ∧ i ≠ k ∧ s.Plays t r i := by
    rcases (move_plays ..).mp mine with mine | ⟨rfl, positive⟩
    · cases r <;> cases mine
    · exact .inl ⟨rfl, .inr (.inr ⟨rfl, positive⟩)⟩
  have phase := move_phase s t .idle (s.held t) (s.shared.setInode k { s.inode k with count := (s.inode k).count - 1 })
  generalize s.move t .idle (s.held t)
    (s.shared.setInode k { s.inode k with count := (s.inode k).count - 1 }) = s'
    at change share entry stored plays phase ⊢
  refine ⟨sound.recount change device linked ?_ ?_ ?_ ?_ ?_ ?_ ?_ stored moved ?_ plays, change.keeps ?_ ?_⟩
  · rw [entry]
    exact linked
  · rw [entry]
  · rw [entry]
  · rw [entry]
  · rw [entry]
    exact (sound.entries k).plain
  · have refs : s.refs k = s'.refs k + 1 := by
      have refs := change.refs k
      omega
    rw [entry, (sound.entries k).counted, refs, BitVec.ofNat_add]
    exact BitVec.add_sub_cancel ..
  · intro clean
    have same : s.Stored k := by
      rw [entry] at clean
      exact (sound.entries k).clean device linked clean
    rw [Stored, entry, stored]
    exact congrArg (fun inode : MInode => { inode with count := (s.inode k).count - 1 }) same
  · rw [phase]
    trivial
  · rw [entry]
    exact fun _ => .inl ⟨rfl, rfl⟩
  · intro i mine
    rcases plays _ i mine with ⟨mine, -⟩ | ⟨-, -, mine⟩
    · cases mine
    · exact .inl mine

/-- `iput` from `repeat` on, for an inode in use. -/
theorem Sound.release {ret : Option Nat} (sound : s.Sound) (unlocked : (s.inode k).lock = false)
    (at_ : s.phase t = .putting k none ∨ s.phase t = .resting k none)
    (released : s.shared.release k none = (phase, ret, shared)) :
    (s.move t phase (gain (s.held t) ret) shared).Sound ∧ Keeps s (s.move t phase (gain (s.held t) ret) shared) := by
  have used : (s.phase t).Plays .used k := by rcases at_ with at_ | at_ <;> rw [at_] <;> exact rfl
  have refs : (s.phase t).refs = (InodePhase.resting k none).refs := by
    rcases at_ with at_ | at_
    · rw [at_]
      rfl
    · rw [at_]
  have one : (s.phase t).refs = fun i => if i = k then 1 else 0 := by
    rw [refs]
    funext i
    simp [InodePhase.refs]
  have moved (i : Nat) : s.phase t ≠ .reading i := by rcases at_ with at_ | at_ <;> simp [at_]
  obtain ⟨device, linked⟩ := sound.roles t .used k (.inl used)
  unfold SharedInodes.release at released
  dsimp only at released
  split at released
  · cases released
    exact sound.drop used one moved
  · rw [if_neg (show ¬(s.shared.inode k).nlinks = 0 from linked)] at released
    split at released
    · rename_i dirty
      cases written : s.shared.writeInode k (.resting k none) (.storing k none)
      rw [written] at released
      cases released
      have plays (r : InodeRole) (i : Nat) (mine : (InodePhase.resting k none).Plays r i) : (s.phase t).Plays r i := by
        cases r with
        | used =>
          have here : i = k := mine
          rw [here]
          exact used
        | reserved => cases mine
        | loading => cases mine
        | writing => cases mine
      refine sound.writeInode unlocked written moved dirty refs.symm rfl plays refs.symm rfl ?_
      intro r i mine
      cases r with
      | writing => exact .inr ⟨rfl, mine⟩
      | used => exact .inl (plays _ i mine)
      | reserved => cases mine
      | loading => cases mine
    · cases released
      exact sound.drop used one moved

/-- `iput` of the slot that `iget` does not need. -/
theorem Sound.putBack {j : Nat} (sound : s.Sound) (at_ : s.phase t = .putting k (some j)) :
    (s.move t .idle (gain (s.held t) (some j)) (s.shared.setInode k MInode.zero)).Sound ∧
      Keeps s (s.move t .idle (gain (s.held t) (some j)) (s.shared.setInode k MInode.zero)) := by
  have reserved : s.Plays t .reserved k := .inl (by rw [at_]; exact rfl)
  have used : s.Plays t .used j := .inl (by rw [at_]; exact rfl)
  have zero := (sound.roles t _ k reserved).2.2
  have other : k ≠ j := by
    rintro rfl
    have device := (sound.roles t _ _ used).1
    rw [zero] at device
    exact device rfl
  have change : Change s (s.move t .idle (gain (s.held t) (some j)) (s.shared.setInode k MInode.zero)) t k := by
    apply move_change
    · exact fun i other => Function.update_of_ne other ..
    · intro i differs
      by_cases here : i = j
      · subst here
        simp only [InodeTasks.share, at_, InodePhase.refs, gain, if_neg differs, Function.update_self, if_true]
        omega
      · simp [InodeTasks.share, at_, InodePhase.refs, gain, differs, here, Ne.symm here]
  have share : (s.move t .idle (gain (s.held t) (some j)) (s.shared.setInode k MInode.zero)).share t k + 1 =
      s.share t k := by
    rw [move_share]
    simp only [InodeTasks.share, at_, InodePhase.refs, gain, Function.update_of_ne other, Option.some.injEq,
      if_neg (Ne.symm other), if_true]
    omega
  have entry : (s.move t .idle (gain (s.held t) (some j)) (s.shared.setInode k MInode.zero)).inode k = MInode.zero :=
    Function.update_self ..
  have plays (r : InodeRole) (i : Nat)
      (mine : (s.move t .idle (gain (s.held t) (some j)) (s.shared.setInode k MInode.zero)).Plays t r i) :
      r = .used ∧ s.Plays t r i := by
    rcases (move_plays ..).mp mine with mine | ⟨rfl, positive⟩
    · cases r <;> cases mine
    · by_cases here : i = j
      · rw [here]
        exact ⟨rfl, used⟩
      · rw [gain, Function.update_of_ne here] at positive
        exact ⟨rfl, .inr ⟨rfl, positive⟩⟩
  refine ⟨sound.clear change reserved entry rfl share ?_ ?_ plays, change.keeps ?_ ?_⟩
  · simp [at_]
  · rw [move_phase]
    trivial
  · rw [zero]
    exact fun device => absurd rfl device
  · intro i mine
    cases (plays _ i mine).1

/-- What a task that goes on keeps. -/
theorem Sound.turn {ret : Option Nat} (sound : s.Sound) (bound : ∀ i, s.refs i < 2 ^ 16)
    (turned : s.shared.turn (s.phase t) = some (phase, ret, shared)) :
    (s.move t phase (gain (s.held t) ret) shared).Sound ∧ Keeps s (s.move t phase (gain (s.held t) ret) shared) := by
  have fits := sound.fits t
  cases at_ : s.phase t with
  | idle =>
    rw [at_] at turned
    cases turned
  | chosen dev num k =>
    rw [at_] at fits turned
    simp only [SharedInodes.turn] at turned
    split_ifs at turned with locked dirty counts
    · have unlocked : (s.inode k).lock = false := Bool.eq_false_of_not_eq_true locked
      cases written : s.shared.writeInode k (.chosen dev num k) (.cleaning dev num k)
      rw [written] at turned
      cases turned
      have none_plays (r : InodeRole) (i : Nat) (mine : (InodePhase.chosen dev num k).Plays r i) :
          (s.phase t).Plays r i := by
        cases r <;> cases mine
      refine sound.writeInode unlocked written (by simp [at_]) dirty (by rw [at_]) fits none_plays (by rw [at_]; rfl)
        fits ?_
      intro r i mine
      cases r with
      | writing => exact .inr ⟨rfl, mine⟩
      | used => cases mine
      | reserved => cases mine
      | loading => cases mine
    · rw [Option.map_eq_some_iff] at turned
      obtain ⟨⟨phase, shared⟩, chosen, same⟩ := turned
      cases same
      exact sound.choose fits.1 (by rw [at_]; rfl) (by simp [at_]) chosen
    · cases turned
      exact sound.takes (bound k) at_ (Bool.eq_false_of_not_eq_true locked) (Bool.eq_false_of_not_eq_true dirty)
        (not_not.mp counts)
  | cleaning dev num k =>
    rw [at_] at fits turned
    cases turned
    refine sound.store (by rw [at_]; exact rfl) (by simp [at_]) (by rw [at_]; rfl) fits ?_
    intro r i mine
    cases r <;> cases mine
  | searching dev num empty =>
    rw [at_] at turned
    cases searched : s.shared.search dev num empty
    simp only [SharedInodes.turn, searched] at turned
    cases turned
    exact sound.search at_ searched
  | matched dev num empty k =>
    rw [at_] at fits turned
    simp only [SharedInodes.turn] at turned
    split_ifs at turned with locked differs mount
    · cases turned
      refine sound.goes rfl rfl (by rw [at_]; rfl) (by simp [at_]) fits ?_
      intro r i mine
      rw [at_]
      cases r <;> exact mine
    · have plain := (sound.entries k).plain.2
      rw [show (s.shared.inode k).mount = false from plain] at mount
      cases mount
    · cases turned
      have same : (s.inode k).dev = dev := by
        by_contra other
        exact differs (.inl other)
      exact sound.hold at_ (Bool.eq_false_of_not_eq_true locked) (same ▸ fits)
  | locking empty =>
    rw [at_] at fits
    exact fits.elim
  | reading empty =>
    rw [at_] at turned
    cases turned
    exact sound.loads at_
  | putting k back =>
    rw [at_] at turned
    simp only [SharedInodes.turn] at turned
    split_ifs at turned with locked unused pipe block
    · have plain := (sound.entries k).plain.1
      rw [show (s.shared.inode k).pipe = false from plain] at pipe
      cases pipe
    · cases turned
      cases back with
      | some j =>
        have reserved : s.Plays t .reserved k := .inl (by rw [at_]; exact rfl)
        have mode : (s.shared.inode k).mode = 0 := congrArg MInode.mode (sound.roles t _ k reserved).2.2
        rw [mode] at block
        cases block
      | none =>
        refine sound.goes rfl rfl (by rw [at_]; rfl) (by simp [at_]) rfl ?_
        intro r i mine
        rw [at_]
        cases r <;> exact mine
    · have unlocked : (s.inode k).lock = false := Bool.eq_false_of_not_eq_true locked
      rw [Option.some.injEq] at turned
      cases back with
      | some j =>
        have reserved : s.inode k = { MInode.zero with count := 1 } :=
          (sound.roles t .reserved k (.inl (by rw [at_]; exact rfl))).2.2
        have cleared : s.shared.release k (some j) = (.idle, some j, s.shared.setInode k MInode.zero) := by
          unfold SharedInodes.release
          rw [show s.shared.inode k = { MInode.zero with count := 1 } from reserved]
          rfl
        rw [cleared] at turned
        cases turned
        exact sound.putBack at_
      | none => exact sound.release unlocked (.inl at_) turned
  | syncing k back =>
    rw [at_] at fits turned
    cases turned
    refine sound.goes rfl rfl (by rw [at_]; rfl) (by simp [at_]) fits ?_
    intro r i mine
    rw [at_]
    cases r <;> exact mine
  | resting k back =>
    rw [at_] at fits turned
    obtain rfl : back = none := fits
    simp only [SharedInodes.turn] at turned
    split_ifs at turned with locked
    rw [Option.some.injEq] at turned
    exact sound.release (Bool.eq_false_of_not_eq_true locked) (.inr at_) turned
  | storing k back =>
    rw [at_] at fits turned
    cases turned
    refine sound.store (by rw [at_]; exact rfl) (by simp [at_]) (by rw [at_]; rfl) fits ?_
    intro r i mine
    rw [at_]
    cases r with
    | used => exact ⟨rfl, mine⟩
    | reserved => cases mine
    | loading => cases mine
    | writing => cases mine
  | flushing k =>
    rw [at_] at turned
    have idle_plays (r : InodeRole) (i : Nat) (mine : InodePhase.idle.Plays r i) : (s.phase t).Plays r i := by
      cases r <;> cases mine
    simp only [SharedInodes.turn] at turned
    split_ifs at turned with locked dirty
    · have unlocked : (s.inode k).lock = false := Bool.eq_false_of_not_eq_true locked
      cases written : s.shared.writeInode k .idle (.flushed k)
      rw [written] at turned
      cases turned
      refine sound.writeInode unlocked written (by simp [at_]) dirty.1 (by rw [at_]; rfl) trivial idle_plays
        (by rw [at_]; rfl) trivial ?_
      intro r i mine
      cases r with
      | writing => exact .inr ⟨rfl, mine⟩
      | used => cases mine
      | reserved => cases mine
      | loading => cases mine
    · cases turned
      exact sound.goes rfl rfl (by rw [at_]; rfl) (by simp [at_]) trivial idle_plays
  | flushed k =>
    rw [at_] at turned
    cases turned
    refine sound.store (by rw [at_]; exact rfl) (by simp [at_]) (by rw [at_]; rfl) trivial ?_
    intro r i mine
    cases r <;> cases mine
  | elsewhere =>
    rw [at_] at turned
    cases turned

/-- A task that has an inode changes its record, and leaves it its links. -/
theorem Sound.alter {record : MInode} (sound : s.Sound) (idle : s.phase t = .idle) (held : 0 < s.held t k)
    (links : record.nlinks ≠ 0) :
    (s.move t .idle (s.held t) (s.shared.setInode k { (s.inode k).withRecord record with dirt := true })).Sound ∧
      Keeps s (s.move t .idle (s.held t)
        (s.shared.setInode k { (s.inode k).withRecord record with dirt := true })) := by
  obtain ⟨device, linked⟩ := sound.roles t .used k (.inr ⟨rfl, held⟩)
  have change : Change s (s.move t .idle (s.held t)
      (s.shared.setInode k { (s.inode k).withRecord record with dirt := true })) t k :=
    move_change (fun i other => Function.update_of_ne other ..) fun i _ => by rw [InodeTasks.share, idle]
  have share : (s.move t .idle (s.held t)
      (s.shared.setInode k { (s.inode k).withRecord record with dirt := true })).share t k = s.share t k := by
    rw [move_share, InodeTasks.share, idle]
  have entry : (s.move t .idle (s.held t)
      (s.shared.setInode k { (s.inode k).withRecord record with dirt := true })).inode k =
      { (s.inode k).withRecord record with dirt := true } := Function.update_self ..
  have plays (r : InodeRole) (i : Nat) (mine : (s.move t .idle (s.held t)
      (s.shared.setInode k { (s.inode k).withRecord record with dirt := true })).Plays t r i) :
      r = .used ∧ (i = k ∨ s.Plays t r i) ∨ r = .reserved ∧ i ≠ k ∧ s.Plays t r i := by
    rcases (move_plays ..).mp mine with mine | ⟨rfl, positive⟩
    · cases r <;> cases mine
    · exact .inl ⟨rfl, .inr (.inr ⟨rfl, positive⟩)⟩
  have fits : ((s.move t .idle (s.held t)
      (s.shared.setInode k { (s.inode k).withRecord record with dirt := true })).phase t).Fits := by
    rw [move_phase]
    trivial
  refine ⟨sound.recount change device linked ?_ ?_ ?_ ?_ ?_ ?_ ?_ rfl ?_ fits plays, change.keeps ?_ ?_⟩
  · rw [entry]
    exact links
  · rw [entry]
    rfl
  · rw [entry]
    rfl
  · rw [entry]
    rfl
  · rw [entry]
    exact (sound.entries k).plain
  · rw [entry, change.refs_same share]
    exact (sound.entries k).counted
  · rw [entry]
    intro clean
    cases clean
  · simp [idle]
  · rw [entry]
    exact fun _ => .inl ⟨rfl, rfl⟩
  · intro i mine
    rcases plays _ i mine with ⟨mine, -⟩ | ⟨-, -, mine⟩
    · cases mine
    · exact .inl mine

end Kept

/-- Tasks put back and change only inodes that they have, and leave these their links. -/
def Legal (e : InodeEvent τ) (s : InodeTasks τ) : Prop :=
  match e with
  | .iput t k => 0 < s.held t k
  | .change t k record => 0 < s.held t k ∧ record.nlinks ≠ 0
  | _ => True

instance (e : InodeEvent τ) (s : InodeTasks τ) : Decidable (Legal e s) :=
  match e with
  | .iput t k => inferInstanceAs (Decidable (0 < s.held t k))
  | .change t k record => inferInstanceAs (Decidable (0 < s.held t k ∧ record.nlinks ≠ 0))
  | .iget .. => isTrue trivial
  | .sync .. => isTrue trivial
  | .turn _ => isTrue trivial

section Runs

variable [Fintype τ] [DecidableEq τ] {e : InodeEvent τ} {start : InodeTasks τ}

/-- `i_count` has room for the references to every inode. -/
def Bounded (s : InodeTasks τ) : Prop := ∀ i, s.refs i < 2 ^ 16

/-- What one step keeps. -/
theorem Sound.stepped (sound : s.Sound) (legal : Legal e s) (bounded : s.Bounded)
    (stepped : InodeTasks.step e s = some s') : s'.Sound ∧ Keeps s s' := by
  cases e with
  | iget t dev num =>
    simp only [InodeTasks.step] at stepped
    split at stepped
    · rename_i idle
      split at stepped
      · cases stepped
      · rename_i device
        rw [Option.map_eq_some_iff] at stepped
        obtain ⟨⟨phase, shared⟩, chosen, rfl⟩ := stepped
        exact sound.choose device (by rw [idle]; rfl) (by simp [idle]) chosen
    · cases stepped
  | iput t k =>
    have held : 0 < s.held t k := legal
    simp only [InodeTasks.step] at stepped
    split at stepped
    · rename_i idle
      cases stepped
      have share (i : Nat) : (InodePhase.putting k none).refs i + Function.update (s.held t) k (s.held t k - 1) i =
          s.share t i := by
        by_cases here : i = k
        · subst here
          simp only [InodeTasks.share, idle, InodePhase.refs, Function.update_self, if_true]
          simp only [reduceCtorEq, if_false]
          omega
        · simp [InodeTasks.share, idle, InodePhase.refs, here]
      have change :
          Change s (s.move t (.putting k none) (Function.update (s.held t) k (s.held t k - 1)) s.shared) t k :=
        move_change (fun _ _ => rfl) fun i _ => share i
      have plays (r : InodeRole) (i : Nat) (mine : (s.move t (.putting k none)
          (Function.update (s.held t) k (s.held t k - 1)) s.shared).Plays t r i) : s.Plays t r i := by
        rcases (move_plays ..).mp mine with mine | ⟨rfl, positive⟩
        · cases r with
          | used =>
            have here : i = k := mine
            rw [here]
            exact .inr ⟨rfl, held⟩
          | reserved => cases mine
          | loading => cases mine
          | writing => cases mine
        · rw [Function.update_apply] at positive
          split at positive
          · rename_i here
            rw [here]
            exact .inr ⟨rfl, held⟩
          · exact .inr ⟨rfl, positive⟩
      refine ⟨sound.pass change rfl rfl ?_ (by simp [idle]) ?_ plays,
        change.keeps ?_ fun i mine => .inl (plays _ i mine)⟩
      · rw [move_share]
        exact share k
      · rw [move_phase]
        trivial
      · exact fun _ => .inl ⟨rfl, rfl⟩
    · cases stepped
  | change t k record =>
    simp only [InodeTasks.step] at stepped
    split at stepped
    · rename_i idle
      cases stepped
      exact sound.alter idle legal.1 legal.2
    · cases stepped
  | sync t k =>
    simp only [InodeTasks.step] at stepped
    split at stepped
    · rename_i idle
      cases stepped
      refine sound.goes rfl rfl (by rw [idle]; rfl) (by simp [idle]) trivial ?_
      intro r i mine
      cases r <;> cases mine
    · cases stepped
  | turn t =>
    simp only [InodeTasks.step, Option.map_eq_some_iff] at stepped
    obtain ⟨⟨phase, ret, shared⟩, turned, rfl⟩ := stepped
    exact sound.turn bounded turned

/-- Nobody is in a call; every inode has the references that the tasks have, and what is stored unless it is dirty. -/
structure Quiet (s : InodeTasks τ) : Prop where
  idle : ∀ t, s.phase t = .idle
  counted : ∀ i, (s.inode i).count = BitVec.ofNat 16 (∑ t, s.held t i)
  plain : ∀ i, (s.inode i).lock = false ∧ (s.inode i).pipe = false ∧ (s.inode i).mount = false
  placed : ∀ i, (s.inode i).dev ≠ 0 → i < nrInode ∧ (s.inode i).nlinks ≠ 0
  clean : ∀ i, (s.inode i).dev ≠ 0 → (s.inode i).dirt = false → s.Stored i
  unique : ∀ i j, (s.inode i).dev ≠ 0 → (s.inode i).dev = (s.inode j).dev → (s.inode i).num = (s.inode j).num → i = j
  linked : ∀ dev num, (s.shared.stored dev num).nlinks ≠ 0
  held : ∀ t i, 0 < s.held t i → (s.inode i).dev ≠ 0

omit [DecidableEq τ] in
theorem Quiet.sound (quiet : s.Quiet) : s.Sound where
  entries := by
    intro i
    have refs : s.refs i = ∑ t, s.held t i := by
      apply Finset.sum_congr rfl
      intro t _
      rw [InodeTasks.share, quiet.idle]
      exact Nat.zero_add _
    exact {
      counted := by
        rw [refs]
        exact quiet.counted i
      plain := (quiet.plain i).2
      placed := fun device => (quiet.placed i device).1
      read := fun device unread => absurd unread (quiet.placed i device).2
      clean := fun device _ => quiet.clean i device }
  unique := quiet.unique
  linked := quiet.linked
  apart := by
    intro t t' r r' i locks _ mine
    rcases mine with mine | ⟨rfl, -⟩
    · rw [quiet.idle] at mine
      cases r <;> cases mine
    · rcases locks with locks | locks <;> cases locks
  fits := by
    intro t
    rw [quiet.idle]
    trivial
  roles := by
    intro t r i mine
    rcases mine with mine | ⟨rfl, positive⟩
    · rw [quiet.idle] at mine
      cases r <;> cases mine
    · have device := quiet.held t i positive
      exact ⟨device, (quiet.placed i device).2⟩

omit [DecidableEq τ] in
theorem Sound.unused_stored (sound : s.Sound) (unused : s.Unused i) (device : (s.inode i).dev ≠ 0) : s.Stored i :=
  (sound.entries i).clean device (sound.loaded device unused.2.1) unused.2.2

/-- The entries in use are different inodes, an inode in use stays the same one, and a slot is used again only when it
    is not referred to, not locked and stored. -/
theorem inode_table_unique (quiet : start.Quiet) (run : Run step (fun e s => Legal e s ∧ s.Bounded) start s) :
    (∀ i j, (s.inode i).count ≠ 0 → (s.inode j).count ≠ 0 → (s.inode i).dev ≠ 0 →
      (s.inode i).dev = (s.inode j).dev → (s.inode i).num = (s.inode j).num → i = j) ∧
    ∀ e s', Legal e s → s.Bounded → step e s = some s' →
      (∀ i, (s.inode i).count ≠ 0 → (s.inode i).dev ≠ 0 →
        (s'.inode i).dev = (s.inode i).dev ∧ (s'.inode i).num = (s.inode i).num) ∧
      (∀ t i, ¬s.Plays t .reserved i → s'.Plays t .reserved i →
        s.Unused i ∧ ((s.inode i).dev ≠ 0 → s.Stored i)) ∧
      (∀ i, (s.inode i).dev ≠ 0 → (s'.inode i).dev ≠ (s.inode i).dev ∨ (s'.inode i).num ≠ (s.inode i).num →
        s.Unused i ∧ s.Stored i) := by
  have sound : s.Sound := run.invariant quiet.sound fun _ _ _ sound ok stepped => (sound.stepped ok.1 ok.2 stepped).1
  refine ⟨fun i j _ _ device dev num => sound.unique i j device dev num, ?_⟩
  intro e s' legal bounded stepped
  have keeps := (sound.stepped legal bounded stepped).2
  refine ⟨?_, ?_, ?_⟩
  · intro i used device
    rcases keeps.identity i device with same | unused
    · exact same
    · exact absurd unused.1 used
  · intro t i other mine
    have unused := (keeps.reserved t i mine).resolve_left other
    exact ⟨unused, sound.unused_stored unused⟩
  · intro i device differs
    rcases keeps.identity i device with ⟨dev, num⟩ | unused
    · rcases differs with differs | differs
      · exact absurd dev differs
      · exact absurd num differs
    · exact ⟨unused, sound.unused_stored unused device⟩

end Runs

/-- Inodes 1 to 30 of device 1 in use by the first task, with `count` references to inode 1. -/
def crowdedTable (tasks count : Nat) : InodeTasks (Fin (tasks + 1)) where
  shared := {
    inode := fun i =>
      if 1 ≤ i ∧ i ≤ 30 then
        { MInode.zero with
          nlinks := 1, dev := 1, num := BitVec.ofNat 16 i, count := BitVec.ofNat 16 (if i = 1 then count else 1) }
      else MInode.zero
    last := 31
    stored := fun _ _ => { MInode.zero with nlinks := 1 } }
  phase := fun _ => .idle
  held := fun t i => if t = 0 then if 1 ≤ i ∧ i ≤ 30 then if i = 1 then count else 1 else 0 else 0

theorem crowdedTable_inode (tasks count : Nat) (inside : 1 ≤ i ∧ i ≤ 30) :
    (crowdedTable tasks count).inode i =
      { MInode.zero with
        nlinks := 1, dev := 1, num := BitVec.ofNat 16 i, count := BitVec.ofNat 16 (if i = 1 then count else 1) } :=
  if_pos inside

theorem crowdedTable_other (tasks count : Nat) (outside : ¬(1 ≤ i ∧ i ≤ 30)) :
    (crowdedTable tasks count).inode i = MInode.zero := if_neg outside

theorem crowdedTable_device {tasks count : Nat} (device : ((crowdedTable tasks count).inode i).dev ≠ 0) :
    1 ≤ i ∧ i ≤ 30 := by
  by_contra outside
  rw [crowdedTable_other tasks count outside] at device
  exact device rfl

theorem crowdedTable_held (tasks count i : Nat) :
    ∑ t, (crowdedTable tasks count).held t i = if 1 ≤ i ∧ i ≤ 30 then if i = 1 then count else 1 else 0 := by
  have first := Finset.sum_ite_eq' (Finset.univ : Finset (Fin (tasks + 1))) 0
    fun _ => if 1 ≤ i ∧ i ≤ 30 then if i = 1 then count else 1 else 0
  rw [if_pos (Finset.mem_univ _)] at first
  exact first

theorem crowdedTable_quiet (tasks count : Nat) : (crowdedTable tasks count).Quiet where
  idle := fun _ => rfl
  counted := by
    intro i
    rw [crowdedTable_held]
    by_cases inside : 1 ≤ i ∧ i ≤ 30
    · rw [crowdedTable_inode tasks count inside, if_pos inside]
    · rw [crowdedTable_other tasks count inside, if_neg inside]
      rfl
  plain := by
    intro i
    by_cases inside : 1 ≤ i ∧ i ≤ 30
    · rw [crowdedTable_inode tasks count inside]
      exact ⟨rfl, rfl, rfl⟩
    · rw [crowdedTable_other tasks count inside]
      exact ⟨rfl, rfl, rfl⟩
  placed := by
    intro i device
    have inside := crowdedTable_device device
    rw [crowdedTable_inode tasks count inside]
    exact ⟨Nat.lt_of_le_of_lt inside.2 (by decide), (by decide : (1 : Byte) ≠ 0)⟩
  clean := by
    intro i device _
    rw [Stored, crowdedTable_inode tasks count (crowdedTable_device device)]
    rfl
  unique := by
    intro i j device dev num
    have first := crowdedTable_device device
    have second := crowdedTable_device (dev ▸ device)
    rw [crowdedTable_inode tasks count first, crowdedTable_inode tasks count second] at num
    have same := congrArg BitVec.toNat num
    simp only [BitVec.toNat_ofNat] at same
    omega
  linked := fun _ _ => (by decide : (1 : Byte) ≠ 0)
  held := by
    intro t i positive
    have inside : 1 ≤ i ∧ i ≤ 30 := by
      by_contra outside
      simp [crowdedTable, outside] at positive
    rw [crowdedTable_inode tasks count inside]
    exact (by decide : (1 : BitVec 16) ≠ 0)

theorem crowdedTable_bounded : (crowdedTable 0 1).Bounded := by
  intro i
  have refs : (crowdedTable 0 1).refs i = ∑ t, (crowdedTable 0 1).held t i := by
    apply Finset.sum_congr rfl
    intro t _
    exact Nat.zero_add _
  rw [refs, crowdedTable_held]
  split_ifs <;> decide

theorem crowded_table_unique :
    ∃ s, Run step (fun e s => Legal e s ∧ s.Bounded) (crowdedTable 0 1) s ∧ s.phase 0 = .chosen 1 40 0 ∧
    (∀ i j, (s.inode i).count ≠ 0 → (s.inode j).count ≠ 0 → (s.inode i).dev ≠ 0 →
      (s.inode i).dev = (s.inode j).dev → (s.inode i).num = (s.inode j).num → i = j) ∧
    ∀ e s', Legal e s → s.Bounded → step e s = some s' →
      (∀ i, (s.inode i).count ≠ 0 → (s.inode i).dev ≠ 0 →
        (s'.inode i).dev = (s.inode i).dev ∧ (s'.inode i).num = (s.inode i).num) ∧
      (∀ t i, ¬s.Plays t .reserved i → s'.Plays t .reserved i →
        s.Unused i ∧ ((s.inode i).dev ≠ 0 → s.Stored i)) ∧
      (∀ i, (s.inode i).dev ≠ 0 → (s'.inode i).dev ≠ (s.inode i).dev ∨ (s'.inode i).num ≠ (s.inode i).num →
        s.Unused i ∧ s.Stored i) := by
  have first : Run step (fun e s => Legal e s ∧ s.Bounded) (crowdedTable 0 1) (crowdedTable 0 1) := .start
  have legal : Legal (.iget (0 : Fin 1) 1 40) (crowdedTable 0 1) := trivial
  have asked := first.next ⟨legal, crowdedTable_bounded⟩ rfl
  exact ⟨_, asked, rfl, inode_table_unique (crowdedTable_quiet 0 1) asked⟩

/-- The events of `iget` for inode `num` of device 1, and of `iput`, each with the turns of its task. -/
def lookUp (t : Fin 4) (num : BitVec 16) (turns : Nat) : List (InodeEvent (Fin 4)) :=
  .iget t 1 num :: List.replicate turns (.turn t)

def putDown (t : Fin 4) (k : Nat) : List (InodeEvent (Fin 4)) := [.iput t k, .turn t]

/-- While task 3 reads inode 40, the count of inode 1 wraps to 0, and task 1 gets the slot of inode 1 and waits for
    inode 40. Then task 0 puts back a reference, inode 40 goes, and task 2 gets the slot for inode 43. -/
def wrappingCalls : List (InodeEvent (Fin 4)) :=
  lookUp 3 40 2 ++ lookUp 0 1 4 ++ lookUp 0 1 4 ++ lookUp 1 40 2 ++ putDown 0 1 ++ [.turn 3] ++ putDown 3 0 ++
    lookUp 2 41 3 ++ lookUp 2 42 3 ++ lookUp 2 43 3 ++ [.turn 1]

def losesIdentity (s : InodeTasks (Fin 4)) : Bool :=
  (step (.turn 1) s).any fun s' =>
    (s.inode 1).count ≠ 0 && (s.inode 1).dev ≠ 0 && (s'.inode 1).num ≠ (s.inode 1).num

theorem wrapped_count_loses_identity :
    ∃ (start s s' : InodeTasks (Fin 4)) (e : InodeEvent (Fin 4)), start.Quiet ∧ Run step Legal start s ∧ Legal e s ∧
      step e s = some s' ∧ ∃ i, (s.inode i).count ≠ 0 ∧ (s.inode i).dev ≠ 0 ∧ (s'.inode i).num ≠ (s.inode i).num := by
  have passed : (runEvents step Legal wrappingCalls (crowdedTable 3 65534)).any losesIdentity = true := by
    decide +kernel
  obtain ⟨s, run, loses⟩ := Run.of_test passed
  unfold losesIdentity at loses
  cases stepped : step (.turn 1) s with
  | none =>
    rw [stepped] at loses
    cases loses
  | some s' =>
    rw [stepped] at loses
    simp only [Option.any_some, Bool.and_eq_true, decide_eq_true_eq] at loses
    obtain ⟨⟨used, device⟩, differs⟩ := loses
    exact ⟨_, s, s', .turn 1, crowdedTable_quiet 3 65534, run, trivial, stepped, 1, used, device, differs⟩

end InodeTasks

end K210Linux.Fs
