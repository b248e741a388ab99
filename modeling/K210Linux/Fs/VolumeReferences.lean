import K210Linux.Buffer.Counts
import K210Linux.Fs.VolumeCalls
import K210Linux.Fs.VolumeCounts

/-! What every call on a volume adds to the counts of inodes and buffers, in any state. -/

namespace K210Linux.Fs.Volume

open Outcome
open K210Linux.Buffer
open K210Linux.Mm (freePage)

def counts (v : Volume) : Counts := v.drive.counts

/-- The inode that a call returns, if it returns one, has one user more. -/
def inodeUser (k : Option Nat) : Counts := k.elim 0 .inode

variable {v v' : Volume} {k k' i fuel : Nat} {bh : Option Nat} {dev : BitVec 16} {time : BitVec 32} {w : Walker}

theorem setInode_counts {inode : MInode} (count : inode.count = (v.inode k).count) :
    (v.setInode k inode).counts = v.counts := setInode_same count

theorem setInode_fewer {inode : MInode} (count : inode.count = (v.inode k).count - 1) :
    (v.setInode k inode).counts = v.counts - .inode k := setInode_less count

theorem hold_counts (v : Volume) (k : Nat) : (v.hold k).counts = v.counts + .inode k := setInode_more rfl

theorem store_counts (v : Volume) (i : Nat) (data : Block) : (v.store i data).counts = v.counts := setHead_same rfl

theorem brelse_counts (released : v.brelse i = .ok v') : v'.counts = v.counts - .buffer i := by
  rcases of_bind released with ⟨drive, run, rest⟩
  cases rest
  exact Buffer.brelse_counts run

theorem bread_counts {block : Nat} (read : v.bread fuel dev block = .ok (bh, v')) :
    v'.counts = v.counts + .buffer? bh := by
  rcases of_bind read with ⟨⟨bh₁, drive⟩, got, rest⟩
  cases rest
  exact Buffer.bread_counts (syncDev_uncounted fuel) got

theorem count_eq (same : v'.counts = v.counts) (k : Nat) : (v'.inode k).count = (v.inode k).count :=
  congrFun (congrArg Prod.fst same) k

section Put

theorem freeBlock_counts {block : Nat} (freed : v.freeBlock dev block = .ok v') : v'.counts = v.counts := by
  rcases freeBlock_frame freed with ⟨-, static, -, -⟩
  unfold counts Drive.counts
  rw [static.inode]
  congr 1
  funext j
  exact (static.head j).1

theorem freeEntries_counts {n left : Nat} (freed : freeEntries dev i n left v = .ok v') : v'.counts = v.counts := by
  induction left generalizing n v with
  | zero =>
    cases freed
    rfl
  | succ left ih =>
    unfold freeEntries at freed
    split at freed
    · exact ih freed
    · rcases of_bind freed with ⟨v₁, one, rest⟩
      exact (ih rest).trans (freeBlock_counts one)

theorem freeInd_counts {block : Nat} (freed : v.freeInd fuel dev block = .ok v') : v'.counts = v.counts := by
  unfold freeInd at freed
  split at freed
  · cases freed
    rfl
  · rcases of_bind freed with ⟨⟨bh, v₁⟩, read, rest⟩
    have one := bread_counts read
    cases bh with
    | none => exact (freeBlock_counts rest).trans (one.trans (add_zero _))
    | some i =>
      rcases of_bind rest with ⟨v₂, entries, rest⟩
      rcases of_bind rest with ⟨v₃, released, rest⟩
      rw [freeBlock_counts rest, brelse_counts released, freeEntries_counts entries, one]
      exact add_sub_cancel_right ..

theorem freeDirect_counts {slot left : Nat} (freed : freeDirect k slot left v = .ok v') : v'.counts = v.counts := by
  induction left generalizing slot v with
  | zero =>
    cases freed
    rfl
  | succ left ih =>
    unfold freeDirect at freed
    split at freed
    · exact ih freed
    · rcases of_bind freed with ⟨v₁, one, rest⟩
      rw [ih rest, setInode_counts, freeBlock_counts one]
      rfl

theorem truncate_counts (cut : v.truncate fuel k time = .ok v') : v'.counts = v.counts := by
  unfold truncate at cut
  split at cut
  · cases cut
    rfl
  · rcases of_bind cut with ⟨v₁, direct, rest⟩
    rcases of_bind rest with ⟨v₂, seven, rest⟩
    rcases of_bind rest with ⟨v₃, eight, rest⟩
    cases rest
    rw [setInode_counts, freeInd_counts eight, freeInd_counts seven, freeDirect_counts direct]
    rfl

theorem release_counts (single : (v.inode k).count = 1) (released : v.release fuel k time = .ok v') :
    v'.counts = v.counts - .inode k := by
  rcases of_bind released with ⟨v₁, cut, rest⟩
  rcases of_bind rest with ⟨⟨inode, sb⟩, freed, rest⟩
  cases rest
  have one := truncate_counts cut
  cases (freeInode_parts (of_mapError freed)).1
  rw [← one]
  apply setInode_less
  have here : (v₁.inode k).count = 1 := (count_eq one k).trans single
  change 0 = (v₁.inode k).count - 1
  rw [here]
  rfl

theorem dropLast_counts {left : Nat} (some : (v.inode k).count ≠ 0) (dropped : v.dropLast fuel k time left = .ok v') :
    v'.counts = v.counts - .inode k := by
  induction left generalizing v with
  | zero => cases dropped
  | succ left ih =>
    unfold dropLast at dropped
    dsimp only at dropped
    split at dropped
    · cases dropped
      exact setInode_fewer rfl
    · rename_i single
      split at dropped
      · refine release_counts ?_ dropped
        -- neither no user nor two
        apply BitVec.eq_of_toNat_eq
        have nonzero : (v.inode k).count.toNat ≠ 0 := fun zero => some (BitVec.eq_of_toNat_eq zero)
        rw [BitVec.lt_def] at single
        change ¬ 1 < _ at single
        change _ = 1
        omega
      · split at dropped
        · rcases of_bind dropped with ⟨drive, written, rest⟩
          have one : (v.onDrive drive).counts = v.counts := writeInode_counts written
          rw [← one]
          exact ih (count_eq one k ▸ some) rest
        · cases dropped
          exact setInode_fewer rfl

/-- `iput` takes one user away, also where it frees the inode. -/
theorem iput_counts (put : v.iput fuel k time = .ok v') : v'.counts = v.counts - .inode k := by
  unfold iput at put
  dsimp only at put
  split at put
  · cases put
  · rename_i some
    split at put
    · split at put
      · cases put
        exact setInode_fewer rfl
      · rename_i last
        rcases of_bind put with ⟨memory, -, rest⟩
        cases rest
        exact setInode_less (not_not.1 last).symm
    · rcases of_bind put with ⟨v₁, synced, rest⟩
      have one : v₁.counts = v.counts := by
        unfold syncBlk at synced
        split at synced
        · rcases of_bind synced with ⟨drive, run, done⟩
          cases done
          exact syncDev_uncounted fuel _ _ _ run
        · cases synced
          rfl
      rw [← one]
      exact dropLast_counts (count_eq one k ▸ some) rest

theorem putAnd_counts {α : Type} {value value' : α} (put : v.putAnd fuel w k value = .ok (value', v')) :
    v'.counts = v.counts - .inode k ∧ value' = value := by
  rcases of_bind put with ⟨v₁, one, rest⟩
  cases rest
  exact ⟨iput_counts one, rfl⟩

theorem putBothAnd_counts {α : Type} {value value' : α} (put : v.putBothAnd fuel w k k' value = .ok (value', v')) :
    v'.counts = v.counts - .inode k - .inode k' ∧ value' = value := by
  rcases of_bind put with ⟨v₁, one, rest⟩
  rw [← iput_counts one]
  exact putAnd_counts rest

theorem putBothReleaseAnd_counts {α : Type} {value value' : α}
    (put : v.putBothReleaseAnd fuel w k k' i value = .ok (value', v')) :
    v'.counts = v.counts - .inode k - .inode k' - .buffer i ∧ value' = value := by
  rcases of_bind put with ⟨⟨value₁, v₁⟩, both, rest⟩
  rcases of_bind rest with ⟨v₂, released, rest⟩
  cases rest
  rcases putBothAnd_counts both with ⟨one, same⟩
  rw [← one]
  exact ⟨brelse_counts released, same⟩

end Put

section Walk

/-- `iget` counts the inode once more, or gives the empty one its first user. -/
theorem drive_iget_counts {s s' : Drive} {last last' : Nat} {num : BitVec 16}
    (got : Drive.iget fuel last num s = .ok (k, last', s')) : s'.counts = s.counts + .inode k := by
  rcases of_bind got with ⟨⟨e, last₁, s₁⟩, taken, rest⟩
  rcases getEmptyInode_counts taken with ⟨one, here⟩
  dsimp only at rest
  split at rest
  · rename_i j located
    cases rest
    have other : k ≠ e := by
      rintro rfl
      have device := (findInode_some located).1
      rw [here] at device
      exact absurd device (by decide)
    have cleared (inode : MInode) : ((s₁.setInode k inode).setInode e .zero).counts =
        (s₁.setInode k inode).counts - .inode e := by
      apply setInode_less
      change 0 = (Function.update s₁.inode k inode e).count - 1
      rw [Function.update_of_ne other.symm, here]
      rfl
    rw [cleared, setInode_more (s := s₁) rfl, one]
    abel
  · rcases of_bind rest with ⟨s₂, read, done⟩
    cases done
    rw [readInode_counts read, ← one]
    exact setInode_same rfl

theorem iget_counts {num : BitVec 16} (got : v.iget fuel dev num = .ok (k, v')) : v'.counts = v.counts + .inode k := by
  unfold iget at got
  split at got
  · cases got
  · rcases of_bind got with ⟨⟨j, last, drive⟩, run, rest⟩
    cases rest
    exact drive_iget_counts run

theorem readEntry_counts {block n z : Nat} (read : v.readEntry fuel dev block n = .ok (z, v')) : v'.counts = v.counts := by
  rcases of_bind read with ⟨⟨bh, v₁⟩, got, rest⟩
  have one := bread_counts got
  cases bh with
  | none =>
    cases rest
    exact one.trans (add_zero _)
  | some i =>
    rcases of_bind rest with ⟨v₂, released, rest⟩
    cases rest
    rw [brelse_counts released, one]
    exact add_sub_cancel_right ..

theorem bmap_counts {block z : Nat} (mapped : v.bmap fuel k block = .ok (z, v')) : v'.counts = v.counts := by
  unfold bmap at mapped
  dsimp only at mapped
  split at mapped
  · cases mapped
  · split at mapped
    · cases mapped
      rfl
    · split at mapped
      · split at mapped
        · cases mapped
          rfl
        · exact readEntry_counts mapped
      · split at mapped
        · cases mapped
          rfl
        · rcases of_bind mapped with ⟨⟨z₁, v₁⟩, first, rest⟩
          have one := readEntry_counts first
          dsimp only at rest
          split at rest
          · cases rest
            exact one
          · exact (readEntry_counts rest).trans one

/-- The loop gives its buffer back, or returns with the buffer of the entry. -/
theorem findLoop_counts {entries left n j : Nat} {name : List Byte} {found : Option (Nat × Nat)}
    (run : findLoop fuel k entries name left n j bh v = .ok (found, v')) :
    v'.counts = v.counts - .buffer? bh + .buffer? (found.map Prod.fst) := by
  induction left generalizing n j bh v with
  | zero => cases run
  | succ left ih =>
    cases bh with
    | none =>
      unfold findLoop at run
      split at run
      · cases run
        exact (sub_add_cancel _ _).symm
      · cases run
    | some b =>
      unfold findLoop at run
      split at run
      · rcases of_bind run with ⟨v₁, released, rest⟩
        cases rest
        exact (brelse_counts released).trans (add_zero _).symm
      · split at run
        · rcases of_bind run with ⟨v₁, released, rest⟩
          rcases of_bind rest with ⟨⟨z, v₂⟩, mapped, rest⟩
          have two : v₂.counts = v.counts - .buffer b := (bmap_counts mapped).trans (brelse_counts released)
          dsimp only at rest
          split at rest
          · rw [ih rest, two]
            exact congrArg (· + _) (sub_zero _)
          · rcases of_bind rest with ⟨⟨b', v₃⟩, read, rest⟩
            have three := bread_counts read
            rw [two] at three
            cases b' with
            | none =>
              rw [ih rest, three]
              exact congrArg (· + _) (add_sub_cancel_right _ _)
            | some b' =>
              dsimp only at rest
              split at rest
              · cases rest
                exact three
              · rw [ih rest, three]
                exact congrArg (· + _) (add_sub_cancel_right _ _)
        · split at run
          · cases run
            exact (sub_add_cancel _ _).symm
          · exact ih run

theorem dotDot_counts {name name' : List Byte} (run : v.dotDot fuel w k name = .ok (name', k', v')) :
    v'.counts = v.counts - .inode k + .inode k' := by
  unfold dotDot at run
  split at run
  · cases run
    exact (sub_add_cancel _ _).symm
  · split at run
    · cases run
      exact (sub_add_cancel _ _).symm
    · split at run
      · cases run
        exact (sub_add_cancel _ _).symm
      · split at run
        · cases run
          exact (sub_add_cancel _ _).symm
        · rcases of_bind run with ⟨v₁, put, rest⟩
          cases rest
          rw [hold_counts, iput_counts put]

theorem findEntry_counts {name : List Byte} {found : Option (Nat × Nat)}
    (run : v.findEntry fuel w k name = .ok (found, k', v')) :
    v'.counts = v.counts - .inode k + .inode k' + .buffer? (found.map Prod.fst) := by
  unfold findEntry at run
  dsimp only at run
  split at run
  · cases run
    rw [sub_add_cancel]
    exact (add_zero _).symm
  · rcases of_bind run with ⟨⟨name₁, k₁, v₁⟩, dots, rest⟩
    have one := dotDot_counts dots
    dsimp only at rest
    split at rest
    · cases rest
      exact one.trans (add_zero _).symm
    · rcases of_bind rest with ⟨⟨bh, v₂⟩, read, rest⟩
      have two := bread_counts read
      rw [one] at two
      cases bh with
      | none =>
        cases rest
        exact two
      | some b =>
        rcases of_bind rest with ⟨⟨found₁, v₃⟩, looked, rest⟩
        cases rest
        rw [findLoop_counts looked, two, add_sub_cancel_right]

theorem putNone_counts {inode : Option Nat} (run : v.putNone fuel w k = .ok (inode, v')) :
    v'.counts = v.counts - .inode k + inodeUser inode := by
  rcases of_bind run with ⟨v₁, put, rest⟩
  cases rest
  exact (iput_counts put).trans (add_zero _).symm

theorem follow_counts {j : Nat} (run : v.follow fuel w k i j = .ok (k', v')) :
    v'.counts = v.counts - .buffer i - .inode k + .inode k' := by
  rcases of_bind run with ⟨v₁, released, rest⟩
  rcases of_bind rest with ⟨v₂, put, rest⟩
  rw [iget_counts rest, iput_counts put, brelse_counts released]

/-- Looking a name up and following its entry moves the user from the directory to the inode. -/
theorem step_counts {name : List Byte} {j k₁ k₂ : Nat} {v₁ : Volume}
    (looked : v.findEntry fuel w k name = .ok (some (i, j), k₁, v₁)) (next : v₁.follow fuel w k₁ i j = .ok (k₂, v')) :
    v'.counts = v.counts - .inode k + .inode k₂ := by
  rw [follow_counts next, findEntry_counts looked]
  change _ + Counts.buffer i - _ - _ + _ = _
  abel

theorem missing_counts {name : List Byte} {k₁ : Nat} {v₁ : Volume} {inode : Option Nat}
    (looked : v.findEntry fuel w k name = .ok (none, k₁, v₁)) (put : v₁.putNone fuel w k₁ = .ok (inode, v')) :
    v'.counts = v.counts - .inode k + inodeUser inode := by
  rw [putNone_counts put, findEntry_counts looked]
  change _ + _ + 0 - _ + _ = _
  abel

theorem getDirFrom_counts {left : Nat} {path : List Byte} {dir : Option Nat}
    (run : getDirFrom fuel w left k path v = .ok (dir, v')) : v'.counts = v.counts - .inode k + inodeUser dir := by
  induction left generalizing k path v with
  | zero => cases run
  | succ left ih =>
    unfold getDirFrom at run
    split at run
    · exact putNone_counts run
    · split at run
      · cases run
        exact (sub_add_cancel _ _).symm
      · rcases of_bind run with ⟨⟨found, k₁, v₁⟩, looked, rest⟩
        cases found with
        | none => exact missing_counts looked rest
        | some entry =>
          rcases of_bind rest with ⟨⟨k₂, v₂⟩, next, rest⟩
          rw [ih rest, step_counts looked next, add_sub_cancel_right]

theorem getDir_counts {path : List Byte} {dir : Option Nat} (run : v.getDir fuel w path = .ok (dir, v')) :
    v'.counts = v.counts + inodeUser dir := by
  have start {k left : Nat} {path : List Byte} (run : getDirFrom fuel w left k path (v.hold k) = .ok (dir, v')) :
      v'.counts = v.counts + inodeUser dir := by
    rw [getDirFrom_counts run, hold_counts, add_sub_cancel_right]
  unfold getDir at run
  split at run
  · split at run
    · cases run
    · split at run
      · cases run
      · split at run
        · cases run
          exact (add_zero _).symm
        · split at run
          · exact start run
          · split at run
            · exact start run
            · cases run
              exact (add_zero _).symm
  · cases run
  · cases run

theorem namei_counts {path : List Byte} {inode : Option Nat} (run : v.namei fuel w path = .ok (inode, v')) :
    v'.counts = v.counts + inodeUser inode := by
  rcases of_bind run with ⟨⟨dir, v₁⟩, walked, rest⟩
  have one := getDir_counts walked
  cases dir with
  | none =>
    cases rest
    exact one
  | some k =>
    have back : v₁.counts - .inode k = v.counts := by
      rw [one]
      exact add_sub_cancel_right ..
    dsimp only at rest
    split at rest
    · cases rest
      exact one
    · rcases of_bind rest with ⟨⟨found, k₁, v₂⟩, looked, rest⟩
      cases found with
      | none => rw [missing_counts looked rest, back]
      | some entry =>
        rcases of_bind rest with ⟨⟨k₂, v₃⟩, next, rest⟩
        cases rest
        rw [setInode_counts, step_counts looked next, back]
        · rfl
        · rfl

theorem dirNamei_counts {path : List Byte} {dir : Option (Nat × List Byte)} (run : v.dirNamei fuel w path = .ok (dir, v')) :
    v'.counts = v.counts + inodeUser (dir.map Prod.fst) := by
  rcases of_bind run with ⟨⟨found, v₁⟩, walked, rest⟩
  cases rest
  rw [getDir_counts walked]
  cases found <;> rfl

end Walk

section Create

theorem takeZone_counts {d d' : Device} {z z' : Nat} (run : d.takeZone fuel z = .ok (z', d')) :
    d'.drive.counts = d.drive.counts := by
  rcases of_bind run with ⟨⟨i, drive⟩, got, rest⟩
  have one : drive.counts = d.drive.counts + .buffer i := getblk_counts (syncDev_uncounted fuel) got
  dsimp only at rest
  split at rest
  · cases rest
  · rcases of_bind rest with ⟨drive', released, rest⟩
    cases rest
    rw [Buffer.brelse_counts released, setHead_same, one]
    · exact add_sub_cancel_right ..
    · rfl

theorem newBlock_counts {z : Nat} (run : v.newBlock fuel dev = .ok (z, v')) : v'.counts = v.counts := by
  unfold newBlock at run
  split at run
  · cases run
  · rcases of_bind run with ⟨⟨z₁, device⟩, made, rest⟩
    cases rest
    have took := Buffer.newBlock_taking v.device fuel
    rw [made] at took
    generalize reply : (Except.ok (z, device) : Except Halt (Nat × Device)) = result at took
    cases took with
    | halted next => cases reply
    | full aligned =>
      cases reply
      rfl
    | behind marked outside =>
      cases reply
      rfl
    | taken marked zone inside =>
      have done := takeZone_counts reply.symm
      exact done

theorem createZone_counts {slot : Nat} (run : v.createZone fuel k slot time = .ok v') : v'.counts = v.counts := by
  unfold createZone at run
  split at run
  · cases run
    rfl
  · rcases of_bind run with ⟨⟨z, v₁⟩, made, rest⟩
    cases rest
    dsimp only
    rw [setInode_counts, newBlock_counts made]
    split <;> rfl

theorem createEntry_counts {block n z : Nat} (run : v.createEntry fuel dev block n = .ok (z, v')) : v'.counts = v.counts := by
  rcases of_bind run with ⟨⟨bh, v₁⟩, read, rest⟩
  have one := bread_counts read
  cases bh with
  | none =>
    cases rest
    exact one.trans (add_zero _)
  | some i =>
    have back : v₁.counts - .buffer i = v.counts := by
      rw [one]
      exact add_sub_cancel_right ..
    dsimp only at rest
    split at rest
    · rcases of_bind rest with ⟨v₂, released, rest⟩
      cases rest
      rw [brelse_counts released, back]
    · rcases of_bind rest with ⟨⟨z₁, v₂⟩, made, rest⟩
      rcases of_bind rest with ⟨v₃, released, rest⟩
      cases rest
      have stored (done : Prop) [Decidable done] (data : Block) :
          (if done then v₂ else v₂.store i data).counts = v₂.counts := by
        split
        · rfl
        · exact store_counts v₂ i data
      rw [brelse_counts released, stored, newBlock_counts made, back]

theorem createBlock_counts {block z : Nat} (run : v.createBlock fuel k block time = .ok (z, v')) :
    v'.counts = v.counts := by
  unfold createBlock at run
  split at run
  · cases run
  · split at run
    · rcases of_bind run with ⟨v₁, made, rest⟩
      cases rest
      exact createZone_counts made
    · split at run
      · rcases of_bind run with ⟨v₁, made, rest⟩
        split at rest
        · cases rest
          exact createZone_counts made
        · exact (createEntry_counts rest).trans (createZone_counts made)
      · rcases of_bind run with ⟨v₁, made, rest⟩
        split at rest
        · cases rest
          exact createZone_counts made
        · rcases of_bind rest with ⟨⟨z₁, v₂⟩, first, rest⟩
          have two := (createEntry_counts first).trans (createZone_counts made)
          dsimp only at rest
          split at rest
          · cases rest
            exact two
          · exact (createEntry_counts rest).trans two

theorem tryEntry_counts (v : Volume) (k : Nat) (name : List Byte) (time : BitVec 32) (n j i : Nat) :
    (v.tryEntry k name time n j i).2.counts = v.counts := by
  have grown : (growDirectory (v.inode k) n time).count = (v.inode k).count := by
    unfold growDirectory
    split <;> rfl
  have either (found : Prop) [Decidable found] (data : Block) :
      (if found then (true, (v.setInode k { growDirectory (v.inode k) n time with mtime := time }).store i data)
        else (false, v)).2.counts = v.counts := by
    split
    · rw [store_counts, setInode_counts]
      exact grown
    · rfl
  exact either _ _

/-- The loop gives its buffer back, or returns with the buffer of the entry. -/
theorem addLoop_counts {left n j : Nat} {name : List Byte} {place : Option (Nat × Nat)}
    (run : addLoop fuel k name time left n j i v = .ok (place, v')) :
    v'.counts = v.counts - .buffer i + .buffer? (place.map Prod.fst) := by
  induction left generalizing n j i v with
  | zero => cases run
  | succ left ih =>
    -- a round at an entry of a buffer that is held
    have round {j : Nat} {v₁ : Volume}
        (run : (if (v₁.tryEntry k name time n j i).1 then .ok (some (i, j), (v₁.tryEntry k name time n j i).2)
          else addLoop fuel k name time left (n + 1) (j + 1) i (v₁.tryEntry k name time n j i).2) = .ok (place, v')) :
        v'.counts = v₁.counts - .buffer i + .buffer? (place.map Prod.fst) := by
      split at run
      · cases run
        rw [tryEntry_counts]
        exact (sub_add_cancel _ _).symm
      · rw [ih run, tryEntry_counts]
    unfold addLoop at run
    split at run
    · rcases of_bind run with ⟨v₁, released, rest⟩
      rcases of_bind rest with ⟨⟨z, v₂⟩, made, rest⟩
      have two : v₂.counts = v.counts - .buffer i := (createBlock_counts made).trans (brelse_counts released)
      dsimp only at rest
      split at rest
      · cases rest
        exact two.trans (add_zero _).symm
      · rcases of_bind rest with ⟨⟨b, v₃⟩, read, rest⟩
        have three := bread_counts read
        rw [two] at three
        cases b with
        | none => cases rest
        | some b =>
          dsimp only at rest
          split at rest
          · cases rest
            rw [tryEntry_counts]
            exact three
          · rw [ih rest, tryEntry_counts, three]
            exact congrArg (· + _) (add_sub_cancel_right _ _)
    · exact round run

theorem addEntry_counts {name : List Byte} {place : Option (Nat × Nat)}
    (run : v.addEntry fuel k name time = .ok (place, v')) : v'.counts = v.counts + .buffer? (place.map Prod.fst) := by
  unfold addEntry at run
  split at run
  · cases run
    exact (add_zero _).symm
  · rcases of_bind run with ⟨⟨bh, v₁⟩, read, rest⟩
    have one := bread_counts read
    cases bh with
    | none =>
      cases rest
      exact one
    | some b =>
      rw [addLoop_counts rest, one]
      exact congrArg (· + _) (add_sub_cancel_right _ _)

theorem freshInode_count {sb sb' : SuperBlock} {creator : Creator} {inode : MInode}
    (made : Fs.newInode sb creator = .ok (some inode, sb')) : inode.count = 1 := by
  rw [((newInode_parts made).2 inode rfl).1]
  rfl

theorem newInode_counts {new : Option Nat} (run : v.newInode fuel w dev = .ok (new, v')) :
    v'.counts = v.counts + inodeUser new := by
  rcases of_bind run with ⟨⟨k, last, drive⟩, got, rest⟩
  rcases getEmptyInode_counts got with ⟨one, here⟩
  dsimp only at rest
  split at rest
  · cases rest
  · rcases of_bind rest with ⟨⟨inode, sb⟩, made, rest⟩
    cases inode with
    | none =>
      rcases of_bind rest with ⟨v₁, put, rest⟩
      cases rest
      refine (iput_counts put).trans ?_
      change drive.counts - _ = _
      rw [one]
      exact (add_sub_cancel_right _ _).trans (add_zero _).symm
    | some inode =>
      cases rest
      refine Eq.trans (setInode_counts ?_) one
      change inode.count = (drive.inode k).count
      rw [freshInode_count (of_mapError made), here]

end Create

end K210Linux.Fs.Volume
