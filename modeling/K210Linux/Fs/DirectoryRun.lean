import K210Linux.Fs.DirectoryMap
import K210Linux.Fs.FileData

namespace K210Linux.Fs

open Outcome

variable {fs fs' : FileSystem} {dir : Nat} {name : List Byte} {time : BitVec 32}

section Run

/-- The calls on one directory. An entry is added for a name that is not found, and one that is found is cleared
    unless it is "." or "..", which name directories that the callers refuse. `room` must hold where one is added. -/
inductive DirStep (dir : Nat) (room : FileSystem → Prop) : FileSystem × Names → FileSystem × Names → Prop
  | added {fs fs' : FileSystem} {names : Names} (atRoot : Bool) (name : List Byte) (time : BitVec 32)
      (place : Nat × Nat) (inr : BitVec 16) (component : IsComponent name) (nonzero : inr ≠ 0)
      (absent : findEntry fs dir atRoot name = .ok none) (roomy : room fs)
      (add : addEntry fs dir name time = .ok (some place, fs')) :
      DirStep dir room (fs, names)
        (storeEntry fs' place inr, Function.update names (name.take nameLen) (some inr))
  | full {fs fs' : FileSystem} {names : Names} (atRoot : Bool) (name : List Byte) (time : BitVec 32)
      (component : IsComponent name) (absent : findEntry fs dir atRoot name = .ok none) (roomy : room fs)
      (add : addEntry fs dir name time = .ok (none, fs')) : DirStep dir room (fs, names) (fs', names)
  | cleared {fs : FileSystem} {names : Names} (atRoot : Bool) (name : List Byte) (place : Nat × Nat)
      (component : IsComponent name) (notDot : name.take nameLen ≠ [dot]) (notDots : name.take nameLen ≠ [dot, dot])
      (found : findEntry fs dir atRoot name = .ok (some place)) :
      DirStep dir room (fs, names) (storeEntry fs place 0, Function.update names (name.take nameLen) none)

/-- The directory as `sys_mkdir` leaves it. -/
structure Fresh (fs : FileSystem) (dir : Nat) (names : Names) : Prop where
  zone : ((fs.inode dir).zone 0).toNat ≠ 0
  size : (fs.inode dir).size = 32
  first : HasName (dirBlock fs dir) 0 [dot] ∧ entryInode (dirBlock fs dir) 0 ≠ 0
  second : HasName (dirBlock fs dir) 1 [dot, dot] ∧ entryInode (dirBlock fs dir) 1 ≠ 0
  names : ∀ name, names name = if name = [dot] then some (entryInode (dirBlock fs dir) 0)
    else if name = [dot, dot] then some (entryInode (dirBlock fs dir) 1) else none

/-- Entry `i` of a directory, by its block. -/
def entryBlock (fs : FileSystem) (dir i : Nat) : Block := fs.disk (fs.zoneOf (blockRef dir (i / dirEntriesPerBlock)))

/-- The directory is the map: lookups find what was stored, and no two live entries have one name. -/
structure IsMap (fs : FileSystem) (dir : Nat) (names : Names) : Prop where
  find : ∀ atRoot name, IsComponent name → ∃ r, findEntry fs dir atRoot name = .ok r ∧
    ∀ v, names (lookedUp atRoot name) = some v ↔ ∃ p, r = some p ∧ entryInode (fs.disk p.1) p.2 = v
  once : ∀ i i' name, i < entriesOf fs dir → i' < entriesOf fs dir →
    entryInode (entryBlock fs dir i) (i % dirEntriesPerBlock) ≠ 0 →
    entryInode (entryBlock fs dir i') (i' % dirEntriesPerBlock) ≠ 0 →
    HasName (entryBlock fs dir i) (i % dirEntriesPerBlock) name →
    HasName (entryBlock fs dir i') (i' % dirEntriesPerBlock) name → i = i'

variable {names : Names}

theorem Fresh.holds (fresh : Fresh fs dir names) :
    Holds fs dir names ∧ names [dot] ≠ none ∧ names [dot, dot] ≠ none := by
  have count : entriesOf fs dir = 2 := by
    unfold entriesOf
    rw [fresh.size]
    rfl
  have entry : ∀ j, j < entriesOf fs dir → entryInode (dirBlock fs dir) j ≠ 0 ∧ ∃ name, IsName name ∧
      HasName (dirBlock fs dir) j name ∧ names name = some (entryInode (dirBlock fs dir) j) ∧
      name = if j = 0 then [dot] else [dot, dot] := by
    intro j below
    rw [count] at below
    have cases : j = 0 ∨ j = 1 := by omega
    rcases cases with rfl | rfl
    · exact ⟨fresh.first.2, [dot], isName_dot, fresh.first.1, (fresh.names _).trans (if_pos rfl), rfl⟩
    · refine ⟨fresh.second.2, [dot, dot], isName_dots, fresh.second.1, ?_, rfl⟩
      rw [fresh.names, if_neg (by decide), if_pos rfl]
  refine ⟨⟨fresh.zone, ?_, by rw [count]; decide, ?_, ?_, ?_⟩, ?_, ?_⟩
  · rw [count, fresh.size]
    rfl
  · intro j below _
    rcases entry j below with ⟨_, name, isName, has, value, _⟩
    exact ⟨name, isName, has, value⟩
  · intro name v value
    rw [fresh.names] at value
    split at value
    · rename_i same
      cases value
      rw [same]
      exact ⟨isName_dot, fresh.first.2, 0, by rw [count]; decide, fresh.first.1, rfl⟩
    · split at value
      · rename_i same
        cases value
        rw [same]
        exact ⟨isName_dots, fresh.second.2, 1, by rw [count]; decide, fresh.second.1, rfl⟩
      · cases value
  · intro j j' name below below' _ _ has has'
    rcases entry j below with ⟨_, n, isN, hasN, _, value⟩
    rcases entry j' below' with ⟨_, n', isN', hasN', _, value'⟩
    have same : n = n' := name_eq isN isN' fun i bound => by
      rw [← hasN i bound, has i bound, ← has' i bound, hasN' i bound]
    rw [count] at below below'
    have either : (j = 0 ∨ j = 1) ∧ (j' = 0 ∨ j' = 1) := by omega
    rcases either with ⟨rfl | rfl, rfl | rfl⟩
    · rfl
    · rw [value, value'] at same
      exact absurd same (by decide)
    · rw [value, value'] at same
      exact absurd same (by decide)
    · rfl
  · rw [fresh.names, if_pos rfl]
    exact nofun
  · rw [fresh.names, if_neg (by decide), if_pos rfl]
    exact nofun

/-- The name of a new entry is the one that was looked up. -/
theorem absent_of_lookedUp {atRoot : Bool} (dots : names [dot] ≠ none)
    (absent : names (lookedUp atRoot name) = none) : names (name.take nameLen) = none := by
  unfold lookedUp at absent
  split at absent
  · exact absurd absent dots
  · exact absent

theorem DirStep.holds {s s' : FileSystem × Names} (step : DirStep dir (Room dir) s s')
    (before : Holds s.1 dir s.2 ∧ s.2 [dot] ≠ none ∧ s.2 [dot, dot] ≠ none) :
    Holds s'.1 dir s'.2 ∧ s'.2 [dot] ≠ none ∧ s'.2 [dot, dot] ≠ none := by
  rcases before with ⟨holds, one, two⟩
  cases step with
  | @added fs fs' names atRoot name time place inr component nonzero absent roomy add =>
    rcases add_entry holds.zone holds.size holds.few roomy component.cut.some time with
      ⟨f, fs₁, inBlock, last, free, run, added⟩
    rw [run] at add
    cases add
    rcases holds.find atRoot component with ⟨_, _, _, _, _, found⟩ | ⟨missing, _⟩
    · rw [found] at absent
      cases absent
    · refine ⟨holds.add added rfl inBlock last free component.cut (absent_of_lookedUp one missing) nonzero, ?_, ?_⟩
      · dsimp only
        by_cases same : [dot] = name.take nameLen
        · rw [← same, Function.update_self]
          exact nofun
        · rw [Function.update_of_ne same]
          exact one
      · dsimp only
        by_cases same : [dot, dot] = name.take nameLen
        · rw [← same, Function.update_self]
          exact nofun
        · rw [Function.update_of_ne same]
          exact two
  | @full fs fs' names atRoot name time component absent roomy add =>
    rcases add_entry holds.zone holds.size holds.few roomy component.cut.some time with ⟨f, fs₁, _, _, _, run, _⟩
    rw [run] at add
    cases add
  | @cleared fs names atRoot name place component notDot notDots found =>
    have key : lookedUp atRoot name = name.take nameLen := if_neg fun both => notDots both.2
    rcases holds.find atRoot component with ⟨j, below, has, _, live, run⟩ | ⟨_, run⟩
    · rw [run] at found
      cases found
      rw [key] at has
      refine ⟨holds.clear rfl below live component.cut has, ?_, ?_⟩
      · dsimp only
        rw [Function.update_of_ne notDot.symm]
        exact one
      · dsimp only
        rw [Function.update_of_ne notDots.symm]
        exact two
    · rw [run] at found
      cases found

theorem Holds.isMap (holds : Holds fs dir names) : IsMap fs dir names where
  find atRoot name component := by
    rcases holds.find atRoot component with ⟨j, below, has, value, live, run⟩ | ⟨missing, run⟩
    · refine ⟨_, run, ?_⟩
      intro v
      constructor
      · intro equal
        exact ⟨_, rfl, Option.some.inj (value.symm.trans equal)⟩
      · intro found
        rcases found with ⟨p, same, stored⟩
        cases same
        rw [value]
        exact congrArg some stored
    · refine ⟨_, run, ?_⟩
      intro v
      rw [missing]
      constructor
      · intro equal
        cases equal
      · intro found
        rcases found with ⟨p, same, _⟩
        cases same
  once i i' name below below' live live' has has' := by
    have few := holds.few
    have inFirst : ∀ i, i < entriesOf fs dir →
        entryBlock fs dir i = dirBlock fs dir ∧ i % dirEntriesPerBlock = i := by
      intro i inside
      have small : i / dirEntriesPerBlock = 0 ∧ i % dirEntriesPerBlock = i := by
        rw [dirEntriesPerBlock]
        omega
      refine ⟨?_, small.2⟩
      unfold entryBlock
      rw [small.1]
      rfl
    rw [(inFirst i below).1, (inFirst i below).2] at live has
    rw [(inFirst i' below').1, (inFirst i' below').2] at live' has'
    exact holds.once i i' name below below' live live' has has'

theorem run_holds {s s' : FileSystem × Names} (run : Relation.ReflTransGen (DirStep dir (Room dir)) s s')
    (before : Holds s.1 dir s.2 ∧ s.2 [dot] ≠ none ∧ s.2 [dot, dot] ≠ none) :
    Holds s'.1 dir s'.2 ∧ s'.2 [dot] ≠ none ∧ s'.2 [dot, dot] ≠ none := by
  induction run with
  | refl => exact before
  | tail _ step ih => exact step.holds ih

theorem directory_is_map {names' : Names} (fresh : Fresh fs dir names)
    (run : Relation.ReflTransGen (DirStep dir (Room dir)) (fs, names) (fs', names')) : IsMap fs' dir names' :=
  (run_holds run fresh.holds).1.isMap

end Run

section Spill

/-- A new directory with inode number 2, whose block is 20. -/
def newDirectory : FileSystem where
  sb := blankDevice.sb
  disk := fun b => if b = 20 then setEntryName (setEntryInode (setEntryName (setEntryInode (fun _ => 0) 0 2) 0 [dot]) 1 1)
    1 [dot, dot] else fun _ => 0
  inode := fun _ => { MInode.zero with size := 32, zone := fun slot => if slot = 0 then 20 else 0 }

def newNames : Names := fun name => if name = [dot] then some 2 else if name = [dot, dot] then some 1 else none

theorem newDirectory_fresh : Fresh newDirectory 2 newNames := by
  have first : entryInode (dirBlock newDirectory 2) 0 = 2 := by decide
  have second : entryInode (dirBlock newDirectory 2) 1 = 1 := by decide
  refine ⟨by decide, rfl, ⟨?_, by rw [first]; decide⟩, ⟨?_, by rw [second]; decide⟩, ?_⟩
  · intro i bound
    interval_cases i <;> decide
  · intro i bound
    interval_cases i <;> decide
  · intro name
    rw [first, second]
    rfl

/-- The name of the file that is added after `k` others. -/
def fileName (k : Nat) : List Byte := [BitVec.ofNat 8 (64 + k)]

theorem fileName_component {k : Nat} (small : k < 64) : IsComponent (fileName k) where
  some := List.cons_ne_nil _ _
  noNul b isIn := by
    rw [List.mem_singleton.mp isIn]
    intro zero
    have value := congrArg BitVec.toNat zero
    rw [BitVec.toNat_ofNat] at value
    have : (0 : Byte).toNat = 0 := rfl
    omega

theorem fileName_inj {k k' : Nat} (small : k < 64) (small' : k' < 64) (same : fileName k = fileName k') : k = k' := by
  have value := congrArg BitVec.toNat (List.cons.inj same).1
  rw [BitVec.toNat_ofNat, BitVec.toNat_ofNat] at value
  omega

/-- The directory after `k` files were added to it. -/
structure Filled (k : Nat) (s : FileSystem × Names) : Prop where
  run : Relation.ReflTransGen (DirStep 2 (Room 2)) (newDirectory, newNames) s
  count : entriesOf s.1 2 = 2 + k
  live : ∀ j, j < 2 + k → entryInode (dirBlock s.1 2) j ≠ 0
  behind : entryInode (dirBlock s.1 2) 64 = 0
  later : ∀ i, k ≤ i → i < 64 → s.2 (fileName i) = none
  sb : s.1.sb = blankDevice.sb
  zone : (s.1.inode 2).zone = (newDirectory.inode 2).zone

theorem Filled.holds {k : Nat} {s : FileSystem × Names} (filled : Filled k s) : Holds s.1 2 s.2 :=
  (run_holds filled.run newDirectory_fresh.holds).1

theorem Filled.absent {k : Nat} {s : FileSystem × Names} (filled : Filled k s) {i : Nat} (from_k : k ≤ i) (small : i < 64) :
    findEntry s.1 2 false (fileName i) = .ok none := by
  have key : lookedUp false (fileName i) = fileName i := rfl
  rcases filled.holds.find false (fileName_component small) with ⟨j, _, _, value, _⟩ | ⟨_, missed⟩
  · rw [key, filled.later i from_k small] at value
    cases value
  · exact missed

theorem Filled.next {k : Nat} {s : FileSystem × Names} (filled : Filled k s) (small : k < 62) :
    ∃ s', Filled (k + 1) s' := by
  rcases s with ⟨fs, names⟩
  have holds : Holds fs 2 names := filled.holds
  have count : entriesOf fs 2 = 2 + k := filled.count
  have room : Room 2 fs := .inl (by omega)
  have component := fileName_component (by omega : k < 64)
  rcases add_entry holds.zone holds.size holds.few room component.cut.some 0 with ⟨f, fs₁, _, last, free, run, added⟩
  have new : f = 2 + k := by
    by_contra other
    have below : f < entriesOf fs 2 := by omega
    exact filled.live f (by omega) (free below)
  subst new
  have zone : ((fs.inode 2).zone 0).toNat = ((fs₁.inode 2).zone 0).toNat := by rw [added.zone]
  have number : ∀ j, entryInode (dirBlock (storeEntry fs₁ (((fs.inode 2).zone 0).toNat, 2 + k) 5) 2) j =
      if j = 2 + k then 5 else entryInode (dirBlock fs 2) j := by
    intro j
    rw [dirBlock_store zone, entryInode_setEntryInode]
    by_cases here : j = 2 + k
    · rw [if_pos here, if_pos here]
    · rw [if_neg here, if_neg here, added.numbers j here]
  refine ⟨_, filled.run.tail (.added false (fileName k) 0 _ 5 component (by decide)
    (filled.absent (le_refl _) (by omega)) room run), ?_, ?_, ?_, ?_, ?_, ?_⟩
  · have size := added.size.1
    change entriesOf fs₁ 2 = _
    omega
  · intro j below
    rw [number]
    split
    · decide
    · exact filled.live j (by omega)
  · rw [number, if_neg (by omega)]
    exact filled.behind
  · intro i above bound
    have other : fileName i ≠ (fileName k).take nameLen := by
      intro same
      have := fileName_inj bound (by omega) same
      omega
    exact (Function.update_of_ne other ..).trans (filled.later i (by omega) bound)
  · exact added.sb.trans filled.sb
  · exact added.zone.trans filled.zone

theorem exists_filled {k : Nat} (small : k ≤ 62) : ∃ s, Filled k s := by
  induction k with
  | zero =>
    refine ⟨_, .refl, rfl, ?_, by decide, ?_, rfl, rfl⟩
    · intro j below
      interval_cases j <;> decide
    · intro i _ bound
      interval_cases i <;> decide
  | succ k ih =>
    rcases ih (by omega) with ⟨s, filled⟩
    exact filled.next (by omega)

/-- `add_entry` passes a first block without free entries. -/
theorem addLoop_over {z fuel i : Nat} (fs : FileSystem) (name : List Byte) (time : BitVec 32) (start : i ≤ 64)
    (enough : 64 - i ≤ fuel) (busy : ∀ j, i ≤ j → j < 64 → (tryEntry fs dir name time j j z).1 = false) :
    addLoop fs dir name time i i z fuel = addLoop fs dir name time 64 64 z (fuel - (64 - i)) := by
  induction fuel generalizing i with
  | zero =>
    have last : i = 64 := by omega
    rw [last]
  | succ fuel ih =>
    by_cases last : i = 64
    · rw [last]
      rfl
    · have here := busy i (le_refl _) (by omega)
      rw [addLoop, if_neg (by rw [dirEntriesPerBlock]; omega)]
      dsimp only
      rw [if_neg (by rw [here]; exact Bool.false_ne_true), ih (by omega) (by omega) (fun j above => busy j (by omega))]
      congr 1
      omega

/-- The first block that `new_block` hands out on the device. -/
theorem blank_newBlock (fs : FileSystem) (sb : fs.sb = blankDevice.sb) : ∃ fs',
    newBlock fs = .ok (10, fs') ∧ fs'.inode = fs.inode ∧ fs'.disk 20 = fs.disk 20 := by
  have search : searchMap blankDevice.sb.zmap 0 bitsPerBlock none mapSlots =
      (0, 1, some ⟨fun k => if k = 0 then 1 else 0, false⟩) := rfl
  unfold newBlock
  rw [sb, search]
  dsimp only
  rw [if_neg (by decide), bind_ok (setBit_of_aligned (by decide))]
  exact ⟨_, rfl, rfl, FileSystem.setBlock_of_ne _ _ (by decide : 20 ≠ 10)⟩

/-- The sixty-third file goes to the second block, where `find_entry` does not look at it. -/
theorem spilled {s : FileSystem × Names} (filled : Filled 62 s) : ∃ fs' names',
    DirStep 2 (fun _ => True) s (fs', names') ∧ findEntry fs' 2 false (fileName 62) = .ok none ∧
      names' (fileName 62) = some 5 := by
  rcases s with ⟨fs, names⟩
  have holds : Holds fs 2 names := filled.holds
  have count : entriesOf fs 2 = 64 := filled.count
  have size : (fs.inode 2).size.toNat = 1024 := by
    rw [holds.size, count]
  have slots : (fs.inode 2).zone = (newDirectory.inode 2).zone := filled.zone
  have zone : ((fs.inode 2).zone 0).toNat = 20 := by
    rw [slots]
    rfl
  have second : ((fs.inode 2).zone 1).toNat = 0 := by
    rw [slots]
    rfl
  rcases blank_newBlock fs filled.sb with ⟨fs₀, new, inode₀, disk₀⟩
  -- `create_block` gives the directory block 10
  have created : ∃ fs₁, createBlock fs 2 1 0 = .ok (10, fs₁) ∧ (fs₁.inode 2).size = (fs.inode 2).size ∧
      (fs₁.inode 2).zone 0 = (fs.inode 2).zone 0 ∧ fs₁.disk 20 = fs.disk 20 := by
    have run : createBlock fs 2 1 0 = inodeZone fs 2 1 true 0 := rfl
    rw [run, inodeZone, if_pos ⟨rfl, second⟩, bind_ok new]
    refine ⟨_, if_neg (by decide), ?_, ?_, disk₀⟩
    · simp only [FileSystem.setInode, Function.update_self, inode₀]
    · simp only [FileSystem.setInode, Function.update_self, inode₀]
      exact Function.update_of_ne (by decide) ..
  rcases created with ⟨fs₁, run, size₁, zone₁, first⟩
  have size₁' : (fs₁.inode 2).size.toNat = 1024 := by rw [size₁, size]
  have new₁ : (fs₁.inode 2).size.toNat ≤ 64 * 16 := by omega
  have took := tryEntry_of_free (j := 0) (z := 10) (fileName 62) 0 (.inl new₁)
  have add : addEntry fs 2 (fileName 62) 0 = .ok (some (10, 0), (tryEntry fs₁ 2 (fileName 62) 0 64 0 10).2) := by
    have called : ¬ ((fileName 62).take nameLen = [] ∨ ((fs.inode 2).zone 0).toNat = 0) := by
      rw [zone]
      decide
    unfold addEntry
    dsimp only
    rw [if_neg called, size, addLoop_over fs _ _ (Nat.zero_le _) (by decide)]
    · change addLoop fs 2 (fileName 62) 0 64 64 _ 2 = _
      unfold addLoop
      rw [if_pos (by decide)]
      change (createBlock fs 2 1 0 >>= _) = _
      rw [bind_ok run]
      dsimp only
      rw [if_neg (by decide), took, if_pos rfl]
    · intro j _ below
      exact tryEntry_of_live (by omega) (filled.live j below)
  refine ⟨_, _, .added false (fileName 62) 0 _ 5 (fileName_component (by decide)) (by decide)
    (filled.absent (le_refl _) (by decide)) trivial add, ?_, Function.update_self ..⟩
  -- the old block is as it was, and the size says 65 entries
  generalize after : storeEntry (tryEntry fs₁ 2 (fileName 62) 0 64 0 10).2 (10, 0) 5 = fs₃
  rw [took] at after
  have inode₃ : fs₃.inode 2 = { growDirectory (fs₁.inode 2) 64 0 with mtime := 0 } := by
    rw [← after]
    simp only [storeEntry, FileSystem.setBlock, FileSystem.setInode, Function.update_self]
  have zone₃ : ((fs₃.inode 2).zone 0).toNat = 20 := by
    rw [inode₃, ← zone, ← zone₁]
    exact congrArg (fun slots : Nat → BitVec 16 => (slots 0).toNat) (growDirectory_zone ..)
  have block₃ : fs₃.disk 20 = dirBlock fs 2 := by
    rw [← after, storeEntry, FileSystem.setBlock_of_ne _ _ (by decide : 20 ≠ 10),
      FileSystem.setBlock_of_ne _ _ (by decide : 20 ≠ 10), dirBlock, zone]
    exact first
  have size₃ : (fs₃.inode 2).size.toNat / 16 = 65 := by
    rw [inode₃, growDirectory, if_pos new₁]
    change (BitVec.ofNat 32 ((64 + 1) * 16)).toNat / 16 = 65
    decide
  have called : ¬ ((fileName 62).take nameLen = [] ∨ ((fs₃.inode 2).zone 0).toNat = 0) := by
    rw [zone₃]
    decide
  unfold findEntry
  dsimp only
  rw [if_neg called, size₃, zone₃]
  rcases findLoop_cases fs₃ 2 (lookedUp false (fileName 62)) (le_refl 65) (by decide : 20 ≠ 0) (Nat.zero_le _)
    (Nat.lt_succ_self _) with ⟨j, _, below, matched, _⟩ | ⟨_, missed⟩
  · rw [block₃] at matched
    by_cases last : j = 64
    · subst last
      unfold matchEntry at matched
      rw [if_pos (.inl filled.behind)] at matched
      cases matched
    · have inside : j < entriesOf fs 2 := by omega
      have live := filled.live j (by omega)
      rcases holds.named j inside live with ⟨stored, isStored, has, value⟩
      have same := ((matchEntry_iff (fileName_component (by decide)).cut isStored has).mp matched).2
      have later : names (fileName 62) = none := filled.later 62 (le_refl _) (by decide)
      have cut : (fileName 62).take nameLen = fileName 62 := rfl
      rw [← same, cut, later] at value
      cases value
  · exact missed

theorem run_weaken {s s' : FileSystem × Names} (run : Relation.ReflTransGen (DirStep dir (Room dir)) s s') :
    Relation.ReflTransGen (DirStep dir fun _ => True) s s' := by
  refine Relation.ReflTransGen.mono ?_ _ _ run
  intro a b step
  cases step with
  | added atRoot name time place inr component nonzero absent _ add =>
    exact .added atRoot name time place inr component nonzero absent trivial add
  | full atRoot name time component absent _ add => exact .full atRoot name time component absent trivial add
  | cleared atRoot name place component notDot notDots found =>
    exact .cleared atRoot name place component notDot notDots found

/-- Past 64 entries a file that was added is not found. -/
theorem directory_spill_lost : ∃ fs names fs' names', Fresh fs 2 names ∧
    Relation.ReflTransGen (DirStep 2 fun _ => True) (fs, names) (fs', names') ∧ ¬ IsMap fs' 2 names' := by
  rcases exists_filled (le_refl 62) with ⟨s, filled⟩
  rcases spilled filled with ⟨fs', names', step, missed, stored⟩
  refine ⟨_, _, fs', names', newDirectory_fresh, (run_weaken filled.run).tail step, ?_⟩
  intro isMap
  rcases isMap.find false (fileName 62) (fileName_component (by decide)) with ⟨r, run, iff⟩
  rcases (iff 5).mp stored with ⟨p, same, _⟩
  rw [run] at missed
  rw [same] at missed
  cases missed

/-- With 64 entries it still is one. -/
theorem full_directory_is_map : ∃ fs names, entriesOf fs 2 = 64 ∧ IsMap fs 2 names := by
  rcases exists_filled (le_refl 62) with ⟨⟨fs, names⟩, filled⟩
  exact ⟨fs, names, filled.count, directory_is_map newDirectory_fresh filled.run⟩

end Spill

end K210Linux.Fs
