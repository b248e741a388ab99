import K210Linux.Fs.Directory
import Mathlib.Logic.Relation

namespace K210Linux.Fs

open Outcome

variable {fs fs' : FileSystem} {dir : Nat} {name : List Byte} {time : BitVec 32}

def dirBlock (fs : FileSystem) (dir : Nat) : Block := fs.disk ((fs.inode dir).zone 0).toNat

def entriesOf (fs : FileSystem) (dir : Nat) : Nat := (fs.inode dir).size.toNat / 16

section Loops

/-- `find_entry` looks at the entries of the first block, and at what lies behind them as entry 64. -/
theorem findLoop_cases (fs : FileSystem) (dir : Nat) (name : List Byte) {n i z fuel : Nat} (few : n ≤ 65) (present : z ≠ 0) (start : i ≤ n) (enough : n - i < fuel) :
    (∃ j, i ≤ j ∧ j < n ∧ matchEntry name (fs.disk z) j = true ∧
      findLoop fs dir n name i i z fuel = .ok (some (z, j))) ∨
    ((∀ j, i ≤ j → j < n → matchEntry name (fs.disk z) j = false) ∧
      findLoop fs dir n name i i z fuel = .ok none) := by
  induction fuel generalizing i with
  | zero => omega
  | succ fuel ih =>
    unfold findLoop
    by_cases finished : n ≤ i
    · right
      rw [if_pos finished]
      exact ⟨fun j above below => by omega, rfl⟩
    · rw [if_neg finished, if_neg present, if_neg (by omega)]
      by_cases matched : matchEntry name (fs.disk z) i = true
      · left
        exact ⟨i, le_refl _, not_le.mp finished, matched, if_pos matched⟩
      · rw [if_neg matched]
        rcases ih (by omega : i + 1 ≤ n) (by omega) with ⟨j, above, below, found⟩ | ⟨none, result⟩
        · exact .inl ⟨j, by omega, below, found⟩
        · refine .inr ⟨?_, result⟩
          intro j above below
          by_cases here : j = i
          · rw [here]
            exact Bool.not_eq_true _ ▸ matched
          · exact none j (by omega) below

/-- `add_entry` takes the first entry that is free. -/
theorem addLoop_first {f i z fuel : Nat} (inBlock : f < 64) (start : i ≤ f) (enough : f - i < fuel)
    (taken : ∀ j, i ≤ j → j < f → (tryEntry fs dir name time j j z).1 = false)
    (free : (tryEntry fs dir name time f f z).1 = true) :
    addLoop fs dir name time i i z fuel = .ok (some (z, f), (tryEntry fs dir name time f f z).2) := by
  induction fuel generalizing i with
  | zero => omega
  | succ fuel ih =>
    unfold addLoop
    rw [if_neg (by rw [dirEntriesPerBlock]; omega)]
    by_cases here : i = f
    · subst here
      exact if_pos free
    · have busy := taken i (le_refl _) (by omega)
      dsimp only
      rw [if_neg (by rw [busy]; exact Bool.false_ne_true)]
      exact ih (by omega) (by omega) (fun j above => taken j (by omega))

theorem tryEntry_of_live {i z : Nat} (inside : i * 16 < (fs.inode dir).size.toNat)
    (live : entryInode (fs.disk z) i ≠ 0) : (tryEntry fs dir name time i i z).1 = false := by
  unfold tryEntry
  simp only [if_neg (not_le.mpr inside), if_neg live]

theorem tryEntry_of_free {i j z : Nat} (name : List Byte) (time : BitVec 32)
    (free : (fs.inode dir).size.toNat ≤ i * 16 ∨ entryInode (fs.disk z) j = 0) :
    tryEntry fs dir name time i j z = (true, (fs.setInode dir { growDirectory (fs.inode dir) i time with
      mtime := time }).setBlock z (setEntryName (if (fs.inode dir).size.toNat ≤ i * 16 then
        setEntryInode (fs.disk z) j 0 else fs.disk z) j name)) := by
  unfold tryEntry
  have zero : entryInode (if (fs.inode dir).size.toNat ≤ i * 16 then setEntryInode (fs.disk z) j 0 else fs.disk z) j =
      0 := by
    split
    · rw [entryInode_setEntryInode, if_pos rfl]
    · rename_i old
      exact free.resolve_left old
  exact if_pos zero

end Loops

/-- There is a free entry, or room for one, in the first block. -/
def Room (dir : Nat) (fs : FileSystem) : Prop :=
  entriesOf fs dir < 64 ∨ ∃ j, j < entriesOf fs dir ∧ entryInode (dirBlock fs dir) j = 0

/-- The least index that `add_entry` takes. -/
theorem exists_first (few : entriesOf fs dir ≤ 64) (room : Room dir fs) :
    ∃ f, f < 64 ∧ f ≤ entriesOf fs dir ∧ (∀ j, j < f → entryInode (dirBlock fs dir) j ≠ 0) ∧
      (f < entriesOf fs dir → entryInode (dirBlock fs dir) f = 0) := by
  by_cases free : ∃ j, j < entriesOf fs dir ∧ entryInode (dirBlock fs dir) j = 0
  · have least := Nat.find_spec free
    refine ⟨Nat.find free, by omega, by omega, ?_, fun _ => least.2⟩
    intro j below dead
    exact Nat.find_min free below ⟨by omega, dead⟩
  · refine ⟨entriesOf fs dir, room.resolve_right free, le_refl _, ?_, fun below => by omega⟩
    intro j below dead
    exact free ⟨j, below, dead⟩

/-- What a name stands for, by the calls so far. -/
abbrev Names := List Byte → Option (BitVec 16)

/-- A path component of any length. -/
structure IsComponent (name : List Byte) : Prop where
  some : name ≠ []
  noNul : ∀ b ∈ name, b ≠ 0

theorem IsComponent.cut (component : IsComponent name) : IsName (name.take nameLen) where
  some empty := by
    rw [List.take_eq_nil_iff] at empty
    exact component.some (empty.resolve_left (by decide))
  cut := by
    rw [List.length_take]
    exact min_le_left ..
  noNul b isIn := component.noNul b (List.mem_of_mem_take isIn)

theorem isName_dot : IsName [dot] := ⟨by decide, by decide, by decide⟩
theorem isName_dots : IsName [dot, dot] := ⟨by decide, by decide, by decide⟩

theorem IsComponent.lookedUp (component : IsComponent name) (atRoot : Bool) : IsName (lookedUp atRoot name) := by
  unfold Fs.lookedUp
  split
  · exact isName_dot
  · exact component.cut

/-- The entries of a directory of one block are exactly those of the map. -/
structure Holds (fs : FileSystem) (dir : Nat) (names : Names) : Prop where
  zone : ((fs.inode dir).zone 0).toNat ≠ 0
  size : (fs.inode dir).size.toNat = 16 * entriesOf fs dir
  few : entriesOf fs dir ≤ 64
  named : ∀ j, j < entriesOf fs dir → entryInode (dirBlock fs dir) j ≠ 0 →
    ∃ name, IsName name ∧ HasName (dirBlock fs dir) j name ∧ names name = some (entryInode (dirBlock fs dir) j)
  held : ∀ name v, names name = some v → IsName name ∧ v ≠ 0 ∧
    ∃ j, j < entriesOf fs dir ∧ HasName (dirBlock fs dir) j name ∧ entryInode (dirBlock fs dir) j = v
  once : ∀ j j' name, j < entriesOf fs dir → j' < entriesOf fs dir → entryInode (dirBlock fs dir) j ≠ 0 →
    entryInode (dirBlock fs dir) j' ≠ 0 → HasName (dirBlock fs dir) j name → HasName (dirBlock fs dir) j' name → j = j'

/-- What `find_entry` returns in such a directory. -/
theorem Holds.find {names : Names} (holds : Holds fs dir names) (atRoot : Bool) (component : IsComponent name) :
    (∃ j, j < entriesOf fs dir ∧ HasName (dirBlock fs dir) j (lookedUp atRoot name) ∧
      names (lookedUp atRoot name) = some (entryInode (dirBlock fs dir) j) ∧
      entryInode (dirBlock fs dir) j ≠ 0 ∧
      findEntry fs dir atRoot name = .ok (some (((fs.inode dir).zone 0).toNat, j))) ∨
    (names (lookedUp atRoot name) = none ∧ findEntry fs dir atRoot name = .ok none) := by
  have isName := component.lookedUp atRoot
  have called : ¬ (name.take nameLen = [] ∨ ((fs.inode dir).zone 0).toNat = 0) := by
    rw [not_or]
    exact ⟨component.cut.some, holds.zone⟩
  unfold findEntry
  dsimp only
  rw [if_neg called]
  rcases findLoop_cases fs dir (lookedUp atRoot name) (Nat.le_succ_of_le holds.few) holds.zone (Nat.zero_le _)
    (Nat.lt_succ_self _) with ⟨j, _, below, matched, found⟩ | ⟨none, missed⟩
  · left
    have live : entryInode (dirBlock fs dir) j ≠ 0 := by
      intro dead
      unfold matchEntry at matched
      rw [if_pos (.inl dead)] at matched
      cases matched
    rcases holds.named j below live with ⟨stored, isStored, has, value⟩
    have same := ((matchEntry_iff isName isStored has).mp matched).2
    rw [same]
    rw [same] at found
    exact ⟨j, below, has, value, live, found⟩
  · right
    refine ⟨?_, missed⟩
    by_contra some
    rcases Option.ne_none_iff_exists'.mp some with ⟨v, value⟩
    rcases holds.held _ v value with ⟨_, nonzero, j, below, has, inr⟩
    have live : entryInode (dirBlock fs dir) j ≠ 0 := by
      rw [inr]
      exact nonzero
    have matched := (matchEntry_iff isName isName has).mpr ⟨live, rfl⟩
    exact absurd ((none j (Nat.zero_le _) below).symm.trans matched) Bool.false_ne_true

section Add

/-- What `add_entry` did when it took entry `f`. -/
structure Added (fs fs' : FileSystem) (dir f : Nat) (name : List Byte) (time : BitVec 32) : Prop where
  sb : fs'.sb = fs.sb
  inode : fs'.inode = Function.update fs.inode dir { growDirectory (fs.inode dir) f time with mtime := time }
  blocks : ∀ b, b ≠ ((fs.inode dir).zone 0).toNat → fs'.disk b = fs.disk b
  size : entriesOf fs' dir = max (entriesOf fs dir) (f + 1) ∧ (fs'.inode dir).size.toNat = 16 * entriesOf fs' dir
  numbers : ∀ j, j ≠ f → entryInode (dirBlock fs' dir) j = entryInode (dirBlock fs dir) j
  names : ∀ j i, i < 14 → entryName (dirBlock fs' dir) j i =
    if j = f then (name.take nameLen).getD i 0 else entryName (dirBlock fs dir) j i

theorem growDirectory_zone (inode : MInode) (i : Nat) (time : BitVec 32) :
    (growDirectory inode i time).zone = inode.zone := by
  unfold growDirectory
  split <;> rfl

theorem Added.zone {f : Nat} (added : Added fs fs' dir f name time) :
    (fs'.inode dir).zone = (fs.inode dir).zone := by
  rw [added.inode, Function.update_self]
  exact growDirectory_zone ..

theorem add_entry (present : ((fs.inode dir).zone 0).toNat ≠ 0)
    (size : (fs.inode dir).size.toNat = 16 * entriesOf fs dir) (few : entriesOf fs dir ≤ 64) (room : Room dir fs)
    (named : name.take nameLen ≠ []) (time : BitVec 32) :
    ∃ f fs', f < 64 ∧ f ≤ entriesOf fs dir ∧ (f < entriesOf fs dir → entryInode (dirBlock fs dir) f = 0) ∧
      addEntry fs dir name time = .ok (some (((fs.inode dir).zone 0).toNat, f), fs') ∧
      Added fs fs' dir f name time := by
  rcases exists_first few room with ⟨f, inBlock, last, taken, free⟩
  have fits : (fs.inode dir).size.toNat ≤ f * 16 ∨ entryInode (dirBlock fs dir) f = 0 := by
    by_cases old : f < entriesOf fs dir
    · exact .inr (free old)
    · exact .inl (by omega)
  have took := tryEntry_of_free (name.take nameLen) time fits
  have called : ¬ (name.take nameLen = [] ∨ ((fs.inode dir).zone 0).toNat = 0) := not_or.mpr ⟨named, present⟩
  refine ⟨f, (tryEntry fs dir (name.take nameLen) time f f ((fs.inode dir).zone 0).toNat).2, inBlock, last, free,
    ?_, ?_⟩
  · unfold addEntry
    dsimp only
    rw [if_neg called]
    apply addLoop_first inBlock (Nat.zero_le _)
    · have count : (fs.inode dir).size.toNat / 16 = entriesOf fs dir := rfl
      omega
    · intro j _ below
      exact tryEntry_of_live (by omega) (taken j below)
    · rw [took]
  · rw [took]
    have block : ∀ b, dirBlock ((fs.setInode dir { growDirectory (fs.inode dir) f time with mtime := time }).setBlock
        ((fs.inode dir).zone 0).toNat b) dir = b := by
      intro b
      unfold dirBlock
      have zone : (((fs.setInode dir { growDirectory (fs.inode dir) f time with mtime := time }).setBlock
          ((fs.inode dir).zone 0).toNat b).inode dir).zone 0 = (fs.inode dir).zone 0 := by
        simp only [FileSystem.setBlock, FileSystem.setInode, Function.update_self]
        rw [growDirectory_zone]
      rw [zone, FileSystem.setBlock_self]
    constructor
    · rfl
    · rfl
    · intro b other
      exact FileSystem.setBlock_of_ne _ _ other
    · have count : (fs.inode dir).size.toNat / 16 = entriesOf fs dir := rfl
      have grown : (growDirectory (fs.inode dir) f time).size.toNat = 16 * max (entriesOf fs dir) (f + 1) := by
        unfold growDirectory
        split
        · change (BitVec.ofNat 32 ((f + 1) * 16)).toNat = _
          rw [BitVec.toNat_ofNat]
          omega
        · omega
      unfold entriesOf
      simp only [FileSystem.setBlock, FileSystem.setInode, Function.update_self]
      rw [grown, count]
      omega
    · intro j other
      rw [block, entryInode_setEntryName]
      split
      · rw [entryInode_setEntryInode, if_neg other]
        rfl
      · rfl
    · intro j i bound
      rw [block, entryName_setEntryName _ _ _ _ bound]
      split
      · rfl
      · split
        · rw [entryName_setEntryInode _ _ _ _ bound]
          rfl
        · rfl

end Add

section Store

variable {z f j : Nat} {inr : BitVec 16} {names : Names}

theorem dirBlock_store (zone : z = ((fs.inode dir).zone 0).toNat) (j : Nat) (inr : BitVec 16) :
    dirBlock (storeEntry fs (z, j) inr) dir = setEntryInode (dirBlock fs dir) j inr := by
  subst zone
  exact FileSystem.setBlock_self ..

/-- A new entry for a name that was not there. -/
theorem Holds.add (holds : Holds fs dir names) (added : Added fs fs' dir f name time)
    (zone : z = ((fs.inode dir).zone 0).toNat) (inBlock : f < 64) (last : f ≤ entriesOf fs dir)
    (free : f < entriesOf fs dir → entryInode (dirBlock fs dir) f = 0) (isName : IsName (name.take nameLen))
    (absent : names (name.take nameLen) = none) (nonzero : inr ≠ 0) :
    Holds (storeEntry fs' (z, f) inr) dir (Function.update names (name.take nameLen) (some inr)) := by
  have zone' : z = ((fs'.inode dir).zone 0).toNat := by
    rw [added.zone]
    exact zone
  have count : entriesOf (storeEntry fs' (z, f) inr) dir = max (entriesOf fs dir) (f + 1) := added.size.1
  have few := holds.few
  have number : ∀ j, entryInode (dirBlock (storeEntry fs' (z, f) inr) dir) j =
      if j = f then inr else entryInode (dirBlock fs dir) j := by
    intro j
    rw [dirBlock_store zone', entryInode_setEntryInode]
    by_cases here : j = f
    · rw [if_pos here, if_pos here]
    · rw [if_neg here, if_neg here, added.numbers j here]
  have hasName : ∀ j n, HasName (dirBlock (storeEntry fs' (z, f) inr) dir) j n ↔
      if j = f then ∀ i, i < 14 → (name.take nameLen).getD i 0 = n.getD i 0 else HasName (dirBlock fs dir) j n := by
    intro j n
    have bytes : ∀ i, i < 14 → entryName (dirBlock (storeEntry fs' (z, f) inr) dir) j i =
        if j = f then (name.take nameLen).getD i 0 else entryName (dirBlock fs dir) j i := by
      intro i bound
      rw [dirBlock_store zone', entryName_setEntryInode _ _ _ _ bound, added.names j i bound]
    by_cases here : j = f
    · rw [if_pos here]
      apply forall₂_congr
      intro i bound
      rw [bytes i bound, if_pos here]
    · rw [if_neg here]
      apply forall₂_congr
      intro i bound
      rw [bytes i bound, if_neg here]
  have old : ∀ j, j < max (entriesOf fs dir) (f + 1) → j ≠ f → j < entriesOf fs dir := by
    intro j below other
    omega
  -- the names of the old entries are the old names, so none of them is the new one
  have apart : ∀ j n, j < entriesOf fs dir → entryInode (dirBlock fs dir) j ≠ 0 → HasName (dirBlock fs dir) j n →
      IsName n → n ≠ name.take nameLen := by
    intro j n below live has isN same
    rcases holds.named j below live with ⟨n', isN', has', value⟩
    rw [← has.unique has' isN isN', same, absent] at value
    cases value
  constructor
  · exact zone' ▸ zone ▸ holds.zone
  · exact added.size.2
  · rw [count]
    omega
  · intro j below live
    rw [count] at below
    rw [number] at live ⊢
    by_cases here : j = f
    · subst here
      rw [if_pos rfl]
      refine ⟨name.take nameLen, isName, (hasName j _).mpr ?_, Function.update_self ..⟩
      rw [if_pos rfl]
      exact fun _ _ => rfl
    · rw [if_neg here] at live ⊢
      rcases holds.named j (old j below here) live with ⟨n, isN, has, value⟩
      refine ⟨n, isN, (hasName j n).mpr (by rwa [if_neg here]), ?_⟩
      rw [Function.update_of_ne (apart j n (old j below here) live has isN)]
      exact value
  · intro n v value
    by_cases same : n = name.take nameLen
    · subst same
      rw [Function.update_self] at value
      cases value
      refine ⟨isName, nonzero, f, by rw [count]; omega, (hasName f _).mpr ?_, (number f).trans (if_pos rfl)⟩
      rw [if_pos rfl]
      exact fun _ _ => rfl
    · rw [Function.update_of_ne same] at value
      rcases holds.held n v value with ⟨isN, some, j, below, has, inode⟩
      have other : j ≠ f := by
        intro here
        subst here
        rw [free below] at inode
        exact some inode.symm
      refine ⟨isN, some, j, by rw [count]; omega, (hasName j n).mpr (by rwa [if_neg other]), ?_⟩
      rw [number, if_neg other]
      exact inode
  · intro j j' n below below' live live' has has'
    rw [count] at below below'
    rw [number] at live live'
    rw [hasName] at has has'
    by_cases here : j = f
    · by_cases here' : j' = f
      · rw [here, here']
      · rw [if_pos here] at has
        rw [if_neg here'] at has' live'
        rcases holds.named j' (old j' below' here') live' with ⟨n', isN', has'', _⟩
        have same : n' = name.take nameLen :=
          name_eq isN' isName fun i bound => by rw [has i bound, ← has' i bound, has'' i bound]
        exact absurd same (apart j' n' (old j' below' here') live' has'' isN')
    · rw [if_neg here] at has live
      by_cases here' : j' = f
      · rw [if_pos here'] at has'
        rcases holds.named j (old j below here) live with ⟨n', isN', has'', _⟩
        have same : n' = name.take nameLen :=
          name_eq isN' isName fun i bound => by rw [has' i bound, ← has i bound, has'' i bound]
        exact absurd same (apart j n' (old j below here) live has'' isN')
      · rw [if_neg here'] at has' live'
        exact holds.once j j' n (old j below here) (old j' below' here') live live' has has'

/-- An entry that is cleared. -/
theorem Holds.clear {n : List Byte} (holds : Holds fs dir names) (zone : z = ((fs.inode dir).zone 0).toNat)
    (below : j < entriesOf fs dir) (live : entryInode (dirBlock fs dir) j ≠ 0) (isName : IsName n)
    (has : HasName (dirBlock fs dir) j n) :
    Holds (storeEntry fs (z, j) 0) dir (Function.update names n none) := by
  have number : ∀ j', entryInode (dirBlock (storeEntry fs (z, j) 0) dir) j' =
      if j' = j then 0 else entryInode (dirBlock fs dir) j' := by
    intro j'
    rw [dirBlock_store zone, entryInode_setEntryInode]
  have hasName : ∀ j' n', HasName (dirBlock (storeEntry fs (z, j) 0) dir) j' n' ↔ HasName (dirBlock fs dir) j' n' := by
    intro j' n'
    apply forall₂_congr
    intro i bound
    rw [dirBlock_store zone, entryName_setEntryInode _ _ _ _ bound]
  have other : ∀ j', entryInode (dirBlock (storeEntry fs (z, j) 0) dir) j' ≠ 0 →
      j' ≠ j ∧ entryInode (dirBlock fs dir) j' ≠ 0 := by
    intro j' live'
    rw [number] at live'
    by_cases here : j' = j
    · rw [if_pos here] at live'
      exact absurd rfl live'
    · rw [if_neg here] at live'
      exact ⟨here, live'⟩
  constructor
  · exact holds.zone
  · exact holds.size
  · exact holds.few
  · intro j' below' live'
    rcases other j' live' with ⟨apart, old⟩
    rcases holds.named j' below' old with ⟨n', isN', has', value⟩
    refine ⟨n', isN', (hasName j' n').mpr has', ?_⟩
    have different : n' ≠ n := by
      intro same
      subst same
      exact apart (holds.once j' j n' below' below old live has' has)
    rw [Function.update_of_ne different, number, if_neg apart]
    exact value
  · intro n' v value
    have different : n' ≠ n := by
      intro same
      rw [same, Function.update_self] at value
      cases value
    rw [Function.update_of_ne different] at value
    rcases holds.held n' v value with ⟨isN', some, j', below', has', inode⟩
    have apart : j' ≠ j := by
      intro same
      subst same
      exact different (has'.unique has isN' isName)
    exact ⟨isN', some, j', below', (hasName j' n').mpr has', (number j').trans ((if_neg apart).trans inode)⟩
  · intro a b n' belowA belowB liveA liveB hasA hasB
    exact holds.once a b n' belowA belowB (other a liveA).2 (other b liveB).2 ((hasName a n').mp hasA)
      ((hasName b n').mp hasB)

end Store

end K210Linux.Fs
