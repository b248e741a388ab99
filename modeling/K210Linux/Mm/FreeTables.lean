import K210Linux.Mm.Frames
import K210Linux.Mm.Tables

namespace K210Linux.Mm

/-- Everything but the counters, the directories and the pages is as before. -/
structure SameControl (m m' : Memory) : Prop where
  pageDirTable : m'.pageDirTable = m.pageDirTable
  pageRootTable : m'.pageRootTable = m.pageRootTable
  highMemory : m'.highMemory = m.highMemory

theorem SameControl.refl (m : Memory) : SameControl m m := ⟨rfl, rfl, rfl⟩

theorem SameControl.trans {a b c : Memory} (first : SameControl a b) (second : SameControl b c) :
    SameControl a c :=
  ⟨second.1.trans first.1, second.2.trans first.2, second.3.trans first.3⟩

/-- Writing to a page table that belongs to one slot only changes one leaf. -/
theorem leafOf_setEntry_of_unique {dirs : Finset Word} {m : Memory} {d : Word} {i j p : Nat}
    (unique : ∀ s ∈ tableSlots dirs, m.tableOf s = some p → s = (d, i))
    (table : m.tableOf (d, i) = some p) (e : Word) (s : LeafSlot) (hs : s ∈ leafSlots dirs) :
    (m.setEntry p j e).leafOf s =
      if s = (d, i, j) then (if Pte.v e then some e else none) else m.leafOf s := by
  split
  · rename_i this
    subst this
    have table' : (m.setEntry p j e).tableOf (d, i) = some p := table
    rw [leafOf_some table']
    simp [Memory.setEntry]
  · rename_i other
    obtain ⟨d', i', j'⟩ := s
    obtain ⟨hd, hi, _⟩ := mem_leafSlots.mp hs
    apply leafOf_congr
    · rfl
    · intro q found
      by_cases page : q = p
      · subst page
        have same := unique (d', i') (mem_tableSlots.mpr ⟨hd, hi⟩) found
        have entry : j' ≠ j := by
          rintro rfl
          apply other
          rw [Prod.mk.injEq] at same
          rw [same.1, same.2]
        simp [Memory.setEntry, Function.update_of_ne entry]
      · simp [Memory.setEntry, Function.update_of_ne page]

namespace Wf

variable {pool : Pool} {dirs : Finset Word} {held : Finset Nat} {m : Memory} {d : Word} {i j p : Nat}

theorem table_owner (wf : Wf pool dirs held m) (hslot : (d, i) ∈ tableSlots dirs)
    (table : m.tableOf (d, i) = some p) : ∀ s ∈ tableSlots dirs, m.tableOf s = some p → s = (d, i) :=
  fun _ hs found => wf.counted.table_unique hs hslot found table

theorem leafOf_setEntry (wf : Wf pool dirs held m) (hslot : (d, i) ∈ tableSlots dirs)
    (table : m.tableOf (d, i) = some p) (e : Word) (s : LeafSlot) (hs : s ∈ leafSlots dirs) :
    (m.setEntry p j e).leafOf s =
      if s = (d, i, j) then (if Pte.v e then some e else none) else m.leafOf s :=
  leafOf_setEntry_of_unique (wf.table_owner hslot table) table e s hs

/-- The frame behind a valid leaf. -/
theorem leaf_frame (wf : Wf pool dirs held m) {s : LeafSlot} {e : Word} (hs : s ∈ leafSlots dirs)
    (leaf : m.leafOf s = some e) :
    ∃ f, pool.Has f ∧ pageTarget e = framePage f ∧ pteCommonPpnToAddr e = frameAddr f ∧ m.memMap f ≠ 0 := by
  have points := Counted.leafTarget_of_leaf (v := m.view) leaf
  obtain ⟨f, has, page⟩ := wf.counted.leafPool s hs _ points
  refine ⟨f, has, page, ppnToAddr_of_target has.lt page, ?_⟩
  rw [page] at points
  intro zero
  exact (wf.counted.free_of_zero has zero).1 s hs points

theorem table_frame (wf : Wf pool dirs held m) {s : TableSlot} (hs : s ∈ tableSlots dirs)
    (table : m.tableOf s = some p) :
    ∃ f, pool.Has f ∧ p = framePage f ∧ m.memMap f = 1 := by
  obtain ⟨f, has, rfl⟩ := wf.counted.tablePool s hs p table
  exact ⟨f, has, rfl, wf.counted.tableOne s hs f table⟩

end Wf

/-- What freeing `left` entries from `nr` on does to the page table `p` of slot `(d, i)`. -/
structure EntriesFreed (dirs : Finset Word) (d : Word) (i p nr left : Nat) (m m' : Memory) : Prop where
  leaf : ∀ s ∈ leafSlots dirs, m'.leafOf s =
    if s.1 = d ∧ s.2.1 = i ∧ nr ≤ s.2.2 ∧ s.2.2 < nr + left then none else m.leafOf s
  dirs : m'.dirs = m.dirs
  phys : ∀ q, q ≠ p → m'.phys q = m.phys q
  control : SameControl m m'

theorem EntriesFreed.nil (dirs : Finset Word) (d : Word) (i p nr : Nat) (m : Memory) :
    EntriesFreed dirs d i p nr 0 m m := by
  refine ⟨?_, rfl, fun _ _ => rfl, .refl m⟩
  intro s _
  rw [if_neg (by omega)]

theorem EntriesFreed.cons {dirs : Finset Word} {d : Word} {i p nr left : Nat} {a b c : Memory}
    (first : EntriesFreed dirs d i p nr 1 a b) (rest : EntriesFreed dirs d i p (nr + 1) left b c) :
    EntriesFreed dirs d i p nr (left + 1) a c := by
  refine ⟨?_, rest.dirs.trans first.dirs, fun q other => (rest.phys q other).trans (first.phys q other),
    first.control.trans rest.control⟩
  intro s hs
  rw [rest.leaf s hs, first.leaf s hs]
  by_cases slot : s.1 = d ∧ s.2.1 = i
  · obtain ⟨directory, index⟩ := slot
    simp only [directory, index, true_and]
    split
    · rename_i later
      rw [if_pos (by omega)]
    · split
      · rw [if_pos (by omega)]
      · rw [if_neg (by omega)]
  · have out (a b : Nat) : ¬ (s.1 = d ∧ s.2.1 = i ∧ a ≤ s.2.2 ∧ s.2.2 < b) := fun h => slot ⟨h.1, h.2.1⟩
    rw [if_neg (out _ _), if_neg (out _ _), if_neg (out _ _)]

namespace Wf

variable {pool : Pool} {dirs : Finset Word} {held : Finset Nat} {m : Memory} {d : Word} {i p : Nat}

theorem free_entry (wf : Wf pool dirs held m) (hslot : (d, i) ∈ tableSlots dirs)
    (table : m.tableOf (d, i) = some p) {nr : Nat} (bound : nr < pageTableItemNum) :
    ∃ m₁, freeTableEntry m p nr = .ok m₁ ∧
      Wf pool dirs held (m₁.setEntry p nr 0) ∧ EntriesFreed dirs d i p nr 1 m (m₁.setEntry p nr 0) := by
  obtain ⟨hd, hi⟩ := mem_tableSlots.mp hslot
  have hs : (d, i, nr) ∈ leafSlots dirs := mem_leafSlots.mpr ⟨hd, hi, bound⟩
  have leaf := leafOf_some (s := (d, i, nr)) table
  have slots : ∀ s : LeafSlot, s = (d, i, nr) ↔ s.1 = d ∧ s.2.1 = i ∧ nr ≤ s.2.2 ∧ s.2.2 < nr + 1 := by
    rintro ⟨d', i', j'⟩
    simp only [Prod.mk.injEq]
    constructor
    · rintro ⟨rfl, rfl, rfl⟩
      exact ⟨rfl, rfl, Nat.le_refl _, Nat.lt_succ_self _⟩
    · rintro ⟨rfl, rfl, low, high⟩
      exact ⟨rfl, rfl, by omega⟩
  have cleared : ∀ s ∈ leafSlots dirs, (m.setEntry p nr 0).leafOf s =
      if s.1 = d ∧ s.2.1 = i ∧ nr ≤ s.2.2 ∧ s.2.2 < nr + 1 then none else m.leafOf s := by
    intro s member
    rw [wf.leafOf_setEntry hslot table 0 s member]
    simp only [slots s, v_zero, Bool.false_eq_true, if_false]
  have others : ∀ t ∈ leafSlots dirs, t ≠ (d, i, nr) → (m.setEntry p nr 0).leafOf t = m.leafOf t := by
    intro t ht other
    rw [wf.leafOf_setEntry hslot table 0 t ht, if_neg other]
  have physical : ∀ q, q ≠ p → (m.setEntry p nr 0).phys q = m.phys q := by
    intro q other
    simp [Memory.setEntry, Function.update_of_ne other]
  cases valid : Pte.v (m.phys p nr) with
  | false =>
    have before : m.leafOf (d, i, nr) = none := by simpa [valid] using leaf
    refine ⟨m, by simp [freeTableEntry, valid], ⟨?_, wf.current, wf.high⟩, cleared, rfl, physical, ⟨rfl, rfl, rfl⟩⟩
    apply wf.counted.of_table
    · intro t ht
      by_cases this : t = (d, i, nr)
      · subst this
        exact (cleared _ hs).trans ((if_pos ((slots _).mp rfl)).trans before.symm)
      · exact others t ht this
    · intro f _
      rfl
    · intro f _
      rfl
    · intro f _ _
      rfl
    · intro t ht q found
      obtain ⟨f, has, page, one⟩ := wf.table_frame ht found
      exact ⟨f, has, page, one⟩
    · intro f member
      exact ⟨wf.counted.heldPool f member, wf.counted.heldOne f member⟩
  | true =>
    have before : m.leafOf (d, i, nr) = some (m.phys p nr) := by simpa [valid] using leaf
    obtain ⟨f, has, page, addr, inUse⟩ := wf.leaf_frame hs before
    refine ⟨m.setCount f (m.memMap f - 1), ?_, ⟨?_, wf.current, wf.high⟩, cleared, rfl, physical,
      ⟨rfl, rfl, rfl⟩⟩
    · rw [freeTableEntry, if_pos valid, addr, wf.freePage_used has inUse]
    · apply wf.counted.unmap_leaf hs before page
      · exact (cleared _ hs).trans (if_pos ((slots _).mp rfl))
      · exact others
      · intro t _
        rfl
      · rfl

theorem free_entries (wf : Wf pool dirs held m) (hslot : (d, i) ∈ tableSlots dirs)
    (table : m.tableOf (d, i) = some p) {nr left : Nat} (bound : nr + left ≤ pageTableItemNum) :
    ∃ m', freeTableEntries m p nr left = .ok m' ∧ Wf pool dirs held m' ∧
      EntriesFreed dirs d i p nr left m m' := by
  induction left generalizing m nr with
  | zero => exact ⟨m, rfl, wf, .nil dirs d i p nr m⟩
  | succ left ih =>
    obtain ⟨m₁, freed, wf₁, first⟩ := wf.free_entry hslot table (show nr < pageTableItemNum by omega)
    have table₁ : (m₁.setEntry p nr 0).tableOf (d, i) = some p := by
      rw [← table]
      simp only [Memory.tableOf, first.dirs]
    obtain ⟨m', run, wf', rest⟩ := ih wf₁ table₁ (show nr + 1 + left ≤ pageTableItemNum by omega)
    refine ⟨m', ?_, wf', first.cons rest⟩
    simp only [freeTableEntries, freed, Bind.bind, Except.bind]
    exact run

end Wf

/-- The slot of a leaf or table reference is one of the `size` slots from `id` on of `d`. -/
def InSlots (d : Word) (id size : Nat) (slot : TableSlot) : Prop :=
  slot.1 = d ∧ id ≤ slot.2 ∧ slot.2 < id + size

instance (d : Word) (id size : Nat) (slot : TableSlot) : Decidable (InSlots d id size slot) :=
  inferInstanceAs (Decidable (_ ∧ _))

/-- What freeing `size` slots from `id` on does to directory `d`. -/
structure SlotsFreed (dirs : Finset Word) (d : Word) (id size : Nat) (m m' : Memory) : Prop where
  leaf : ∀ s ∈ leafSlots dirs, m'.leafOf s = if InSlots d id size (s.1, s.2.1) then none else m.leafOf s
  table : ∀ s ∈ tableSlots dirs, m'.tableOf s = if InSlots d id size s then none else m.tableOf s
  phys : ∀ q, (∀ s ∈ tableSlots dirs, InSlots d id size s → m.tableOf s ≠ some q) → m'.phys q = m.phys q
  control : SameControl m m'

theorem SlotsFreed.nil (dirs : Finset Word) (d : Word) (id : Nat) (m : Memory) :
    SlotsFreed dirs d id 0 m m := by
  have empty : ∀ s, ¬ InSlots d id 0 s := by
    rintro s ⟨_, low, high⟩
    omega
  refine ⟨?_, ?_, fun _ _ => rfl, .refl m⟩
  · intro s _
    rw [if_neg (empty _)]
  · intro s _
    rw [if_neg (empty _)]

theorem InSlots.cons_iff {d : Word} {id size : Nat} {slot : TableSlot} :
    InSlots d id (size + 1) slot ↔ InSlots d id 1 slot ∨ InSlots d (id + 1) size slot := by
  unfold InSlots
  constructor
  · rintro ⟨same, low, high⟩
    by_cases first : slot.2 = id
    · exact .inl ⟨same, by omega, by omega⟩
    · exact .inr ⟨same, by omega, by omega⟩
  · rintro (⟨same, low, high⟩ | ⟨same, low, high⟩)
    · exact ⟨same, by omega, by omega⟩
    · exact ⟨same, by omega, by omega⟩

theorem InSlots.ite_cons {α : Type} {d : Word} {id size : Nat} {slot : TableSlot} (x : Option α) :
    (if InSlots d (id + 1) size slot then none else if InSlots d id 1 slot then none else x) =
      if InSlots d id (size + 1) slot then none else x := by
  by_cases first : InSlots d id 1 slot
  · rw [if_pos first, if_pos (InSlots.cons_iff.mpr (.inl first))]
    exact ite_self none
  · rw [if_neg first]
    by_cases later : InSlots d (id + 1) size slot
    · rw [if_pos later, if_pos (InSlots.cons_iff.mpr (.inr later))]
    · rw [if_neg later, if_neg]
      intro inside
      exact (InSlots.cons_iff.mp inside).elim first later

theorem SlotsFreed.cons {dirs : Finset Word} {d : Word} {id size : Nat} {a b c : Memory}
    (first : SlotsFreed dirs d id 1 a b) (rest : SlotsFreed dirs d (id + 1) size b c) :
    SlotsFreed dirs d id (size + 1) a c := by
  refine ⟨?_, ?_, ?_, first.control.trans rest.control⟩
  · intro s hs
    rw [rest.leaf s hs, first.leaf s hs, InSlots.ite_cons]
  · intro s hs
    rw [rest.table s hs, first.table s hs, InSlots.ite_cons]
  · intro q free
    rw [rest.phys q, first.phys q]
    · intro s hs inside
      exact free s hs (InSlots.cons_iff.mpr (.inl inside))
    · intro s hs inside
      rw [first.table s hs]
      split
      · simp
      · exact free s hs (InSlots.cons_iff.mpr (.inr inside))

namespace Wf

variable {pool : Pool} {dirs : Finset Word} {held : Finset Nat} {m : Memory} {d : Word} {i : Nat}

/-- A page table whose entries are all invalid is taken out of its slot. -/
theorem detach (wf : Wf pool dirs held m) {t : Nat} (hslot : (d, i) ∈ tableSlots dirs)
    (table : m.tableOf (d, i) = some (framePage t))
    (empty : ∀ j, j < pageTableItemNum → m.leafOf (d, i, j) = none) :
    Wf pool dirs held ((m.setCount t (m.memMap t - 1)).setDir d i 0) ∧
      SlotsFreed dirs d i 1 m ((m.setCount t (m.memMap t - 1)).setDir d i 0) := by
  have here : ((m.setCount t (m.memMap t - 1)).setDir d i 0).tableOf (d, i) = none := by
    apply tableOf_invalid
    simp only [Memory.setDir, Function.update_self]
    exact v_zero
  have elsewhere : ∀ s : TableSlot, s ≠ (d, i) →
      ((m.setCount t (m.memMap t - 1)).setDir d i 0).dirs s.1 s.2 = m.dirs s.1 s.2 := by
    rintro ⟨d', i'⟩ other
    by_cases directory : d' = d
    · subst directory
      have index : i' ≠ i := fun h => other (by rw [h])
      simp [Memory.setDir, Memory.setCount, Function.update_of_ne index]
    · simp [Memory.setDir, Memory.setCount, Function.update_of_ne directory]
  have slots : ∀ s : TableSlot, s = (d, i) ↔ InSlots d i 1 s := by
    rintro ⟨d', i'⟩
    simp only [Prod.mk.injEq, InSlots]
    exact ⟨fun h => ⟨h.1, by omega, by omega⟩, fun h => ⟨h.1, by omega⟩⟩
  have tables : ∀ s ∈ tableSlots dirs, s ≠ (d, i) →
      ((m.setCount t (m.memMap t - 1)).setDir d i 0).tableOf s = m.tableOf s := by
    intro s _ other
    simp only [Memory.tableOf, elsewhere s other]
  have leaves : ∀ s ∈ leafSlots dirs,
      ((m.setCount t (m.memMap t - 1)).setDir d i 0).leafOf s = m.leafOf s := by
    rintro ⟨d', i', j'⟩ hs
    obtain ⟨_, _, hj⟩ := mem_leafSlots.mp hs
    by_cases this : (d', i') = (d, i)
    · rw [Prod.mk.injEq] at this
      obtain ⟨rfl, rfl⟩ := this
      rw [empty j' hj]
      simp only [Memory.leafOf, here, Option.bind_none]
    · exact leafOf_congr (elsewhere (d', i') this) (fun _ _ => rfl)
  refine ⟨⟨?_, wf.current, wf.high⟩, ?_, ?_, fun _ _ => rfl, ⟨rfl, rfl, rfl⟩⟩
  · exact wf.counted.detach_table hslot table here tables leaves rfl
  · intro s hs
    rw [leaves s hs]
    split
    · rename_i inside
      obtain ⟨d', i', j'⟩ := s
      have this := (slots (d', i')).mpr inside
      rw [Prod.mk.injEq] at this
      obtain ⟨rfl, rfl⟩ := this
      exact empty j' (mem_leafSlots.mp hs).2.2
    · rfl
  · intro s hs
    split
    · rename_i inside
      rw [(slots s).mpr inside]
      exact here
    · rename_i outside
      exact tables s hs (fun h => outside ((slots s).mp h))

/-- One valid slot of the current directory: its entries, its page table, then the slot. -/
theorem free_slot (wf : Wf pool dirs held m) (bound : i < pageDirTableNum)
    (valid : Pte.v (m.dirs m.pageDirTable i) = true) :
    ∃ m₁ m₂, freeTableEntries m (pageOf (pteCommonPpnToAddr (m.dirs m.pageDirTable i))) 0
        pageTableItemNum = .ok m₁ ∧
      freePage m₁ (pteCommonPpnToAddr (m₁.dirs m₁.pageDirTable i)) = .ok m₂ ∧
      m₂.pageDirTable = m.pageDirTable ∧ Wf pool dirs held (m₂.setDir m₂.pageDirTable i 0) ∧
      SlotsFreed dirs m.pageDirTable i 1 m (m₂.setDir m₂.pageDirTable i 0) := by
  have hslot : (m.pageDirTable, i) ∈ tableSlots dirs := mem_tableSlots.mpr ⟨wf.current, bound⟩
  have table := tableOf_valid valid
  obtain ⟨m₁, run, wf₁, freed⟩ := wf.free_entries hslot table (Nat.le_of_eq (Nat.zero_add pageTableItemNum))
  have table₁ : m₁.tableOf (m.pageDirTable, i) = some (pageTarget (m.dirs m.pageDirTable i)) := by
    rw [← table]
    simp only [Memory.tableOf, freed.dirs]
  obtain ⟨t, has, page, one⟩ := wf₁.table_frame hslot table₁
  rw [page] at table₁
  have empty : ∀ j, j < pageTableItemNum → m₁.leafOf (m.pageDirTable, i, j) = none := by
    intro j hj
    rw [freed.leaf _ (mem_leafSlots.mpr ⟨wf.current, bound, hj⟩)]
    exact if_pos ⟨rfl, rfl, Nat.zero_le _, by rw [Nat.zero_add]; exact hj⟩
  have current := freed.control.pageDirTable
  obtain ⟨wf₂, detached⟩ := wf₁.detach hslot table₁ empty
  refine ⟨m₁, m₁.setCount t (m₁.memMap t - 1), ?_, ?_, current, ?_, ?_⟩
  · rw [pageOf_ppnToAddr]
    exact run
  · have inUse : m₁.memMap t ≠ 0 := by
      rw [one]
      decide
    rw [current, freed.dirs, ppnToAddr_of_target has.lt page]
    exact wf₁.freePage_used has inUse
  · change Wf pool dirs held ((m₁.setCount t (m₁.memMap t - 1)).setDir m₁.pageDirTable i 0)
    rw [current]
    exact wf₂
  · change SlotsFreed dirs m.pageDirTable i 1 m ((m₁.setCount t (m₁.memMap t - 1)).setDir m₁.pageDirTable i 0)
    rw [current]
    refine ⟨?_, ?_, ?_, freed.control.trans detached.control⟩
    · intro s hs
      rw [detached.leaf s hs]
      split
      · rfl
      · rename_i outside
        rw [freed.leaf s hs, if_neg]
        rintro ⟨directory, index, _⟩
        exact outside ⟨directory, Nat.le_of_eq index.symm, by omega⟩
    · intro s hs
      rw [detached.table s hs]
      simp only [Memory.tableOf, freed.dirs]
    · intro q free
      have other : q ≠ pageTarget (m.dirs m.pageDirTable i) := by
        rintro rfl
        exact free _ hslot ⟨rfl, Nat.le_refl _, Nat.lt_succ_self _⟩ table
      rw [← freed.phys q other]
      rfl

theorem free_dir_slots (wf : Wf pool dirs held m) {id size : Nat} (bound : id + size ≤ pageDirTableNum) :
    ∃ m', freeDirSlots m id size = .ok m' ∧ Wf pool dirs held m' ∧
      SlotsFreed dirs m.pageDirTable id size m m' := by
  induction size generalizing m id with
  | zero => exact ⟨m, rfl, wf, .nil dirs m.pageDirTable id m⟩
  | succ size ih =>
    cases valid : Pte.v (m.dirs m.pageDirTable id) with
    | true =>
      obtain ⟨m₁, m₂, entries, page, current, wf', first⟩ := wf.free_slot (by omega) valid
      obtain ⟨m', run, wf'', rest⟩ := ih wf' (show id + 1 + size ≤ pageDirTableNum by omega)
      refine ⟨m', ?_, wf'', first.cons ?_⟩
      · simp only [freeDirSlots, valid, if_true, entries, page, Bind.bind, Except.bind]
        exact run
      · rw [← current]
        exact rest
    | false =>
      obtain ⟨m', run, wf', rest⟩ := ih wf (show id + 1 + size ≤ pageDirTableNum by omega)
      refine ⟨m', ?_, wf', ?_⟩
      · simp only [freeDirSlots, valid, Bool.false_eq_true, if_false]
        exact run
      · have first : SlotsFreed dirs m.pageDirTable id 1 m m := by
          have invalid := tableOf_invalid valid
          have here : ∀ s : TableSlot, InSlots m.pageDirTable id 1 s → s = (m.pageDirTable, id) := by
            rintro ⟨d', i'⟩ ⟨same, low, high⟩
            rw [Prod.mk.injEq]
            exact ⟨same, by omega⟩
          refine ⟨?_, ?_, fun _ _ => rfl, .refl m⟩
          · intro s _
            split
            · rename_i inside
              rw [Memory.leafOf, here _ inside, invalid]
              rfl
            · rfl
          · intro s _
            split
            · rename_i inside
              rw [here s inside, invalid]
            · rfl
        exact first.cons rest

end Wf

end K210Linux.Mm
