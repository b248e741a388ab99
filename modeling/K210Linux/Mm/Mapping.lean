import K210Linux.Mm.CopyTables

namespace K210Linux.Mm

section Leaves

variable {i : Nat} (e : Word)

@[simp] theorem v_userLeaf (page : Word) : Pte.v (userLeaf e page) = true := v_enableEntry _

@[simp] theorem w_userLeaf (page : Word) : Pte.w (userLeaf e page) = true := by
  rw [userLeaf, w_enableEntry, w_enableUser, w_setAccessibility]
  rfl

theorem pageTarget_userLeaf (bound : i < pagingPages) : pageTarget (userLeaf e (frameAddr i)) = framePage i := by
  rw [userLeaf, pageTarget_enableEntry, pageTarget_enableUser, pageTarget_setAccessibility,
    pageTarget_addrToPpn bound]

end Leaves

/-- Frame `g` is in use, and not as a page table. -/
def Memory.IsData (m : Memory) (dirs : Finset Word) (g : Nat) : Prop :=
  m.memMap g ≠ 0 ∧ ∀ s ∈ tableSlots dirs, m.tableOf s ≠ some (framePage g)

/-- Frame `f`, so far held by the kernel, is mapped writable at the empty leaf slot `s`. -/
structure Mapped (dirs : Finset Word) (s : LeafSlot) (f : Nat) (m m' : Memory) : Prop where
  leaf : ∃ e, m'.leafOf s = some e ∧ pageTarget e = framePage f ∧ Pte.w e = true
  others : ∀ t ∈ leafSlots dirs, t ≠ s → m'.leafOf t = m.leafOf t
  tables : ∀ t ∈ tableSlots dirs, t ≠ (s.1, s.2.1) → m'.tableOf t = m.tableOf t
  count : ∀ g, m.memMap g ≠ 0 → m'.memMap g = m.memMap g
  taken : ∃ table, ∀ g, g ≠ f → g ≠ table → m'.memMap g = m.memMap g
  data : ∀ g, g < pagingPages → m.IsData dirs g → m'.phys (framePage g) = m.phys (framePage g)
  control : SameControl m m'

theorem clearPage_idem (m : Memory) (f : Nat) (c : Byte) (page : Nat) :
    ((m.setCount f c).clearPage page).clearPage page = (m.setCount f c).clearPage page := by
  simp [Memory.clearPage]

namespace Wf

variable {pool : Pool} {dirs : Finset Word} {held : Finset Nat} {m : Memory} {f : Nat}

/-- The last step of `put_page`, once the page table is there. -/
theorem put_leaf {d : Word} {i j p : Nat} (wf : Wf pool dirs held m) (member : f ∈ held)
    (hslot : (d, i) ∈ tableSlots dirs) (table : m.tableOf (d, i) = some p) (bound : j < pageTableItemNum)
    (absent : m.leafOf (d, i, j) = none) :
    Wf pool dirs (held.erase f) (m.setEntry p j (userLeaf (m.phys p j) (frameAddr f))) ∧
      Mapped dirs (d, i, j) f m (m.setEntry p j (userLeaf (m.phys p j) (frameAddr f))) := by
  obtain ⟨hd, hi⟩ := mem_tableSlots.mp hslot
  have hs : (d, i, j) ∈ leafSlots dirs := mem_leafSlots.mpr ⟨hd, hi, bound⟩
  have target := pageTarget_userLeaf (m.phys p j) (wf.counted.heldPool f member).lt
  have leaf := wf.leafOf_setEntry (j := j) hslot table (userLeaf (m.phys p j) (frameAddr f))
  have here : (m.setEntry p j (userLeaf (m.phys p j) (frameAddr f))).leafOf (d, i, j) =
      some (userLeaf (m.phys p j) (frameAddr f)) := by
    rw [leaf _ hs, if_pos rfl, if_pos (v_userLeaf _ _)]
  have others : ∀ t ∈ leafSlots dirs, t ≠ (d, i, j) →
      (m.setEntry p j (userLeaf (m.phys p j) (frameAddr f))).leafOf t = m.leafOf t := by
    intro t ht other
    rw [leaf t ht, if_neg other]
  refine ⟨⟨?_, wf.current, wf.high⟩, ⟨_, here, target, w_userLeaf _ _⟩, others, fun _ _ _ => rfl,
    fun _ _ => rfl, ⟨0, fun _ _ _ => rfl⟩, ?_, ⟨rfl, rfl, rfl⟩⟩
  · exact wf.counted.map_held hs member absent here target others (fun _ _ => rfl) rfl
  · intro g _ data
    have other : framePage g ≠ p := by
      rintro rfl
      exact data.2 _ hslot table
    simp [Memory.setEntry, Function.update_of_ne other]

/-- `put_page` of a held frame at an unmapped address. It fails, without effect, only when a page
    table is missing and no frame is free. -/
theorem put_page (wf : Wf pool dirs held m) (member : f ∈ held) (address : Word)
    (absent : m.leafOf (m.pageDirTable, getPageDirId address, getPageEntryId address) = none) :
    (putPage m (frameAddr f) address = (0, m) ∧ m.tableOf (m.pageDirTable, getPageDirId address) = none ∧
      ∀ g, 0 < g → g < pagingPages → m.memMap g ≠ 0) ∨
    ∃ m', putPage m (frameAddr f) address = (frameAddr f, m') ∧ Wf pool dirs (held.erase f) m' ∧
      Mapped dirs (m.pageDirTable, getPageDirId address, getPageEntryId address) f m m' := by
  have id := getPageDirId_lt address
  have room : getPageDirId address < pageDirTableNum := by
    unfold pageDirTableNum
    omega
  have entry := getPageEntryId_lt address
  have hslot : (m.pageDirTable, getPageDirId address) ∈ tableSlots dirs :=
    mem_tableSlots.mpr ⟨wf.current, room⟩
  cases valid : Pte.v (m.dirs m.pageDirTable (getPageDirId address)) with
  | true =>
    refine .inr ⟨_, ?_, wf.put_leaf member hslot (tableOf_valid valid) entry absent⟩
    simp only [putPage, valid, if_true, pageOf_ppnToAddr]
  | false =>
    have empty := tableOf_invalid valid
    rcases getFreePage_cases m with ⟨none, full⟩ | ⟨t, positive, bound, free, found⟩
    · refine .inl ⟨?_, empty, full⟩
      simp only [putPage, valid, Bool.false_eq_true, if_false, none, if_true]
    · refine .inr ?_
      have target : pageTarget (pteCommonEnableEntry (pteCommonEnableUser (pteCommonSetAccessibility
          (pteCommonAddrToPpn (m.dirs m.pageDirTable (getPageDirId address)) (frameAddr t)) .pointer))) =
            framePage t := by
        rw [pageTarget_enableEntry, pageTarget_enableUser, pageTarget_setAccessibility,
          pageTarget_addrToPpn bound]
      obtain ⟨wf₁, attached⟩ := wf.attach_fresh hslot empty positive bound free (v_enableEntry _) target
      have hs := mem_leafSlots.mpr ⟨wf.current, room, entry⟩
      obtain ⟨wf', mapped⟩ := wf₁.put_leaf member hslot attached.table entry ((attached.leaf _ hs).trans absent)
      refine ⟨_, ?_, wf', mapped.leaf, ?_, ?_, ?_, ⟨t, fun g _ other => ?_⟩, ?_, attached.control.trans mapped.control⟩
      · simp only [putPage, valid, Bool.false_eq_true, if_false, found, frameAddr_ne_zero bound,
          pageOf_frameAddr bound, clearPage_idem]
        rfl
      · intro s hs other
        rw [mapped.others s hs other, attached.leaf s hs]
      · intro s hs other
        rw [mapped.tables s hs other]
        simp only [Memory.tableOf, attached.others s other]
      · intro g inUse
        have other : g ≠ t := by
          rintro rfl
          exact inUse free
        have same : (((m.setCount t 1).clearPage (framePage t)).setDir m.pageDirTable (getPageDirId address)
            (pteCommonEnableEntry (pteCommonEnableUser (pteCommonSetAccessibility (pteCommonAddrToPpn
              (m.dirs m.pageDirTable (getPageDirId address)) (frameAddr t)) .pointer)))).memMap g = m.memMap g := by
          rw [attached.count, Function.update_of_ne other]
        rw [mapped.count g (by rw [same]; exact inUse), same]
      · exact Function.update_of_ne other _ _
      · intro g hg data
        have other : g ≠ t := by
          rintro rfl
          exact data.1 free
        have page : framePage g ≠ framePage t := fun h => other (framePage_inj h)
        rw [mapped.data g hg, attached.phys _ page]
        constructor
        · rw [attached.count, Function.update_of_ne other]
          exact data.1
        · intro s hs
          by_cases this : s = (m.pageDirTable, getPageDirId address)
          · subst this
            rw [attached.table]
            intro same
            exact page (Option.some.inj same).symm
          · simp only [Memory.tableOf, attached.others s this]
            exact data.2 s hs

end Wf

/-- A frame is taken and filled. -/
def Memory.fill (m : Memory) (f : Nat) (words : Nat → Word) : Memory :=
  { m with
    memMap := Function.update m.memMap f 1
    phys := Function.update m.phys (framePage f) words }

theorem Wf.leafOf_fill {pool : Pool} {dirs : Finset Word} {held : Finset Nat} {m : Memory} {f : Nat}
    (wf : Wf pool dirs held m) (has : pool.Has f) (free : m.memMap f = 0) (words : Nat → Word) :
    ∀ s ∈ leafSlots dirs, (m.fill f words).leafOf s = m.leafOf s := by
  rintro ⟨d, i, j⟩ ht
  obtain ⟨hd, hi, _⟩ := mem_leafSlots.mp ht
  apply leafOf_congr
  · rfl
  · intro q table
    have notFree : q ≠ framePage f := by
      rintro rfl
      exact (wf.counted.free_of_zero has free).2.1 _ (mem_tableSlots.mpr ⟨hd, hi⟩) table
    simp only [Memory.fill, Function.update_of_ne notFree]

/-- Taking the frame first, and filling it, does not show in what `Mapped` records. -/
theorem Mapped.of_fill {pool : Pool} {dirs : Finset Word} {held : Finset Nat} {m m' : Memory} {s : LeafSlot}
    {f : Nat} {words : Nat → Word} (wf : Wf pool dirs held m) (positive : 0 < f) (bound : f < pagingPages)
    (free : m.memMap f = 0) (mapped : Mapped dirs s f (m.fill f words) m') : Mapped dirs s f m m' := by
  have has := wf.pool_of_free positive bound free
  have count : ∀ g, g ≠ f → (m.fill f words).memMap g = m.memMap g := fun g other => Function.update_of_ne other _ _
  have other : ∀ g, m.memMap g ≠ 0 → g ≠ f := by
    rintro g inUse rfl
    exact inUse free
  refine ⟨mapped.leaf, ?_, mapped.tables, ?_, ?_, ?_, mapped.control.1, mapped.control.2, mapped.control.3⟩
  · intro t ht elsewhere
    rw [mapped.others t ht elsewhere, wf.leafOf_fill has free words t ht]
  · intro g inUse
    have same := count g (other g inUse)
    rw [mapped.count g (by rw [same]; exact inUse), same]
  · obtain ⟨table, same⟩ := mapped.taken
    refine ⟨table, fun g elsewhere notTable => ?_⟩
    rw [same g elsewhere notTable, count g elsewhere]
  · intro g hg data
    have same := count g (other g data.1)
    have page : framePage g ≠ framePage f := fun equal => other g data.1 (framePage_inj equal)
    rw [mapped.data g hg ⟨by rw [same]; exact data.1, data.2⟩]
    exact Function.update_of_ne page _ _

/-- `copy_page` moves the first word only. -/
def firstWord (w : Nat → Word) : Nat → Word := fun k => if k = 0 then w 0 else 0

theorem copyWords_eq (m : Memory) {source dest : Nat} (distinct : dest ≠ source) (n : Nat) :
    copyWords m source dest (n + 1) = m.setEntry dest 0 (m.phys source 0) := by
  induction n generalizing m with
  | zero => rfl
  | succ n ih =>
    rw [copyWords, ih]
    simp [Memory.setEntry, Function.update_of_ne distinct.symm]

theorem copyPage_eq (m : Memory) {f g : Nat} (hf : f < pagingPages) (hg : g < pagingPages) (distinct : g ≠ f) :
    copyPage m (frameAddr f) (frameAddr g) = m.setEntry (framePage g) 0 (m.phys (framePage f) 0) := by
  rw [copyPage, pageOf_frameAddr hf, pageOf_frameAddr hg]
  exact copyWords_eq m (fun h => distinct (framePage_inj h)) 511

/-- The leaf slot `s`, so far a protected mapping of `f`, is a writable mapping of `g`. -/
structure WriteBroken (dirs : Finset Word) (s : LeafSlot) (f g : Nat) (m m' : Memory) : Prop where
  leaf : ∃ e, m'.leafOf s = some e ∧ pageTarget e = framePage g ∧ Pte.w e = true
  others : ∀ t ∈ leafSlots dirs, t ≠ s → m'.leafOf t = m.leafOf t
  directories : m'.dirs = m.dirs
  one : m'.memMap g = 1
  count : ∀ h, h ≠ f → h ≠ g → m'.memMap h = m.memMap h
  content : m'.phys (framePage g) =
    if g = f then m.phys (framePage f) else firstWord (m.phys (framePage f))
  data : ∀ h, m.IsData dirs h → m'.phys (framePage h) = m.phys (framePage h)
  control : SameControl m m'

namespace Wf

variable {pool : Pool} {dirs : Finset Word} {held : Finset Nat} {m : Memory} {d : Word} {i j p f : Nat} {e : Word}

theorem get_empty_page (wf : Wf pool dirs held m) (address : Word)
    (absent : m.leafOf (m.pageDirTable, getPageDirId address, getPageEntryId address) = none) :
    (∃ m', getEmptyPage m address = .error (.oom m') ∧ Wf pool dirs held m') ∨
    ∃ f m', getEmptyPage m address = .ok m' ∧ 0 < f ∧ f < pagingPages ∧ m.memMap f = 0 ∧
      Wf pool dirs held m' ∧
      Mapped dirs (m.pageDirTable, getPageDirId address, getPageEntryId address) f m m' := by
  rcases getFreePage_cases m with ⟨none, _⟩ | ⟨f, positive, bound, free, found⟩
  · refine .inl ⟨m, ?_, wf⟩
    have ignored : freePage m 0 = .ok m := if_pos (by decide)
    simp only [getEmptyPage, none, if_true, ignored, Bind.bind, Except.bind]
  · have has := wf.pool_of_free positive bound free
    have taken := wf.take_free positive bound free
    have notHeld := (wf.counted.free_of_zero has free).2.2
    have hs : (m.pageDirTable, getPageDirId address, getPageEntryId address) ∈ leafSlots dirs := by
      have := getPageDirId_lt address
      exact mem_leafSlots.mpr ⟨wf.current, by unfold pageDirTableNum; omega, getPageEntryId_lt address⟩
    rcases taken.put_page (Finset.mem_insert_self f held) address ((wf.leafOf_clear has free _ hs).trans absent)
      with ⟨failed, _⟩ | ⟨m', put, wf', mapped⟩
    · obtain ⟨freed, given⟩ := taken.give_held (Finset.mem_insert_self f held)
      rw [Finset.erase_insert notHeld] at given
      refine .inl ⟨_, ?_, given⟩
      simp only [getEmptyPage, found, frameAddr_ne_zero bound, if_false, failed, if_true, freed, Bind.bind,
        Except.bind]
    · rw [Finset.erase_insert notHeld] at wf'
      refine .inr ⟨f, m', ?_, positive, bound, free, wf', mapped.of_fill wf positive bound free⟩
      simp only [getEmptyPage, found, frameAddr_ne_zero bound, if_false, put]

theorem isData_of_leaf (wf : Wf pool dirs held m) {s : LeafSlot} (hs : s ∈ leafSlots dirs)
    (leaf : m.leafOf s = some e) (page : pageTarget e = framePage f) : m.IsData dirs f := by
  have mapped : m.view.leafTarget s = some (framePage f) :=
    page ▸ Counted.leafTarget_of_leaf (v := m.view) leaf
  refine ⟨fun zero => ?_, fun t member found => ?_⟩
  · exact (wf.counted.free_of_zero (wf.counted.pool_of_leaf hs mapped) zero).1 s hs mapped
  · have := (wf.counted.leaf_only hs mapped).2.1
    exact absurd (Counted.table_pos (v := m.view) member found) (by omega)

/-- `un_wp_page` when the entry is the only reference: the frame stays. -/
theorem un_wp_single (wf : Wf pool dirs held m) (hslot : (d, i) ∈ tableSlots dirs)
    (table : m.tableOf (d, i) = some p) (bound : j < pageTableItemNum)
    (leaf : m.leafOf (d, i, j) = some (m.phys p j)) (page : pageTarget (m.phys p j) = framePage f) (one : m.memMap f = 1) :
    Wf pool dirs held (m.setEntry p j (pteCommonSetWriteable (m.phys p j))) ∧
      WriteBroken dirs (d, i, j) f f m (m.setEntry p j (pteCommonSetWriteable (m.phys p j))) := by
  obtain ⟨hd, hi⟩ := mem_tableSlots.mp hslot
  have hs : (d, i, j) ∈ leafSlots dirs := mem_leafSlots.mpr ⟨hd, hi, bound⟩
  have valid : Pte.v (m.phys p j) = true := by
    rw [leafOf_some (s := (d, i, j)) table] at leaf
    by_contra invalid
    rw [if_neg invalid] at leaf
    cases leaf
  have leaves := wf.leafOf_setEntry (j := j) hslot table (pteCommonSetWriteable (m.phys p j))
  have here : (m.setEntry p j (pteCommonSetWriteable (m.phys p j))).leafOf (d, i, j) =
      some (pteCommonSetWriteable (m.phys p j)) := by
    rw [leaves _ hs, if_pos rfl, if_pos]
    rw [v_setWriteable]
    exact valid
  have others : ∀ t ∈ leafSlots dirs, t ≠ (d, i, j) →
      (m.setEntry p j (pteCommonSetWriteable (m.phys p j))).leafOf t = m.leafOf t := by
    intro t ht other
    rw [leaves t ht, if_neg other]
  have apart : ∀ h, m.IsData dirs h → framePage h ≠ p := by
    rintro h data rfl
    exact data.2 _ hslot table
  have data := wf.isData_of_leaf hs leaf page
  have same : ∀ h, m.IsData dirs h →
      (m.setEntry p j (pteCommonSetWriteable (m.phys p j))).phys (framePage h) = m.phys (framePage h) := by
    intro h hdata
    exact Function.update_of_ne (apart h hdata) _ _
  refine ⟨⟨?_, wf.current, wf.high⟩, ⟨_, here, ?_, w_setWriteable _⟩, others, rfl, one, fun _ _ _ => rfl, ?_,
    same, ⟨rfl, rfl, rfl⟩⟩
  · apply wf.counted.rewrite_leaf hs leaf here (pageTarget_setWriteable _)
    · intro _ g target
      have this : g = f := framePage_inj (target.symm.trans page)
      rw [this]
      exact one
    · exact others
    · exact fun _ _ => rfl
    · rfl
  · rw [pageTarget_setWriteable]
    exact page
  · rw [if_pos rfl]
    exact same f data

/-- `un_wp_page` on a shared frame: the entry moves to a fresh one. -/
theorem un_wp_shared {g : Nat} (wf : Wf pool dirs held m) (hslot : (d, i) ∈ tableSlots dirs)
    (table : m.tableOf (d, i) = some p) (bound : j < pageTableItemNum)
    (leaf : m.leafOf (d, i, j) = some (m.phys p j)) (page : pageTarget (m.phys p j) = framePage f)
    (positive : 0 < g) (room : g < pagingPages) (free : m.memMap g = 0) :
    Wf pool dirs held ((((((m.setCount g 1).clearPage (framePage g)).setCount f (m.memMap f - 1)).setEntry p j
        (userLeaf (m.phys p j) (frameAddr g))).setEntry (framePage g) 0 (m.phys (framePage f) 0))) ∧
      WriteBroken dirs (d, i, j) f g m
        ((((((m.setCount g 1).clearPage (framePage g)).setCount f (m.memMap f - 1)).setEntry p j
        (userLeaf (m.phys p j) (frameAddr g))).setEntry (framePage g) 0 (m.phys (framePage f) 0))) := by
  obtain ⟨hd, hi⟩ := mem_tableSlots.mp hslot
  have hs : (d, i, j) ∈ leafSlots dirs := mem_leafSlots.mpr ⟨hd, hi, bound⟩
  have has := wf.pool_of_free positive room free
  have unused := wf.counted.free_of_zero has free
  have data := wf.isData_of_leaf hs leaf page
  have taken := wf.take_free positive room free
  have distinct : g ≠ f := by
    rintro rfl
    exact data.1 free
  have fresh : p ≠ framePage g := by
    rintro rfl
    exact unused.2.1 _ hslot table
  have target := pageTarget_userLeaf (m.phys p j) room
  set m₂ := ((m.setCount g 1).clearPage (framePage g)).setCount f (m.memMap f - 1) with hm₂
  set m₄ := (m₂.setEntry p j (userLeaf (m.phys p j) (frameAddr g))).setEntry (framePage g) 0
    (m.phys (framePage f) 0) with hm₄
  have leaves : ∀ t ∈ leafSlots dirs, m₄.leafOf t =
      if t = (d, i, j) then some (userLeaf (m.phys p j) (frameAddr g)) else m.leafOf t := by
    rintro ⟨d', i', j'⟩ ht
    obtain ⟨hd', hi', _⟩ := mem_leafSlots.mp ht
    have outer : m₄.leafOf (d', i', j') =
        (m₂.setEntry p j (userLeaf (m.phys p j) (frameAddr g))).leafOf (d', i', j') := by
      apply leafOf_congr
      · rfl
      · intro q found
        have other : q ≠ framePage g := by
          rintro rfl
          exact unused.2.1 (d', i') (mem_tableSlots.mpr ⟨hd', hi'⟩) found
        exact congrFun (Function.update_of_ne other _ _) _
    have inner := leafOf_setEntry_of_unique (m := m₂) (j := j) (wf.table_owner hslot table) table
      (userLeaf (m.phys p j) (frameAddr g)) (d', i', j') ht
    rw [outer, inner, if_pos (v_userLeaf _ _)]
    split
    · rfl
    · exact wf.leafOf_clear has free _ ht
  have here := (leaves _ hs).trans (if_pos rfl)
  refine ⟨⟨?_, wf.current, wf.high⟩, ⟨_, here, target, w_userLeaf _ _⟩, ?_, rfl, ?_, ?_, ?_, ?_, ⟨rfl, rfl, rfl⟩⟩
  · rw [← Finset.erase_insert unused.2.2]
    have before : ((m.setCount g 1).clearPage (framePage g)).leafOf (d, i, j) = some (m.phys p j) :=
      (wf.leafOf_clear has free _ hs).trans leaf
    apply taken.counted.replace_leaf hs before page (Finset.mem_insert_self g held) here target
    · intro t ht other
      exact (leaves t ht).trans ((if_neg other).trans (wf.leafOf_clear has free t ht).symm)
    · exact fun _ _ => rfl
    · have count : ((m.setCount g 1).clearPage (framePage g)).view.count f = m.memMap f :=
        Function.update_of_ne distinct.symm _ _
      rw [count]
      rfl
  · intro t ht other
    rw [leaves t ht, if_neg other]
  · exact (Function.update_of_ne distinct _ _).trans (Function.update_self ..)
  · intro h notOld notNew
    exact (Function.update_of_ne notOld _ _).trans (Function.update_of_ne notNew _ _)
  · rw [if_neg distinct]
    funext k
    by_cases zero : k = 0
    · subst zero
      simp [hm₄, Memory.setEntry, firstWord]
    · simp [hm₄, hm₂, Memory.setEntry, Memory.setCount, Memory.clearPage, firstWord, zero,
        Function.update_of_ne fresh.symm]
  · intro h hdata
    have notTable : framePage h ≠ p := by
      rintro rfl
      exact hdata.2 _ hslot table
    have notNew : framePage h ≠ framePage g := by
      intro same
      rw [framePage_inj same] at hdata
      exact hdata.1 free
    simp [hm₄, hm₂, Memory.setEntry, Memory.setCount, Memory.clearPage, Function.update_of_ne notTable,
      Function.update_of_ne notNew]

/-- `un_wp_page` on a valid entry. It fails only when the frame is shared and none is free. -/
theorem un_wp_page (wf : Wf pool dirs held m) (hslot : (d, i) ∈ tableSlots dirs)
    (table : m.tableOf (d, i) = some p) (bound : j < pageTableItemNum) (leaf : m.leafOf (d, i, j) = some e)
    (page : pageTarget e = framePage f) :
    (unWpPage m p j = .error (.oom m) ∧ m.memMap f ≠ 1 ∧ ∀ g, 0 < g → g < pagingPages → m.memMap g ≠ 0) ∨
    ∃ g m', unWpPage m p j = .ok m' ∧ Wf pool dirs held m' ∧ WriteBroken dirs (d, i, j) f g m m' ∧
      (g = f ↔ m.memMap f = 1) := by
  obtain ⟨hd, hi⟩ := mem_tableSlots.mp hslot
  have hs : (d, i, j) ∈ leafSlots dirs := mem_leafSlots.mpr ⟨hd, hi, bound⟩
  have entry : m.phys p j = e := by
    rw [leafOf_some (s := (d, i, j)) table] at leaf
    split at leaf
    · exact Option.some.inj leaf
    · cases leaf
  subst entry
  have has : pool.Has f :=
    wf.counted.pool_of_leaf hs (page ▸ Counted.leafTarget_of_leaf (v := m.view) leaf)
  have data := wf.isData_of_leaf hs leaf page
  have addr := ppnToAddr_of_target has.lt page
  have low := low_le_frameAddr has.lt
  by_cases one : m.memMap f = 1
  · refine .inr ⟨f, _, ?_, (wf.un_wp_single hslot table bound leaf page one).1,
      (wf.un_wp_single hslot table bound leaf page one).2, iff_of_true rfl one⟩
    simp only [unWpPage, addr, low, mapNr_frameAddr has.lt, one, and_self, if_true]
  · rcases getFreePage_cases m with ⟨none, full⟩ | ⟨g, positive, room, free, found⟩
    · refine .inl ⟨?_, one, full⟩
      simp only [unWpPage, addr, low, mapNr_frameAddr has.lt, one, and_false, if_false, none, if_true]
    · have distinct : g ≠ f := by
        rintro rfl
        exact data.1 free
      have fresh : p ≠ framePage g := by
        rintro rfl
        exact (wf.counted.free_of_zero (wf.pool_of_free positive room free) free).2.1 _ hslot table
      have shared := wf.un_wp_shared hslot table bound leaf page positive room free
      refine .inr ⟨g, _, ?_, shared.1, shared.2, iff_of_false distinct one⟩
      have count : ((m.setCount g 1).clearPage (framePage g)).memMap f = m.memMap f :=
        Function.update_of_ne distinct.symm _ _
      have physical : (((m.setCount g 1).clearPage (framePage g)).setCount f (m.memMap f - 1)).phys p = m.phys p :=
        Function.update_of_ne fresh _ _
      have notTable : framePage f ≠ p := by
        rintro rfl
        exact data.2 _ hslot table
      have notNew : framePage f ≠ framePage g := fun h => distinct (framePage_inj h).symm
      simp only [unWpPage, addr, low, mapNr_frameAddr has.lt, one, and_false, if_false, found,
        frameAddr_ne_zero room, if_true, count, copyPage_eq _ has.lt room distinct, physical]
      congr 2
      simp [Memory.setEntry, Memory.setCount, Memory.clearPage, Function.update_of_ne notTable,
        Function.update_of_ne notNew]

end Wf

end K210Linux.Mm
