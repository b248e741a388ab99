import K210Linux.Mm.FreeTables

namespace K210Linux.Mm

/-- The write-protected form of a leaf that `copy_page_tables` puts on both sides. -/
def protect (e : Word) : Word := pteCommonSetAccessibility e .readexecute

@[simp] theorem v_protect (e : Word) : Pte.v (protect e) = Pte.v e := v_setAccessibility e _
@[simp] theorem w_protect (e : Word) : Pte.w (protect e) = false := by
  rw [protect, w_setAccessibility]
  rfl
@[simp] theorem pageTarget_protect (e : Word) : pageTarget (protect e) = pageTarget e :=
  pageTarget_setAccessibility e _

/-- A free frame becomes the page table of the empty slot `(d, i)`. -/
structure Attached (dirs : Finset Word) (d : Word) (i f : Nat) (m m' : Memory) : Prop where
  leaf : ∀ s ∈ leafSlots dirs, m'.leafOf s = m.leafOf s
  table : m'.tableOf (d, i) = some (framePage f)
  others : ∀ s, s ≠ (d, i) → m'.dirs s.1 s.2 = m.dirs s.1 s.2
  count : m'.memMap = Function.update m.memMap f 1
  phys : ∀ q, q ≠ framePage f → m'.phys q = m.phys q
  control : SameControl m m'

theorem setDir_other (m : Memory) {d : Word} {i : Nat} (e : Word) {s : TableSlot} (other : s ≠ (d, i)) :
    (m.setDir d i e).dirs s.1 s.2 = m.dirs s.1 s.2 := by
  obtain ⟨d', i'⟩ := s
  by_cases directory : d' = d
  · subst directory
    have index : i' ≠ i := fun h => other (by rw [h])
    simp [Memory.setDir, Function.update_of_ne index]
  · simp [Memory.setDir, Function.update_of_ne directory]

theorem tableOf_setDir (m : Memory) (d : Word) (i : Nat) {e : Word} (valid : Pte.v e = true) :
    (m.setDir d i e).tableOf (d, i) = some (pageTarget e) := by
  have here : (m.setDir d i e).dirs d i = e := by
    simp [Memory.setDir]
  rw [tableOf_valid (by rw [here]; exact valid), here]

theorem Wf.attach_fresh {pool : Pool} {dirs : Finset Word} {held : Finset Nat} {m : Memory} {d : Word}
    {i f : Nat} {e : Word} (wf : Wf pool dirs held m) (hslot : (d, i) ∈ tableSlots dirs)
    (absent : m.tableOf (d, i) = none) (positive : 0 < f) (bound : f < pagingPages)
    (free : m.memMap f = 0) (valid : Pte.v e = true) (page : pageTarget e = framePage f) :
    Wf pool dirs held (((m.setCount f 1).clearPage (framePage f)).setDir d i e) ∧
      Attached dirs d i f m (((m.setCount f 1).clearPage (framePage f)).setDir d i e) := by
  have has := wf.pool_of_free positive bound free
  have taken := wf.take_free positive bound free
  have table := tableOf_setDir ((m.setCount f 1).clearPage (framePage f)) d i valid
  rw [page] at table
  have others := fun s => setDir_other ((m.setCount f 1).clearPage (framePage f)) (d := d) (i := i) e (s := s)
  have leaf : ∀ s ∈ leafSlots dirs,
      (((m.setCount f 1).clearPage (framePage f)).setDir d i e).leafOf s =
        ((m.setCount f 1).clearPage (framePage f)).leafOf s := by
    rintro ⟨d', i', j⟩ _
    by_cases this : (d', i') = (d, i)
    · rw [Prod.mk.injEq] at this
      obtain ⟨rfl, rfl⟩ := this
      have before : ((m.setCount f 1).clearPage (framePage f)).leafOf (d', i', j) = none := by
        rw [Memory.leafOf, show ((m.setCount f 1).clearPage (framePage f)).tableOf (d', i') = none from absent]
        rfl
      rw [leafOf_some (s := (d', i', j)) table, before]
      simp only [Memory.setDir, Memory.clearPage, Function.update_self, v_zero, Bool.false_eq_true, if_false]
    · exact leafOf_congr (others (d', i') this) (fun _ _ => rfl)
  have notHeld := (wf.counted.free_of_zero has free).2.2
  refine ⟨⟨?_, wf.current, wf.high⟩, ?_, table, others, rfl, ?_, ⟨rfl, rfl, rfl⟩⟩
  · rw [← Finset.erase_insert notHeld]
    apply taken.counted.attach_table hslot (Finset.mem_insert_self f held) absent table
    · intro t _ other
      change Memory.tableOf _ t = Memory.tableOf _ t
      simp only [Memory.tableOf, others t other]
    · exact leaf
    · rfl
  · intro s hs
    rw [leaf s hs, wf.leafOf_clear has free s hs]
  · intro q other
    simp [Memory.setDir, Memory.clearPage, Memory.setCount, Function.update_of_ne other]

/-- The leaf targets of one page table, from entry `nr` on over `left` entries. -/
def Memory.MapsIn (m : Memory) (d : Word) (i nr left f : Nat) : Prop :=
  ∃ j, nr ≤ j ∧ j < nr + left ∧ m.view.leafTarget (d, i, j) = some (framePage f)

/-- What copying `left` entries from `nr` on does, from slot `(d, i)` to slot `(d', i')`. -/
structure EntriesCopied (dirs : Finset Word) (d : Word) (i p : Nat) (d' : Word) (i' p' nr left : Nat)
    (m m' : Memory) : Prop where
  source : ∀ j, j < pageTableItemNum → m'.leafOf (d, i, j) =
    if nr ≤ j ∧ j < nr + left then (m.leafOf (d, i, j)).map protect else m.leafOf (d, i, j)
  dest : ∀ j, j < pageTableItemNum → m'.leafOf (d', i', j) =
    if nr ≤ j ∧ j < nr + left then (m.leafOf (d, i, j)).map protect else m.leafOf (d', i', j)
  others : ∀ s ∈ leafSlots dirs, (s.1, s.2.1) ≠ (d, i) → (s.1, s.2.1) ≠ (d', i') → m'.leafOf s = m.leafOf s
  shared : ∀ f, m.MapsIn d i nr left f → m'.memMap f = m.memMap f + 1
  unshared : ∀ f, ¬ m.MapsIn d i nr left f → m'.memMap f = m.memMap f
  dirs : m'.dirs = m.dirs
  phys : ∀ q, q ≠ p → q ≠ p' → m'.phys q = m.phys q
  control : SameControl m m'

theorem leafTarget_map_protect {v v' : View} {s t : LeafSlot} (h : v'.leaf s = (v.leaf t).map protect) :
    v'.leafTarget s = v.leafTarget t := by
  unfold View.leafTarget
  rw [h]
  cases v.leaf t with
  | none => rfl
  | some e => simp

namespace Wf

variable {pool : Pool} {dirs : Finset Word} {held : Finset Nat} {m : Memory}
variable {d d' : Word} {i i' p p' nr left : Nat}

/-- One valid entry: both sides become write-protected and the frame gains a reference. -/
theorem copy_entry (wf : Wf pool dirs held m) (small : dirs.card < 255)
    (hslot : (d, i) ∈ tableSlots dirs) (table : m.tableOf (d, i) = some p)
    (hslot' : (d', i') ∈ tableSlots dirs) (table' : m.tableOf (d', i') = some p') (distinct : d' ≠ d)
    (bound : nr < pageTableItemNum) (valid : Pte.v (m.phys p nr) = true)
    (empty : m.leafOf (d', i', nr) = none) {f : Nat} (has : pool.Has f)
    (page : pageTarget (m.phys p nr) = framePage f)
    (fresh : ∀ t ∈ leafSlots dirs, t.1 = d' → m.view.leafTarget t ≠ some (framePage f)) :
    Wf pool dirs held (((m.setEntry p' nr (protect (m.phys p nr))).setEntry p nr
        (protect (m.phys p nr))).setCount f (m.memMap f + 1)) ∧
      EntriesCopied dirs d i p d' i' p' nr 1 m (((m.setEntry p' nr (protect (m.phys p nr))).setEntry p nr
        (protect (m.phys p nr))).setCount f (m.memMap f + 1)) := by
  obtain ⟨hd, hi⟩ := mem_tableSlots.mp hslot
  obtain ⟨hd', hi'⟩ := mem_tableSlots.mp hslot'
  have hs : (d, i, nr) ∈ leafSlots dirs := mem_leafSlots.mpr ⟨hd, hi, bound⟩
  have hs' : (d', i', nr) ∈ leafSlots dirs := mem_leafSlots.mpr ⟨hd', hi', bound⟩
  have source : m.leafOf (d, i, nr) = some (m.phys p nr) := by
    rw [leafOf_some (s := (d, i, nr)) table]
    simp [valid]
  have leaf : ∀ s ∈ leafSlots dirs, (((m.setEntry p' nr (protect (m.phys p nr))).setEntry p nr
        (protect (m.phys p nr))).setCount f (m.memMap f + 1)).leafOf s =
      if s = (d, i, nr) then some (protect (m.phys p nr))
      else if s = (d', i', nr) then some (protect (m.phys p nr)) else m.leafOf s := by
    intro s member
    have outer := leafOf_setEntry_of_unique (m := m.setEntry p' nr (protect (m.phys p nr))) (j := nr)
      (wf.table_owner hslot table) table (protect (m.phys p nr)) s member
    have inner := wf.leafOf_setEntry (j := nr) hslot' table' (protect (m.phys p nr)) s member
    rw [inner, v_protect, valid, if_pos rfl] at outer
    exact outer
  have apart : (d', i', nr) ≠ (d, i, nr) := by
    intro same
    rw [Prod.mk.injEq] at same
    exact distinct same.1
  refine ⟨⟨?_, wf.current, wf.high⟩, ?_⟩
  · let middle : View := ⟨m.memMap, m.tableOf,
      fun t => if t = (d, i, nr) then some (protect (m.phys p nr)) else m.leafOf t⟩
    have weakened : Counted pool dirs held middle := by
      apply wf.counted.rewrite_leaf hs source
      · exact if_pos rfl
      · exact pageTarget_protect _
      · intro writable
        rw [w_protect] at writable
        cases writable
      · intro t _ other
        exact if_neg other
      · intro t _
        rfl
      · rfl
    have targets : ∀ t, middle.leafTarget t = m.view.leafTarget t := by
      intro t
      by_cases this : t = (d, i, nr)
      · subst this
        have before : m.view.leafTarget (d, i, nr) = some (pageTarget (m.phys p nr)) :=
          Counted.leafTarget_of_leaf source
        rw [before]
        simp [View.leafTarget, middle]
      · simp [View.leafTarget, middle, this, Memory.view]
    apply weakened.share_leaf small hs' hs
    · exact if_pos rfl
    · rw [pageTarget_protect]
      exact page
    · exact w_protect _
    · exact (if_neg apart).trans empty
    · exact (leaf _ hs').trans ((if_neg apart).trans (if_pos rfl))
    · rw [pageTarget_protect]
      exact page
    · exact w_protect _
    · intro t ht directory
      rw [targets]
      exact fresh t ht directory
    · intro t ht other
      refine (leaf t ht).trans ?_
      by_cases this : t = (d, i, nr)
      · rw [if_pos this]
        exact (if_pos this).symm
      · rw [if_neg this, if_neg other]
        exact (if_neg this).symm
    · intro t _
      rfl
    · rfl
  · refine ⟨?_, ?_, ?_, ?_, ?_, rfl, ?_, ⟨rfl, rfl, rfl⟩⟩
    · intro j hj
      rw [leaf _ (mem_leafSlots.mpr ⟨hd, hi, hj⟩)]
      by_cases this : j = nr
      · subst this
        rw [if_pos rfl, if_pos ⟨Nat.le_refl _, Nat.lt_succ_self _⟩, source]
        rfl
      · rw [if_neg (by simp [this]), if_neg (by simp [distinct.symm]), if_neg (by omega)]
    · intro j hj
      rw [leaf _ (mem_leafSlots.mpr ⟨hd', hi', hj⟩), if_neg (by simp [distinct])]
      by_cases this : j = nr
      · subst this
        rw [if_pos rfl, if_pos ⟨Nat.le_refl _, Nat.lt_succ_self _⟩, source]
        rfl
      · rw [if_neg (by simp [this]), if_neg (by omega)]
    · rintro ⟨a, b, c⟩ member first second
      rw [leaf _ member, if_neg, if_neg]
      · intro same
        cases same
        exact second rfl
      · intro same
        cases same
        exact first rfl
    · rintro g ⟨j, low, high, target⟩
      have this : j = nr := by omega
      subst this
      have before := Counted.leafTarget_of_leaf (v := m.view) source
      rw [before, page] at target
      have same : g = f := (framePage_inj (Option.some.inj target)).symm
      rw [same]
      exact Function.update_self ..
    · intro g absent
      have other : g ≠ f := by
        rintro rfl
        exact absent ⟨nr, Nat.le_refl _, Nat.lt_succ_self _,
          page ▸ Counted.leafTarget_of_leaf (v := m.view) source⟩
      exact Function.update_of_ne other ..
    · intro q first second
      simp [Memory.setCount, Memory.setEntry, Function.update_of_ne first, Function.update_of_ne second]

end Wf

namespace EntriesCopied

variable {dirs : Finset Word} {d d' : Word} {i i' p p' nr left : Nat} {a b c m : Memory}

theorem source_target (copied : EntriesCopied dirs d i p d' i' p' nr left a b) {j : Nat}
    (hj : j < pageTableItemNum) : b.view.leafTarget (d, i, j) = a.view.leafTarget (d, i, j) := by
  have leaf : b.view.leaf (d, i, j) = _ := copied.source j hj
  split at leaf
  · exact leafTarget_map_protect leaf
  · unfold View.leafTarget
    rw [leaf]
    rfl

/-- The receiving directory maps what it mapped before and what was copied. -/
theorem dest_target (copied : EntriesCopied dirs d i p d' i' p' nr left a b) (distinct : d' ≠ d)
    {t : LeafSlot} (ht : t ∈ leafSlots dirs) (directory : t.1 = d') {q : Nat}
    (target : b.view.leafTarget t = some q) :
    (∃ j, nr ≤ j ∧ j < nr + left ∧ j < pageTableItemNum ∧ a.view.leafTarget (d, i, j) = some q) ∨
      a.view.leafTarget t = some q := by
  obtain ⟨t₁, t₂, k⟩ := t
  have hk := (mem_leafSlots.mp ht).2.2
  cases directory
  by_cases slot : t₂ = i'
  · subst slot
    have leaf : b.view.leaf (t₁, t₂, k) = _ := copied.dest k hk
    split at leaf
    · rename_i inside
      rw [leafTarget_map_protect (v := a.view) leaf] at target
      exact .inl ⟨k, inside.1, inside.2, hk, target⟩
    · refine .inr ?_
      unfold View.leafTarget at target ⊢
      rw [leaf] at target
      exact target
  · have same : b.view.leaf (t₁, t₂, k) = a.view.leaf (t₁, t₂, k) :=
      copied.others _ ht (fun h => distinct (Prod.mk.inj h).1) (fun h => slot (Prod.mk.inj h).2)
    refine .inr ?_
    unfold View.leafTarget at target ⊢
    rwa [same] at target

theorem nil (dirs : Finset Word) (d : Word) (i p : Nat) (d' : Word) (i' p' nr : Nat) (m : Memory) :
    EntriesCopied dirs d i p d' i' p' nr 0 m m := by
  refine ⟨?_, ?_, fun _ _ _ _ => rfl, ?_, fun _ _ => rfl, rfl, fun _ _ _ => rfl, .refl m⟩
  · intro j _
    rw [if_neg (by omega)]
  · intro j _
    rw [if_neg (by omega)]
  · rintro f ⟨j, low, high, _⟩
    omega

/-- An invalid entry is skipped. -/
theorem skip (invalid : m.leafOf (d, i, nr) = none) (empty : m.leafOf (d', i', nr) = none) :
    EntriesCopied dirs d i p d' i' p' nr 1 m m := by
  refine ⟨?_, ?_, fun _ _ _ _ => rfl, ?_, fun _ _ => rfl, rfl, fun _ _ _ => rfl, .refl m⟩
  · intro j _
    split
    · have : j = nr := by omega
      rw [this, invalid]
      rfl
    · rfl
  · intro j _
    split
    · have : j = nr := by omega
      rw [this, invalid, empty]
      rfl
    · rfl
  · rintro f ⟨j, low, high, target⟩
    have : j = nr := by omega
    subst this
    have none : m.view.leafTarget (d, i, j) = none := by
      unfold View.leafTarget
      rw [show m.view.leaf (d, i, j) = none from invalid]
      rfl
    rw [none] at target
    cases target

theorem cons (first : EntriesCopied dirs d i p d' i' p' nr 1 a b)
    (rest : EntriesCopied dirs d i p d' i' p' (nr + 1) left b c) (bound : nr + (left + 1) ≤ pageTableItemNum)
    (apart : ∀ j k q, j < pageTableItemNum → k < pageTableItemNum → a.view.leafTarget (d, i, j) = some q →
      a.view.leafTarget (d, i, k) = some q → j = k) :
    EntriesCopied dirs d i p d' i' p' nr (left + 1) a c := by
  have later : ∀ j, nr + 1 ≤ j → j < pageTableItemNum → b.leafOf (d, i, j) = a.leafOf (d, i, j) := by
    intro j low hj
    rw [first.source j hj, if_neg (by omega)]
  have laterMaps : ∀ f, b.MapsIn d i (nr + 1) left f → a.MapsIn d i (nr + 1) left f := by
    rintro f ⟨j, low, high, target⟩
    rw [first.source_target (by omega)] at target
    exact ⟨j, low, high, target⟩
  refine ⟨?_, ?_, ?_, ?_, ?_, rest.dirs.trans first.dirs, ?_, first.control.trans rest.control⟩
  · intro j hj
    rw [rest.source j hj]
    by_cases this : nr + 1 ≤ j ∧ j < nr + 1 + left
    · rw [if_pos this, if_pos (by omega), later j this.1 hj]
    · rw [if_neg this, first.source j hj]
      by_cases here : j = nr
      · rw [if_pos (by omega), if_pos (by omega)]
      · rw [if_neg (by omega), if_neg (by omega)]
  · intro j hj
    rw [rest.dest j hj]
    by_cases this : nr + 1 ≤ j ∧ j < nr + 1 + left
    · rw [if_pos this, if_pos (by omega), later j this.1 hj]
    · rw [if_neg this, first.dest j hj]
      by_cases here : j = nr
      · rw [if_pos (by omega), if_pos (by omega)]
      · rw [if_neg (by omega), if_neg (by omega)]
  · intro s hs one two
    rw [rest.others s hs one two, first.others s hs one two]
  · rintro f ⟨j, low, high, target⟩
    by_cases here : j = nr
    · subst here
      rw [rest.unshared f, first.shared f ⟨j, Nat.le_refl _, Nat.lt_succ_self _, target⟩]
      intro again
      obtain ⟨k, above, below, same⟩ := laterMaps f again
      have := apart j k _ (by omega) (by omega) target same
      omega
    · have here' : b.MapsIn d i (nr + 1) left f :=
        ⟨j, by omega, by omega, by rw [first.source_target (by omega)]; exact target⟩
      rw [rest.shared f here', first.unshared f]
      rintro ⟨k, above, below, same⟩
      have := apart j k _ (by omega) (by omega) target same
      omega
  · intro f absent
    rw [rest.unshared f, first.unshared f]
    · rintro ⟨k, above, below, same⟩
      exact absent ⟨k, above, by omega, same⟩
    · intro again
      obtain ⟨k, above, below, same⟩ := laterMaps f again
      exact absent ⟨k, by omega, by omega, same⟩
  · intro q one two
    rw [rest.phys q one two, first.phys q one two]

end EntriesCopied

namespace Wf

variable {pool : Pool} {dirs : Finset Word} {held : Finset Nat} {m : Memory}
variable {d d' : Word} {i i' p p' : Nat}

theorem copy_entries (wf : Wf pool dirs held m) (small : dirs.card < 255)
    (hslot : (d, i) ∈ tableSlots dirs) (table : m.tableOf (d, i) = some p)
    (hslot' : (d', i') ∈ tableSlots dirs) (table' : m.tableOf (d', i') = some p') (distinct : d' ≠ d)
    {nr left : Nat} (bound : nr + left ≤ pageTableItemNum)
    (empty : ∀ j, nr ≤ j → j < pageTableItemNum → m.leafOf (d', i', j) = none)
    (fresh : ∀ j, nr ≤ j → j < pageTableItemNum → ∀ q, m.view.leafTarget (d, i, j) = some q →
      ∀ t ∈ leafSlots dirs, t.1 = d' → m.view.leafTarget t ≠ some q) :
    Wf pool dirs held (copyTableEntries m p p' nr left) ∧
      EntriesCopied dirs d i p d' i' p' nr left m (copyTableEntries m p p' nr left) := by
  induction left generalizing m nr with
  | zero => exact ⟨wf, .nil dirs d i p d' i' p' nr m⟩
  | succ left ih =>
    obtain ⟨hd, hi⟩ := mem_tableSlots.mp hslot
    obtain ⟨hd', hi'⟩ := mem_tableSlots.mp hslot'
    have hs : (d, i, nr) ∈ leafSlots dirs := mem_leafSlots.mpr ⟨hd, hi, by omega⟩
    have apart : ∀ j k q, j < pageTableItemNum → k < pageTableItemNum →
        m.view.leafTarget (d, i, j) = some q → m.view.leafTarget (d, i, k) = some q → j = k := by
      intro j k q hj hk left right
      have same := wf.counted.apart (d, i, j) (mem_leafSlots.mpr ⟨hd, hi, hj⟩) (d, i, k)
        (mem_leafSlots.mpr ⟨hd, hi, hk⟩) q left right rfl
      simpa using same
    cases valid : Pte.v (m.phys p nr) with
    | false =>
      have invalid : m.leafOf (d, i, nr) = none := by
        rw [leafOf_some (s := (d, i, nr)) table]
        simp [valid]
      have step : copyTableEntries m p p' nr (left + 1) = copyTableEntries m p p' (nr + 1) left := by
        simp only [copyTableEntries, valid, Bool.false_eq_true, if_false]
      obtain ⟨wf', rest⟩ := ih wf table table' (show nr + 1 + left ≤ pageTableItemNum by omega)
        (fun j low => empty j (by omega)) (fun j low => fresh j (by omega))
      rw [step]
      exact ⟨wf', (EntriesCopied.skip invalid (empty nr (Nat.le_refl _) (by omega))).cons rest bound apart⟩
    | true =>
      have source : m.leafOf (d, i, nr) = some (m.phys p nr) := by
        rw [leafOf_some (s := (d, i, nr)) table]
        simp [valid]
      obtain ⟨f, has, page, addr, _⟩ := wf.leaf_frame hs source
      have target : m.view.leafTarget (d, i, nr) = some (framePage f) :=
        page ▸ Counted.leafTarget_of_leaf (v := m.view) source
      obtain ⟨wf₁, first⟩ := wf.copy_entry small hslot table hslot' table' distinct (by omega) valid
        (empty nr (Nat.le_refl _) (by omega)) has page (fresh nr (Nat.le_refl _) (by omega) _ target)
      have base : pteCommonPpnToAddr (pteCommonSetAccessibility (m.phys p nr) .readexecute) = frameAddr f :=
        ppnToAddr_of_target has.lt (by rw [pageTarget_setAccessibility]; exact page)
      have step : copyTableEntries m p p' nr (left + 1) =
          copyTableEntries (((m.setEntry p' nr (protect (m.phys p nr))).setEntry p nr
            (protect (m.phys p nr))).setCount f (m.memMap f + 1)) p p' (nr + 1) left := by
        simp only [copyTableEntries, valid, if_true, base, low_lt_frameAddr has.lt has.1,
          mapNr_frameAddr has.lt]
        rfl
      rw [step]
      have dest : ∀ j, nr + 1 ≤ j → j < pageTableItemNum →
          (((m.setEntry p' nr (protect (m.phys p nr))).setEntry p nr
            (protect (m.phys p nr))).setCount f (m.memMap f + 1)).leafOf (d', i', j) = none := by
        intro j low hj
        rw [first.dest j hj, if_neg (by omega)]
        exact empty j (by omega) hj
      obtain ⟨wf', rest⟩ := ih wf₁ table table' (show nr + 1 + left ≤ pageTableItemNum by omega) dest (by
        intro j low hj q points t ht directory
        rw [first.source_target hj] at points
        intro again
        rcases first.dest_target distinct ht directory again with ⟨k, above, below, hk, same⟩ | before
        · have := apart j k q hj hk points same
          omega
        · exact fresh j (by omega) hj q points t ht directory before)
      exact ⟨wf', first.cons rest bound apart⟩

end Wf

/-- What copying `size` slots of `d`, from `fromId` on, into the empty slots of `d'` from `toId` on does. -/
structure SlotsCopied (dirs : Finset Word) (d : Word) (fromId : Nat) (d' : Word) (toId size : Nat)
    (m m' : Memory) : Prop where
  source : ∀ k, k < size → ∀ j, j < pageTableItemNum →
    m'.leafOf (d, fromId + k, j) = (m.leafOf (d, fromId + k, j)).map protect
  dest : ∀ k, k < size → ∀ j, j < pageTableItemNum →
    m'.leafOf (d', toId + k, j) = (m.leafOf (d, fromId + k, j)).map protect
  others : ∀ s ∈ leafSlots dirs, ¬ InSlots d fromId size (s.1, s.2.1) → ¬ InSlots d' toId size (s.1, s.2.1) →
    m'.leafOf s = m.leafOf s
  shared : ∀ f, (∃ k, k < size ∧ m.MapsIn d (fromId + k) 0 pageTableItemNum f) →
    m'.memMap f = m.memMap f + 1
  unshared : ∀ f, m.memMap f ≠ 0 → (∀ k, k < size → ¬ m.MapsIn d (fromId + k) 0 pageTableItemNum f) →
    m'.memMap f = m.memMap f
  taken : ∃ tables : Finset Nat, tables.card ≤ size ∧ ∀ f, m.memMap f = 0 → f ∉ tables → m'.memMap f = 0
  dirs : ∀ s, ¬ InSlots d' toId size s → m'.dirs s.1 s.2 = m.dirs s.1 s.2
  phys : ∀ q, (∀ f, f < pagingPages → q = framePage f → m.memMap f ≠ 0) →
    (∀ k, k < size → m.tableOf (d, fromId + k) ≠ some q) → m'.phys q = m.phys q
  control : SameControl m m'

theorem Wf.mapped_ne_zero {pool : Pool} {dirs : Finset Word} {held : Finset Nat} {m : Memory} {d : Word}
    {i f : Nat} (wf : Wf pool dirs held m) (hslot : (d, i) ∈ tableSlots dirs)
    (maps : m.MapsIn d i 0 pageTableItemNum f) : m.memMap f ≠ 0 := by
  obtain ⟨hd, hi⟩ := mem_tableSlots.mp hslot
  obtain ⟨j, _, high, target⟩ := maps
  have hs : (d, i, j) ∈ leafSlots dirs := mem_leafSlots.mpr ⟨hd, hi, by omega⟩
  intro zero
  exact (wf.counted.free_of_zero (wf.counted.pool_of_leaf hs target) zero).1 _ hs target

theorem mapsIn_congr {a b : Memory} {d : Word} {i f : Nat}
    (same : ∀ j, j < pageTableItemNum → b.leafOf (d, i, j) = a.leafOf (d, i, j)) :
    b.MapsIn d i 0 pageTableItemNum f ↔ a.MapsIn d i 0 pageTableItemNum f := by
  have target : ∀ j, j < 0 + pageTableItemNum → b.view.leafTarget (d, i, j) = a.view.leafTarget (d, i, j) := by
    intro j hj
    simp only [View.leafTarget, Memory.view, same j (by omega)]
  constructor
  · rintro ⟨j, low, high, points⟩
    exact ⟨j, low, high, by rw [← target j high]; exact points⟩
  · rintro ⟨j, low, high, points⟩
    exact ⟨j, low, high, by rw [target j high]; exact points⟩

namespace SlotsCopied

variable {pool : Pool} {dirs : Finset Word} {held : Finset Nat} {a b c : Memory}
variable {d d' : Word} {i i' p f fromId toId size : Nat}

theorem nil (dirs : Finset Word) (d : Word) (fromId : Nat) (d' : Word) (toId : Nat) (m : Memory) :
    SlotsCopied dirs d fromId d' toId 0 m m := by
  refine ⟨?_, ?_, fun _ _ _ _ => rfl, ?_, fun _ _ _ => rfl, ⟨∅, by simp, fun _ free _ => free⟩, fun _ _ => rfl,
    fun _ _ _ => rfl, .refl m⟩
  · intro k hk
    omega
  · intro k hk
    omega
  · rintro f ⟨k, hk, _⟩
    omega

/-- A slot without a page table is skipped. -/
theorem skip (absent : a.tableOf (d, i) = none) (empty : a.tableOf (d', i') = none) :
    SlotsCopied dirs d i d' i' 1 a a := by
  have invalid : ∀ k, k < 1 → ∀ j, a.leafOf (d, i + k, j) = none := by
    intro k hk j
    have : k = 0 := by omega
    subst this
    rw [Memory.leafOf, show a.tableOf (d, i + 0) = none from absent]
    rfl
  have receiving : ∀ k, k < 1 → ∀ j, a.leafOf (d', i' + k, j) = none := by
    intro k hk j
    have : k = 0 := by omega
    subst this
    rw [Memory.leafOf, show a.tableOf (d', i' + 0) = none from empty]
    rfl
  refine ⟨?_, ?_, fun _ _ _ _ => rfl, ?_, fun _ _ _ => rfl, ⟨∅, by simp, fun _ free _ => free⟩, fun _ _ => rfl,
    fun _ _ _ => rfl, .refl a⟩
  · intro k hk j _
    rw [invalid k hk j]
    rfl
  · intro k hk j _
    rw [invalid k hk j, receiving k hk j]
    rfl
  · rintro f ⟨k, hk, j, _, _, target⟩
    rw [View.leafTarget, show a.view.leaf (d, i + k, j) = none from invalid k hk j] at target
    cases target

/-- A slot with a page table: a fresh page table is attached, then all entries are copied. -/
theorem of_slot (wf : Wf pool dirs held a) (hslot : (d, i) ∈ tableSlots dirs)
    (hslot' : (d', i') ∈ tableSlots dirs) (table : a.tableOf (d, i) = some p) (free : a.memMap f = 0)
    (bound : f < pagingPages) (attached : Attached dirs d' i' f a b)
    (copied : EntriesCopied dirs d i p d' i' (framePage f) 0 pageTableItemNum b c) :
    SlotsCopied dirs d i d' i' 1 a c := by
  obtain ⟨hd, hi⟩ := mem_tableSlots.mp hslot
  obtain ⟨hd', hi'⟩ := mem_tableSlots.mp hslot'
  have before : ∀ j, j < pageTableItemNum → b.leafOf (d, i, j) = a.leafOf (d, i, j) :=
    fun j hj => attached.leaf _ (mem_leafSlots.mpr ⟨hd, hi, hj⟩)
  have only : ∀ k, k < 1 → k = 0 := fun k hk => by omega
  refine ⟨?_, ?_, ?_, ?_, ?_, ?_, ?_, ?_, attached.control.trans copied.control⟩
  · intro k hk j hj
    obtain rfl := only k hk
    rw [Nat.add_zero, copied.source j hj, if_pos (by omega), before j hj]
  · intro k hk j hj
    obtain rfl := only k hk
    rw [Nat.add_zero, Nat.add_zero, copied.dest j hj, if_pos (by omega), before j hj]
  · intro s hs first second
    rw [copied.others s hs, attached.leaf s hs]
    · intro same
      rw [same] at first
      exact first ⟨rfl, Nat.le_refl _, Nat.lt_succ_self _⟩
    · intro same
      rw [same] at second
      exact second ⟨rfl, Nat.le_refl _, Nat.lt_succ_self _⟩
  · rintro g ⟨k, hk, maps⟩
    obtain rfl := only k hk
    have other : g ≠ f := by
      rintro rfl
      exact wf.mapped_ne_zero hslot maps free
    rw [copied.shared g ((mapsIn_congr before).mpr maps), attached.count, Function.update_of_ne other]
  · intro g inUse unmapped
    have other : g ≠ f := by
      rintro rfl
      exact inUse free
    rw [copied.unshared g (fun maps => unmapped 0 (by omega) ((mapsIn_congr before).mp maps)),
      attached.count, Function.update_of_ne other]
  · refine ⟨{f}, by simp, ?_⟩
    intro g zero outside
    have other : g ≠ f := by simpa using outside
    have unmapped : ¬ b.MapsIn d i 0 pageTableItemNum g :=
      fun maps => wf.mapped_ne_zero hslot ((mapsIn_congr before).mp maps) zero
    rw [copied.unshared g unmapped, attached.count, Function.update_of_ne other]
    exact zero
  · intro s outside
    rw [copied.dirs, attached.others s]
    rintro rfl
    exact outside ⟨rfl, Nat.le_refl _, Nat.lt_succ_self _⟩
  · intro q busy source
    have page : q ≠ framePage f := fun same => busy f bound same free
    have other : q ≠ p := by
      rintro rfl
      exact source 0 (by omega) table
    rw [copied.phys q other page, attached.phys q page]

theorem cons (first : SlotsCopied dirs d fromId d' toId 1 a b)
    (rest : SlotsCopied dirs d (fromId + 1) d' (toId + 1) size b c) (distinct : d' ≠ d)
    (hd : d ∈ dirs) (hd' : d' ∈ dirs) (room : fromId + (size + 1) ≤ pageDirTableNum)
    (room' : toId + (size + 1) ≤ pageDirTableNum) (wfA : Wf pool dirs held a) (wfB : Wf pool dirs held b) :
    SlotsCopied dirs d fromId d' toId (size + 1) a c := by
  have later : ∀ k, k < size → ∀ j, j < pageTableItemNum →
      b.leafOf (d, fromId + 1 + k, j) = a.leafOf (d, fromId + (k + 1), j) := by
    intro k hk j hj
    rw [show fromId + (k + 1) = fromId + 1 + k by omega]
    apply first.others _ (mem_leafSlots.mpr ⟨hd, by omega, hj⟩)
    · rintro ⟨_, low, high⟩
      simp only at low high
      omega
    · rintro ⟨same, _⟩
      exact distinct same.symm
  have laterMaps : ∀ k, k < size → ∀ f, b.MapsIn d (fromId + 1 + k) 0 pageTableItemNum f ↔
      a.MapsIn d (fromId + (k + 1)) 0 pageTableItemNum f := by
    intro k hk f
    rw [show fromId + (k + 1) = fromId + 1 + k by omega]
    apply mapsIn_congr
    intro j hj
    rw [later k hk j hj, show fromId + (k + 1) = fromId + 1 + k by omega]
  have once : ∀ k f, k < size → a.MapsIn d (fromId + 0) 0 pageTableItemNum f →
      ¬ a.MapsIn d (fromId + (k + 1)) 0 pageTableItemNum f := by
    rintro k f hk ⟨j, _, high, target⟩ ⟨j', _, high', target'⟩
    have same := wfA.counted.apart _ (mem_leafSlots.mpr ⟨hd, by omega, by omega⟩) _
      (mem_leafSlots.mpr ⟨hd, by omega, by omega⟩) _ target target' rfl
    simp at same
  have kept : ∀ f, a.memMap f ≠ 0 → b.memMap f ≠ 0 := by
    intro f inUse
    by_cases maps : a.MapsIn d (fromId + 0) 0 pageTableItemNum f
    · apply wfB.mapped_ne_zero (d := d) (i := fromId + 0) (mem_tableSlots.mpr ⟨hd, by omega⟩)
      obtain ⟨j, low, high, target⟩ := maps
      refine ⟨j, low, high, ?_⟩
      rw [leafTarget_map_protect (v := a.view) (first.source 0 (by omega) j (by omega))]
      exact target
    · rw [first.unshared f inUse]
      · exact inUse
      · intro k hk
        obtain rfl : k = 0 := by omega
        exact maps
  refine ⟨?_, ?_, ?_, ?_, ?_, ?_, ?_, ?_, first.control.trans rest.control⟩
  · intro k hk j hj
    cases k with
    | zero =>
      rw [rest.others, first.source 0 (by omega) j hj]
      · exact mem_leafSlots.mpr ⟨hd, by omega, hj⟩
      · rintro ⟨_, low, _⟩
        simp only at low
        omega
      · rintro ⟨same, _⟩
        exact distinct same.symm
    | succ k =>
      rw [show fromId + (k + 1) = fromId + 1 + k by omega, rest.source k (by omega) j hj,
        later k (by omega) j hj, show fromId + (k + 1) = fromId + 1 + k by omega]
  · intro k hk j hj
    cases k with
    | zero =>
      rw [rest.others, first.dest 0 (by omega) j hj]
      · exact mem_leafSlots.mpr ⟨hd', by omega, hj⟩
      · rintro ⟨same, _⟩
        exact distinct same
      · rintro ⟨_, low, _⟩
        simp only at low
        omega
    | succ k =>
      rw [show toId + (k + 1) = toId + 1 + k by omega, rest.dest k (by omega) j hj, later k (by omega) j hj]
  · intro s hs one two
    rw [InSlots.cons_iff, not_or] at one two
    rw [rest.others s hs one.2 two.2, first.others s hs one.1 two.1]
  · rintro f ⟨k, hk, maps⟩
    cases k with
    | zero =>
      rw [rest.unshared f, first.shared f ⟨0, by omega, maps⟩]
      · exact kept f (wfA.mapped_ne_zero (mem_tableSlots.mpr ⟨hd, by omega⟩) maps)
      · intro k hk again
        exact once k f hk maps ((laterMaps k hk f).mp again)
    | succ k =>
      have inUse := wfA.mapped_ne_zero (mem_tableSlots.mpr ⟨hd, by omega⟩) maps
      rw [rest.shared f ⟨k, by omega, (laterMaps k (by omega) f).mpr maps⟩, first.unshared f inUse]
      intro k' hk' again
      obtain rfl : k' = 0 := by omega
      exact once k f (by omega) again maps
  · intro f inUse unmapped
    rw [rest.unshared f (kept f inUse), first.unshared f inUse]
    · intro k hk maps
      exact unmapped k (by omega) maps
    · intro k hk maps
      exact unmapped (k + 1) (by omega) ((laterMaps k hk f).mp maps)
  · obtain ⟨here, few, kept⟩ := first.taken
    obtain ⟨more, few', kept'⟩ := rest.taken
    refine ⟨here ∪ more, ?_, ?_⟩
    · have := Finset.card_union_le here more
      omega
    · intro f free outside
      rw [Finset.mem_union, not_or] at outside
      exact kept' f (kept f free outside.1) outside.2
  · intro s outside
    rw [InSlots.cons_iff, not_or] at outside
    rw [rest.dirs s outside.2, first.dirs s outside.1]
  · intro q busy tables
    rw [rest.phys q, first.phys q busy]
    · intro k hk
      exact tables k (by omega)
    · intro f bound page
      exact kept f (busy f bound page)
    · intro k hk
      have same : b.tableOf (d, fromId + 1 + k) = a.tableOf (d, fromId + 1 + k) := by
        simp only [Memory.tableOf]
        rw [first.dirs (d, fromId + 1 + k)]
        rintro ⟨equal, _⟩
        exact distinct equal.symm
      rw [same, show fromId + 1 + k = fromId + (k + 1) by omega]
      exact tables (k + 1) (by omega)

end SlotsCopied

theorem v_eq_false_of_tableOf {m : Memory} {d : Word} {i : Nat} (absent : m.tableOf (d, i) = none) :
    Pte.v (m.dirs d i) = false := by
  cases valid : Pte.v (m.dirs d i) with
  | false => rfl
  | true =>
    rw [tableOf_valid valid] at absent
    cases absent

theorem leafOf_of_absent {m : Memory} {d : Word} {i : Nat} (absent : m.tableOf (d, i) = none) (j : Nat) :
    m.leafOf (d, i, j) = none := by
  rw [Memory.leafOf, absent]
  rfl

/-- No frame mapped by `d` from slot `fromId` on is mapped by `d'`. -/
def Memory.Disjoint (m : Memory) (dirs : Finset Word) (d : Word) (fromId : Nat) (d' : Word) : Prop :=
  ∀ s ∈ leafSlots dirs, s.1 = d → fromId ≤ s.2.1 → ∀ q, m.view.leafTarget s = some q →
    ∀ t ∈ leafSlots dirs, t.1 = d' → m.view.leafTarget t ≠ some q

theorem Memory.Disjoint.step {pool : Pool} {dirs : Finset Word} {held : Finset Nat} {a b : Memory}
    {d d' : Word} {fromId toId : Nat} (disjoint : a.Disjoint dirs d fromId d') (wf : Wf pool dirs held a)
    (distinct : d' ≠ d) (room : fromId < pageDirTableNum)
    (first : SlotsCopied dirs d fromId d' toId 1 a b) : b.Disjoint dirs d (fromId + 1) d' := by
  rintro ⟨s₁, i, j⟩ hs rfl low q target ⟨t₁, i', j'⟩ ht rfl again
  obtain ⟨hd, hi, hj⟩ := mem_leafSlots.mp hs
  obtain ⟨hd', hi', hj'⟩ := mem_leafSlots.mp ht
  have source : b.leafOf (s₁, i, j) = a.leafOf (s₁, i, j) := by
    apply first.others _ hs
    · rintro ⟨_, _, high⟩
      simp only at low high
      omega
    · rintro ⟨same, _⟩
      exact distinct same.symm
  have before : a.view.leafTarget (s₁, i, j) = some q := by
    rw [← target]
    simp only [View.leafTarget, Memory.view, source]
  by_cases here : i' = toId
  · subst here
    have dest : b.view.leaf (t₁, i', j') = (a.view.leaf (s₁, fromId + 0, j')).map protect :=
      first.dest 0 (by omega) j' hj'
    have origin : a.view.leafTarget (s₁, fromId + 0, j') = some q := by
      rw [← leafTarget_map_protect dest]
      exact again
    have same := wf.counted.apart _ hs _ (mem_leafSlots.mpr ⟨hd, by omega, hj'⟩) q before origin rfl
    simp only [Prod.mk.injEq] at same low
    omega
  · have unchanged : b.leafOf (t₁, i', j') = a.leafOf (t₁, i', j') := by
      apply first.others _ ht
      · rintro ⟨same, _⟩
        exact distinct same
      · rintro ⟨_, above, high⟩
        simp only at above high
        omega
    refine disjoint _ hs rfl (by simp only at low ⊢; omega) q before _ ht rfl ?_
    rw [← again]
    simp only [View.leafTarget, Memory.view, unchanged]

namespace Wf

variable {pool : Pool} {dirs : Finset Word} {held : Finset Nat} {m : Memory} {d' : Word}

/-- One slot with a page table, once a free frame for the copy of the table was found. -/
theorem copy_slot (wf : Wf pool dirs held m) (small : dirs.card < 255) (hd' : d' ∈ dirs)
    (distinct : d' ≠ m.pageDirTable) {fromId toId f : Nat} (room : fromId < pageDirTableNum)
    (room' : toId < pageDirTableNum) (empty : m.tableOf (d', toId) = none)
    (disjoint : m.Disjoint dirs m.pageDirTable fromId d')
    (valid : Pte.v (m.dirs m.pageDirTable fromId) = true) (positive : 0 < f) (bound : f < pagingPages)
    (free : m.memMap f = 0) {e : Word} (enabled : Pte.v e = true) (page : pageTarget e = framePage f) :
    Wf pool dirs held (copyTableEntries (((m.setCount f 1).clearPage (framePage f)).setDir d' toId e)
        (pageTarget (m.dirs m.pageDirTable fromId)) (framePage f) 0 pageTableItemNum) ∧
      SlotsCopied dirs m.pageDirTable fromId d' toId 1 m
        (copyTableEntries (((m.setCount f 1).clearPage (framePage f)).setDir d' toId e)
          (pageTarget (m.dirs m.pageDirTable fromId)) (framePage f) 0 pageTableItemNum) := by
  have hslot : (m.pageDirTable, fromId) ∈ tableSlots dirs := mem_tableSlots.mpr ⟨wf.current, room⟩
  have hslot' : (d', toId) ∈ tableSlots dirs := mem_tableSlots.mpr ⟨hd', room'⟩
  have table := tableOf_valid valid
  obtain ⟨wf₁, attached⟩ := wf.attach_fresh hslot' empty positive bound free enabled page
  have apart : (m.pageDirTable, fromId) ≠ (d', toId) := fun h => distinct (Prod.mk.inj h).1.symm
  have table₁ : (((m.setCount f 1).clearPage (framePage f)).setDir d' toId e).tableOf (m.pageDirTable, fromId) =
      some (pageTarget (m.dirs m.pageDirTable fromId)) := by
    rw [← table]
    simp only [Memory.tableOf, attached.others _ apart]
  have target : ∀ s ∈ leafSlots dirs,
      (((m.setCount f 1).clearPage (framePage f)).setDir d' toId e).view.leafTarget s = m.view.leafTarget s := by
    intro s hs
    simp only [View.leafTarget, Memory.view, attached.leaf s hs]
  obtain ⟨wf₂, copied⟩ := wf₁.copy_entries small hslot table₁ hslot' attached.table distinct
    (Nat.le_of_eq (Nat.zero_add pageTableItemNum))
    (by
      intro j _ hj
      rw [attached.leaf _ (mem_leafSlots.mpr ⟨hd', room', hj⟩)]
      exact leafOf_of_absent empty j)
    (by
      intro j _ hj q points t ht directory
      rw [target _ (mem_leafSlots.mpr ⟨wf.current, room, hj⟩)] at points
      rw [target t ht]
      exact disjoint _ (mem_leafSlots.mpr ⟨wf.current, room, hj⟩) rfl (Nat.le_refl _) q points t ht directory)
  exact ⟨wf₂, .of_slot wf hslot hslot' table free bound attached copied⟩

/-- The copy stops at the first page table it finds no frame for. -/
theorem copy_dir_slots (wf : Wf pool dirs held m) (small : dirs.card < 255) (hd' : d' ∈ dirs)
    (distinct : d' ≠ m.pageDirTable) {fromId toId size : Nat} (room : fromId + size ≤ pageDirTableNum)
    (room' : toId + size ≤ pageDirTableNum)
    (empty : ∀ i, toId ≤ i → i < pageDirTableNum → m.tableOf (d', i) = none)
    (disjoint : m.Disjoint dirs m.pageDirTable fromId d') :
    ∃ r m' done, copyDirSlots m d' fromId toId size = .ok (r, m') ∧ Wf pool dirs held m' ∧
      SlotsCopied dirs m.pageDirTable fromId d' toId done m m' ∧
      ((r = 0 ∧ done = size) ∨ (r = -1 ∧ done < size ∧ m.tableOf (m.pageDirTable, fromId + done) ≠ none ∧
        ∀ f, 0 < f → f < pagingPages → m'.memMap f ≠ 0)) := by
  induction size generalizing m fromId toId with
  | zero => exact ⟨0, m, 0, rfl, wf, .nil dirs _ fromId d' toId m, .inl ⟨rfl, rfl⟩⟩
  | succ size ih =>
    have vacant := v_eq_false_of_tableOf (empty toId (Nat.le_refl _) (by omega))
    -- Both kinds of slot leave a state from which the copy goes on.
    have go : ∀ b, Wf pool dirs held b → SlotsCopied dirs m.pageDirTable fromId d' toId 1 m b →
        copyDirSlots m d' fromId toId (size + 1) = copyDirSlots b d' (fromId + 1) (toId + 1) size →
        ∃ r m' done, copyDirSlots m d' fromId toId (size + 1) = .ok (r, m') ∧ Wf pool dirs held m' ∧
          SlotsCopied dirs m.pageDirTable fromId d' toId done m m' ∧
          ((r = 0 ∧ done = size + 1) ∨ (r = -1 ∧ done < size + 1 ∧
            m.tableOf (m.pageDirTable, fromId + done) ≠ none ∧
            ∀ f, 0 < f → f < pagingPages → m'.memMap f ≠ 0)) := by
      intro b wfB first step
      have current := first.control.pageDirTable
      obtain ⟨r, m', done, run, wf', rest, outcome⟩ := ih wfB (current ▸ distinct)
        (show fromId + 1 + size ≤ pageDirTableNum by omega) (show toId + 1 + size ≤ pageDirTableNum by omega)
        (by
          intro i low hi
          rw [Memory.tableOf, first.dirs (d', i)]
          · exact empty i (by omega) hi
          · rintro ⟨_, _, high⟩
            simp only at high
            omega)
        (by
          rw [current]
          exact disjoint.step wf distinct (by omega) first)
      rw [current] at rest outcome
      have within : done ≤ size := by
        rcases outcome with ⟨_, same⟩ | ⟨_, less, _⟩
        · omega
        · omega
      refine ⟨r, m', done + 1, step.trans run, wf', ?_, ?_⟩
      · exact first.cons rest distinct wf.current hd' (by omega) (by omega) wf wfB
      · rcases outcome with ⟨zero, same⟩ | ⟨failed, less, source, full⟩
        · exact .inl ⟨zero, by omega⟩
        · refine .inr ⟨failed, by omega, ?_, full⟩
          rw [Memory.tableOf, first.dirs] at source
          · rw [show fromId + (done + 1) = fromId + 1 + done by omega]
            exact source
          · rintro ⟨same, _⟩
            exact distinct same.symm
    cases valid : Pte.v (m.dirs m.pageDirTable fromId) with
    | false =>
      apply go m wf (.skip (tableOf_invalid valid) (empty toId (Nat.le_refl _) (by omega)))
      simp only [copyDirSlots, vacant, valid, Bool.false_eq_true, if_false]
    | true =>
      rcases getFreePage_cases m with ⟨none, full⟩ | ⟨f, positive, bound, free, found⟩
      · refine ⟨-1, m, 0, ?_, wf, .nil dirs _ fromId d' toId m, .inr ⟨rfl, by omega, ?_, full⟩⟩
        · simp only [copyDirSlots, vacant, valid, Bool.false_eq_true, if_false, if_true, none]
        · rw [Nat.add_zero, tableOf_valid valid]
          simp
      · have target : pageTarget (pteCommonEnableEntry (pteCommonSetAccessibility
            (pteCommonAddrToPpn (m.dirs d' toId) (frameAddr f)) .pointer)) = framePage f := by
          rw [pageTarget_enableEntry, pageTarget_setAccessibility, pageTarget_addrToPpn bound]
        obtain ⟨wfB, first⟩ := wf.copy_slot small hd' distinct (by omega) (by omega)
          (empty toId (Nat.le_refl _) (by omega)) disjoint valid positive bound free (v_enableEntry _) target
        apply go _ wfB first
        simp only [copyDirSlots, vacant, valid, Bool.false_eq_true, if_false, if_true, found,
          frameAddr_ne_zero bound, pageOf_ppnToAddr, pageOf_frameAddr bound]
        rfl

end Wf

end K210Linux.Mm
