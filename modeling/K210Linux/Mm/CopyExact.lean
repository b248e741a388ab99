import K210Linux.Mm.WriteFault

/-! What `copy_page_tables` does to every entry and every counter, whatever the tables map. -/

namespace K210Linux.Mm

section Entries

/-- Copying this entry adds to the counter of a frame, and protects the entry itself. -/
def lent (e : Word) : Bool := Pte.v e && decide (lowMem < pteCommonPpnToAddr e)

def lentTo (e : Word) (f : Nat) : Bool := lent e && decide (mapNr (pteCommonPpnToAddr e) = f)

/-- What is left of an entry that was copied, and what its copy is. -/
def keptEntry (e : Word) : Word := if lent e then protect e else e
def childEntry (e : Word) : Word := if Pte.v e then protect e else 0

variable (e : Word)

theorem getLsbD_protect (i : Nat) : (protect e).getLsbD i =
    if i = 1 then true else if i = 2 then false else if i = 3 then true else e.getLsbD i := by
  have r : Accessibility.readexecute.bits.getLsbD 0 = true := by decide
  have w : Accessibility.readexecute.bits.getLsbD 1 = false := by decide
  have x : Accessibility.readexecute.bits.getLsbD 2 = true := by decide
  unfold protect pteCommonSetAccessibility
  rw [getLsbD_setField _ _ _ _ (by decide), getLsbD_setField _ _ _ _ (by decide), getLsbD_setField _ _ _ _ (by decide),
    r, w, x]
  grind

@[simp] theorem ppnToAddr_protect : pteCommonPpnToAddr (protect e) = pteCommonPpnToAddr e := by
  rw [pteCommonPpnToAddr, protect, ppn_setAccessibility]
  rfl

@[simp] theorem protect_protect : protect (protect e) = protect e := by
  apply BitVec.eq_of_getLsbD_eq
  intro i _
  rw [getLsbD_protect, getLsbD_protect]
  grind

@[simp] theorem v_keptEntry : Pte.v (keptEntry e) = Pte.v e := by
  unfold keptEntry
  split
  · exact v_protect e
  · rfl

@[simp] theorem ppnToAddr_keptEntry : pteCommonPpnToAddr (keptEntry e) = pteCommonPpnToAddr e := by
  unfold keptEntry
  split
  · exact ppnToAddr_protect e
  · rfl

@[simp] theorem lentTo_keptEntry (f : Nat) : lentTo (keptEntry e) f = lentTo e f := by
  simp only [lentTo, lent, v_keptEntry, ppnToAddr_keptEntry]

@[simp] theorem keptEntry_keptEntry : keptEntry (keptEntry e) = keptEntry e := by
  have same : lent (keptEntry e) = lent e := by simp only [lent, v_keptEntry, ppnToAddr_keptEntry]
  rw [keptEntry, same]
  unfold keptEntry
  split
  · exact protect_protect e
  · rfl

@[simp] theorem childEntry_keptEntry : childEntry (keptEntry e) = childEntry e := by
  have protected' : protect (keptEntry e) = protect e := by
    unfold keptEntry
    split
    · exact protect_protect e
    · rfl
  rw [childEntry, childEntry, v_keptEntry, protected']

end Entries

/-- The turn of the inner loop of `copy_page_tables` for one entry. -/
def copyEntry (m : Memory) (fromTable toTable nr : Nat) : Memory :=
  let e := m.phys fromTable nr
  if Pte.v e then
    let m := m.setEntry toTable nr (protect e)
    if lowMem < pteCommonPpnToAddr e then
      (m.setEntry fromTable nr (protect e)).setCount (mapNr (pteCommonPpnToAddr e))
        (m.memMap (mapNr (pteCommonPpnToAddr e)) + 1)
    else m
  else m

theorem copyTableEntries_succ (m : Memory) (p q nr left : Nat) :
    copyTableEntries m p q nr (left + 1) = copyTableEntries (copyEntry m p q nr) p q (nr + 1) left := by
  rw [copyTableEntries, copyEntry]
  split
  · dsimp only
    rw [← protect, ppnToAddr_protect]
    split
    · rfl
    · rfl
  · rfl

/-- What copying `left` entries from `nr` on does, from the table in page `p` to the one in page `q`. -/
structure TableCopied (p q nr left : Nat) (m m' : Memory) : Prop where
  source : ∀ j, m'.phys p j = if nr ≤ j ∧ j < nr + left then keptEntry (m.phys p j) else m.phys p j
  dest : ∀ j, m'.phys q j =
    if (nr ≤ j ∧ j < nr + left) ∧ Pte.v (m.phys p j) = true then protect (m.phys p j) else m.phys q j
  others : ∀ r, r ≠ p → r ≠ q → m'.phys r = m.phys r
  count : ∀ f, m'.memMap f =
    m.memMap f + BitVec.ofNat 8 (∑ j ∈ Finset.range left, (lentTo (m.phys p (nr + j)) f).toNat)
  dirs : m'.dirs = m.dirs
  control : SameControl m m'

section Table

variable {m m' m'' : Memory} {p q nr left : Nat}

theorem setEntry_phys (m : Memory) (page nr : Nat) (e : Word) (r j : Nat) :
    (m.setEntry page nr e).phys r j = if r = page ∧ j = nr then e else m.phys r j := by
  unfold Memory.setEntry
  dsimp only
  by_cases here : r = page
  · rw [here, Function.update_self]
    by_cases same : j = nr
    · rw [same, Function.update_self, if_pos ⟨rfl, rfl⟩]
    · rw [Function.update_of_ne same, if_neg fun both => same both.2]
  · rw [Function.update_of_ne here, if_neg fun both => here both.1]

theorem copyEntry_phys (m : Memory) (distinct : p ≠ q) (nr r j : Nat) : (copyEntry m p q nr).phys r j =
    if j = nr ∧ r = p then keptEntry (m.phys p j)
    else if j = nr ∧ r = q ∧ Pte.v (m.phys p j) = true then protect (m.phys p j) else m.phys r j := by
  by_cases here : j = nr
  · subst here
    unfold copyEntry keptEntry lent
    dsimp only
    by_cases valid : Pte.v (m.phys p j) = true
    · rw [if_pos valid]
      by_cases high : lowMem < pteCommonPpnToAddr (m.phys p j)
      · rw [if_pos high]
        change ((m.setEntry q j _).setEntry p j _).phys r j = _
        rw [setEntry_phys, setEntry_phys]
        grind
      · rw [if_neg high, setEntry_phys]
        grind
    · rw [if_neg valid]
      grind
  · rw [if_neg fun both => here both.1, if_neg fun both => here both.1]
    unfold copyEntry
    dsimp only
    split
    · split
      · change ((m.setEntry q nr _).setEntry p nr _).phys r j = _
        rw [setEntry_phys, setEntry_phys, if_neg fun both => here both.2, if_neg fun both => here both.2]
      · rw [setEntry_phys, if_neg fun both => here both.2]
    · rfl

theorem copyEntry_count (m : Memory) (p q nr f : Nat) : (copyEntry m p q nr).memMap f =
    m.memMap f + BitVec.ofNat 8 (lentTo (m.phys p nr) f).toNat := by
  unfold copyEntry lentTo lent
  dsimp only
  by_cases valid : Pte.v (m.phys p nr) = true
  · by_cases high : lowMem < pteCommonPpnToAddr (m.phys p nr)
    · rw [if_pos valid, if_pos high, valid, decide_eq_true high]
      change Function.update m.memMap _ _ f = _
      by_cases here : mapNr (pteCommonPpnToAddr (m.phys p nr)) = f
      · subst here
        rw [Function.update_self, decide_eq_true rfl]
        rfl
      · rw [Function.update_of_ne (Ne.symm here), decide_eq_false here]
        exact (BitVec.add_zero _).symm
    · rw [if_pos valid, if_neg high, decide_eq_false high, Bool.and_false, Bool.false_and]
      exact (BitVec.add_zero _).symm
  · rw [if_neg valid, Bool.eq_false_iff.mpr valid]
    exact (BitVec.add_zero _).symm

theorem copyEntry_frame (m : Memory) (p q nr : Nat) :
    (copyEntry m p q nr).dirs = m.dirs ∧ SameControl m (copyEntry m p q nr) := by
  unfold copyEntry
  dsimp only
  split
  · split
    · exact ⟨rfl, rfl, rfl, rfl⟩
    · exact ⟨rfl, rfl, rfl, rfl⟩
  · exact ⟨rfl, .refl m⟩

theorem copyTableEntries_copied (m : Memory) (distinct : p ≠ q) (nr left : Nat) :
    TableCopied p q nr left m (copyTableEntries m p q nr left) := by
  induction left generalizing m nr with
  | zero =>
    refine ⟨?_, ?_, fun _ _ _ => rfl, fun f => (BitVec.add_zero _).symm, rfl, .refl m⟩
    · intro j
      rw [if_neg (by omega)]
      rfl
    · intro j
      rw [if_neg (by omega)]
      rfl
  | succ left ih =>
    have rest := ih (copyEntry m p q nr) (nr + 1)
    have first := copyEntry_phys m distinct nr
    obtain ⟨dirs, control⟩ := copyEntry_frame m p q nr
    have later : ∀ j, j ≠ nr → (copyEntry m p q nr).phys p j = m.phys p j := by
      intro j other
      rw [first, if_neg fun both => other both.1, if_neg fun both => other both.1]
    have here : (copyEntry m p q nr).phys p nr = keptEntry (m.phys p nr) := by
      rw [first, if_pos ⟨rfl, rfl⟩]
    rw [copyTableEntries_succ]
    refine ⟨?_, ?_, ?_, ?_, rest.dirs.trans dirs, control.trans rest.control⟩
    · intro j
      rw [rest.source]
      by_cases same : j = nr
      · rw [if_neg (by omega), if_pos (by omega), same, here]
      · rw [later j same]
        exact if_congr (by omega) rfl rfl
    · intro j
      rw [rest.dest]
      by_cases same : j = nr
      · subst same
        rw [if_neg (by omega), first, if_neg fun both => distinct both.2.symm]
        exact if_congr (by simp) rfl rfl
      · have kept : (copyEntry m p q nr).phys q j = m.phys q j := by
          rw [first, if_neg fun both => same both.1, if_neg fun both => same both.1]
        rw [later j same, kept]
        exact if_congr (and_congr_left fun _ => by omega) rfl rfl
    · intro r notSource notDest
      rw [rest.others r notSource notDest]
      funext j
      rw [first, if_neg fun both => notSource both.2, if_neg fun both => notDest both.2.1]
    · intro f
      have shift : ∀ j, j ∈ Finset.range left →
          (lentTo ((copyEntry m p q nr).phys p (nr + 1 + j)) f).toNat = (lentTo (m.phys p (nr + (j + 1))) f).toNat := by
        intro j _
        rw [later _ (by omega), Nat.add_assoc, Nat.add_comm 1]
      rw [rest.count, copyEntry_count, Finset.sum_congr rfl shift, Finset.sum_range_succ', BitVec.add_assoc,
        ← BitVec.ofNat_add, Nat.add_comm, Nat.add_zero]

end Table

/-- How many entries of a slot of the current directory add to the counter of frame `f` when they are copied. -/
def slotLent (m : Memory) (id f : Nat) : Nat :=
  ∑ j ∈ Finset.range pageTableItemNum, ((m.leafOf (m.pageDirTable, id, j)).any (lentTo · f)).toNat

def runLent (m : Memory) (fromId n f : Nat) : Nat := ∑ i ∈ Finset.range n, slotLent m (fromId + i) f

/-- How many of the slots have a page table. -/
def usedSlots (m : Memory) (fromId n : Nat) : Nat :=
  ∑ i ∈ Finset.range n, (m.tableOf (m.pageDirTable, fromId + i)).isSome.toNat

/-- The page tables of the slots are not free, no counter overflows, and there are frames for the new tables. -/
structure CopyRoom (m : Memory) (fromId n : Nat) : Prop where
  counted : ∀ i, i < n → ∀ f, f ∈ freeFrames m → m.tableOf (m.pageDirTable, fromId + i) ≠ some (framePage f)
  fits : ∀ f, (m.memMap f).toNat + runLent m fromId n f + (if m.memMap f = 0 then 1 else 0) < 256
  enough : usedSlots m fromId n ≤ ((freeFrames m).filter fun f => runLent m fromId n f = 0).card

/-- `n` slots of the current directory, from `fromId` on, were copied to slots of `toDir`, from `toId` on. -/
structure SlotsExact (toDir : Word) (fromId toId n : Nat) (m m' : Memory) : Prop where
  table : ∀ i, i < n → ∀ p, m.tableOf (m.pageDirTable, fromId + i) = some p →
    ∃ g ∈ freeFrames m, m'.tableOf (toDir, toId + i) = some (framePage g) ∧
      ∀ j, j < pageTableItemNum → m'.phys (framePage g) j = childEntry (m.phys p j)
  absent : ∀ i, i < n → m.tableOf (m.pageDirTable, fromId + i) = none →
    m'.tableOf (toDir, toId + i) = none ∧ m'.dirs toDir (toId + i) = m.dirs toDir (toId + i)
  apart : ∀ i i', i < n → i' < n → ∀ q, m'.tableOf (toDir, toId + i) = some q →
    m'.tableOf (toDir, toId + i') = some q → i = i'
  source : ∀ p j, (∀ i, i < n → m'.tableOf (toDir, toId + i) ≠ some p) → m'.phys p j =
    if (∃ i, i < n ∧ m.tableOf (m.pageDirTable, fromId + i) = some p) ∧ j < pageTableItemNum then keptEntry (m.phys p j)
    else m.phys p j
  count : ∀ f, (m'.memMap f).toNat = (m.memMap f).toNat + runLent m fromId n f +
    ∑ i ∈ Finset.range n, if m'.tableOf (toDir, toId + i) = some (framePage f) then 1 else 0
  dirs : ∀ d id, ¬ (d = toDir ∧ toId ≤ id ∧ id < toId + n) → m'.dirs d id = m.dirs d id
  control : SameControl m m'

section Slots

variable {m m₁ m' : Memory} {toDir : Word} {fromId toId n p : Nat}

theorem lentTo_invalid {e : Word} (invalid : Pte.v e = false) (f : Nat) : lentTo e f = false := by
  rw [lentTo, lent, invalid]
  rfl

theorem slotLent_table {id : Nat} (table : m.tableOf (m.pageDirTable, id) = some p) (f : Nat) :
    slotLent m id f = ∑ j ∈ Finset.range pageTableItemNum, (lentTo (m.phys p j) f).toNat := by
  apply Finset.sum_congr rfl
  intro j _
  rw [leafOf_some (s := (m.pageDirTable, id, j)) table]
  split
  · rfl
  · rename_i invalid
    rw [lentTo_invalid (Bool.eq_false_iff.mpr invalid)]
    rfl

theorem slotLent_none {id : Nat} (none : m.tableOf (m.pageDirTable, id) = none) (f : Nat) : slotLent m id f = 0 := by
  apply Finset.sum_eq_zero
  intro j _
  rw [Memory.leafOf, none]
  rfl

theorem runLent_succ (m : Memory) (fromId n f : Nat) :
    runLent m fromId (n + 1) f = slotLent m fromId f + runLent m (fromId + 1) n f := by
  unfold runLent
  rw [Finset.sum_range_succ', Nat.add_comm, Nat.add_zero]
  refine congrArg (_ + ·) (Finset.sum_congr rfl ?_)
  intro i _
  rw [Nat.add_assoc, Nat.add_comm 1]

theorem runLent_one (m : Memory) (fromId f : Nat) : runLent m fromId 1 f = slotLent m fromId f := by
  rw [runLent, Finset.sum_range_one, Nat.add_zero]

theorem usedSlots_succ (m : Memory) (fromId n : Nat) : usedSlots m fromId (n + 1) =
    (m.tableOf (m.pageDirTable, fromId)).isSome.toNat + usedSlots m (fromId + 1) n := by
  unfold usedSlots
  rw [Finset.sum_range_succ', Nat.add_comm, Nat.add_zero]
  refine congrArg (_ + ·) (Finset.sum_congr rfl ?_)
  intro i _
  rw [Nat.add_assoc, Nat.add_comm 1]

/-- One slot with a page table, copied to a slot that gets frame `g` for its table. -/
theorem SlotsExact.of_table {g : Nat} {e : Word} (table : m.tableOf (m.pageDirTable, fromId) = some p)
    (free : g ∈ freeFrames m) (distinct : p ≠ framePage g) (valid : Pte.v e = true) (page : pageTarget e = framePage g)
    (fits : (m.memMap g).toNat + slotLent m fromId g + 1 < 256) (bound : ∀ f, (m.memMap f).toNat + slotLent m fromId f < 256)
    (other : toDir ≠ m.pageDirTable) :
    SlotsExact toDir fromId toId 1 m (copyTableEntries (((m.setCount g 1).clearPage (framePage g)).setDir toDir toId e)
      p (framePage g) 0 pageTableItemNum) := by
  set m₂ := ((m.setCount g 1).clearPage (framePage g)).setDir toDir toId e with hm₂
  have copied := copyTableEntries_copied m₂ distinct 0 pageTableItemNum
  have old : ∀ r, r ≠ framePage g → m₂.phys r = m.phys r := fun r notNew => Function.update_of_ne notNew _ _
  have new : m₂.phys (framePage g) = fun _ => 0 := Function.update_self _ _ _
  have entries : ∀ j, m₂.phys p j = m.phys p j := fun j => congrFun (old p distinct) j
  have placed : m₂.tableOf (toDir, toId) = some (framePage g) := by
    rw [hm₂, tableOf_setDir _ _ _ valid, page]
  have tables : ∀ s, (copyTableEntries m₂ p (framePage g) 0 pageTableItemNum).tableOf s = m₂.tableOf s := by
    intro s
    rw [Memory.tableOf, copied.dirs]
    rfl
  have zero : m.memMap g = 0 := (mem_freeFrames.mp free).2.2
  refine ⟨?_, ?_, ?_, ?_, ?_, ?_, (show SameControl m m₂ from ⟨rfl, rfl, rfl⟩).trans copied.control⟩
  · intro i inside q found
    have first : i = 0 := by omega
    subst first
    rw [Nat.add_zero, table] at found
    cases found
    refine ⟨g, free, ?_, ?_⟩
    · rw [tables, Nat.add_zero, placed]
    · intro j small
      rw [copied.dest, entries, new, childEntry]
      exact if_congr (and_iff_right (by omega)) rfl rfl
  · intro i inside absent
    have first : i = 0 := by omega
    rw [first, Nat.add_zero, table] at absent
    cases absent
  · intro i i' inside inside' _ _ _
    omega
  · intro r j notNew
    have away : r ≠ framePage g := by
      rintro rfl
      exact notNew 0 (by omega) (by rw [tables, Nat.add_zero, placed])
    by_cases here : r = p
    · subst here
      rw [copied.source, entries]
      refine if_congr ⟨fun range => ⟨⟨0, by omega, table⟩, by omega⟩, fun both => by omega⟩ rfl rfl
    · have unused : ¬ ∃ i, i < 1 ∧ m.tableOf (m.pageDirTable, fromId + i) = some r := by
        rintro ⟨i, inside, found⟩
        rw [show i = 0 by omega, Nat.add_zero, table] at found
        exact here (Option.some.inj found).symm
      rw [copied.others r here away, old r away, if_neg fun both => unused both.1]
  · intro f
    have sum : ∑ j ∈ Finset.range pageTableItemNum, (lentTo (m₂.phys p (0 + j)) f).toNat = slotLent m fromId f := by
      rw [slotLent_table table]
      apply Finset.sum_congr rfl
      intro j _
      rw [Nat.zero_add, entries]
    have before : m₂.memMap f = if f = g then 1 else m.memMap f := Function.update_apply _ _ _ _
    have room := bound f
    rw [copied.count, sum, before, runLent_one, Finset.sum_range_one, tables, Nat.add_zero, placed, BitVec.toNat_add,
      BitVec.toNat_ofNat]
    by_cases here : f = g
    · subst here
      rw [if_pos rfl, if_pos rfl, zero]
      have small := fits
      rw [zero] at small
      simp only [BitVec.ofNat_eq_ofNat, BitVec.toNat_ofNat] at small ⊢
      omega
    · rw [if_neg here, if_neg fun same => here (framePage_inj (Option.some.inj same)).symm]
      omega
  · intro d id outside
    have elsewhere : (d, id) ≠ (toDir, toId) := by
      intro same
      rw [Prod.mk.injEq] at same
      exact outside ⟨same.1, by omega, by omega⟩
    rw [copied.dirs]
    exact setDir_other ((m.setCount g 1).clearPage (framePage g)) e elsewhere

theorem SlotsExact.of_none (missing : m.tableOf (m.pageDirTable, fromId) = none) (empty : m.tableOf (toDir, toId) = none) :
    SlotsExact toDir fromId toId 1 m m := by
  have unused : ∀ q, ¬ ∃ i, i < 1 ∧ m.tableOf (m.pageDirTable, fromId + i) = some q := by
    rintro q ⟨i, inside, found⟩
    rw [show i = 0 by omega, Nat.add_zero, missing] at found
    cases found
  refine ⟨?_, ?_, ?_, ?_, ?_, fun _ _ _ => rfl, .refl m⟩
  · intro i inside q found
    exact absurd ⟨i, inside, found⟩ (unused q)
  · intro i inside _
    rw [show i = 0 by omega, Nat.add_zero]
    exact ⟨empty, rfl⟩
  · intro i i' inside inside' _ _ _
    omega
  · intro q j _
    rw [if_neg fun both => unused q both.1]
  · intro f
    rw [runLent_one, Finset.sum_range_one, Nat.add_zero, slotLent_none missing, empty,
      if_neg nofun]
    rfl

/-- Frames that are free afterwards were free before, and are not the new page tables. -/
theorem SlotsExact.free (copied : SlotsExact toDir fromId toId n m m') {f : Nat} (free : f ∈ freeFrames m') :
    f ∈ freeFrames m ∧ ∀ i, i < n → m'.tableOf (toDir, toId + i) ≠ some (framePage f) := by
  obtain ⟨below, nonzero, zero⟩ := mem_freeFrames.mp free
  have sum := copied.count f
  rw [zero, toNat_zero_byte] at sum
  refine ⟨mem_freeFrames.mpr ⟨below, nonzero, BitVec.eq_of_toNat_eq ?_⟩, ?_⟩
  · rw [toNat_zero_byte]
    omega
  · intro i inside new
    have part := Finset.single_le_sum (fun _ _ => Nat.zero_le _) (Finset.mem_range.mpr inside)
      (f := fun i => if m'.tableOf (toDir, toId + i) = some (framePage f) then 1 else 0)
    rw [if_pos new] at part
    omega

section First

variable (one : SlotsExact toDir fromId toId 1 m m₁)

include one

theorem SlotsExact.parent (other : toDir ≠ m.pageDirTable) (id : Nat) :
    m₁.tableOf (m₁.pageDirTable, id) = m.tableOf (m.pageDirTable, id) := by
  have same : m₁.dirs m.pageDirTable id = m.dirs m.pageDirTable id :=
    one.dirs _ _ fun inside => other inside.1.symm
  rw [one.control.pageDirTable, Memory.tableOf, Memory.tableOf, same]

/-- The table of a slot still to be copied keeps its entries, or has them as copying leaves them. -/
theorem SlotsExact.entry (counted : ∀ f, f ∈ freeFrames m → p ≠ framePage f) (j : Nat) :
    m₁.phys p j = if m.tableOf (m.pageDirTable, fromId) = some p ∧ j < pageTableItemNum then keptEntry (m.phys p j)
      else m.phys p j := by
  have apart : ∀ i, i < 1 → m₁.tableOf (toDir, toId + i) ≠ some p := by
    intro i inside found
    cases first : m.tableOf (m.pageDirTable, fromId + i) with
    | none =>
      rw [(one.absent i inside first).1] at found
      cases found
    | some q =>
      obtain ⟨g, free, new, _⟩ := one.table i inside q first
      rw [new] at found
      exact counted g free (Option.some.inj found).symm
  rw [one.source p j apart]
  refine if_congr (and_congr_left fun _ => ⟨?_, ?_⟩) rfl rfl
  · rintro ⟨i, inside, found⟩
    rwa [show i = 0 by omega] at found
  · intro found
    exact ⟨0, by omega, found⟩

theorem SlotsExact.slot_lent (other : toDir ≠ m.pageDirTable) {id : Nat}
    (counted : ∀ f, f ∈ freeFrames m → m.tableOf (m.pageDirTable, id) ≠ some (framePage f)) (f : Nat) :
    slotLent m₁ id f = slotLent m id f := by
  cases table : m.tableOf (m.pageDirTable, id) with
  | none => rw [slotLent_none table, slotLent_none ((one.parent other id).trans table)]
  | some p =>
    have entry := one.entry (p := p) fun f free same => counted f free (same ▸ table)
    rw [slotLent_table table, slotLent_table ((one.parent other id).trans table)]
    apply Finset.sum_congr rfl
    intro j _
    rw [entry]
    split
    · rw [lentTo_keptEntry]
    · rfl

theorem SlotsExact.run_lent (other : toDir ≠ m.pageDirTable)
    (counted : ∀ i, i < n + 1 → ∀ f, f ∈ freeFrames m → m.tableOf (m.pageDirTable, fromId + i) ≠ some (framePage f))
    (f : Nat) : runLent m₁ (fromId + 1) n f = runLent m (fromId + 1) n f := by
  apply Finset.sum_congr rfl
  intro i inside
  apply one.slot_lent other
  rw [Nat.add_assoc, Nat.add_comm 1]
  exact counted (i + 1) (Nat.succ_lt_succ (Finset.mem_range.mp inside))

/-- One slot first, and then the others. -/
theorem SlotsExact.cons (other : toDir ≠ m.pageDirTable)
    (counted : ∀ i, i < n + 1 → ∀ f, f ∈ freeFrames m → m.tableOf (m.pageDirTable, fromId + i) ≠ some (framePage f))
    (rest : SlotsExact toDir (fromId + 1) (toId + 1) n m₁ m') : SlotsExact toDir fromId toId (n + 1) m m' := by
  have parent := one.parent other
  have shift : ∀ a i : Nat, a + 1 + i = a + (i + 1) := fun a i => by omega
  have first : m'.tableOf (toDir, toId) = m₁.tableOf (toDir, toId) ∧ m'.dirs toDir toId = m₁.dirs toDir toId := by
    have same := rest.dirs toDir toId (by omega)
    exact ⟨by rw [Memory.tableOf, Memory.tableOf, same], same⟩
  -- The new table of the first slot is neither copied nor handed out again.
  have fresh : ∀ q, m₁.tableOf (toDir, toId) = some q → ∀ i, i < n → m'.tableOf (toDir, toId + 1 + i) ≠ some q := by
    intro q new i inside found
    cases table : m₁.tableOf (m₁.pageDirTable, fromId + 1 + i) with
    | none =>
      rw [(rest.absent i inside table).1] at found
      cases found
    | some p =>
      obtain ⟨g, free, new', _⟩ := rest.table i inside p table
      rw [new'] at found
      cases found
      exact (one.free free).2 0 (by omega) (by rw [Nat.add_zero]; exact new)
  refine ⟨?_, ?_, ?_, ?_, ?_, ?_, one.control.trans rest.control⟩
  · intro i inside p table
    cases i with
    | zero =>
      obtain ⟨g, free, new, entries⟩ := one.table 0 (by omega) p table
      refine ⟨g, free, ?_, ?_⟩
      · rw [Nat.add_zero, first.1]
        exact new
      · intro j small
        have kept := rest.source (framePage g) j (fresh (framePage g) new)
        have unread : ¬ ∃ i, i < n ∧ m₁.tableOf (m₁.pageDirTable, fromId + 1 + i) = some (framePage g) := by
          rintro ⟨i, below, found⟩
          rw [parent, shift] at found
          exact counted (i + 1) (by omega) g free found
        rw [kept, if_neg fun both => unread both.1, entries j small]
    | succ i =>
      rw [← shift] at table
      obtain ⟨g, free, new, entries⟩ := rest.table i (by omega) p ((parent _).trans table)
      refine ⟨g, (one.free free).1, by rw [← shift]; exact new, ?_⟩
      intro j small
      have entry := one.entry (p := p) (fun f free' same => counted (i + 1) inside f free' (by
        rw [← shift, table, same])) j
      rw [entries j small, entry]
      split
      · rw [childEntry_keptEntry]
      · rfl
  · intro i inside table
    cases i with
    | zero =>
      obtain ⟨none, same⟩ := one.absent 0 (by omega) table
      exact ⟨first.1.trans none, first.2.trans same⟩
    | succ i =>
      rw [← shift] at table
      obtain ⟨none, same⟩ := rest.absent i (by omega) ((parent _).trans table)
      rw [← shift]
      exact ⟨none, same.trans (one.dirs _ _ (by omega))⟩
  · intro i i' inside inside' q left right
    cases i with
    | zero =>
      cases i' with
      | zero => rfl
      | succ i' =>
        rw [← shift] at right
        exact absurd right (fresh q (first.1.symm.trans left) i' (by omega))
    | succ i =>
      cases i' with
      | zero =>
        rw [← shift] at left
        exact absurd left (fresh q (first.1.symm.trans right) i (by omega))
      | succ i' =>
        rw [← shift] at left right
        rw [rest.apart i i' (by omega) (by omega) q left right]
  · intro p j apart
    have later := rest.source p j fun i below => by rw [shift]; exact apart (i + 1) (by omega)
    have early := one.source p j fun i below => by
      rw [show i = 0 by omega, Nat.add_zero, ← first.1]
      exact apart 0 (by omega)
    have here : (∃ i, i < 1 ∧ m.tableOf (m.pageDirTable, fromId + i) = some p) ↔
        m.tableOf (m.pageDirTable, fromId) = some p := by
      constructor
      · rintro ⟨i, inside, found⟩
        rwa [show i = 0 by omega] at found
      · intro found
        exact ⟨0, by omega, found⟩
    have whole : (∃ i, i < n + 1 ∧ m.tableOf (m.pageDirTable, fromId + i) = some p) ↔
        m.tableOf (m.pageDirTable, fromId) = some p ∨
          ∃ i, i < n ∧ m.tableOf (m.pageDirTable, fromId + 1 + i) = some p := by
      constructor
      · rintro ⟨i, inside, found⟩
        cases i with
        | zero => exact .inl found
        | succ i => exact .inr ⟨i, by omega, by rw [shift]; exact found⟩
      · rintro (found | ⟨i, inside, found⟩)
        · exact ⟨0, by omega, found⟩
        · exact ⟨i + 1, by omega, by rw [← shift]; exact found⟩
    simp only [parent] at later
    simp only [later, early, here, whole]
    by_cases small : j < pageTableItemNum
    · by_cases now : m.tableOf (m.pageDirTable, fromId) = some p
      · simp only [now, small, and_true, true_or, if_true, keptEntry_keptEntry, ite_self]
      · simp only [now, small, and_true, false_or, if_false]
    · simp only [small, and_false, if_false]
  · intro f
    have later := rest.count f
    have early := one.count f
    have table : m'.tableOf (toDir, toId + 0) = m₁.tableOf (toDir, toId + 0) := first.1
    rw [one.run_lent other counted f] at later
    rw [runLent_one, Finset.sum_range_one] at early
    rw [runLent_succ, Finset.sum_range_succ', table]
    simp only [shift] at later
    omega
  · intro d id outside
    rw [rest.dirs d id fun inside => outside ⟨inside.1, by omega, by omega⟩,
      one.dirs d id fun inside => outside ⟨inside.1, by omega, by omega⟩]

theorem SlotsExact.next (other : toDir ≠ m.pageDirTable) (room : CopyRoom m fromId (n + 1)) :
    CopyRoom m₁ (fromId + 1) n := by
  have parent := one.parent other
  have lentSame := one.run_lent other room.counted
  have shift : ∀ a i : Nat, a + 1 + i = a + (i + 1) := fun a i => by omega
  have count : ∀ f, (m₁.memMap f).toNat = (m.memMap f).toNat + slotLent m fromId f +
      if m₁.tableOf (toDir, toId) = some (framePage f) then 1 else 0 := by
    intro f
    have sum := one.count f
    rwa [runLent_one, Finset.sum_range_one] at sum
  have used : usedSlots m₁ (fromId + 1) n = usedSlots m (fromId + 1) n := by
    apply Finset.sum_congr rfl
    intro i _
    rw [parent]
  refine ⟨?_, ?_, ?_⟩
  · intro i inside f free
    rw [parent, shift]
    exact room.counted (i + 1) (by omega) f (one.free free).1
  · intro f
    have bound := room.fits f
    have now := count f
    rw [runLent_succ] at bound
    rw [lentSame]
    by_cases new : m₁.tableOf (toDir, toId) = some (framePage f)
    · have zero : m.memMap f = 0 := by
        cases table : m.tableOf (m.pageDirTable, fromId + 0) with
        | none =>
          have absent := (one.absent 0 (by omega) table).1
          rw [Nat.add_zero, new] at absent
          cases absent
        | some p =>
          obtain ⟨g, free, placed, _⟩ := one.table 0 (by omega) p table
          rw [Nat.add_zero, new] at placed
          rw [framePage_inj (Option.some.inj placed)]
          exact (mem_freeFrames.mp free).2.2
      have busy : m₁.memMap f ≠ 0 := by
        intro zero'
        rw [zero', toNat_zero_byte, if_pos new] at now
        omega
      rw [if_pos new] at now
      rw [if_pos zero] at bound
      rw [if_neg busy]
      omega
    · rw [if_neg new] at now
      by_cases zero' : m₁.memMap f = 0
      · rw [zero', toNat_zero_byte] at now
        have zero : m.memMap f = 0 := BitVec.eq_of_toNat_eq (by rw [toNat_zero_byte]; omega)
        rw [if_pos zero] at bound
        rw [if_pos zero', zero', toNat_zero_byte]
        omega
      · rw [if_neg zero']
        split at bound
        · omega
        · omega
  · have enough := room.enough
    rw [usedSlots_succ] at enough
    rw [used]
    have kept : ∀ f, f ∈ (freeFrames m).filter (fun f => runLent m fromId (n + 1) f = 0) →
        m₁.tableOf (toDir, toId) ≠ some (framePage f) →
        f ∈ (freeFrames m₁).filter fun f => runLent m₁ (fromId + 1) n f = 0 := by
      intro f member old
      obtain ⟨free, none⟩ := Finset.mem_filter.mp member
      obtain ⟨below, nonzero, zero⟩ := mem_freeFrames.mp free
      rw [runLent_succ] at none
      have now := count f
      rw [if_neg old, zero, toNat_zero_byte] at now
      refine Finset.mem_filter.mpr ⟨mem_freeFrames.mpr ⟨below, nonzero, BitVec.eq_of_toNat_eq ?_⟩, ?_⟩
      · rw [toNat_zero_byte]
        omega
      · rw [lentSame]
        omega
    cases table : m.tableOf (m.pageDirTable, fromId) with
    | none =>
      have absent := (one.absent 0 (by omega) table).1
      rw [Nat.add_zero] at absent
      rw [table, Option.isSome_none, Bool.toNat_false, Nat.zero_add] at enough
      refine enough.trans (Finset.card_le_card fun f member => kept f member ?_)
      rw [absent]
      exact nofun
    | some p =>
      obtain ⟨g, free, placed, _⟩ := one.table 0 (by omega) p table
      rw [Nat.add_zero] at placed
      rw [table, Option.isSome_some, Bool.toNat_true] at enough
      have most : (freeFrames m).filter (fun f => runLent m fromId (n + 1) f = 0) ⊆
          insert g ((freeFrames m₁).filter fun f => runLent m₁ (fromId + 1) n f = 0) := by
        intro f member
        by_cases new : m₁.tableOf (toDir, toId) = some (framePage f)
        · rw [placed] at new
          exact Finset.mem_insert.mpr (.inl (framePage_inj (Option.some.inj new)).symm)
        · exact Finset.mem_insert_of_mem (kept f member new)
      have card := (Finset.card_le_card most).trans (Finset.card_insert_le _ _)
      omega

end First

/-- The outer loop of `copy_page_tables` copies every slot. -/
theorem copyDirSlots_exact (other : toDir ≠ m.pageDirTable) (room : CopyRoom m fromId n)
    (empty : ∀ i, i < n → m.tableOf (toDir, toId + i) = none) :
    ∃ m', copyDirSlots m toDir fromId toId n = .ok (0, m') ∧ SlotsExact toDir fromId toId n m m' := by
  induction n generalizing m fromId toId with
  | zero =>
    refine ⟨m, rfl, ?_, ?_, ?_, ?_, fun _ => rfl, fun _ _ _ => rfl, .refl m⟩
    · intro i inside
      exact absurd inside (Nat.not_lt_zero i)
    · intro i inside
      exact absurd inside (Nat.not_lt_zero i)
    · intro i _ inside
      exact absurd inside (Nat.not_lt_zero i)
    · intro p j _
      rw [if_neg]
      rintro ⟨⟨i, inside, _⟩, _⟩
      exact absurd inside (Nat.not_lt_zero i)
  | succ n ih =>
    have vacant : Pte.v (m.dirs toDir toId) = false := v_eq_false_of_tableOf (empty 0 (by omega))
    -- The slots that are left, once the first one is done.
    have rest : ∀ m₁, SlotsExact toDir fromId toId 1 m m₁ → ∃ m', copyDirSlots m₁ toDir (fromId + 1) (toId + 1) n =
        .ok (0, m') ∧ SlotsExact toDir fromId toId (n + 1) m m' := by
      intro m₁ one
      have other₁ : toDir ≠ m₁.pageDirTable := by
        rw [one.control.pageDirTable]
        exact other
      have empty₁ : ∀ i, i < n → m₁.tableOf (toDir, toId + 1 + i) = none := by
        intro i inside
        have same := one.dirs toDir (toId + 1 + i) fun below => by omega
        have before := empty (i + 1) (by omega)
        rw [Memory.tableOf, same]
        rwa [← Nat.add_assoc, Nat.add_right_comm] at before
      obtain ⟨m', run, copied⟩ := ih other₁ (one.next other room) empty₁
      exact ⟨m', run, one.cons other room.counted copied⟩
    rw [copyDirSlots, if_neg (by rw [vacant]; exact Bool.false_ne_true)]
    cases table : m.tableOf (m.pageDirTable, fromId) with
    | none =>
      rw [if_neg (by rw [v_eq_false_of_tableOf table]; exact Bool.false_ne_true)]
      exact rest m (.of_none table (empty 0 (by omega)))
    | some p =>
      have valid : Pte.v (m.dirs m.pageDirTable fromId) = true := by
        by_contra invalid
        rw [tableOf_invalid (Bool.eq_false_iff.mpr invalid)] at table
        cases table
      have page : pageTarget (m.dirs m.pageDirTable fromId) = p := by
        rw [tableOf_valid valid] at table
        exact Option.some.inj table
      have enough := room.enough
      rw [usedSlots_succ, table, Option.isSome_some, Bool.toNat_true] at enough
      rcases getFreePage_cases m with ⟨_, full⟩ | ⟨g, positive, bound, zero, got⟩
      · have some : 0 < ((freeFrames m).filter fun f => runLent m fromId (n + 1) f = 0).card := by omega
        obtain ⟨f, member⟩ := Finset.card_pos.mp some
        obtain ⟨below, nonzero, free⟩ := mem_freeFrames.mp (Finset.mem_filter.mp member).1
        exact absurd free (full f (Nat.pos_of_ne_zero nonzero) below)
      · have free : g ∈ freeFrames m := mem_freeFrames.mpr ⟨bound, Nat.ne_of_gt positive, zero⟩
        have distinct : p ≠ framePage g := by
          rintro rfl
          exact room.counted 0 (by omega) g free table
        have fits := room.fits
        simp only [runLent_succ] at fits
        have target : pageTarget (pteCommonEnableEntry (pteCommonSetAccessibility (pteCommonAddrToPpn
            (m.dirs toDir toId) (frameAddr g)) .pointer)) = framePage g := by
          rw [pageTarget_enableEntry, pageTarget_setAccessibility, pageTarget_addrToPpn bound]
        have room' : (m.memMap g).toNat + slotLent m fromId g + 1 < 256 := by
          have here := fits g
          rw [if_pos zero] at here
          omega
        have bounded : ∀ f, (m.memMap f).toNat + slotLent m fromId f < 256 := by
          intro f
          have here := fits f
          omega
        rw [if_pos valid, pageOf_ppnToAddr, page, got]
        dsimp only
        rw [if_neg (frameAddr_ne_zero bound), pageOf_frameAddr bound]
        exact rest _ (.of_table table free distinct (v_enableEntry _) target room' bounded other)

/-- There is nothing to copy. -/
theorem SlotsExact.of_empty (empty : ∀ i, i < n → m.tableOf (m.pageDirTable, fromId + i) = none)
    (vacant : ∀ i, i < n → m.tableOf (toDir, toId + i) = none) : SlotsExact toDir fromId toId n m m := by
  refine ⟨?_, ?_, ?_, ?_, ?_, fun _ _ _ => rfl, .refl m⟩
  · intro i inside p table
    rw [empty i inside] at table
    cases table
  · intro i inside _
    exact ⟨vacant i inside, rfl⟩
  · intro i _ inside _ q found
    rw [vacant i inside] at found
    cases found
  · intro p j _
    rw [if_neg]
    rintro ⟨⟨i, inside, found⟩, _⟩
    rw [empty i inside] at found
    cases found
  · intro f
    have lent : runLent m fromId n f = 0 :=
      Finset.sum_eq_zero fun i inside => slotLent_none (empty i (Finset.mem_range.mp inside)) f
    have new : (∑ i ∈ Finset.range n, if m.tableOf (toDir, toId + i) = some (framePage f) then 1 else 0) = 0 := by
      apply Finset.sum_eq_zero
      intro i inside
      rw [vacant i (Finset.mem_range.mp inside)]
      exact if_neg nofun
    rw [lent, new]
    rfl

end Slots

section Contract

variable {m m' : Memory} {toDir start dest size : Word} {fromId n : Nat}

/-- `e'` maps the same frame as `e`, for reading and executing only. -/
structure ReadOnlyCopy (e e' : Word) : Prop where
  ppn : Pte.ppn e' = Pte.ppn e
  user : Pte.u e' = Pte.u e
  global : e'.getLsbD 5 = e.getLsbD 5
  accessed : e'.getLsbD 6 = e.getLsbD 6
  dirty : Pte.d e' = Pte.d e
  readable : Pte.r e' = true
  writable : Pte.w e' = false
  executable : Pte.x e' = true

theorem readOnlyCopy_protect (e : Word) : ReadOnlyCopy e (protect e) where
  ppn := ppn_setAccessibility e _
  user := getLsbD_protect e 4
  global := getLsbD_protect e 5
  accessed := getLsbD_protect e 6
  dirty := getLsbD_protect e 7
  readable := getLsbD_protect e 1
  writable := getLsbD_protect e 2
  executable := getLsbD_protect e 3

/-- What `copy_page_tables` is for, slot by slot, and what it leaves alone. -/
structure CopiedExactly (toDir : Word) (fromId n : Nat) (m m' : Memory) : Prop where
  leaf : ∀ i j, i < n → j < pageTableItemNum →
    Option.Rel ReadOnlyCopy (m.leafOf (m.pageDirTable, fromId + i, j)) (m'.leafOf (toDir, i, j))
  parent : ∀ i j e, i < n → j < pageTableItemNum → m.leafOf (m.pageDirTable, fromId + i, j) = some e →
    lowMem < pteCommonPpnToAddr e → m'.leafOf (m.pageDirTable, fromId + i, j) = m'.leafOf (toDir, i, j)
  tables : ∀ i, i < n → (m.tableOf (m.pageDirTable, fromId + i)).isSome = true →
    ∃ g ∈ freeFrames m, m'.tableOf (toDir, i) = some (framePage g)
  count : ∀ f, (m'.memMap f).toNat = (m.memMap f).toNat + runLent m fromId n f +
    ∑ i ∈ Finset.range n, if m'.tableOf (toDir, i) = some (framePage f) then 1 else 0
  entries : ∀ p j, (∀ i, i < n → m'.tableOf (toDir, i) ≠ some p) →
    ¬ (∃ i, i < n ∧ j < pageTableItemNum ∧ m.tableOf (m.pageDirTable, fromId + i) = some p ∧ lent (m.phys p j) = true) →
    m'.phys p j = m.phys p j
  dirs : ∀ d id, ¬ (d = toDir ∧ id < n ∧ (m.tableOf (m.pageDirTable, fromId + id)).isSome = true) →
    m'.dirs d id = m.dirs d id
  control : SameControl m m'

theorem SlotsExact.exactly (copied : SlotsExact toDir fromId 0 n m m')
    (parent : ∀ i, i < n → (m.tableOf (m.pageDirTable, fromId + i)).isSome = true → toDir ≠ m.pageDirTable)
    (counted : ∀ i, i < n → ∀ f, f ∈ freeFrames m → m.tableOf (m.pageDirTable, fromId + i) ≠ some (framePage f)) :
    CopiedExactly toDir fromId n m m' := by
  have place : ∀ i, 0 + i = i := Nat.zero_add
  have fresh : ∀ i p, i < n → m.tableOf (m.pageDirTable, fromId + i) = some p →
      ∀ i', i' < n → m'.tableOf (toDir, i') ≠ some p := by
    intro i p inside table i' inside' found
    cases table' : m.tableOf (m.pageDirTable, fromId + i') with
    | none =>
      have absent := (copied.absent i' inside' table').1
      rw [place, found] at absent
      cases absent
    | some q =>
      obtain ⟨g, free, new, _⟩ := copied.table i' inside' q table'
      rw [place, found] at new
      cases new
      exact counted i inside g free table
  have kept : ∀ i p, i < n → m.tableOf (m.pageDirTable, fromId + i) = some p → ∀ j, j < pageTableItemNum →
      m'.phys p j = keptEntry (m.phys p j) := by
    intro i p inside table j small
    rw [copied.source p j fun i' inside' => by rw [place]; exact fresh i p inside table i' inside',
      if_pos ⟨⟨i, inside, table⟩, small⟩]
  refine ⟨?_, ?_, ?_, ?_, ?_, ?_, copied.control⟩
  · intro i j inside small
    cases table : m.tableOf (m.pageDirTable, fromId + i) with
    | none =>
      have absent := (copied.absent i inside table).1
      rw [place] at absent
      rw [leafOf_of_absent table, leafOf_of_absent absent]
      exact .none
    | some p =>
      obtain ⟨g, _, new, entries⟩ := copied.table i inside p table
      rw [place] at new
      rw [leafOf_some (s := (m.pageDirTable, fromId + i, j)) table, leafOf_some (s := (toDir, i, j)) new]
      dsimp only
      rw [entries j small, childEntry]
      cases valid : Pte.v (m.phys p j) with
      | false =>
        rw [if_neg Bool.false_ne_true, if_neg Bool.false_ne_true, if_neg (by rw [v_zero]; exact Bool.false_ne_true)]
        exact .none
      | true =>
        rw [if_pos rfl, if_pos rfl, if_pos (by rw [v_protect]; exact valid)]
        exact .some (readOnlyCopy_protect _)
  · intro i j e inside small leaf high
    cases table : m.tableOf (m.pageDirTable, fromId + i) with
    | none =>
      rw [leafOf_of_absent table] at leaf
      cases leaf
    | some p =>
      obtain ⟨g, _, new, entries⟩ := copied.table i inside p table
      rw [place] at new
      rw [leafOf_some (s := (m.pageDirTable, fromId + i, j)) table] at leaf
      dsimp only at leaf
      split at leaf
      · rename_i valid
        cases leaf
        have other := parent i inside (by rw [table]; rfl)
        have kept' : m'.dirs m.pageDirTable (fromId + i) = m.dirs m.pageDirTable (fromId + i) :=
          copied.dirs _ _ fun below => other below.1.symm
        have same : m'.tableOf (m.pageDirTable, fromId + i) = some p := by
          rw [← table, Memory.tableOf, Memory.tableOf, kept']
        have yes : lent (m.phys p j) = true := by
          rw [lent, valid, decide_eq_true high]
          rfl
        rw [leafOf_some (s := (m.pageDirTable, fromId + i, j)) same, leafOf_some (s := (toDir, i, j)) new]
        dsimp only
        rw [entries j small, kept i p inside table j small, childEntry, keptEntry, if_pos valid, if_pos yes]
      · cases leaf
  · intro i inside used
    obtain ⟨p, table⟩ := Option.isSome_iff_exists.mp used
    obtain ⟨g, free, new, _⟩ := copied.table i inside p table
    rw [place] at new
    exact ⟨g, free, new⟩
  · intro f
    have sum := copied.count f
    simp only [place] at sum
    exact sum
  · intro p j old idle
    rw [copied.source p j fun i inside => by rw [place]; exact old i inside]
    split
    · rename_i both
      obtain ⟨⟨i, inside, table⟩, small⟩ := both
      rw [keptEntry, if_neg fun yes => idle ⟨i, inside, small, table, yes⟩]
    · rfl
  · intro d id outside
    by_cases slot : d = toDir ∧ id < n
    · obtain ⟨rfl, inside⟩ := slot
      cases table : m.tableOf (m.pageDirTable, fromId + id) with
      | none =>
        have same := (copied.absent id inside table).2
        rwa [place] at same
      | some p => exact absurd ⟨rfl, inside, by rw [table]; rfl⟩ outside
    · exact copied.dirs d id fun inside => slot ⟨inside.1, by omega⟩

/-- `copy_page_tables` into an empty directory is exact. -/
theorem copyPageTables_exact (directory : toDir ≠ 0) (aligned : alignTest2MB start = false)
    (aligned' : alignTest2MB dest = false) (length : n = (size.toNat + 0x1FFFFF) / 0x200000)
    (inside : getPageDirId start + n ≤ pageDirTableNum) (empty : ∀ i, i < pageDirTableNum → Pte.v (m.dirs toDir i) = false)
    (room : CopyRoom m (getPageDirId start) n) :
    ∃ m', copyPageTables m start dest toDir size = .ok (0, m') ∧ CopiedExactly toDir (getPageDirId start) n m m' := by
  have small : pageDirTableNum = 2048 := rfl
  have slots : getPageDirSize size = n := by
    have top : (0x1FFFFF : Word).toNat = 0x1FFFFF := rfl
    have sum : (size + 0x1FFFFF).toNat = size.toNat + 0x1FFFFF := by
      rw [BitVec.toNat_add, top, Nat.mod_eq_of_lt (by omega)]
    have last : size + 0x200000 - 1 = size + 0x1FFFFF := by
      rw [BitVec.sub_eq_add_neg, BitVec.add_assoc, show (0x200000 : Word) + -1 = 0x1FFFFF by decide]
    rw [getPageDirSize, last, BitVec.toNat_ushiftRight, sum, Nat.shiftRight_eq_div_pow, length]
  have enter : copyPageTables m start dest toDir size = copyDirSlots m toDir (getPageDirId start) 0 n := by
    rw [copyPageTables, if_neg directory, aligned, aligned', Bool.or_false, if_neg Bool.false_ne_true, slots]
  have vacant : ∀ i, i < n → m.tableOf (toDir, 0 + i) = none := fun i low => tableOf_invalid (empty _ (by omega))
  rw [enter]
  by_cases same : toDir = m.pageDirTable
  · have nothing : ∀ i, i < n → m.tableOf (m.pageDirTable, getPageDirId start + i) = none := by
      intro i low
      rw [← same]
      exact tableOf_invalid (empty _ (by omega))
    refine ⟨m, copyDirSlots_empty _ _ _ ?_ ?_, (SlotsExact.of_empty nothing vacant).exactly ?_ room.counted⟩
    · intro i _ high
      rw [← same]
      exact empty i (by omega)
    · intro i _ high
      exact empty i (by omega)
    · intro i low used
      rw [nothing i low] at used
      cases used
  · obtain ⟨m', run, copied⟩ := copyDirSlots_exact same room vacant
    exact ⟨m', run, copied.exactly (fun _ _ _ => same) room.counted⟩

end Contract

section Example

variable {dirs : Finset Word} {words : Nat → Word} {m : Memory}

/-- The only counter that copying the one mapping raises. -/
theorem MapsOne.slotLent_other (task : MapsOne dirs words userStartAddr m) (parent : parentDir ∈ dirs)
    (f : Nat) (other : f ≠ 1279) : slotLent m 0 f = 0 := by
  obtain ⟨e, leaf, target, _⟩ := task.leaf
  have slot : m.slotOf userStartAddr = (parentDir, 0, 0) := by
    rw [Memory.slotOf, task.current, show getPageDirId userStartAddr = 0 by decide,
      show getPageEntryId userStartAddr = 0 by decide]
  apply Finset.sum_eq_zero
  intro j small
  rw [Finset.mem_range] at small
  rw [task.current]
  by_cases first : j = 0
  · subst first
    rw [← slot, leaf, Option.any_some, lentTo, ppnToAddr_of_target (by decide) target, mapNr_frameAddr (by decide),
      decide_eq_false other.symm, Bool.and_false, Bool.toNat_false]
  · have empty : m.leafOf (parentDir, 0, j) = none := by
      apply task.others
      · exact mem_leafSlots.mpr ⟨parent, by decide, small⟩
      · rw [slot]
        intro same
        cases same
        exact first rfl
    rw [empty]
    rfl

theorem MapsOne.slotLent_self (task : MapsOne dirs words userStartAddr m) (parent : parentDir ∈ dirs) :
    slotLent m 0 1279 ≤ 1 := by
  have slot : m.slotOf userStartAddr = (parentDir, 0, 0) := by
    rw [Memory.slotOf, task.current, show getPageDirId userStartAddr = 0 by decide,
      show getPageEntryId userStartAddr = 0 by decide]
  rw [slotLent, Finset.sum_eq_single 0]
  · exact Bool.toNat_le _
  · intro j small other
    rw [Finset.mem_range] at small
    have empty : m.leafOf (parentDir, 0, j) = none := by
      apply task.others
      · exact mem_leafSlots.mpr ⟨parent, by decide, small⟩
      · rw [slot]
        intro same
        cases same
        exact other rfl
    rw [task.current, empty]
    rfl
  · intro outside
    exact absurd (Finset.mem_range.mpr (by decide)) outside

theorem MapsOne.copyRoom (task : MapsOne dirs words userStartAddr m) (parent : parentDir ∈ dirs) : CopyRoom m 0 1 := by
  have low : ∀ f, f ≠ 1279 → runLent m 0 1 f = 0 := by
    intro f other
    rw [runLent_one, task.slotLent_other parent f other]
  refine ⟨?_, ?_, ?_⟩
  · intro i inside f free table
    obtain rfl : i = 0 := by omega
    obtain ⟨g, _, page, one⟩ := task.wf.table_frame (mem_tableSlots.mpr ⟨task.current ▸ parent, by decide⟩) table
    rw [← framePage_inj page, (mem_freeFrames.mp free).2.2] at one
    exact absurd one (by decide)
  · intro f
    have count := (m.memMap f).isLt
    by_cases self : f = 1279
    · subst self
      have one := task.slotLent_self parent
      have held : (m.memMap 1279).toNat = 1 := by rw [task.one]; rfl
      rw [runLent_one, if_neg (by rw [task.one]; decide), held]
      omega
    · rw [low f self]
      split
      · rename_i zero
        rw [zero]
        decide
      · omega
  · have few : usedSlots m 0 1 ≤ 1 := by
      rw [usedSlots, Finset.sum_range_one]
      exact Bool.toNat_le _
    obtain ⟨table, vacant⟩ := task.free
    have spare : ∃ g ∈ ({1, 2} : Finset Nat), g ∉ ({table} : Finset Nat) :=
      Finset.exists_mem_notMem_of_card_lt_card (by rw [Finset.card_singleton]; decide)
    obtain ⟨g, member, outside⟩ := spare
    rw [Finset.mem_singleton] at outside
    have small : 0 < g ∧ g < 3 := by
      simp only [Finset.mem_insert, Finset.mem_singleton] at member
      omega
    have free : g ∈ freeFrames m :=
      mem_freeFrames.mpr ⟨by unfold pagingPages; omega, by omega, vacant g (by omega) outside⟩
    have some : 0 < ((freeFrames m).filter fun f => runLent m 0 1 f = 0).card :=
      Finset.card_pos.mpr ⟨g, Finset.mem_filter.mpr ⟨free, low g (by omega)⟩⟩
    omega

/-- The task that maps one page, and an empty directory. -/
theorem oneTask_copied : ∃ m',
    copyPageTables (oneTask (fun _ => 7) userStartAddr) userStartAddr userStartAddr childDir 4096 = .ok (0, m') ∧
      CopiedExactly childDir (getPageDirId userStartAddr) 1 (oneTask (fun _ => 7) userStartAddr) m' := by
  have task : MapsOne {parentDir, childDir} (fun _ => 7) userStartAddr _ := oneTask_mapsOne (by decide) _ _
  have first : getPageDirId userStartAddr = 0 := by decide
  apply copyPageTables_exact (by decide) (by decide) (by decide) (by decide) (by rw [first]; decide)
  · intro i small
    by_contra valid
    rw [Bool.not_eq_false] at valid
    have absent := task.tables (childDir, i) (mem_tableSlots.mpr ⟨by decide, small⟩)
      fun same => absurd (Prod.mk.inj same).1 (by decide)
    rw [tableOf_valid valid] at absent
    cases absent
  · rw [first]
    exact task.copyRoom (by decide)

end Example

end K210Linux.Mm
