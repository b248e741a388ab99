import K210Linux.Kernel.Fork
import K210Linux.Kernel.UserAccess

namespace K210Linux.Kernel

open K210Linux.Mm

section Address

theorem getPageDirId_page (x : Word) : getPageDirId x = (((x >>> 12) &&& ((0x3FFFFFFF : Word) >>> 12)) >>> 9).toNat := by
  rw [getPageDirId, show (21 : Nat) = 12 + 9 from rfl, BitVec.shiftRight_add, BitVec.ushiftRight_and_distrib]

theorem getPageEntryId_page (x : Word) : getPageEntryId x = ((x >>> 12) &&& ((0x1FFFFF : Word) >>> 12)).toNat := by
  rw [getPageEntryId, BitVec.ushiftRight_and_distrib]

/-- Addresses of one page are reached through the same slot. -/
theorem slotOf_congr (m : Memory) {a b : Word} (same : a >>> 12 = b >>> 12) : m.slotOf a = m.slotOf b := by
  rw [Memory.slotOf, Memory.slotOf, getPageDirId_page a, getPageEntryId_page a, same, ← getPageDirId_page b,
    ← getPageEntryId_page b]

theorem page_of_masked (a : Word) : (a &&& ~~~ (pageSize - 1)) >>> 12 = a >>> 12 := by
  rw [BitVec.ushiftRight_and_distrib, show (~~~ (pageSize - 1) : Word) >>> 12 = BitVec.allOnes 64 >>> 12 by decide,
    ← BitVec.ushiftRight_and_distrib, BitVec.and_allOnes]

theorem toNat_and_mask (a : Word) : (a &&& 0xFFF).toNat = a.toNat % 4096 := by
  rw [BitVec.toNat_and, show (0xFFF : Word).toNat = 2 ^ 12 - 1 from rfl, Nat.and_two_pow_sub_one_eq_mod]

theorem toNat_masked (a : Word) : (a &&& ~~~ (pageSize - 1)).toNat = 4096 * (a.toNat / 4096) := by
  have high : (a &&& ~~~ (pageSize - 1)).toNat / 4096 = a.toNat / 4096 := by
    have page := congrArg BitVec.toNat (page_of_masked a)
    rwa [BitVec.toNat_ushiftRight, BitVec.toNat_ushiftRight, Nat.shiftRight_eq_div_pow, Nat.shiftRight_eq_div_pow]
      at page
  have low : (a &&& ~~~ (pageSize - 1)).toNat % 4096 = 0 := by
    rw [← toNat_and_mask, BitVec.and_assoc, show (~~~ (pageSize - 1) &&& 0xFFF : Word) = 0#64 by decide, BitVec.and_zero]
    rfl
  omega

/-- The page of a byte of a range, counted from the page the range starts in. -/
theorem page_in_range (a : Word) {i : Nat} (small : i < 2 ^ 32) :
    (a + BitVec.ofNat 64 i) >>> 12 =
      ((a &&& ~~~ (pageSize - 1)) + BitVec.ofNat 64 (4096 * ((a.toNat % 4096 + i) / 4096))) >>> 12 := by
  apply BitVec.eq_of_toNat_eq
  rw [BitVec.toNat_ushiftRight, BitVec.toNat_ushiftRight, Nat.shiftRight_eq_div_pow, Nat.shiftRight_eq_div_pow,
    BitVec.toNat_add, BitVec.toNat_add, BitVec.toNat_ofNat, BitVec.toNat_ofNat, toNat_masked]
  omega

end Address

section Walk

variable {m : Memory} {address e : Word}

theorem walk_eq (m : Memory) (address : Word) : walk m address =
    match m.tableOf (m.pageDirTable, getPageDirId address), m.leafOf (m.slotOf address) with
    | none, _ => .noDir
    | some _, none => .noEntry
    | some _, some e => .found (pteCommonPpnToAddr e + (address &&& 0xFFF)) := by
  simp only [walk, pageOf_ppnToAddr]
  cases valid : Pte.v (m.dirs m.pageDirTable (getPageDirId address)) with
  | false => simp only [tableOf_invalid valid, Bool.not_false, if_true]
  | true =>
    have leaf := leafOf_some (s := m.slotOf address) (tableOf_valid valid)
    change m.leafOf (m.slotOf address) =
      if Pte.v (m.phys (pageTarget (m.dirs m.pageDirTable (getPageDirId address))) (getPageEntryId address)) then
        some (m.phys (pageTarget (m.dirs m.pageDirTable (getPageDirId address))) (getPageEntryId address))
      else none at leaf
    cases entry : Pte.v (m.phys (pageTarget (m.dirs m.pageDirTable (getPageDirId address))) (getPageEntryId address)) with
    | false =>
      rw [entry, if_neg Bool.false_ne_true] at leaf
      simp only [tableOf_valid valid, leaf, Bool.not_true, Bool.not_false, Bool.false_eq_true, if_false, if_true]
    | true =>
      rw [entry, if_pos rfl] at leaf
      simp only [tableOf_valid valid, leaf, Bool.not_true, Bool.false_eq_true, if_false]

theorem walk_found (leaf : m.leafOf (m.slotOf address) = some e) :
    walk m address = .found (pteCommonPpnToAddr e + (address &&& 0xFFF)) := by
  rw [walk_eq, leaf, tableOf_valid (leafOf_slotOf leaf).1]

theorem leaf_of_walk {a : Word} (found : walk m address = .found a) :
    ∃ e, m.leafOf (m.slotOf address) = some e ∧ a = pteCommonPpnToAddr e + (address &&& 0xFFF) := by
  rw [walk_eq] at found
  split at found
  · cases found
  · cases found
  · rename_i e _ leaf
    cases found
    exact ⟨e, leaf, rfl⟩

theorem absent_of_walk (missed : ∀ a, walk m address ≠ .found a) : m.leafOf (m.slotOf address) = none := by
  cases leaf : m.leafOf (m.slotOf address) with
  | none => rfl
  | some e => exact absurd (walk_found leaf) (missed _)

end Walk

section NoPage

variable {pool : Pool} {dirs : Finset Word} {held : Finset Nat} {k : Process} {image : Word → Nat → Word}
variable {m m' : Memory} {address p : Word}

theorem shareEntry_true {fromTable toTable nr : Nat} {physAddr : Word} {shared : Bool}
    (run : shareEntry m fromTable toTable nr physAddr = .ok (shared, m')) :
    shared = true ∧ m'.dirs = m.dirs ∧ m'.pageDirTable = m.pageDirTable ∧ Pte.v (m'.phys toTable nr) = false := by
  unfold shareEntry at run
  split at run
  · cases run
  · rename_i invalid
    cases run
    refine ⟨rfl, rfl, rfl, ?_⟩
    have clear : Pte.v (m.phys toTable nr) = false := Bool.not_eq_true _ ▸ invalid
    simp only [Memory.setCount, Memory.setEntry, Function.update_self, v_setField _ 2 false (by decide)]
    by_cases same : toTable = fromTable
    · subst same
      simp only [Function.update_self, v_setField _ 2 false (by decide)]
      exact clear
    · rw [Function.update_of_ne same]
      exact clear

theorem shareTable_current {toDir : Word} {id : Nat} (run : shareTable m toDir id = .ok m') :
    m'.pageDirTable = m.pageDirTable := by
  unfold shareTable at run
  split at run
  · cases run
    rfl
  · rcases getFreePage_cases m with ⟨none, _⟩ | ⟨f, _, bound, _, found⟩
    · simp only [none, if_true] at run
      cases run
    · simp only [found, frameAddr_ne_zero bound, if_false] at run
      cases run
      rfl

/-- The leaf slot through which the current task of the process table reaches an address. -/
def Process.slotOf (k : Process) (address : Word) : LeafSlot :=
  ((k.structs k.current).pageDirTable, getPageDirId address, getPageEntryId address)

/-- What a report of the sharing functions means: a page reported as shared is still not there, and
    otherwise nothing changed. -/
def ShareReport (k : Process) (address : Word) (m : Memory) (shared : Bool) (m' : Memory) : Prop :=
  (shared = false ∧ m' = m) ∨
    (shared = true ∧ m'.pageDirTable = m.pageDirTable ∧ m'.leafOf (k.slotOf address) = none)

theorem tryToShare_report {shared : Bool} (run : tryToShare k m address p = .ok (shared, m')) :
    ShareReport k address m shared m' := by
  simp only [tryToShare] at run
  split at run
  · cases run
    exact .inl ⟨rfl, rfl⟩
  split at run
  · cases run
    exact .inl ⟨rfl, rfl⟩
  split at run
  · cases run
    exact .inl ⟨rfl, rfl⟩
  cases table : shareTable m (k.structs k.current).pageDirTable (getPageDirId address) with
  | error stop =>
    rw [table] at run
    cases run
  | ok m₁ =>
    rw [table] at run
    obtain ⟨done, directories, same, invalid⟩ := shareEntry_true run
    refine .inr ⟨done, same.trans (shareTable_current table), ?_⟩
    rw [pageOf_ppnToAddr, ← directories] at invalid
    cases valid : Pte.v (m'.dirs (k.structs k.current).pageDirTable (getPageDirId address)) with
    | false => exact leafOf_of_absent (tableOf_invalid valid) _
    | true =>
      rw [leafOf_some (s := k.slotOf address) (tableOf_valid valid)]
      exact if_neg (by rw [Process.slotOf, invalid]; exact Bool.false_ne_true)

theorem shareWith_report {n : Nat} {shared : Bool} (run : shareWith k m address n = .ok (shared, m')) :
    ShareReport k address m shared m' := by
  induction n with
  | zero =>
    cases run
    exact .inl ⟨rfl, rfl⟩
  | succ n ih =>
    simp only [shareWith] at run
    split at run
    · exact ih run
    · cases first : tryToShare k m address (k.task n) with
      | error stop =>
        rw [first] at run
        cases run
      | ok result =>
        obtain ⟨one, m₁⟩ := result
        rw [first] at run
        simp only [Bind.bind, Except.bind] at run
        rcases tryToShare_report first with ⟨rfl, rfl⟩ | ⟨rfl, same, missed⟩
        · exact ih (by simpa using run)
        · rw [if_pos rfl] at run
          cases run
          exact .inr ⟨rfl, same, missed⟩

theorem sharePage_report {shared : Bool} (run : sharePage k m address = .ok (shared, m')) :
    ShareReport k address m shared m' := by
  unfold sharePage at run
  split at run
  · cases run
    exact .inl ⟨rfl, rfl⟩
  · split at run
    · cases run
      exact .inl ⟨rfl, rfl⟩
    · exact shareWith_report run

theorem sharePage_cases {shared : Bool} (current : m.pageDirTable = (k.structs k.current).pageDirTable)
    (run : sharePage k m address = .ok (shared, m')) :
    (shared = false ∧ m' = m) ∨ (shared = true ∧ ∀ a, walk m' address ≠ .found a) := by
  rcases sharePage_report run with unchanged | ⟨done, same, none⟩
  · exact .inl unchanged
  · refine .inr ⟨done, ?_⟩
    intro a found
    obtain ⟨e, leaf, _⟩ := leaf_of_walk found
    rw [Memory.slotOf, same, current] at leaf
    exact absurd (none.symm.trans leaf) (fun absent => by cases absent)

theorem slotOf_masked (m : Memory) (address : Word) : m.slotOf (address &&& ~~~ (pageSize - 1)) = m.slotOf address :=
  slotOf_congr m (page_of_masked address)

theorem walk_masked (m : Memory) (address : Word) (missed : ∀ a, walk m (address &&& ~~~ (pageSize - 1)) ≠ .found a) :
    ∀ a, walk m address ≠ .found a := by
  intro a found
  obtain ⟨e, leaf, _⟩ := leaf_of_walk found
  rw [← slotOf_masked] at leaf
  exact missed _ (walk_found leaf)

/-- A frame is taken, filled from the executable, and mapped. -/
theorem put_filled {f : Nat} (wf : Wf pool dirs held m) (absent : m.leafOf (m.slotOf address) = none)
    (positive : 0 < f) (bound : f < pagingPages) (free : m.memMap f = 0) (words : Nat → Word) :
    (putPage (m.fill f words) (frameAddr f) address).1 = 0 ∨
    (Wf pool dirs held (putPage (m.fill f words) (frameAddr f) address).2 ∧
      Mapped dirs (m.slotOf address) f m (putPage (m.fill f words) (frameAddr f) address).2) := by
  have has := wf.pool_of_free positive bound free
  have notHeld := (wf.counted.free_of_zero has free).2.2
  obtain ⟨wf₁, _⟩ := (wf.take_free positive bound free).write_pages (Function.update m.phys (framePage f) words) (by
    intro s hs q table
    have other : q ≠ framePage f := by
      rintro rfl
      exact (wf.counted.free_of_zero has free).2.1 s hs table
    rw [Function.update_of_ne other]
    exact (Function.update_of_ne other _ _).symm)
  have filled : Wf pool dirs (insert f held) (m.fill f words) := wf₁
  have absent₁ := (wf.leafOf_fill has free words _ (slotOf_mem wf address)).trans absent
  rcases filled.put_page (Finset.mem_insert_self f held) address absent₁ with ⟨failed, _⟩ | ⟨m', put, wf', mapped⟩
  · exact .inl (congrArg Prod.fst failed)
  · rw [Finset.erase_insert notHeld] at wf'
    rw [put]
    exact .inr ⟨wf', mapped.of_fill wf positive bound free⟩

theorem fill_eq (m : Memory) (f : Nat) (words : Nat → Word) :
    setPage ((m.setCount f 1).clearPage (framePage f)) (framePage f) words = m.fill f words := by
  simp only [setPage, Memory.clearPage, Memory.setCount, Memory.fill, Function.update_idem]

/-- When `do_no_page` has brought in a page, it is a fresh frame. -/
theorem do_no_page (wf : Wf pool dirs held m) (current : m.pageDirTable = (k.structs k.current).pageDirTable)
    (absent : m.leafOf (m.slotOf address) = none) (run : doNoPage k image m address = .ok m') {a : Word}
    (found : walk m' address = .found a) :
    ∃ f, 0 < f ∧ f < pagingPages ∧ m.memMap f = 0 ∧ Wf pool dirs held m' ∧ Mapped dirs (m.slotOf address) f m m' := by
  rw [← slotOf_masked] at absent ⊢
  simp only [doNoPage] at run
  split at run
  · rcases wf.get_empty_page _ absent with ⟨_, failed, _⟩ | ⟨f, m₁, done, positive, bound, free, wf₁, mapped⟩
    · rw [failed] at run
      cases run
    · rw [done] at run
      cases run
      exact ⟨f, positive, bound, free, wf₁, mapped⟩
  · cases shared : sharePage k m (address &&& ~~~ (pageSize - 1)) with
    | error stop =>
      rw [shared] at run
      cases run
    | ok result =>
      obtain ⟨one, m₁⟩ := result
      rw [shared] at run
      simp only [Bind.bind, Except.bind] at run
      rcases sharePage_cases current shared with ⟨rfl, rfl⟩ | ⟨rfl, missed⟩
      · rw [if_neg Bool.false_ne_true] at run
        rcases getFreePage_cases m₁ with ⟨none, _⟩ | ⟨f, positive, bound, free, took⟩
        · simp only [none, if_true] at run
          cases run
        · simp only [took, frameAddr_ne_zero bound, if_false] at run
          rw [pageOf_frameAddr bound, fill_eq] at run
          generalize clearTail _ _ = words at run
          rcases put_filled wf absent positive bound free words with failed | ⟨wf', mapped⟩
          · rw [if_neg (not_not.mpr failed)] at run
            split at run
            · cases run
            · cases run
          · split at run
            · cases run
              exact ⟨f, positive, bound, free, wf', mapped⟩
            · split at run
              · cases run
              · cases run
      · rw [if_pos rfl] at run
        cases run
        exact absurd found (walk_masked _ _ missed _)

/-- The page at a leaf slot is brought in if it is not there. -/
def Present (pool : Pool) (dirs : Finset Word) (held : Finset Nat) (s : LeafSlot) (m m' : Memory) : Prop :=
  (m' = m ∧ m.leafOf s ≠ none) ∨
    (m.leafOf s = none ∧ ∃ f, 0 < f ∧ f < pagingPages ∧ m.memMap f = 0 ∧ Wf pool dirs held m' ∧ Mapped dirs s f m m')

theorem fault_in {addr a : Word} (wf : Wf pool dirs held m)
    (current : m.pageDirTable = (k.structs k.current).pageDirTable) (missed : ∀ a, walk m addr ≠ .found a)
    (run : faultIn k image m addr = .ok (a, m')) :
    Wf pool dirs held m' ∧ Present pool dirs held (m.slotOf addr) m m' ∧
      ∃ e, m'.leafOf (m.slotOf addr) = some e ∧ a = pteCommonPpnToAddr e + (addr &&& 0xFFF) := by
  cases loaded : doNoPage k image m addr with
  | error stop =>
    rw [faultIn, loaded] at run
    cases run
  | ok m₁ =>
    rw [faultIn, loaded] at run
    simp only [Bind.bind, Except.bind] at run
    split at run
    · rename_i a' second
      cases run
      have absent := absent_of_walk missed
      obtain ⟨f, positive, bound, free, wf', mapped⟩ := do_no_page wf current absent loaded second
      obtain ⟨e, leaf, value⟩ := leaf_of_walk second
      rw [Memory.slotOf, mapped.control.pageDirTable] at leaf
      exact ⟨wf', .inr ⟨absent, f, positive, bound, free, wf', mapped⟩, e, leaf, value⟩
    · cases run
    · cases run

theorem user_addr_to_kernel {addr a : Word} (wf : Wf pool dirs held m)
    (current : m.pageDirTable = (k.structs k.current).pageDirTable) (user : userStartAddr ≤ addr)
    (run : userAddrToKernel k image m addr = .ok (a, m')) :
    Wf pool dirs held m' ∧ Present pool dirs held (m.slotOf addr) m m' ∧ addr ≤ userEndAddr ∧
      ∃ e, m'.leafOf (m.slotOf addr) = some e ∧ a = pteCommonPpnToAddr e + (addr &&& 0xFFF) := by
  rw [userAddrToKernel, if_neg (BitVec.not_lt.mpr user)] at run
  split at run
  · cases run
  split at run
  · cases run
  rename_i inside
  have below := BitVec.not_lt.mp inside
  cases first : walk m addr with
  | found a' =>
    rw [first] at run
    cases run
    obtain ⟨e, leaf, rfl⟩ := leaf_of_walk first
    exact ⟨wf, .inl ⟨rfl, by rw [leaf]; exact nofun⟩, below, e, leaf, rfl⟩
  | noDir =>
    rw [first] at run
    obtain ⟨wf', present, leaf⟩ := fault_in wf current (by rw [first]; exact nofun) run
    exact ⟨wf', present, below, leaf⟩
  | noEntry =>
    rw [first] at run
    obtain ⟨wf', present, leaf⟩ := fault_in wf current (by rw [first]; exact nofun) run
    exact ⟨wf', present, below, leaf⟩

theorem user_addr_present {addr e : Word} (nonzero : m.pageDirTable ≠ 0) (user : userStartAddr ≤ addr)
    (below : addr ≤ userEndAddr) (leaf : m.leafOf (m.slotOf addr) = some e) :
    userAddrToKernel k image m addr = .ok (pteCommonPpnToAddr e + (addr &&& 0xFFF), m) := by
  rw [userAddrToKernel, if_neg (BitVec.not_lt.mpr user), if_neg nonzero, if_neg (BitVec.not_lt.mpr below),
    walk_found leaf]

end NoPage

/-- What the other tasks see of memory is unchanged: their mappings, and the bytes behind them. -/
structure Isolated (dirs : Finset Word) (m m' : Memory) : Prop where
  leaf : ∀ s ∈ leafSlots dirs, s.1 ≠ m.pageDirTable → m'.leafOf s = m.leafOf s
  byte : ∀ s ∈ leafSlots dirs, s.1 ≠ m.pageDirTable → ∀ e, m.leafOf s = some e → ∀ o, o < 4096 →
    byteAt (m'.phys (pageTarget e)) o = byteAt (m.phys (pageTarget e)) o

namespace Isolated

variable {dirs : Finset Word} {a b c : Memory}

theorem refl (dirs : Finset Word) (m : Memory) : Isolated dirs m m := ⟨fun _ _ _ => rfl, fun _ _ _ _ _ _ _ => rfl⟩

/-- After a part that other tasks do not see, the rest decides. -/
theorem iff_of_left (first : Isolated dirs a b) (control : SameControl a b) :
    Isolated dirs a c ↔ Isolated dirs b c := by
  constructor
  · intro whole
    refine ⟨fun s hs other => ?_, fun s hs other e leaf o ho => ?_⟩
    · rw [control.pageDirTable] at other
      rw [whole.leaf s hs other, first.leaf s hs other]
    · rw [control.pageDirTable] at other
      rw [first.leaf s hs other] at leaf
      rw [whole.byte s hs other e leaf o ho, first.byte s hs other e leaf o ho]
  · intro rest
    refine ⟨fun s hs other => ?_, fun s hs other e leaf o ho => ?_⟩
    · rw [rest.leaf s hs (by rw [control.pageDirTable]; exact other), first.leaf s hs other]
    · rw [rest.byte s hs (by rw [control.pageDirTable]; exact other) e (by rw [first.leaf s hs other]; exact leaf) o ho,
        first.byte s hs other e leaf o ho]

end Isolated

/-- The page at a leaf slot, if there is one, is mapped nowhere else. -/
def Unshared (dirs : Finset Word) (m : Memory) (s : LeafSlot) : Prop :=
  ∀ e, m.leafOf s = some e → ∀ t ∈ leafSlots dirs, m.view.leafTarget t = some (pageTarget e) → t = s

section Verify

variable {pool : Pool} {dirs : Finset Word} {held : Finset Nat} {m m' : Memory} {address : Word}

theorem unshared_of_one {s : LeafSlot} {e : Word} {f : Nat} (wf : Wf pool dirs held m) (hs : s ∈ leafSlots dirs)
    (leaf : m.leafOf s = some e) (page : pageTarget e = framePage f) (one : m.memMap f = 1) : Unshared dirs m s := by
  intro e' leaf' t ht target
  rw [leaf] at leaf'
  cases leaf'
  rw [page] at target
  exact wf.counted.leaf_unique ht hs target (page ▸ Counted.leafTarget_of_leaf (v := m.view) leaf) one

/-- What `write_verify` and `verify_area` may do. -/
structure Verified (pool : Pool) (dirs : Finset Word) (held : Finset Nat) (m m' : Memory) : Prop where
  wf : Wf pool dirs held m'
  isolated : Isolated dirs m m'
  unshared : ∀ s ∈ leafSlots dirs, Unshared dirs m s → Unshared dirs m' s
  control : SameControl m m'

theorem Verified.refl (wf : Wf pool dirs held m) : Verified pool dirs held m m :=
  ⟨wf, .refl dirs m, fun _ _ h => h, .refl m⟩

theorem Verified.trans {a b c : Memory} (first : Verified pool dirs held a b) (second : Verified pool dirs held b c) :
    Verified pool dirs held a c :=
  ⟨second.wf, (first.isolated.iff_of_left first.control).mpr second.isolated,
    fun s hs h => second.unshared s hs (first.unshared s hs h), first.control.trans second.control⟩

theorem writeVerify_absent (absent : m.leafOf (m.slotOf address) = none) : writeVerify m address = .ok m := by
  simp only [writeVerify, pageOf_ppnToAddr]
  split
  · rfl
  · rename_i valid
    have table : Pte.v (m.dirs m.pageDirTable (getPageDirId address)) = true := by simpa using valid
    rw [Memory.slotOf, leafOf_some (tableOf_valid table)] at absent
    split at absent
    · cases absent
    · rename_i entry
      have invalid := Bool.not_eq_true _ ▸ entry
      simp only [invalid, Bool.false_and, Bool.false_eq_true, if_false]

theorem writeVerify_writable {e : Word} (leaf : m.leafOf (m.slotOf address) = some e) (writable : Pte.w e = true) :
    writeVerify m address = .ok m := by
  obtain ⟨table, entry, here⟩ := leafOf_slotOf leaf
  simp only [writeVerify, pageOf_ppnToAddr, table, here, writable, Bool.not_true, Bool.and_false,
    Bool.false_eq_true, if_false]

theorem writeVerify_cases (wf : Wf pool dirs held m) (run : writeVerify m address = .ok m') :
    Verified pool dirs held m m' ∧ Unshared dirs m' (m.slotOf address) := by
  have hs := slotOf_mem wf address
  cases leaf : m.leafOf (m.slotOf address) with
  | none =>
    rw [writeVerify_absent leaf] at run
    cases run
    refine ⟨.refl wf, fun e leaf' => ?_⟩
    rw [leaf] at leaf'
    cases leaf'
  | some e =>
    obtain ⟨f, has, page, _⟩ := wf.leaf_frame hs leaf
    cases writable : Pte.w e with
    | true =>
      rw [writeVerify_writable leaf writable] at run
      cases run
      exact ⟨.refl wf, unshared_of_one wf hs leaf page (wf.counted.writeOne _ hs e f leaf writable page)⟩
    | false =>
      obtain ⟨_, hi, hj⟩ := mem_leafSlots.mp hs
      rw [writeVerify_eq leaf writable] at run
      rcases wf.un_wp_page (mem_tableSlots.mpr ⟨wf.current, hi⟩) (tableOf_valid (leafOf_slotOf leaf).1) hj leaf page
        with ⟨failed, _⟩ | ⟨g, m₁, done, wf', broken, _⟩
      · rw [failed] at run
        cases run
      · rw [done] at run
        cases run
        obtain ⟨e', leaf', page', _⟩ := broken.leaf
        have own := unshared_of_one wf' hs leaf' page' broken.one
        refine ⟨⟨wf', ?_, ?_, broken.control⟩, own⟩
        · refine ⟨fun s hs' other => ?_, fun s hs' other e₁ leaf₁ o _ => ?_⟩
          · exact broken.others s hs' (fun same => other (same ▸ rfl))
          · obtain ⟨f₁, _, page₁, _⟩ := wf.leaf_frame hs' leaf₁
            rw [page₁, broken.data f₁ (wf.isData_of_leaf hs' leaf₁ page₁)]
        · intro s hs' before e₁ leaf₁ t ht target
          by_cases here : s = m.slotOf address
          · subst here
            exact own e₁ leaf₁ t ht target
          · have old : m.leafOf s = some e₁ := (broken.others s hs' here).symm.trans leaf₁
            by_cases changed : t = m.slotOf address
            · subst changed
              rw [show m'.view.leafTarget (m.slotOf address) = some (pageTarget e') from
                Counted.leafTarget_of_leaf (v := m'.view) leaf'] at target
              refine (own e' leaf' s hs' ?_).symm
              rw [Counted.leafTarget_of_leaf (v := m'.view) leaf₁, target]
            · refine before e₁ old t ht ?_
              rw [← target]
              simp only [View.leafTarget, Memory.view, broken.others t ht changed]

theorem next_page (start : Word) (n : Nat) :
    start + BitVec.ofNat 64 (4096 * (n + 1)) = start + 4096 + BitVec.ofNat 64 (4096 * n) := by
  rw [Nat.mul_succ, Nat.add_comm, BitVec.ofNat_add, ← BitVec.add_assoc]
  rfl

theorem verifyPages_cases {start : Word} {count : Nat} (wf : Wf pool dirs held m)
    (run : verifyPages m start count = .ok m') :
    Verified pool dirs held m m' ∧
      ∀ n, n < count → Unshared dirs m' (m.slotOf (start + BitVec.ofNat 64 (4096 * n))) := by
  induction count generalizing m start with
  | zero =>
    cases run
    exact ⟨.refl wf, fun n inside => absurd inside (by omega)⟩
  | succ count ih =>
    rw [verifyPages] at run
    cases first : writeVerify m start with
    | error stop =>
      rw [first] at run
      cases run
    | ok m₁ =>
      rw [first] at run
      obtain ⟨verified, own⟩ := writeVerify_cases wf first
      obtain ⟨rest, later⟩ := ih verified.wf run
      refine ⟨verified.trans rest, ?_⟩
      intro n inside
      cases n with
      | zero =>
        rw [Nat.mul_zero, BitVec.add_zero]
        exact rest.unshared _ (slotOf_mem wf start) own
      | succ n =>
        have slot : m.slotOf (start + BitVec.ofNat 64 (4096 * (n + 1))) =
            m₁.slotOf (start + 4096 + BitVec.ofNat 64 (4096 * n)) := by
          rw [next_page, Memory.slotOf, Memory.slotOf, verified.control.pageDirTable]
        rw [slot]
        exact later n (by omega)

/-- `verify_area` reaches every page of the range unless the length overflows. -/
theorem verifyArea_cases {addr : Word} {size : BitVec 32} (wf : Wf pool dirs held m)
    (run : verifyArea m addr size = .ok m') :
    Verified pool dirs held m m' ∧ (size.toNat + addr.toNat % 4096 < 2 ^ 31 →
      ∀ i, i < size.toNat → Unshared dirs m' (m.slotOf (addr + BitVec.ofNat 64 i))) := by
  obtain ⟨verified, pages⟩ := verifyPages_cases wf run
  refine ⟨verified, fun fits i inside => ?_⟩
  have sum : (size + (addr &&& (pageSize - 1)).setWidth 32).toNat = size.toNat + addr.toNat % 4096 := by
    rw [BitVec.toNat_add, BitVec.toNat_setWidth, show (pageSize - 1 : Word) = 0xFFF from rfl, toNat_and_mask]
    omega
  have whole : positivePart (size + (addr &&& (pageSize - 1)).setWidth 32) = size.toNat + addr.toNat % 4096 := by
    rw [positivePart, if_neg, sum]
    rw [BitVec.msb_eq_decide, sum, decide_eq_true_eq]
    omega
  rw [whole] at pages
  rw [slotOf_congr m (page_in_range addr (by omega))]
  exact pages _ (by omega)

end Verify

end K210Linux.Kernel
