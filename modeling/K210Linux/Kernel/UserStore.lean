import K210Linux.Kernel.UserFault
import K210Linux.Kernel.Exit

namespace K210Linux.Kernel

open K210Linux.Mm

section Bytes

theorem getLsbD_byteMask (k : Nat) : (0xFF : Word).getLsbD k = decide (k < 8) := by
  rw [show (0xFF : Word) = (BitVec.allOnes 8).setWidth 64 by decide]
  simp only [BitVec.getLsbD_setWidth, BitVec.getLsbD_allOnes]
  by_cases low : k < 8
  · simp only [low, decide_true, show k < 64 by omega, Bool.and_true]
  · simp only [low, decide_false, Bool.and_false]

theorem setByte_byte (w : Word) {i j : Nat} (b : Byte) (hi : i < 8) (hj : j < 8) :
    ((setByte w i b) >>> (8 * j)).setWidth 8 = if j = i then b else (w >>> (8 * j)).setWidth 8 := by
  apply BitVec.eq_of_getLsbD_eq
  intro k hk
  simp only [setByte, BitVec.getLsbD_setWidth, BitVec.getLsbD_ushiftRight, BitVec.getLsbD_or, BitVec.getLsbD_and,
    BitVec.getLsbD_not, BitVec.getLsbD_shiftLeft, getLsbD_byteMask, hk, show 8 * j + k < 64 by omega, decide_true,
    Bool.true_and]
  by_cases here : j = i
  · subst here
    rw [if_pos rfl, show 8 * j + k - 8 * j = k by omega]
    simp only [hk, show ¬ 8 * j + k < 8 * j by omega, show k < 64 by omega, decide_true, decide_false, Bool.not_false,
      Bool.not_true, Bool.and_false, Bool.false_or, Bool.true_and]
  · rw [if_neg here]
    simp only [BitVec.getLsbD_setWidth, BitVec.getLsbD_ushiftRight, hk, decide_true, Bool.true_and]
    by_cases below : j < i
    · simp only [show 8 * j + k < 8 * i by omega, decide_true, Bool.not_true, Bool.false_and, Bool.not_false,
        Bool.and_true, Bool.or_false]
    · have high : ¬ 8 * j + k - 8 * i < 8 := by omega
      have zero : b.getLsbD (8 * j + k - 8 * i) = false := BitVec.getLsbD_of_ge b _ (by omega)
      simp only [high, zero, decide_false, Bool.and_false, Bool.not_false, Bool.and_true, Bool.or_false]

theorem byteAt_setByte (words : Nat → Word) (o k : Nat) (b : Byte) :
    byteAt (Function.update words (o / 8) (setByte (words (o / 8)) (o % 8) b)) k =
      if k = o then b else byteAt words k := by
  unfold byteAt
  by_cases same : k / 8 = o / 8
  · rw [same, Function.update_self, setByte_byte _ _ (by omega) (by omega)]
    exact if_congr (by omega) rfl rfl
  · rw [Function.update_of_ne same, if_neg]
    rintro rfl
    exact same rfl

theorem byteAt_storeByte (m : Memory) (addr : Word) (b : Byte) (p o : Nat) (small : o < 4096) :
    byteAt ((storeByte m addr b).phys p) o =
      if 4096 * p + o = addr.toNat then b else byteAt (m.phys p) o := by
  have page : pageOf addr = addr.toNat / 4096 := by
    simp only [pageOf, BitVec.toNat_ushiftRight, Nat.shiftRight_eq_div_pow, Nat.reducePow]
  unfold storeByte Memory.setEntry
  dsimp only
  rw [toNat_and_mask]
  by_cases here : p = pageOf addr
  · rw [here, Function.update_self, byteAt_setByte]
    exact if_congr (by omega) rfl rfl
  · rw [Function.update_of_ne here, if_neg (by omega)]

end Bytes

section Store

variable {pool : Pool} {dirs : Finset Word} {held : Finset Nat} {m : Memory} {addr e : Word}

theorem pageOf_translated {f : Nat} (bound : f < pagingPages) (page : pageTarget e = framePage f) (addr : Word) :
    pageOf (pteCommonPpnToAddr e + (addr &&& 0xFFF)) = framePage f ∧
      ((pteCommonPpnToAddr e + (addr &&& 0xFFF)) &&& 0xFFF).toNat = addr.toNat % 4096 := by
  have base := toNat_frameAddr bound
  have size : f < 3840 := bound
  rw [ppnToAddr_of_target bound page]
  have sum : (frameAddr f + (addr &&& 0xFFF)).toNat = 0x80100000 + 4096 * f + addr.toNat % 4096 := by
    rw [BitVec.toNat_add, toNat_and_mask, base]
    omega
  refine ⟨pageOf_eq (addr.toNat % 4096) sum (by omega), ?_⟩
  rw [toNat_and_mask, sum]
  omega

/-- A byte stored through a leaf changes that byte of the frame and nothing else. -/
structure ByteStored (pool : Pool) (dirs : Finset Word) (held : Finset Nat) (f o : Nat) (b : Byte) (m m' : Memory) :
    Prop where
  wf : Wf pool dirs held m'
  leaf : ∀ s ∈ leafSlots dirs, m'.leafOf s = m.leafOf s
  byte : ∀ g k, byteAt (m'.phys (framePage g)) k =
    if g = f ∧ k = o then b else byteAt (m.phys (framePage g)) k
  count : m'.memMap = m.memMap
  control : SameControl m m'

theorem store_byte {f : Nat} (wf : Wf pool dirs held m) (leaf : m.leafOf (m.slotOf addr) = some e)
    (has : pool.Has f) (page : pageTarget e = framePage f) (b : Byte) :
    ByteStored pool dirs held f (addr.toNat % 4096) b m
      (storeByte m (pteCommonPpnToAddr e + (addr &&& 0xFFF)) b) := by
  obtain ⟨target, offset⟩ := pageOf_translated has.lt page addr
  have data := wf.isData_of_leaf (slotOf_mem wf addr) leaf page
  have stored : storeByte m (pteCommonPpnToAddr e + (addr &&& 0xFFF)) b =
      { m with phys := Function.update m.phys (framePage f) (Function.update (m.phys (framePage f))
        (addr.toNat % 4096 / 8) (setByte (m.phys (framePage f) (addr.toNat % 4096 / 8)) (addr.toNat % 4096 % 8) b)) } := by
    simp only [storeByte, target, offset, Memory.setEntry]
  obtain ⟨wf', leaf'⟩ := wf.write_pages (Function.update m.phys (framePage f) (Function.update (m.phys (framePage f))
    (addr.toNat % 4096 / 8) (setByte (m.phys (framePage f) (addr.toNat % 4096 / 8)) (addr.toNat % 4096 % 8) b))) (by
      intro s hs p table
      have other : p ≠ framePage f := by
        rintro rfl
        exact data.2 s hs table
      exact Function.update_of_ne other _ _)
  rw [stored]
  refine ⟨wf', leaf', fun g k => ?_, rfl, ⟨rfl, rfl, rfl⟩⟩
  by_cases here : g = f
  · subst here
    simp only [Function.update_self, byteAt_setByte, true_and]
  · have other : framePage g ≠ framePage f := fun same => here (framePage_inj same)
    simp only [Function.update_of_ne other, here, false_and, if_false]

end Store

/-- The byte that a list of stores leaves at offset `o` of frame `g`, if any of them goes there. -/
def lastStored (m : Memory) (g o : Nat) : List (Word × Byte) → Option Byte
  | [] => none
  | (addr, b) :: stores =>
    match lastStored m g o stores with
    | some later => some later
    | none =>
      if m.view.leafTarget (m.slotOf addr) = some (framePage g) ∧ addr.toNat % 4096 = o then some b else none

/-- Another task maps frame `g`. -/
def SeenByOthers (dirs : Finset Word) (m : Memory) (g : Nat) : Prop :=
  ∃ s ∈ leafSlots dirs, s.1 ≠ m.pageDirTable ∧ m.view.leafTarget s = some (framePage g)

/-- The stores of consecutive bytes. -/
def byteStores (buf : Word) : List Byte → List (Word × Byte)
  | [] => []
  | b :: bytes => (buf, b) :: byteStores (buf + 1) bytes

/-- What the stores of a call do: mappings are only added, and a frame that another task maps holds the
    last byte stored at each place. -/
structure Stored (pool : Pool) (dirs : Finset Word) (held : Finset Nat) (stores : List (Word × Byte))
    (m m' : Memory) : Prop where
  wf : Wf pool dirs held m'
  kept : ∀ s ∈ leafSlots dirs, ∀ e, m.leafOf s = some e → m'.leafOf s = some e
  others : ∀ s ∈ leafSlots dirs, s.1 ≠ m.pageDirTable → m'.leafOf s = m.leafOf s
  fresh : ∀ s ∈ leafSlots dirs, m.leafOf s = none → ∀ g, m'.view.leafTarget s = some (framePage g) → m.memMap g = 0
  byte : ∀ g, SeenByOthers dirs m g → ∀ o, o < 4096 →
    byteAt (m'.phys (framePage g)) o = (lastStored m g o stores).getD (byteAt (m.phys (framePage g)) o)
  count : ∀ g, m.memMap g ≠ 0 → m'.memMap g = m.memMap g
  control : SameControl m m'

section Stores

variable {pool : Pool} {dirs : Finset Word} {held : Finset Nat} {k : Process} {image : Word → Nat → Word}
variable {m m₁ m' : Memory} {addr : Word} {b : Byte} {stores : List (Word × Byte)}

theorem lastStored_congr (same : ∀ addr g, SeenByOthers dirs m g →
      (m₁.view.leafTarget (m₁.slotOf addr) = some (framePage g) ↔
        m.view.leafTarget (m.slotOf addr) = some (framePage g)))
    {g : Nat} (seen : SeenByOthers dirs m g) (o : Nat) : lastStored m₁ g o stores = lastStored m g o stores := by
  induction stores with
  | nil => rfl
  | cons store stores ih =>
    obtain ⟨addr, b⟩ := store
    simp only [lastStored, ih, same addr g seen]

theorem SeenByOthers.in_use {g : Nat} (wf : Wf pool dirs held m) (seen : SeenByOthers dirs m g) :
    pool.Has g ∧ m.IsData dirs g := by
  obtain ⟨s, hs, _, target⟩ := seen
  obtain ⟨e, leaf, page⟩ := Counted.leaf_of_leafTarget target
  exact ⟨wf.counted.pool_of_leaf hs target, wf.isData_of_leaf hs leaf page⟩

theorem Stored.nil (wf : Wf pool dirs held m) : Stored pool dirs held [] m m := by
  refine ⟨wf, fun _ _ _ h => h, fun _ _ _ => rfl, ?_, fun _ _ _ _ => rfl, fun _ _ => rfl, .refl m⟩
  intro s _ none g target
  rw [View.leafTarget, show m.view.leaf s = Option.none from none] at target
  cases target

/-- Bringing in a page is no store. -/
theorem Stored.of_present (wf : Wf pool dirs held m) (present : Present pool dirs held (m.slotOf addr) m m') :
    Stored pool dirs held [] m m' := by
  rcases present with ⟨rfl, _⟩ | ⟨absent, f, positive, bound, free, wf', mapped⟩
  · exact .nil wf
  · refine ⟨wf', ?_, ?_, ?_, ?_, mapped.count, mapped.control⟩
    · intro s hs e leaf
      rw [mapped.others s hs, leaf]
      rintro rfl
      rw [absent] at leaf
      cases leaf
    · intro s hs other
      apply mapped.others s hs
      rintro rfl
      exact other rfl
    · intro s hs none g target
      by_cases here : s = m.slotOf addr
      · subst here
        obtain ⟨e, leaf, page, _⟩ := mapped.leaf
        rw [show m'.view.leafTarget (m.slotOf addr) = some (pageTarget e) from
          Counted.leafTarget_of_leaf (v := m'.view) leaf, page] at target
        rw [← framePage_inj (Option.some.inj target)]
        exact free
      · rw [View.leafTarget, show m'.view.leaf s = m.leafOf s from mapped.others s hs here, none] at target
        cases target
    · intro g seen o _
      obtain ⟨has, data⟩ := seen.in_use wf
      rw [mapped.data g has.lt data]
      rfl

/-- Which shared bytes an address leads to is the same after some stores. -/
theorem Stored.target_iff (wf : Wf pool dirs held m) (stored : Stored pool dirs held stores m m₁) (addr : Word)
    (g : Nat) (seen : SeenByOthers dirs m g) :
    m₁.view.leafTarget (m₁.slotOf addr) = some (framePage g) ↔ m.view.leafTarget (m.slotOf addr) = some (framePage g) := by
  have hs := slotOf_mem wf addr
  have slot : m₁.slotOf addr = m.slotOf addr := by
    rw [Memory.slotOf, Memory.slotOf, stored.control.pageDirTable]
  rw [slot]
  cases leaf : m.leafOf (m.slotOf addr) with
  | some e =>
    rw [Counted.leafTarget_of_leaf (v := m.view) leaf,
      Counted.leafTarget_of_leaf (v := m₁.view) (stored.kept _ hs e leaf)]
  | none =>
    constructor
    · intro target
      exact absurd (stored.fresh _ hs leaf g target) (seen.in_use wf).2.1
    · intro target
      rw [View.leafTarget, show m.view.leaf (m.slotOf addr) = none from leaf] at target
      cases target

theorem lastStored_append (m : Memory) (g o : Nat) (first second : List (Word × Byte)) :
    lastStored m g o (first ++ second) = (lastStored m g o second).or (lastStored m g o first) := by
  induction first with
  | nil =>
    rw [List.nil_append, lastStored, Option.or_none]
  | cons store first ih =>
    obtain ⟨addr, b⟩ := store
    simp only [List.cons_append, lastStored, ih]
    cases lastStored m g o second with
    | some later => rfl
    | none => rfl

theorem Stored.append {first second : List (Word × Byte)} (wf : Wf pool dirs held m)
    (one : Stored pool dirs held first m m₁) (two : Stored pool dirs held second m₁ m') :
    Stored pool dirs held (first ++ second) m m' := by
  refine ⟨two.wf, fun s hs e leaf => two.kept s hs e (one.kept s hs e leaf), ?_, ?_, ?_, ?_,
    one.control.trans two.control⟩
  · intro s hs other
    rw [two.others s hs (by rw [one.control.pageDirTable]; exact other), one.others s hs other]
  · intro s hs none g target
    cases leaf : m₁.leafOf s with
    | none =>
      by_contra inUse
      rw [← one.count g inUse] at inUse
      exact inUse (two.fresh s hs leaf g target)
    | some e =>
      rw [Counted.leafTarget_of_leaf (v := m'.view) (two.kept s hs e leaf)] at target
      exact one.fresh s hs none g (target ▸ Counted.leafTarget_of_leaf (v := m₁.view) leaf)
  · intro g seen o ho
    have seen₁ : SeenByOthers dirs m₁ g := by
      obtain ⟨s, hs, other, target⟩ := seen
      refine ⟨s, hs, by rw [one.control.pageDirTable]; exact other, ?_⟩
      rw [View.leafTarget, show m₁.view.leaf s = m.view.leaf s from one.others s hs other]
      exact target
    rw [two.byte g seen₁ o ho, one.byte g seen o ho, lastStored_append,
      lastStored_congr (fun addr g => one.target_iff wf addr g) seen]
    cases lastStored m g o second with
    | some later => rfl
    | none => rfl
  · intro g inUse
    rw [two.count g (by rw [one.count g inUse]; exact inUse), one.count g inUse]

theorem ByteStored.stored {e : Word} {f : Nat} (leaf : m.leafOf (m.slotOf addr) = some e)
    (page : pageTarget e = framePage f) (one : ByteStored pool dirs held f (addr.toNat % 4096) b m m') :
    Stored pool dirs held [(addr, b)] m m' := by
  refine ⟨one.wf, ?_, fun s hs _ => one.leaf s hs, ?_, ?_, fun g _ => by rw [one.count], one.control⟩
  · intro s hs e' leaf'
    rw [one.leaf s hs, leaf']
  · intro s hs none g target
    rw [View.leafTarget, show m'.view.leaf s = m.leafOf s from one.leaf s hs, none] at target
    cases target
  · intro g _ o _
    have target : m.view.leafTarget (m.slotOf addr) = some (framePage f) :=
      page ▸ Counted.leafTarget_of_leaf (v := m.view) leaf
    rw [one.byte g o]
    simp only [lastStored, target, Option.some.injEq]
    by_cases here : g = f ∧ o = addr.toNat % 4096
    · rw [if_pos here, if_pos ⟨by rw [here.1], here.2.symm⟩]
      rfl
    · rw [if_neg here, if_neg (fun both => here ⟨(framePage_inj both.1).symm, both.2.symm⟩)]
      rfl

theorem put_fs_byte (wf : Wf pool dirs held m) (current : m.pageDirTable = (k.structs k.current).pageDirTable)
    (mode : k.fsIsKernel = false) (user : userStartAddr ≤ addr) (run : putFsByte k image m b addr = .ok m') :
    addr ≤ userEndAddr ∧ Stored pool dirs held [(addr, b)] m m' := by
  rw [putFsByte, mode, if_neg Bool.false_ne_true] at run
  cases found : userAddrToKernel k image m addr with
  | error stop =>
    rw [found] at run
    cases run
  | ok result =>
    obtain ⟨a, m₁⟩ := result
    rw [found] at run
    cases run
    obtain ⟨wf₁, present, below, e, leaf, rfl⟩ := user_addr_to_kernel wf current user found
    have opened := Stored.of_present wf present
    have slot : m₁.slotOf addr = m.slotOf addr := by
      rw [Memory.slotOf, Memory.slotOf, opened.control.pageDirTable]
    rw [← slot] at leaf
    obtain ⟨f, has, page, _⟩ := wf₁.leaf_frame (slotOf_mem wf₁ addr) leaf
    exact ⟨below, opened.append wf ((store_byte wf₁ leaf has page b).stored leaf page)⟩

theorem user_next (user : userStartAddr ≤ addr) (below : addr ≤ userEndAddr) : userStartAddr ≤ addr + 1 := by
  have first : userStartAddr.toNat = 0xC0000000 := rfl
  have last : userEndAddr.toNat = 0x1BFFFFFFF := rfl
  rw [BitVec.le_def] at user below ⊢
  rw [last] at below
  rw [first] at user ⊢
  rw [BitVec.toNat_add, show (1 : Word).toNat = 1 from rfl]
  omega

theorem put_fs_bytes {bytes : List Byte} (wf : Wf pool dirs held m)
    (current : m.pageDirTable = (k.structs k.current).pageDirTable) (mode : k.fsIsKernel = false)
    (user : userStartAddr ≤ addr) (run : putFsBytes k image m addr bytes = .ok m') :
    Stored pool dirs held (byteStores addr bytes) m m' := by
  induction bytes generalizing m addr with
  | nil =>
    cases run
    exact .nil wf
  | cons b bytes ih =>
    rw [putFsBytes] at run
    cases first : putFsByte k image m b addr with
    | error stop =>
      rw [first] at run
      cases run
    | ok m₁ =>
      rw [first] at run
      obtain ⟨below, one⟩ := put_fs_byte wf current mode user first
      have rest := ih one.wf (one.control.pageDirTable.trans current) (user_next user below) run
      exact one.append wf rest

/-- Stores at and after an address, within the page it is mapped to. -/
theorem store_within {e : Word} {bytes : List Byte} (wf : Wf pool dirs held m)
    (leaf : m.leafOf (m.slotOf addr) = some e) (room : addr.toNat % 4096 + bytes.length ≤ 4096) :
    Stored pool dirs held (byteStores addr bytes) m
      (storeBytes m (pteCommonPpnToAddr e + (addr &&& 0xFFF)) bytes) := by
  induction bytes generalizing m addr with
  | nil => exact .nil wf
  | cons b bytes ih =>
    obtain ⟨f, has, page, _⟩ := wf.leaf_frame (slotOf_mem wf addr) leaf
    have one := store_byte wf leaf has page b
    have first := one.stored leaf page
    cases bytes with
    | nil => exact first
    | cons next bytes =>
      rw [List.length_cons, List.length_cons] at room
      have low : (addr + 1).toNat = addr.toNat + 1 := by
        rw [BitVec.toNat_add, show (1 : Word).toNat = 1 from rfl]
        omega
      have sum : pteCommonPpnToAddr e + (addr &&& 0xFFF) + 1 = pteCommonPpnToAddr e + ((addr + 1) &&& 0xFFF) := by
        have offset : (addr &&& 0xFFF) + 1 = (addr + 1) &&& 0xFFF := by
          apply BitVec.eq_of_toNat_eq
          rw [BitVec.toNat_add, toNat_and_mask, toNat_and_mask, low, show (1 : Word).toNat = 1 from rfl]
          omega
        rw [BitVec.add_assoc, offset]
      have page' : (addr + 1) >>> 12 = addr >>> 12 := by
        apply BitVec.eq_of_toNat_eq
        rw [BitVec.toNat_ushiftRight, BitVec.toNat_ushiftRight, Nat.shiftRight_eq_div_pow, Nat.shiftRight_eq_div_pow,
          low]
        omega
      have slot : (storeByte m (pteCommonPpnToAddr e + (addr &&& 0xFFF)) b).slotOf (addr + 1) = m.slotOf addr := by
        rw [slotOf_congr _ page', Memory.slotOf, Memory.slotOf, one.control.pageDirTable]
      rw [storeBytes, sum]
      refine first.append wf (ih one.wf ?_ ?_)
      · rw [slot, one.leaf _ (slotOf_mem wf addr), leaf]
      · rw [List.length_cons, low]
        omega

theorem aligned_of_translated {e : Word} {f : Nat} (bound : f < pagingPages) (page : pageTarget e = framePage f)
    (aligned : (pteCommonPpnToAddr e + (addr &&& 0xFFF)) &&& 3 = 0) : addr.toNat % 4 = 0 := by
  have offset := (pageOf_translated bound page addr).2
  have low := congrArg BitVec.toNat aligned
  rw [BitVec.toNat_and, show (3 : Word).toNat = 2 ^ 2 - 1 from rfl, Nat.and_two_pow_sub_one_eq_mod] at low
  rw [toNat_and_mask] at offset
  rw [show (0 : Word).toNat = 0 from rfl] at low
  omega

theorem put_fs_long {val : BitVec 32} (wf : Wf pool dirs held m)
    (current : m.pageDirTable = (k.structs k.current).pageDirTable) (mode : k.fsIsKernel = false)
    (user : userStartAddr ≤ addr) (run : putFsLong k image m val addr = .ok m') :
    addr ≤ userEndAddr ∧ addr.toNat % 4 = 0 ∧ Stored pool dirs held (byteStores addr (longBytes val)) m m' := by
  rw [putFsLong, mode, if_neg Bool.false_ne_true] at run
  cases found : userAddrToKernel k image m addr with
  | error stop =>
    rw [found] at run
    cases run
  | ok result =>
    obtain ⟨a, m₁⟩ := result
    rw [found] at run
    simp only [Bind.bind, Except.bind] at run
    obtain ⟨wf₁, present, below, e, leaf, rfl⟩ := user_addr_to_kernel wf current user found
    have opened := Stored.of_present wf present
    have slot : m₁.slotOf addr = m.slotOf addr := by
      rw [Memory.slotOf, Memory.slotOf, opened.control.pageDirTable]
    rw [← slot] at leaf
    obtain ⟨f, has, page, _⟩ := wf₁.leaf_frame (slotOf_mem wf₁ addr) leaf
    split at run
    · cases run
    · rename_i aligned
      cases run
      have four := aligned_of_translated has.lt page (not_not.mp aligned)
      have length : (longBytes val).length = 4 := rfl
      have stored : Stored pool dirs held (byteStores addr (longBytes val)) m₁
          (storeBytes m₁ (pteCommonPpnToAddr e + (addr &&& 0xFFF)) (longBytes val)) :=
        store_within wf₁ leaf (by omega)
      exact ⟨below, four, opened.append wf stored⟩

theorem storeBytes_memMap (m : Memory) (addr : Word) (bytes : List Byte) :
    (storeBytes m addr bytes).memMap = m.memMap := by
  induction bytes generalizing m addr with
  | nil => rfl
  | cons b bytes ih =>
    rw [storeBytes, ih]
    rfl

/-- An aligned store to a page that is there goes through, and changes no counter. -/
theorem put_fs_long_runs {e : Word} (image : Word → Nat → Word) (val : BitVec 32) (wf : Wf pool dirs held m)
    (mode : k.fsIsKernel = false) (nonzero : m.pageDirTable ≠ 0) (user : userStartAddr ≤ addr)
    (below : addr ≤ userEndAddr) (aligned : addr.toNat % 4 = 0) (leaf : m.leafOf (m.slotOf addr) = some e) :
    ∃ m', putFsLong k image m val addr = .ok m' ∧
      Stored pool dirs held (byteStores addr (longBytes val)) m m' ∧ m'.memMap = m.memMap := by
  obtain ⟨f, has, page, _⟩ := wf.leaf_frame (slotOf_mem wf addr) leaf
  have low : (pteCommonPpnToAddr e + (addr &&& 0xFFF)) &&& 3 = 0 := by
    have offset := (pageOf_translated has.lt page addr).2
    rw [toNat_and_mask] at offset
    apply BitVec.eq_of_toNat_eq
    rw [BitVec.toNat_and, show (3 : Word).toNat = 2 ^ 2 - 1 from rfl, Nat.and_two_pow_sub_one_eq_mod,
      show (0 : Word).toNat = 0 from rfl]
    omega
  have length : (longBytes val).length = 4 := rfl
  refine ⟨_, ?_, store_within wf leaf (by omega), storeBytes_memMap _ _ _⟩
  rw [putFsLong, mode, if_neg Bool.false_ne_true, user_addr_present nonzero user below leaf]
  simp only [Bind.bind, Except.bind, low, ne_eq, not_true_eq_false, if_false]

/-- No store changes a byte that another task sees. -/
def Harmless (dirs : Finset Word) (m : Memory) (stores : List (Word × Byte)) : Prop :=
  ∀ g, SeenByOthers dirs m g → ∀ o, o < 4096 → ∀ b, lastStored m g o stores = some b →
    b = byteAt (m.phys (framePage g)) o

theorem Stored.isolated_iff (wf : Wf pool dirs held m) (stored : Stored pool dirs held stores m m') :
    Isolated dirs m m' ↔ Harmless dirs m stores := by
  constructor
  · rintro isolated g ⟨s, hs, other, target⟩ o ho b last
    obtain ⟨e, leaf, page⟩ := Counted.leaf_of_leafTarget target
    have same := isolated.byte s hs other e leaf o ho
    rw [page, stored.byte g ⟨s, hs, other, target⟩ o ho, last] at same
    exact same
  · intro harmless
    refine ⟨stored.others, fun s hs other e leaf o ho => ?_⟩
    obtain ⟨g, _, page, _⟩ := wf.leaf_frame hs leaf
    have seen : SeenByOthers dirs m g := ⟨s, hs, other, page ▸ Counted.leafTarget_of_leaf (v := m.view) leaf⟩
    rw [page, stored.byte g seen o ho]
    cases last : lastStored m g o stores with
    | none => rfl
    | some b => exact harmless g seen o ho b last

/-- Stores to pages of the task's own are harmless. -/
theorem harmless_of_unshared (own : ∀ w ∈ stores, Unshared dirs m (m.slotOf w.1)) :
    Harmless dirs m stores := by
  rintro g ⟨s, hs, other, target⟩ o _ b last
  induction stores with
  | nil => cases last
  | cons store stores ih =>
    obtain ⟨addr, b'⟩ := store
    have rest := ih (fun w member => own w (List.mem_cons_of_mem _ member))
    rw [lastStored] at last
    cases later : lastStored m g o stores with
    | some b₁ =>
      rw [later] at last
      cases last
      exact rest later
    | none =>
      rw [later] at last
      simp only at last
      split at last
      · rename_i here
        obtain ⟨e, leaf, page⟩ := Counted.leaf_of_leafTarget here.1
        have same := own _ List.mem_cons_self e leaf s hs (page ▸ target)
        exact absurd (congrArg Prod.fst same) other
      · cases last

end Stores

end K210Linux.Kernel
