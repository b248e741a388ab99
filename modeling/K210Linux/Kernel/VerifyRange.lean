import K210Linux.Kernel.UserContract

/-! What `verify_area` does to the pages of a range. -/

namespace K210Linux.Kernel

open K210Linux.Mm Outcome

/-- The page at a leaf slot is present and not writable. -/
def writeProtected (m : Memory) (s : LeafSlot) : Bool := (m.leafOf s).any fun e => !Pte.w e

/-- How many of `n` pages from `start` on are write-protected. -/
def protectedPages (m : Memory) (start : Word) : Nat → Nat
  | 0 => 0
  | n + 1 => (writeProtected m (m.slotOf start)).toNat + protectedPages m (start + 4096) n

theorem protectedPages_one (m : Memory) (start : Word) : protectedPages m start 1 ≤ 1 := by
  have bound := Bool.toNat_le (writeProtected m (m.slotOf start))
  rw [protectedPages, protectedPages]
  omega

/-- The pages at these slots became writable, and the others are as they were. -/
structure MadePrivate (dirs : Finset Word) (slots : Set LeafSlot) (m m' : Memory) : Prop where
  writable : ∀ s ∈ slots, writeProtected m' s = false
  leaf : ∀ s ∈ leafSlots dirs, s ∉ slots → m'.leafOf s = m.leafOf s
  content : ∀ s ∈ leafSlots dirs, s ∉ slots → ∀ e, m.leafOf s = some e → m'.phys (pageTarget e) = m.phys (pageTarget e)

section Private

variable {dirs : Finset Word} {a b c m m' : Memory} {first second slots : Set LeafSlot}

theorem writeProtected_congr {s : LeafSlot} (leaf : m'.leafOf s = m.leafOf s) :
    writeProtected m' s = writeProtected m s := by
  rw [writeProtected, leaf]
  rfl

theorem MadePrivate.trans (inside : first ⊆ leafSlots dirs) (one : MadePrivate dirs first a b)
    (two : MadePrivate dirs second b c) : MadePrivate dirs (first ∪ second) a c where
  writable := by
    intro s member
    by_cases later : s ∈ second
    · exact two.writable s later
    · have early := member.resolve_right later
      rw [writeProtected_congr (two.leaf s (inside early) later)]
      exact one.writable s early
  leaf := by
    intro s hs outside
    rw [Set.mem_union, not_or] at outside
    rw [two.leaf s hs outside.2, one.leaf s hs outside.1]
  content := by
    intro s hs outside e leaf
    rw [Set.mem_union, not_or] at outside
    have kept := (one.leaf s hs outside.1).trans leaf
    rw [two.content s hs outside.2 e kept, one.content s hs outside.1 e leaf]

/-- Pages that were made writable are not write-protected later on. -/
theorem MadePrivate.still (made : MadePrivate dirs slots m m') {s : LeafSlot} (hs : s ∈ leafSlots dirs) :
    (writeProtected m' s).toNat ≤ (writeProtected m s).toNat := by
  by_cases member : s ∈ slots
  · rw [made.writable s member]
    exact Nat.zero_le _
  · rw [writeProtected_congr (made.leaf s hs member)]

end Private

section Verify

variable {pool : Pool} {dirs : Finset Word} {held : Finset Nat} {m m' : Memory} {address start addr : Word}

theorem slotOf_of_control (control : SameControl m m') (address : Word) : m'.slotOf address = m.slotOf address := by
  rw [Memory.slotOf, control.pageDirTable]
  rfl

theorem protectedPages_le {slots : Set LeafSlot} (wf : Wf pool dirs held m) (control : SameControl m m')
    (made : MadePrivate dirs slots m m') (n : Nat) : protectedPages m' start n ≤ protectedPages m start n := by
  induction n generalizing start with
  | zero => exact Nat.le_refl _
  | succ n ih =>
    have here := made.still (slotOf_mem wf start)
    have rest : protectedPages m' (start + 4096) n ≤ protectedPages m (start + 4096) n := ih
    rw [protectedPages, protectedPages, slotOf_of_control control]
    omega

/-- `write_verify` takes at most one frame, and only for a write-protected page. -/
theorem write_verify (wf : Wf pool dirs held m)
    (enough : (writeProtected m (m.slotOf address)).toNat ≤ (freeFrames m).card) :
    ∃ m', writeVerify m address = .ok m' ∧ Wf pool dirs held m' ∧ SameControl m m' ∧
      MadePrivate dirs {m.slotOf address} m m' ∧
      (freeFrames m).card ≤ (freeFrames m').card + (writeProtected m (m.slotOf address)).toNat := by
  have hs := slotOf_mem wf address
  cases leaf : m.leafOf (m.slotOf address) with
  | none =>
    have plain : writeProtected m (m.slotOf address) = false := by
      rw [writeProtected, leaf]
      rfl
    refine ⟨m, writeVerify_absent leaf, wf, .refl m, ⟨?_, fun _ _ _ => rfl, fun _ _ _ _ _ => rfl⟩, Nat.le_add_right _ _⟩
    intro s member
    rw [Set.mem_singleton_iff.mp member, plain]
  | some e =>
    cases writable : Pte.w e with
    | true =>
      have plain : writeProtected m (m.slotOf address) = false := by
        rw [writeProtected, leaf, Option.any_some, writable]
        rfl
      refine ⟨m, writeVerify_writable leaf writable, wf, .refl m, ⟨?_, fun _ _ _ => rfl, fun _ _ _ _ _ => rfl⟩,
        Nat.le_add_right _ _⟩
      intro s member
      rw [Set.mem_singleton_iff.mp member, plain]
    | false =>
      have locked : writeProtected m (m.slotOf address) = true := by
        rw [writeProtected, leaf, Option.any_some, writable]
        rfl
      obtain ⟨f, has, page, _⟩ := wf.leaf_frame hs leaf
      obtain ⟨_, hi, hj⟩ := mem_leafSlots.mp hs
      rw [locked, Bool.toNat_true] at enough
      obtain ⟨h, free⟩ := Finset.card_pos.mp enough
      obtain ⟨below, nonzero, zero⟩ := mem_freeFrames.mp free
      rcases wf.un_wp_page (mem_tableSlots.mpr ⟨wf.current, hi⟩) (tableOf_valid (leafOf_slotOf leaf).1) hj leaf page
        with ⟨_, _, full⟩ | ⟨g, m', done, wf', broken, _⟩
      · exact absurd zero (full h (Nat.pos_of_ne_zero nonzero) below)
      · refine ⟨m', (writeVerify_eq leaf writable).trans done, wf', broken.control, ⟨?_, ?_, ?_⟩, ?_⟩
        · obtain ⟨e', leaf', _, open'⟩ := broken.leaf
          intro s member
          have here : m'.leafOf (m.slotOf address) = some e' := leaf'
          rw [Set.mem_singleton_iff.mp member, writeProtected, here, Option.any_some, open']
          rfl
        · intro s hs' outside
          exact broken.others s hs' (mt Set.mem_singleton_iff.mpr outside)
        · intro s hs' _ e₁ leaf₁
          obtain ⟨f₁, _, page₁, _⟩ := wf.leaf_frame hs' leaf₁
          rw [page₁, broken.data f₁ (wf.isData_of_leaf hs' leaf₁ page₁)]
        · have kept : freeFrames m ⊆ insert g (freeFrames m') := by
            intro i member
            obtain ⟨inside, nonzero, unused⟩ := mem_freeFrames.mp member
            have notOld : i ≠ f := by
              rintro rfl
              exact (wf.isData_of_leaf hs leaf page).1 unused
            by_cases new : i = g
            · exact Finset.mem_insert.mpr (.inl new)
            · exact Finset.mem_insert_of_mem (mem_freeFrames.mpr ⟨inside, nonzero, (broken.count i notOld new).trans unused⟩)
          rw [locked, Bool.toNat_true]
          exact (Finset.card_le_card kept).trans (Finset.card_insert_le _ _)

/-- The pages that the loop of `verify_area` reaches. -/
def pageSlots (m : Memory) (start : Word) (n : Nat) : Set LeafSlot :=
  {s | ∃ i, i < n ∧ s = m.slotOf (start + BitVec.ofNat 64 (4096 * i))}

theorem pageSlots_succ (m : Memory) (start : Word) (n : Nat) :
    pageSlots m start (n + 1) = {m.slotOf start} ∪ pageSlots m (start + 4096) n := by
  ext s
  constructor
  · rintro ⟨i, inside, rfl⟩
    cases i with
    | zero =>
      left
      rw [Nat.mul_zero, BitVec.add_zero]
      rfl
    | succ i => exact .inr ⟨i, by omega, by rw [next_page]⟩
  · rintro (here | ⟨i, inside, rfl⟩)
    · exact ⟨0, Nat.succ_pos n, by rw [Nat.mul_zero, BitVec.add_zero]; exact here⟩
    · exact ⟨i + 1, by omega, by rw [next_page]⟩

theorem verify_pages {n : Nat} (wf : Wf pool dirs held m) (enough : protectedPages m start n ≤ (freeFrames m).card) :
    ∃ m', verifyPages m start n = .ok m' ∧ MadePrivate dirs (pageSlots m start n) m m' := by
  induction n generalizing m start with
  | zero =>
    refine ⟨m, rfl, ?_, fun _ _ _ => rfl, fun _ _ _ _ _ => rfl⟩
    rintro s ⟨i, inside, _⟩
    omega
  | succ n ih =>
    rw [protectedPages] at enough
    obtain ⟨m₁, done, wf₁, control, made, frames⟩ := write_verify wf
      (by omega : (writeProtected m (m.slotOf start)).toNat ≤ (freeFrames m).card)
    have fewer : protectedPages m₁ (start + 4096) n ≤ protectedPages m (start + 4096) n :=
      protectedPages_le wf control made n
    obtain ⟨m', rest, later⟩ := ih wf₁
      (by omega : protectedPages m₁ (start + 4096) n ≤ (freeFrames m₁).card)
    have slots : pageSlots m₁ (start + 4096) n = pageSlots m (start + 4096) n := by
      unfold pageSlots
      simp only [slotOf_of_control control]
    have here : {m.slotOf start} ⊆ (leafSlots dirs : Set LeafSlot) := by
      intro s member
      rw [Set.mem_singleton_iff.mp member]
      exact slotOf_mem wf start
    refine ⟨m', ?_, ?_⟩
    · rw [verifyPages, bind_ok done]
      exact rest
    · rw [pageSlots_succ]
      rw [slots] at later
      exact made.trans here later

/-- The pages that overlap a range of bytes. -/
def rangeSlots (m : Memory) (addr : Word) (size : Nat) : Set LeafSlot :=
  {s | ∃ i, i < size ∧ s = m.slotOf (addr + BitVec.ofNat 64 i)}

theorem rangeSlots_eq (m : Memory) (addr : Word) {size : Nat} (small : size < 2 ^ 31) (some : 0 < size) :
    rangeSlots m addr size =
      pageSlots m (addr &&& ~~~ (pageSize - 1)) ((size + addr.toNat % 4096 + 4095) / 4096) := by
  ext s
  constructor
  · rintro ⟨i, inside, rfl⟩
    exact ⟨(addr.toNat % 4096 + i) / 4096, by omega, slotOf_congr m (page_in_range addr (by omega))⟩
  · rintro ⟨j, inside, rfl⟩
    have page : (addr.toNat % 4096 + (4096 * j - addr.toNat % 4096)) / 4096 = j := by omega
    refine ⟨4096 * j - addr.toNat % 4096, by omega, ?_⟩
    rw [slotOf_congr m (page_in_range addr (by omega)), page]

theorem verifyLength {size : BitVec 32} (fits : size.toNat + addr.toNat % 4096 < 2 ^ 31) :
    positivePart (size + (addr &&& (pageSize - 1)).setWidth 32) = size.toNat + addr.toNat % 4096 := by
  have sum : (size + (addr &&& (pageSize - 1)).setWidth 32).toNat = size.toNat + addr.toNat % 4096 := by
    rw [BitVec.toNat_add, BitVec.toNat_setWidth, show (pageSize - 1 : Word) = 0xFFF from rfl, toNat_and_mask]
    omega
  rw [positivePart, if_neg, sum]
  rw [BitVec.msb_eq_decide, sum, decide_eq_true_eq]
  omega

/-- `verify_area` returns, and makes the whole range private exactly when the offset does not make the length
    overflow, or there was nothing to do. -/
theorem verifyArea_private_iff {size : BitVec 32} (wf : Wf pool dirs held m) (some : 0 < size.toNat)
    (small : size.toNat < 2 ^ 31)
    (enough : protectedPages m (addr &&& ~~~ (pageSize - 1)) ((size.toNat + addr.toNat % 4096 + 4095) / 4096) ≤
      (freeFrames m).card) :
    ∃ m', verifyArea m addr size = .ok m' ∧
      (MadePrivate dirs (rangeSlots m addr size.toNat) m m' ↔ size.toNat + addr.toNat % 4096 < 2 ^ 31 ∨
        ∀ i, i < size.toNat → writeProtected m (m.slotOf (addr + BitVec.ofNat 64 i)) = false) := by
  by_cases fits : size.toNat + addr.toNat % 4096 < 2 ^ 31
  · obtain ⟨m', run, made⟩ := verify_pages wf enough
    refine ⟨m', ?_, ?_⟩
    · rw [verifyArea, verifyLength fits]
      exact run
    · rw [rangeSlots_eq m addr small some]
      exact iff_of_true made (.inl fits)
  · have positive : ¬ size.msb = true := by
      rw [BitVec.msb_eq_decide, decide_eq_true_eq]
      omega
    refine ⟨m, verifyArea_overflow positive fits, ?_⟩
    constructor
    · intro made
      right
      intro i inside
      exact made.writable _ ⟨i, inside, rfl⟩
    · rintro (bad | clear)
      · exact absurd bad fits
      · refine ⟨?_, fun _ _ _ => rfl, fun _ _ _ _ _ => rfl⟩
        rintro s ⟨i, inside, rfl⟩
        exact clear i inside

end Verify

section Example

/-- Right after `fork` the first page is shared; one byte of it is verified. -/
theorem forked_byte_private : ∃ m', verifyArea (forkedTask fun _ => 1) userStartAddr 1 = .ok m' ∧
    MadePrivate {parentDir, childDir} (rangeSlots (forkedTask fun _ => 1) userStartAddr 1) (forkedTask fun _ => 1) m' := by
  have shared := forkedTask_both fun _ => 1
  obtain ⟨g, positive, bound, free⟩ := shared.free
  have one := protectedPages_one (forkedTask fun _ => 1) (userStartAddr &&& ~~~ (pageSize - 1))
  have available : 1 ≤ (freeFrames (forkedTask fun _ => 1)).card :=
    Finset.card_pos.mpr ⟨g, mem_freeFrames.mpr ⟨bound, Nat.ne_of_gt positive, free⟩⟩
  obtain ⟨m', run, done⟩ : ∃ m', verifyArea (forkedTask fun _ => 1) userStartAddr 1 = .ok m' ∧ (_ ↔ _) :=
    verifyArea_private_iff shared.wf (by decide) (by decide) (one.trans available)
  exact ⟨m', run, done.mpr (.inl (by decide))⟩

/-- From the second byte on, 2^31 - 1 bytes are too many: the shared page stays write-protected. -/
theorem forked_range_not_private : ∃ m', verifyArea (forkedTask fun _ => 1) (userStartAddr + 1) 0x7FFFFFFF = .ok m' ∧
    ¬ MadePrivate {parentDir, childDir} (rangeSlots (forkedTask fun _ => 1) (userStartAddr + 1) 0x7FFFFFFF)
      (forkedTask fun _ => 1) m' := by
  have shared := forkedTask_both fun _ => 1
  obtain ⟨e, leaf, _, readOnly⟩ := shared.leaf parentDir (.inl rfl)
  refine ⟨_, verifyArea_overflow (by decide) (by decide), ?_⟩
  intro made
  have slot : (forkedTask fun _ => 1).slotOf (userStartAddr + 1 + BitVec.ofNat 64 0) = (parentDir, 0, 0) := by
    rw [slotOf_congr _ (show (userStartAddr + 1 + BitVec.ofNat 64 0) >>> 12 = userStartAddr >>> 12 by decide),
      forkedTask_slot shared]
  have open' := made.writable _ ⟨0, by decide, rfl⟩
  rw [slot, writeProtected, leaf, Option.any_some, readOnly] at open'
  cases open'

end Example

end K210Linux.Kernel
