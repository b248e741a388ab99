import K210Linux.Kernel.UserReach

/-! The window of user addresses is 4 GB wide, the page table slots tell 1 GB apart. -/

namespace K210Linux.Kernel

open K210Linux.Mm

variable {pool : Pool} {dirs : Finset Word} {held : Finset Nat} {k : Process} {image : Word → Nat → Word}
variable {m m' m'' : Memory} {a b x : Word} {f : Nat}

theorem getPageDirId_eq (a : Word) : getPageDirId a = a.toNat / 4096 % 2 ^ 18 / 512 := by
  have mask : (0x3FFFFFFF : Word).toNat = 2 ^ 30 - 1 := rfl
  rw [getPageDirId, BitVec.toNat_ushiftRight, BitVec.toNat_and, mask, Nat.and_two_pow_sub_one_eq_mod,
    Nat.shiftRight_eq_div_pow]
  omega

theorem getPageEntryId_eq (a : Word) : getPageEntryId a = a.toNat / 4096 % 2 ^ 18 % 512 := by
  have mask : (0x1FFFFF : Word).toNat = 2 ^ 21 - 1 := rfl
  rw [getPageEntryId, BitVec.toNat_ushiftRight, BitVec.toNat_and, mask, Nat.and_two_pow_sub_one_eq_mod,
    Nat.shiftRight_eq_div_pow]
  omega

/-- The slots of an address hold 18 bits of its page number. -/
theorem slots_eq_iff (a b : Word) : (getPageDirId a, getPageEntryId a) = (getPageDirId b, getPageEntryId b) ↔
    a.toNat / 4096 % 2 ^ 18 = b.toNat / 4096 % 2 ^ 18 := by
  rw [Prod.mk.injEq, getPageDirId_eq, getPageDirId_eq, getPageEntryId_eq, getPageEntryId_eq]
  omega

/-- `put_page` gave the held frame `f` to address `a`, for the current task. -/
structure PutAt (k : Process) (m m' : Memory) (a : Word) (f : Nat) : Prop where
  counted : ∃ pool dirs held, Wf pool dirs held m ∧ f ∈ held
  current : m.pageDirTable = (k.structs k.current).pageDirTable
  nonzero : m.pageDirTable ≠ 0
  absent : m.leafOf (m.slotOf a) = none
  run : putPage m (frameAddr f) a = (frameAddr f, m')

/-- The two addresses have slots of their own, so a page put at `a` is not what `b` leads to. -/
structure SlotsApart (a b : Word) : Prop where
  slots : (getPageDirId a, getPageEntryId a) ≠ (getPageDirId b, getPageEntryId b)
  access : ∀ k image m m' m'' f x, PutAt k m m' a f → userAddrToKernel k image m' b = .ok (x, m'') →
    pageOf x ≠ framePage f

theorem PutAt.mapped (put : PutAt k m m' a f) : ∃ pool dirs held, Wf pool dirs held m' ∧
    Mapped dirs (m.slotOf a) f m m' ∧ f < pagingPages := by
  obtain ⟨pool, dirs, held, wf, member⟩ := put.counted
  have bound := (wf.counted.heldPool f member).lt
  have run := put.run
  rcases wf.put_page member a put.absent with ⟨failed, _⟩ | ⟨m₁, done, wf', mapped⟩
  · rw [failed, Prod.mk.injEq] at run
    exact absurd run.1.symm (frameAddr_ne_zero bound)
  · rw [done, Prod.mk.injEq] at run
    obtain ⟨_, rfl⟩ := run
    exact ⟨pool, dirs, _, wf', mapped, bound⟩

/-- Through another slot only other frames are reached. -/
theorem PutAt.elsewhere (put : PutAt k m m' a f) (other : m.slotOf a ≠ m.slotOf b) (user : userStartAddr ≤ b)
    (run : userAddrToKernel k image m' b = .ok (x, m'')) : pageOf x ≠ framePage f := by
  obtain ⟨pool, dirs, held, wf, mapped, bound⟩ := put.mapped
  obtain ⟨e, leaf, target, writable⟩ := mapped.leaf
  have same : m'.slotOf b = m.slotOf b := by
    rw [Memory.slotOf, mapped.control.pageDirTable]
    rfl
  have slotA : m.slotOf a ∈ leafSlots dirs := by
    have member := slotOf_mem wf a
    rwa [Memory.slotOf, mapped.control.pageDirTable] at member
  have slotB : m.slotOf b ∈ leafSlots dirs := by
    rw [← same]
    exact slotOf_mem wf b
  have one : m'.memMap f = 1 := wf.counted.writeOne _ slotA e f leaf writable target
  have current : m'.pageDirTable = (k.structs k.current).pageDirTable := by
    rw [mapped.control.pageDirTable]
    exact put.current
  obtain ⟨_, present, _, e', leaf', value⟩ := user_addr_to_kernel wf current user run
  rw [same] at present leaf'
  rw [translated_page value]
  intro hit
  rcases present with ⟨rfl, _⟩ | ⟨_, g, _, _, free, _, fresh⟩
  · have left : m''.view.leafTarget (m.slotOf a) = some (framePage f) := by
      rw [← target]
      exact Counted.leafTarget_of_leaf (v := m''.view) leaf
    have right : m''.view.leafTarget (m.slotOf b) = some (framePage f) := by
      rw [← hit]
      exact Counted.leafTarget_of_leaf (v := m''.view) leaf'
    exact other (wf.counted.leaf_unique slotA slotB left right one)
  · obtain ⟨e₁, leaf₁, target₁, _⟩ := fresh.leaf
    rw [leaf'] at leaf₁
    cases leaf₁
    have frames : f = g := framePage_inj (hit.symm.trans target₁)
    rw [frames, free] at one
    exact absurd one (by decide)

/-- Through the same slot the page itself is reached. -/
theorem PutAt.same (put : PutAt k m m' a f) (slots : m.slotOf a = m.slotOf b) (user : userStartAddr ≤ b)
    (below : b ≤ userEndAddr) :
    userAddrToKernel k image m' b = .ok (frameAddr f + (b &&& 0xFFF), m') := by
  obtain ⟨pool, dirs, held, wf, mapped, bound⟩ := put.mapped
  obtain ⟨e, leaf, target, _⟩ := mapped.leaf
  have there : m'.leafOf (m'.slotOf b) = some e := by
    rw [← leaf, slots, Memory.slotOf, mapped.control.pageDirTable]
    rfl
  have nonzero : m'.pageDirTable ≠ 0 := by
    rw [mapped.control.pageDirTable]
    exact put.nonzero
  rw [user_addr_present nonzero user below there, ppnToAddr_of_target bound target]

/-- Two pages of the window are told apart exactly when they are not a multiple of 1 GB from each other. -/
theorem window_apart_iff (lowA : userStartAddr ≤ a) (highA : a ≤ userEndAddr) (lowB : userStartAddr ≤ b)
    (highB : b ≤ userEndAddr) (pages : a >>> 12 ≠ b >>> 12) :
    (SlotsApart a b ↔ a.toNat / 4096 % 2 ^ 18 ≠ b.toNat / 4096 % 2 ^ 18) ∧
    (a.toNat / 4096 % 2 ^ 18 = b.toNat / 4096 % 2 ^ 18 → ∀ k image m m' f, PutAt k m m' a f →
      userAddrToKernel k image m' b = .ok (frameAddr f + (b &&& 0xFFF), m')) := by
  have slots := slots_eq_iff a b
  refine ⟨⟨?_, ?_⟩, ?_⟩
  · intro apart
    exact mt slots.mpr apart.slots
  · intro differ
    refine ⟨mt slots.mp differ, ?_⟩
    intro k image m m' m'' f x put run
    refine put.elsewhere ?_ lowB run
    intro same
    exact differ (slots.mp (Prod.mk.inj same).2)
  · intro equal k image m m' f put
    exact put.same (congrArg (Prod.mk _) (slots.mpr equal)) lowB highB

theorem neighbours_apart : SlotsApart userStartAddr (userStartAddr + 4096) :=
  (window_apart_iff (by decide) (by decide) (by decide) (by decide) (by decide)).1.mpr (by decide)

/-- The first page of user space, and the page one GB above it. -/
theorem gigabyte_not_apart : userStartAddr ≤ 0x100000000 ∧ (0x100000000 : Word) ≤ userEndAddr ∧
    userStartAddr >>> 12 ≠ (0x100000000 : Word) >>> 12 ∧ ¬ SlotsApart userStartAddr 0x100000000 := by
  refine ⟨by decide, by decide, by decide, ?_⟩
  intro apart
  exact apart.slots (by decide)

end K210Linux.Kernel
