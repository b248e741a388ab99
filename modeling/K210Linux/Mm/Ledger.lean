import K210Linux.Mm.References

namespace K210Linux.Mm

open RefCount

namespace Counted

variable {pool : Pool} {dirs : Finset Word} {held held' : Finset Nat} {v v' : View} {f g : Nat}
variable {s : LeafSlot} {slot : TableSlot} {e e' : Word}

theorem leafRefs_change (hs : s ∈ leafSlots dirs)
    (others : ∀ t ∈ leafSlots dirs, t ≠ s → v'.leaf t = v.leaf t) :
    v'.leafRefs dirs f + indicator (v.leafTarget s = some (framePage f)) =
      v.leafRefs dirs f + indicator (v'.leafTarget s = some (framePage f)) := by
  apply refs_change hs
  intro t ht other
  simp only [View.leafTarget, others t ht other]

theorem leafRefs_same (same : ∀ t ∈ leafSlots dirs, v'.leaf t = v.leaf t) :
    v'.leafRefs dirs f = v.leafRefs dirs f := by
  apply refs_congr
  intro t ht
  simp only [View.leafTarget, same t ht]

theorem tableRefs_same (same : ∀ t ∈ tableSlots dirs, v'.table t = v.table t) :
    v'.tableRefs dirs f = v.tableRefs dirs f := refs_congr same

/-- The ledger after one leaf slot, the counters and the held frames changed together. -/
theorem of_leaf (inv : Counted pool dirs held v) (hs : s ∈ leafSlots dirs)
    (others : ∀ t ∈ leafSlots dirs, t ≠ s → v'.leaf t = v.leaf t)
    (tables : ∀ t ∈ tableSlots dirs, v'.table t = v.table t)
    (outside : ∀ f, ¬ pool.Has f → v'.count f = v.count f)
    (balance : ∀ f, pool.Has f →
      (v'.count f).toNat + indicator (v.leafTarget s = some (framePage f)) + indicator (f ∈ held) =
        (v.count f).toNat + indicator (v'.leafTarget s = some (framePage f)) + indicator (f ∈ held'))
    (newPool : ∀ p, v'.leafTarget s = some p → ∃ f, pool.Has f ∧ p = framePage f)
    (newHeld : ∀ f ∈ held', pool.Has f ∧ v'.count f = 1)
    (newTable : ∀ t ∈ tableSlots dirs, ∀ f, v.table t = some (framePage f) → v'.count f = 1)
    (newApart : ∀ t ∈ leafSlots dirs, t ≠ s → t.1 = s.1 → ∀ p, v.leafTarget t = some p →
      v'.leafTarget s ≠ some p)
    (newWrite : ∀ t ∈ leafSlots dirs, ∀ e f, v'.leaf t = some e → Pte.w e = true →
      pageTarget e = framePage f → v'.count f = 1) :
    Counted pool dirs held' v' := by
  have target : ∀ t ∈ leafSlots dirs, t ≠ s → v'.leafTarget t = v.leafTarget t := by
    intro t ht other
    simp only [View.leafTarget, others t ht other]
  refine ⟨?_, ?_, ?_, ?_, fun f member => (newHeld f member).1, ?_, fun f member => (newHeld f member).2, ?_, newWrite⟩
  · intro f has
    have sum := inv.exact f has
    have change := leafRefs_change (f := f) hs others
    have equal := balance f has
    rw [tableRefs_same tables]
    omega
  · intro f out
    rw [outside f out]
    exact inv.outside f out
  · intro t ht p points
    by_cases same : t = s
    · subst same
      exact newPool p points
    · rw [target t ht same] at points
      exact inv.leafPool t ht p points
  · intro t ht p points
    rw [tables t ht] at points
    exact inv.tablePool t ht p points
  · intro t ht f points
    rw [tables t ht] at points
    exact newTable t ht f points
  · intro t ht u hu p left right same
    by_cases first : t = s
    · by_cases second : u = s
      · rw [first, second]
      · rw [target u hu second] at right
        subst first
        exact absurd left (newApart u hu second same.symm p right)
    · rw [target t ht first] at left
      by_cases second : u = s
      · subst second
        exact absurd right (newApart t ht first same p left)
      · rw [target u hu second] at right
        exact inv.apart t ht u hu p left right same

/-- The bits of a leaf may change as long as its frame does not, and it becomes writable only
    when it is the only mapping. -/
theorem rewrite_leaf (inv : Counted pool dirs held v) (hs : s ∈ leafSlots dirs)
    (before : v.leaf s = some e) (after : v'.leaf s = some e') (same : pageTarget e' = pageTarget e)
    (write : Pte.w e' = true → ∀ f, pageTarget e = framePage f → v.count f = 1)
    (others : ∀ t ∈ leafSlots dirs, t ≠ s → v'.leaf t = v.leaf t)
    (tables : ∀ t ∈ tableSlots dirs, v'.table t = v.table t) (count : v'.count = v.count) :
    Counted pool dirs held v' := by
  have left := leafTarget_of_leaf before
  have right := leafTarget_of_leaf after
  rw [same] at right
  apply inv.of_leaf hs others tables
  · intro f _
    rw [count]
  · intro f _
    rw [count, left, right]
  · intro p points
    rw [right, ← left] at points
    exact inv.leafPool s hs p points
  · intro f member
    rw [count]
    exact ⟨inv.heldPool f member, inv.heldOne f member⟩
  · rw [count]
    exact inv.tableOne
  · intro t ht other directory p points equal
    rw [right, ← left] at equal
    exact other (inv.apart t ht s hs p points equal directory)
  · intro t ht x f points writable page
    rw [count]
    by_cases this : t = s
    · subst this
      rw [after] at points
      cases points
      exact write writable f (same ▸ page)
    · rw [others t ht this] at points
      exact inv.writeOne t ht x f points writable page

/-- A frame held by the kernel is mapped. -/
theorem map_held (inv : Counted pool dirs held v) (hs : s ∈ leafSlots dirs) (member : f ∈ held)
    (before : v.leaf s = none) (after : v'.leaf s = some e') (page : pageTarget e' = framePage f)
    (others : ∀ t ∈ leafSlots dirs, t ≠ s → v'.leaf t = v.leaf t)
    (tables : ∀ t ∈ tableSlots dirs, v'.table t = v.table t) (count : v'.count = v.count) :
    Counted pool dirs (held.erase f) v' := by
  have left : v.leafTarget s = none := by simp [View.leafTarget, before]
  have right := leafTarget_of_leaf after
  rw [page] at right
  have only := inv.held_only member
  have unmapped : ∀ t ∈ leafSlots dirs, v.leafTarget t ≠ some (framePage f) := refs_eq_zero.mp only.1
  apply inv.of_leaf hs others tables
  · intro g _
    rw [count]
  · intro g _
    rw [count, left, right]
    by_cases this : g = f
    · subst this
      simp [indicator, member]
    · have other : framePage f ≠ framePage g := fun h => this (framePage_inj h).symm
      simp [indicator, this, other]
  · intro p points
    rw [right] at points
    cases points
    exact ⟨f, inv.heldPool f member, rfl⟩
  · intro g hg
    rw [count]
    have := Finset.mem_of_mem_erase hg
    exact ⟨inv.heldPool g this, inv.heldOne g this⟩
  · rw [count]
    exact inv.tableOne
  · intro t ht _ _ p points equal
    rw [right] at equal
    cases equal
    exact unmapped t ht points
  · intro t ht x g points writable target
    rw [count]
    by_cases this : t = s
    · subst this
      rw [after] at points
      cases points
      have : g = f := framePage_inj (target.symm.trans page)
      rw [this]
      exact inv.heldOne f member
    · rw [others t ht this] at points
      exact inv.writeOne t ht x g points writable target

theorem indicator_frame (f g : Nat) :
    indicator (some (framePage f) = some (framePage g)) = indicator (g = f) := by
  unfold indicator
  congr 1
  simp only [Option.some.injEq, eq_iff_iff]
  exact ⟨fun h => (framePage_inj h).symm, fun h => h ▸ rfl⟩

theorem indicator_none (g : Nat) : indicator ((none : Option Nat) = some g) = 0 := by
  simp [indicator]

/-- Every mapping of a shared frame is write-protected. -/
theorem protected_of_shared (inv : Counted pool dirs held v) (hs : s ∈ leafSlots dirs)
    (points : v.leafTarget s = some (framePage f)) {t : LeafSlot} (ht : t ∈ leafSlots dirs)
    (leaf : v.leaf t = some e) (page : pageTarget e = framePage f) (other : t ≠ s) :
    Pte.w e = false := by
  cases w : Pte.w e
  · rfl
  · have target : v.leafTarget t = some (framePage f) := page ▸ leafTarget_of_leaf leaf
    have one := inv.writeOne t ht e f leaf w page
    exact absurd (inv.leaf_unique ht hs target points one) other

/-- A frame mapped elsewhere, and nowhere in this directory, gets one more mapping. -/
theorem share_leaf (inv : Counted pool dirs held v) (small : dirs.card < 255)
    (hs : s ∈ leafSlots dirs) {source : LeafSlot} (hsource : source ∈ leafSlots dirs)
    (shared : v.leaf source = some e) (page : pageTarget e = framePage f) (readOnly : Pte.w e = false)
    (before : v.leaf s = none) (after : v'.leaf s = some e')
    (page' : pageTarget e' = framePage f) (readOnly' : Pte.w e' = false)
    (fresh : ∀ t ∈ leafSlots dirs, t.1 = s.1 → v.leafTarget t ≠ some (framePage f))
    (others : ∀ t ∈ leafSlots dirs, t ≠ s → v'.leaf t = v.leaf t)
    (tables : ∀ t ∈ tableSlots dirs, v'.table t = v.table t)
    (count : v'.count = Function.update v.count f (v.count f + 1)) :
    Counted pool dirs held v' := by
  have left : v.leafTarget s = none := by simp [View.leafTarget, before]
  have right : v'.leafTarget s = some (framePage f) := page' ▸ leafTarget_of_leaf after
  have points : v.leafTarget source = some (framePage f) := page ▸ leafTarget_of_leaf shared
  have has := inv.pool_of_leaf hsource points
  obtain ⟨sum, noTable, notHeld⟩ := inv.leaf_only hsource points
  have bound : (v.count f).toNat < 255 := by
    have := inv.leafRefs_le (f := f)
    omega
  have next : (v.count f + 1).toNat = (v.count f).toNat + 1 := by
    rw [BitVec.toNat_add, toNat_one_byte]
    omega
  have elsewhere : ∀ g, g ≠ f → v'.count g = v.count g := by
    intro g other
    rw [count, Function.update_of_ne other]
  apply inv.of_leaf hs others tables
  · intro g out
    exact elsewhere g (fun h => out (h ▸ has))
  · intro g _
    rw [left, right, indicator_none, indicator_frame]
    by_cases this : g = f
    · subst this
      rw [count, Function.update_self, next]
      simp [indicator]
    · rw [elsewhere g this]
      simp [indicator, this]
  · intro p target
    rw [right] at target
    cases target
    exact ⟨f, has, rfl⟩
  · intro g member
    rw [elsewhere g (fun h => notHeld (h ▸ member))]
    exact ⟨inv.heldPool g member, inv.heldOne g member⟩
  · intro t ht g target
    have other : g ≠ f := by
      rintro rfl
      exact refs_eq_zero.mp noTable t ht target
    rw [elsewhere g other]
    exact inv.tableOne t ht g target
  · intro t ht _ directory p target equal
    rw [right] at equal
    cases equal
    exact fresh t ht directory target
  · intro t ht x g leaf writable target
    by_cases this : t = s
    · subst this
      rw [after] at leaf
      cases leaf
      rw [readOnly'] at writable
      cases writable
    · rw [others t ht this] at leaf
      have other : g ≠ f := by
        rintro rfl
        by_cases origin : t = source
        · subst origin
          rw [shared] at leaf
          cases leaf
          rw [readOnly] at writable
          cases writable
        · rw [inv.protected_of_shared hsource points ht leaf target origin] at writable
          cases writable
      rw [elsewhere g other]
      exact inv.writeOne t ht x g leaf writable target

theorem count_pred (c : Byte) (positive : 0 < c.toNat) : (c - 1).toNat + 1 = c.toNat := by
  have bound := c.isLt
  rw [BitVec.toNat_sub, toNat_one_byte]
  omega

/-- A mapping goes away and its frame loses one reference. -/
theorem unmap_leaf (inv : Counted pool dirs held v) (hs : s ∈ leafSlots dirs)
    (before : v.leaf s = some e) (page : pageTarget e = framePage f) (after : v'.leaf s = none)
    (others : ∀ t ∈ leafSlots dirs, t ≠ s → v'.leaf t = v.leaf t)
    (tables : ∀ t ∈ tableSlots dirs, v'.table t = v.table t)
    (count : v'.count = Function.update v.count f (v.count f - 1)) :
    Counted pool dirs held v' := by
  have left : v.leafTarget s = some (framePage f) := page ▸ leafTarget_of_leaf before
  have right : v'.leafTarget s = none := by simp [View.leafTarget, after]
  have has := inv.pool_of_leaf hs left
  obtain ⟨sum, noTable, notHeld⟩ := inv.leaf_only hs left
  have pred := count_pred (v.count f) (by have := leaf_pos hs left; omega)
  have elsewhere : ∀ g, g ≠ f → v'.count g = v.count g := by
    intro g other
    rw [count, Function.update_of_ne other]
  apply inv.of_leaf hs others tables
  · intro g out
    exact elsewhere g (fun h => out (h ▸ has))
  · intro g _
    rw [left, right, indicator_none, indicator_frame]
    by_cases this : g = f
    · subst this
      rw [count, Function.update_self]
      simp [indicator]
      omega
    · rw [elsewhere g this]
      simp [indicator, this]
  · intro p target
    rw [right] at target
    cases target
  · intro g member
    rw [elsewhere g (fun h => notHeld (h ▸ member))]
    exact ⟨inv.heldPool g member, inv.heldOne g member⟩
  · intro t ht g target
    have other : g ≠ f := by
      rintro rfl
      exact refs_eq_zero.mp noTable t ht target
    rw [elsewhere g other]
    exact inv.tableOne t ht g target
  · intro t _ _ _ p _ equal
    rw [right] at equal
    cases equal
  · intro t ht x g leaf writable target
    have this : t ≠ s := by
      rintro rfl
      rw [after] at leaf
      cases leaf
    rw [others t ht this] at leaf
    have other : g ≠ f := by
      rintro rfl
      rw [inv.protected_of_shared hs left ht leaf target this] at writable
      cases writable
    rw [elsewhere g other]
    exact inv.writeOne t ht x g leaf writable target

/-- A mapping moves to a frame held by the kernel. -/
theorem replace_leaf (inv : Counted pool dirs held v) (hs : s ∈ leafSlots dirs)
    (before : v.leaf s = some e) (page : pageTarget e = framePage f) (member : g ∈ held)
    (after : v'.leaf s = some e') (page' : pageTarget e' = framePage g)
    (others : ∀ t ∈ leafSlots dirs, t ≠ s → v'.leaf t = v.leaf t)
    (tables : ∀ t ∈ tableSlots dirs, v'.table t = v.table t)
    (count : v'.count = Function.update v.count f (v.count f - 1)) :
    Counted pool dirs (held.erase g) v' := by
  let middle : View := { v' with leaf := fun t => if t = s then none else v.leaf t }
  have unmapped : Counted pool dirs held middle := by
    apply inv.unmap_leaf hs before page
    · simp [middle]
    · intro t _ other
      simp [middle, other]
    · exact tables
    · exact count
  apply unmapped.map_held hs member
  · simp [middle]
  · exact after
  · exact page'
  · intro t ht other
    rw [others t ht other]
    simp [middle, other]
  · intro t _
    rfl
  · rfl

/-- The ledger after the counters, the held frames and the directories changed, with no leaf
    touched. -/
theorem of_table (inv : Counted pool dirs held v)
    (leaves : ∀ t ∈ leafSlots dirs, v'.leaf t = v.leaf t)
    (outside : ∀ f, ¬ pool.Has f → v'.count f = v.count f)
    (balance : ∀ f, pool.Has f →
      (v'.count f).toNat + v.tableRefs dirs f + indicator (f ∈ held) =
        (v.count f).toNat + v'.tableRefs dirs f + indicator (f ∈ held'))
    (mapped : ∀ f, pool.Has f → 0 < v.leafRefs dirs f → v'.count f = v.count f)
    (newTable : ∀ t ∈ tableSlots dirs, ∀ p, v'.table t = some p →
      ∃ f, pool.Has f ∧ p = framePage f ∧ v'.count f = 1)
    (newHeld : ∀ f ∈ held', pool.Has f ∧ v'.count f = 1) :
    Counted pool dirs held' v' := by
  have target : ∀ t ∈ leafSlots dirs, v'.leafTarget t = v.leafTarget t := by
    intro t ht
    simp only [View.leafTarget, leaves t ht]
  refine ⟨?_, ?_, ?_, ?_, fun f member => (newHeld f member).1, ?_, fun f member => (newHeld f member).2, ?_, ?_⟩
  · intro f has
    have sum := inv.exact f has
    have equal := balance f has
    rw [leafRefs_same leaves]
    omega
  · intro f out
    rw [outside f out]
    exact inv.outside f out
  · intro t ht p points
    rw [target t ht] at points
    exact inv.leafPool t ht p points
  · intro t ht p points
    obtain ⟨f, has, page, _⟩ := newTable t ht p points
    exact ⟨f, has, page⟩
  · intro t ht f points
    obtain ⟨g, _, page, one⟩ := newTable t ht _ points
    rwa [framePage_inj page]
  · intro t ht u hu p left right same
    rw [target t ht] at left
    rw [target u hu] at right
    exact inv.apart t ht u hu p left right same
  · intro t ht x f leaf writable page
    rw [leaves t ht] at leaf
    have points : v.leafTarget t = some (framePage f) := page ▸ leafTarget_of_leaf leaf
    rw [mapped f (inv.pool_of_leaf ht points) (leaf_pos ht points)]
    exact inv.writeOne t ht x f leaf writable page

theorem tableRefs_change (hslot : slot ∈ tableSlots dirs)
    (others : ∀ t ∈ tableSlots dirs, t ≠ slot → v'.table t = v.table t) :
    v'.tableRefs dirs f + indicator (v.table slot = some (framePage f)) =
      v.tableRefs dirs f + indicator (v'.table slot = some (framePage f)) :=
  refs_change hslot others

/-- A frame held by the kernel becomes the page table of an empty slot. -/
theorem attach_table (inv : Counted pool dirs held v) (hslot : slot ∈ tableSlots dirs)
    (member : f ∈ held) (before : v.table slot = none) (after : v'.table slot = some (framePage f))
    (others : ∀ t ∈ tableSlots dirs, t ≠ slot → v'.table t = v.table t)
    (leaves : ∀ t ∈ leafSlots dirs, v'.leaf t = v.leaf t) (count : v'.count = v.count) :
    Counted pool dirs (held.erase f) v' := by
  apply inv.of_table leaves
  · intro g _
    rw [count]
  · intro g _
    have change := tableRefs_change (f := g) hslot others
    rw [before, after, indicator_none, indicator_frame] at change
    rw [count]
    by_cases this : g = f
    · subst this
      simp [indicator, member] at change ⊢
      omega
    · simp [indicator, this] at change ⊢
      omega
  · intro g _ _
    rw [count]
  · intro t ht p points
    rw [count]
    by_cases this : t = slot
    · subst this
      rw [after] at points
      cases points
      exact ⟨f, inv.heldPool f member, rfl, inv.heldOne f member⟩
    · rw [others t ht this] at points
      obtain ⟨g, has, rfl⟩ := inv.tablePool t ht p points
      exact ⟨g, has, rfl, inv.tableOne t ht g points⟩
  · intro g hg
    rw [count]
    have := Finset.mem_of_mem_erase hg
    exact ⟨inv.heldPool g this, inv.heldOne g this⟩

/-- A page table without entries goes away and its frame becomes free. -/
theorem detach_table (inv : Counted pool dirs held v) (hslot : slot ∈ tableSlots dirs)
    (before : v.table slot = some (framePage f)) (after : v'.table slot = none)
    (others : ∀ t ∈ tableSlots dirs, t ≠ slot → v'.table t = v.table t)
    (leaves : ∀ t ∈ leafSlots dirs, v'.leaf t = v.leaf t)
    (count : v'.count = Function.update v.count f (v.count f - 1)) :
    Counted pool dirs held v' := by
  have has := inv.pool_of_table hslot before
  obtain ⟨noLeaf, oneTable, notHeld⟩ := inv.table_only hslot before
  have elsewhere : ∀ g, g ≠ f → v'.count g = v.count g := by
    intro g other
    rw [count, Function.update_of_ne other]
  apply inv.of_table leaves
  · intro g out
    exact elsewhere g (fun h => out (h ▸ has))
  · intro g _
    have change := tableRefs_change (f := g) hslot others
    rw [before, after, indicator_none, indicator_frame] at change
    by_cases this : g = f
    · subst this
      have pred := count_pred (v.count g) (by rw [inv.tableOne slot hslot g before]; decide)
      rw [count, Function.update_self]
      simp only [indicator, if_true] at change ⊢
      omega
    · rw [elsewhere g this]
      simp only [indicator, this, if_false] at change ⊢
      omega
  · intro g _ positive
    apply elsewhere
    rintro rfl
    omega
  · intro t ht p points
    have this : t ≠ slot := by
      rintro rfl
      rw [after] at points
      cases points
    rw [others t ht this] at points
    obtain ⟨g, hasTable, rfl⟩ := inv.tablePool t ht p points
    have other : g ≠ f := by
      rintro rfl
      exact this (inv.table_unique ht hslot points before)
    exact ⟨g, hasTable, rfl, by rw [elsewhere g other]; exact inv.tableOne t ht g points⟩
  · intro g member
    rw [elsewhere g (fun h => notHeld (h ▸ member))]
    exact ⟨inv.heldPool g member, inv.heldOne g member⟩

/-- The kernel takes a free frame. -/
theorem take (inv : Counted pool dirs held v) (has : pool.Has f) (free : v.count f = 0)
    (leaves : ∀ t ∈ leafSlots dirs, v'.leaf t = v.leaf t)
    (tables : ∀ t ∈ tableSlots dirs, v'.table t = v.table t)
    (count : v'.count = Function.update v.count f 1) :
    Counted pool dirs (insert f held) v' := by
  obtain ⟨noLeaf, noTable, notHeld⟩ := inv.free_of_zero has free
  have elsewhere : ∀ g, g ≠ f → v'.count g = v.count g := by
    intro g other
    rw [count, Function.update_of_ne other]
  apply inv.of_table leaves
  · intro g out
    exact elsewhere g (fun h => out (h ▸ has))
  · intro g _
    rw [tableRefs_same tables]
    by_cases this : g = f
    · subst this
      rw [count, Function.update_self, free, toNat_zero_byte, toNat_one_byte]
      simp [indicator, notHeld]
      omega
    · rw [elsewhere g this]
      simp [indicator, this]
  · intro g _ positive
    apply elsewhere
    rintro rfl
    rw [View.leafRefs, refs_eq_zero.mpr noLeaf] at positive
    omega
  · intro t ht p points
    rw [tables t ht] at points
    obtain ⟨g, hasTable, rfl⟩ := inv.tablePool t ht p points
    have other : g ≠ f := by
      rintro rfl
      exact noTable t ht points
    exact ⟨g, hasTable, rfl, by rw [elsewhere g other]; exact inv.tableOne t ht g points⟩
  · intro g member
    rcases Finset.mem_insert.mp member with rfl | member
    · exact ⟨has, by rw [count, Function.update_self]⟩
    · have other : g ≠ f := fun h => notHeld (h ▸ member)
      rw [elsewhere g other]
      exact ⟨inv.heldPool g member, inv.heldOne g member⟩

/-- The kernel gives a held frame back. -/
theorem give (inv : Counted pool dirs held v) (member : f ∈ held)
    (leaves : ∀ t ∈ leafSlots dirs, v'.leaf t = v.leaf t)
    (tables : ∀ t ∈ tableSlots dirs, v'.table t = v.table t)
    (count : v'.count = Function.update v.count f (v.count f - 1)) :
    Counted pool dirs (held.erase f) v' := by
  obtain ⟨noLeaf, noTable⟩ := inv.held_only member
  have elsewhere : ∀ g, g ≠ f → v'.count g = v.count g := by
    intro g other
    rw [count, Function.update_of_ne other]
  apply inv.of_table leaves
  · intro g out
    exact elsewhere g (fun h => out (h ▸ inv.heldPool f member))
  · intro g _
    rw [tableRefs_same tables]
    by_cases this : g = f
    · subst this
      have pred := count_pred (v.count g) (by rw [inv.heldOne g member]; decide)
      rw [count, Function.update_self]
      simp only [indicator, member, if_true, Finset.mem_erase, ne_eq, not_true_eq_false, false_and, if_false]
      omega
    · rw [elsewhere g this]
      simp [indicator, this]
  · intro g _ positive
    apply elsewhere
    rintro rfl
    omega
  · intro t ht p points
    rw [tables t ht] at points
    obtain ⟨g, hasTable, rfl⟩ := inv.tablePool t ht p points
    have other : g ≠ f := by
      rintro rfl
      exact refs_eq_zero.mp noTable t ht points
    exact ⟨g, hasTable, rfl, by rw [elsewhere g other]; exact inv.tableOne t ht g points⟩
  · intro g hg
    rw [elsewhere g (Finset.ne_of_mem_erase hg)]
    have := Finset.mem_of_mem_erase hg
    exact ⟨inv.heldPool g this, inv.heldOne g this⟩

end Counted

end K210Linux.Mm
