import K210Linux.Mm.State
import K210Linux.Lib.RefCount

namespace K210Linux.Mm

open RefCount

/-- The frames the allocator can hand out, and the counters of all others, which nothing changes.
    Frame 0 is never looked at. -/
structure Pool where
  first : Nat
  last : Nat
  mark : Nat → Byte
  bound : last ≤ pagingPages
  marked : ∀ f, f < pagingPages → f ≠ 0 → ¬ (first ≤ f ∧ f < last) → mark f ≠ 0

def Pool.Has (pool : Pool) (f : Nat) : Prop := f ≠ 0 ∧ pool.first ≤ f ∧ f < pool.last

instance (pool : Pool) (f : Nat) : Decidable (pool.Has f) := inferInstanceAs (Decidable (_ ∧ _))

theorem Pool.Has.lt {pool : Pool} {f : Nat} (has : pool.Has f) : f < pagingPages :=
  Nat.lt_of_lt_of_le has.2.2 pool.bound

/-- A directory entry is named by its directory and index. -/
abbrev TableSlot := Word × Nat
/-- A leaf entry is named by the directory entry it is reached through and its own index. -/
abbrev LeafSlot := Word × Nat × Nat

def tableSlots (dirs : Finset Word) : Finset TableSlot := dirs ×ˢ Finset.range pageDirTableNum

def leafSlots (dirs : Finset Word) : Finset LeafSlot :=
  dirs ×ˢ Finset.range pageDirTableNum ×ˢ Finset.range pageTableItemNum

theorem mem_tableSlots {dirs : Finset Word} {d : Word} {i : Nat} :
    (d, i) ∈ tableSlots dirs ↔ d ∈ dirs ∧ i < pageDirTableNum := by
  simp [tableSlots]

theorem mem_leafSlots {dirs : Finset Word} {d : Word} {i j : Nat} :
    (d, i, j) ∈ leafSlots dirs ↔ d ∈ dirs ∧ i < pageDirTableNum ∧ j < pageTableItemNum := by
  simp [leafSlots]

/-- What the reference counts depend on: the counters, and the valid entries. -/
structure View where
  count : Nat → Byte
  table : TableSlot → Option Nat
  leaf : LeafSlot → Option Word

def pageTarget (e : Word) : Nat := (Pte.ppn e).toNat

def Memory.tableOf (m : Memory) (s : TableSlot) : Option Nat :=
  if Pte.v (m.dirs s.1 s.2) then some (pageTarget (m.dirs s.1 s.2)) else none

def Memory.leafOf (m : Memory) (s : LeafSlot) : Option Word :=
  (m.tableOf (s.1, s.2.1)).bind fun page =>
    if Pte.v (m.phys page s.2.2) then some (m.phys page s.2.2) else none

def Memory.view (m : Memory) : View := ⟨m.memMap, m.tableOf, m.leafOf⟩

def View.leafTarget (v : View) (s : LeafSlot) : Option Nat := (v.leaf s).map pageTarget

def View.leafRefs (v : View) (dirs : Finset Word) (f : Nat) : Nat :=
  refs (leafSlots dirs) v.leafTarget (framePage f)

def View.tableRefs (v : View) (dirs : Finset Word) (f : Nat) : Nat :=
  refs (tableSlots dirs) v.table (framePage f)

/-- The counters are exact. Page tables and frames held by the kernel have a single owner, a
    directory maps a frame at most once, and a writable mapping is the only one. -/
structure Counted (pool : Pool) (dirs : Finset Word) (held : Finset Nat) (v : View) : Prop where
  exact : ∀ f, pool.Has f →
    (v.count f).toNat = v.leafRefs dirs f + v.tableRefs dirs f + indicator (f ∈ held)
  outside : ∀ f, ¬ pool.Has f → v.count f = pool.mark f
  leafPool : ∀ s ∈ leafSlots dirs, ∀ p, v.leafTarget s = some p → ∃ f, pool.Has f ∧ p = framePage f
  tablePool : ∀ s ∈ tableSlots dirs, ∀ p, v.table s = some p → ∃ f, pool.Has f ∧ p = framePage f
  heldPool : ∀ f ∈ held, pool.Has f
  tableOne : ∀ s ∈ tableSlots dirs, ∀ f, v.table s = some (framePage f) → v.count f = 1
  heldOne : ∀ f ∈ held, v.count f = 1
  apart : ∀ s ∈ leafSlots dirs, ∀ t ∈ leafSlots dirs, ∀ p, v.leafTarget s = some p →
    v.leafTarget t = some p → s.1 = t.1 → s = t
  writeOne : ∀ s ∈ leafSlots dirs, ∀ e f, v.leaf s = some e → Pte.w e = true →
    pageTarget e = framePage f → v.count f = 1

theorem toNat_zero_byte : (0 : Byte).toNat = 0 := rfl
theorem toNat_one_byte : (1 : Byte).toNat = 1 := rfl

theorem framePage_inj {f g : Nat} (h : framePage f = framePage g) : f = g := by
  simp only [framePage] at h
  omega

namespace Counted

variable {pool : Pool} {dirs : Finset Word} {held : Finset Nat} {v v' : View} {f g : Nat}

theorem leafTarget_of_leaf {s : LeafSlot} {e : Word} (h : v.leaf s = some e) :
    v.leafTarget s = some (pageTarget e) := by
  simp [View.leafTarget, h]

theorem leaf_of_leafTarget {s : LeafSlot} {p : Nat} (h : v.leafTarget s = some p) :
    ∃ e, v.leaf s = some e ∧ pageTarget e = p := by
  simpa [View.leafTarget] using h

theorem pool_of_leaf (inv : Counted pool dirs held v) {s : LeafSlot} (hs : s ∈ leafSlots dirs)
    (h : v.leafTarget s = some (framePage f)) : pool.Has f := by
  obtain ⟨g, has, same⟩ := inv.leafPool s hs _ h
  rwa [framePage_inj same]

theorem pool_of_table (inv : Counted pool dirs held v) {s : TableSlot} (hs : s ∈ tableSlots dirs)
    (h : v.table s = some (framePage f)) : pool.Has f := by
  obtain ⟨g, has, same⟩ := inv.tablePool s hs _ h
  rwa [framePage_inj same]

theorem leaf_pos {s : LeafSlot} (hs : s ∈ leafSlots dirs) (h : v.leafTarget s = some (framePage f)) :
    0 < v.leafRefs dirs f := refs_pos hs h

theorem table_pos {s : TableSlot} (hs : s ∈ tableSlots dirs) (h : v.table s = some (framePage f)) :
    0 < v.tableRefs dirs f := refs_pos hs h

/-- A frame with a zero counter is neither mapped, nor a page table, nor held. -/
theorem free_of_zero (inv : Counted pool dirs held v) (has : pool.Has f) (zero : v.count f = 0) :
    (∀ s ∈ leafSlots dirs, v.leafTarget s ≠ some (framePage f)) ∧
    (∀ s ∈ tableSlots dirs, v.table s ≠ some (framePage f)) ∧ f ∉ held := by
  have sum := inv.exact f has
  rw [zero, toNat_zero_byte] at sum
  refine ⟨refs_eq_zero.mp (by unfold View.leafRefs at sum; omega),
    refs_eq_zero.mp (by unfold View.tableRefs at sum; omega), ?_⟩
  intro member
  simp [indicator, member] at sum

/-- A mapped frame is not a page table and not held. -/
theorem leaf_only (inv : Counted pool dirs held v) {s : LeafSlot} (hs : s ∈ leafSlots dirs)
    (h : v.leafTarget s = some (framePage f)) :
    (v.count f).toNat = v.leafRefs dirs f ∧ v.tableRefs dirs f = 0 ∧ f ∉ held := by
  have has := inv.pool_of_leaf hs h
  have sum := inv.exact f has
  have positive := leaf_pos hs h
  have notHeld : f ∉ held := by
    intro member
    rw [inv.heldOne f member, toNat_one_byte] at sum
    simp only [indicator, member, if_true] at sum
    omega
  have noTable : v.tableRefs dirs f = 0 := by
    apply refs_eq_zero.mpr
    intro t ht equal
    have := table_pos ht equal
    rw [inv.tableOne t ht f equal, toNat_one_byte] at sum
    omega
  refine ⟨?_, noTable, notHeld⟩
  simpa [noTable, indicator, notHeld] using sum

theorem table_only (inv : Counted pool dirs held v) {s : TableSlot} (hs : s ∈ tableSlots dirs)
    (h : v.table s = some (framePage f)) :
    v.leafRefs dirs f = 0 ∧ v.tableRefs dirs f = 1 ∧ f ∉ held := by
  have sum := inv.exact f (inv.pool_of_table hs h)
  have positive := table_pos hs h
  rw [inv.tableOne s hs f h, toNat_one_byte] at sum
  refine ⟨by omega, by omega, ?_⟩
  intro member
  simp only [indicator, member, if_true] at sum
  omega

theorem held_only (inv : Counted pool dirs held v) (member : f ∈ held) :
    v.leafRefs dirs f = 0 ∧ v.tableRefs dirs f = 0 := by
  have sum := inv.exact f (inv.heldPool f member)
  rw [inv.heldOne f member, toNat_one_byte] at sum
  simp only [indicator, member, if_true] at sum
  omega

theorem table_unique (inv : Counted pool dirs held v) {s t : TableSlot} (hs : s ∈ tableSlots dirs)
    (ht : t ∈ tableSlots dirs) {p : Nat} (left : v.table s = some p) (right : v.table t = some p) :
    s = t := by
  obtain ⟨f, _, rfl⟩ := inv.tablePool s hs p left
  exact eq_of_refs_le_one (Nat.le_of_eq (inv.table_only hs left).2.1) hs ht left right

/-- A mapped frame is mapped at most once in each directory. -/
theorem leafRefs_le (inv : Counted pool dirs held v) : v.leafRefs dirs f ≤ dirs.card := by
  apply refs_le_card (fun s : LeafSlot => s.1)
  · rintro ⟨d, i, j⟩ hs
    exact (mem_leafSlots.mp hs).1
  · intro s hs t ht left right same
    exact inv.apart s hs t ht _ left right same

theorem leaf_unique (inv : Counted pool dirs held v) {s t : LeafSlot} (hs : s ∈ leafSlots dirs)
    (ht : t ∈ leafSlots dirs) (left : v.leafTarget s = some (framePage f))
    (right : v.leafTarget t = some (framePage f)) (one : v.count f = 1) : s = t := by
  have sum := (inv.leaf_only hs left).1
  rw [one, toNat_one_byte] at sum
  exact eq_of_refs_le_one (Nat.le_of_eq sum.symm) hs ht left right

end Counted

end K210Linux.Mm
