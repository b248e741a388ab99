import Mathlib

/-! Counting the references that a finite set of slots holds to an object. -/

namespace RefCount

variable {ι α κ : Type*} [DecidableEq ι] [DecidableEq α]
variable {slots : Finset ι} {target changed : ι → Option α} {a : α} {r s : ι}

def refs (slots : Finset ι) (target : ι → Option α) (a : α) : Nat :=
  (slots.filter fun r => target r = some a).card

def indicator (p : Prop) [Decidable p] : Nat := if p then 1 else 0

omit [DecidableEq ι] in
theorem refs_congr (same : ∀ x ∈ slots, changed x = target x) :
    refs slots changed a = refs slots target a := by
  unfold refs
  congr 1
  apply Finset.filter_congr
  intro x member
  rw [same x member]

omit [DecidableEq ι] in
theorem refs_congr_iff (same : ∀ x ∈ slots, changed x = some a ↔ target x = some a) :
    refs slots changed a = refs slots target a := by
  unfold refs
  congr 1
  apply Finset.filter_congr
  exact same

/-- Redirecting one slot moves one reference. -/
theorem refs_change (member : r ∈ slots) (same : ∀ x ∈ slots, x ≠ r → changed x = target x) :
    refs slots changed a + indicator (target r = some a) =
      refs slots target a + indicator (changed r = some a) := by
  have split (t : ι → Option α) :
      refs slots t a = refs (slots.erase r) t a + indicator (t r = some a) := by
    unfold refs indicator
    nth_rewrite 1 [← Finset.insert_erase member]
    rw [Finset.filter_insert]
    split
    · rw [Finset.card_insert_of_notMem (by simp)]
    · rfl
  have rest : refs (slots.erase r) changed a = refs (slots.erase r) target a := by
    apply refs_congr
    intro x hx
    exact same x (Finset.mem_of_mem_erase hx) (Finset.ne_of_mem_erase hx)
  rw [split changed, split target, rest]
  omega

/-- When exactly one of the references to an object goes away, there is one less. -/
theorem refs_drop_one (member : r ∈ slots) (points : target r = some a) (gone : changed r ≠ some a)
    (same : ∀ x ∈ slots, x ≠ r → (changed x = some a ↔ target x = some a)) :
    refs slots changed a + 1 = refs slots target a := by
  have split : slots.filter (fun x => target x = some a) = insert r (slots.filter fun x => changed x = some a) := by
    ext x
    simp only [Finset.mem_insert, Finset.mem_filter]
    by_cases here : x = r
    · subst here
      exact iff_of_true ⟨member, points⟩ (.inl rfl)
    · constructor
      · rintro ⟨inside, old⟩
        exact .inr ⟨inside, (same x inside here).mpr old⟩
      · rintro (equal | ⟨inside, new⟩)
        · exact absurd equal here
        · exact ⟨inside, (same x inside here).mp new⟩
  unfold refs
  rw [split, Finset.card_insert_of_notMem]
  intro inside
  exact gone (Finset.mem_filter.mp inside).2

omit [DecidableEq ι] in
/-- Slots without a target can be added. -/
theorem refs_extend {more : Finset ι} (sub : slots ⊆ more) (same : ∀ x ∈ slots, changed x = target x)
    (none : ∀ x ∈ more, x ∉ slots → changed x = none) : refs more changed a = refs slots target a := by
  unfold refs
  congr 1
  ext x
  simp only [Finset.mem_filter]
  constructor
  · rintro ⟨member, points⟩
    by_cases old : x ∈ slots
    · exact ⟨old, same x old ▸ points⟩
    · rw [none x member old] at points
      cases points
  · rintro ⟨member, points⟩
    exact ⟨sub member, same x member ▸ points⟩

omit [DecidableEq ι] in
theorem refs_eq_zero : refs slots target a = 0 ↔ ∀ x ∈ slots, target x ≠ some a := by
  unfold refs
  rw [Finset.card_eq_zero, Finset.filter_eq_empty_iff]

omit [DecidableEq ι] in
theorem refs_pos (member : r ∈ slots) (points : target r = some a) : 0 < refs slots target a := by
  rcases Nat.eq_zero_or_pos (refs slots target a) with zero | positive
  · exact absurd points (refs_eq_zero.mp zero r member)
  · exact positive

omit [DecidableEq ι] in
theorem eq_of_refs_le_one (bound : refs slots target a ≤ 1) (hr : r ∈ slots) (hs : s ∈ slots)
    (left : target r = some a) (right : target s = some a) : r = s := by
  unfold refs at bound
  rw [Finset.card_le_one] at bound
  exact bound r (Finset.mem_filter.mpr ⟨hr, left⟩) s (Finset.mem_filter.mpr ⟨hs, right⟩)

omit [DecidableEq ι] in
/-- When the references to an object lie in different compartments, there are at most as many
    of them as compartments. -/
theorem refs_le_card (key : ι → κ) (keys : Finset κ) (inside : ∀ x ∈ slots, key x ∈ keys)
    (apart : ∀ x ∈ slots, ∀ y ∈ slots, target x = some a → target y = some a → key x = key y → x = y) :
    refs slots target a ≤ keys.card := by
  unfold refs
  apply Finset.card_le_card_of_injOn key
  · intro x hx
    exact inside x (Finset.mem_filter.mp hx).1
  · intro x hx y hy equal
    have left := Finset.mem_filter.mp hx
    have right := Finset.mem_filter.mp hy
    exact apart x left.1 y right.1 left.2 right.2 equal

end RefCount
