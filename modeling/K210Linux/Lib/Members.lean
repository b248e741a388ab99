import Mathlib

/-! Families in which one member changes: sums over the members, and their descent from a root. -/

namespace Members

open Relation

variable {ι : Type*} {R R' : ι → ι → Prop} {root x y : ι}

/-- Everything still descends from the root where what is not related as before is related to `a`. -/
theorem descends_adopt {a : ι} (top : ReflTransGen R' a root) (each : ∀ x y, R x y → R' x y ∨ R' x a)
    (descends : ReflTransGen R x root) : ReflTransGen R' x root := by
  induction descends using ReflTransGen.head_induction_on with
  | refl => exact .refl
  | head related _ ih =>
    rcases each _ _ related with kept | adopted
    · exact ih.head kept
    · exact top.head adopted

/-- What descends from something without a parent is on no cycle. -/
theorem acyclic (functional : ∀ x y z, R x y → R x z → y = z) (top : ∀ y, ¬ R root y)
    (descends : ReflTransGen R x root) : ¬ TransGen R x x := by
  induction descends using ReflTransGen.head_induction_on with
  | refl =>
    intro cycle
    rcases TransGen.head'_iff.mp cycle with ⟨y, related, -⟩
    exact top y related
  | @head x y related _ ih =>
    intro cycle
    apply ih
    rcases TransGen.head'_iff.mp cycle with ⟨z, first, back⟩
    rw [functional _ _ _ related first]
    exact TransGen.tail' back first

/-- One term of a sum changes. -/
theorem sum_exchange {ι M : Type*} [DecidableEq ι] [AddCommMonoid M] {terms : Finset ι} {i : ι} (member : i ∈ terms)
    {g g' : ι → M} (others : ∀ j, j ≠ i → g' j = g j) : ∑ j ∈ terms, g' j + g i = ∑ j ∈ terms, g j + g' i := by
  have rest : ∑ j ∈ terms.erase i, g' j = ∑ j ∈ terms.erase i, g j :=
    Finset.sum_congr rfl fun j isIn => others j (Finset.ne_of_mem_erase isIn)
  rw [← Finset.add_sum_erase _ _ member, ← Finset.add_sum_erase _ g member, rest]
  ac_rfl

theorem sum_change {ι M : Type*} [DecidableEq ι] [AddCommGroup M] {terms : Finset ι} {i : ι} (member : i ∈ terms)
    {g g' : ι → M} (others : ∀ j, j ≠ i → g' j = g j) : ∑ j ∈ terms, g' j = ∑ j ∈ terms, g j + (g' i - g i) := by
  rw [← add_sub_assoc, ← sum_exchange member others, add_sub_cancel_right]

end Members
