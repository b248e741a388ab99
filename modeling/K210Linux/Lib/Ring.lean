import Mathlib.Data.List.Range
import Mathlib.Tactic

namespace K210Linux.Lib

variable {α : Type} {n : Nat}

/-- `len` cells of `cells` from `start` on, without wrapping. -/
def segment (cells : Nat → α) (start len : Nat) : List α := (List.range len).map fun i => cells (start + i)

/-- `len` cells from `start` on in a ring of `n` cells. -/
def ring (n : Nat) (cells : Nat → α) (start len : Nat) : List α :=
  (List.range len).map fun i => cells ((start + i) % n)

/-- The cells after `values` were stored from `start` on. -/
def overwrite (cells : Nat → α) (start : Nat) (values : List α) (i : Nat) : α :=
  if i < start then cells i else (values[i - start]?).getD (cells i)

@[simp] theorem length_segment (cells : Nat → α) (start len : Nat) : (segment cells start len).length = len := by
  simp [segment]

@[simp] theorem length_ring (cells : Nat → α) (start len : Nat) : (ring n cells start len).length = len := by
  simp [ring]

theorem ring_eq_segment {cells : Nat → α} {start len : Nat} (fits : start + len ≤ n) :
    ring n cells start len = segment cells start len := by
  apply List.map_congr_left
  intro i inRange
  rw [List.mem_range] at inRange
  rw [Nat.mod_eq_of_lt (by omega)]

theorem ring_append (cells : Nat → α) (start a b : Nat) :
    ring n cells start (a + b) = ring n cells start a ++ ring n cells ((start + a) % n) b := by
  rw [ring, List.range_add, List.map_append, List.map_map]
  congr 1
  apply List.map_congr_left
  intro i _
  simp [Nat.add_assoc]

theorem overwrite_of_outside {cells : Nat → α} {start i : Nat} {values : List α}
    (outside : i < start ∨ start + values.length ≤ i) : overwrite cells start values i = cells i := by
  unfold overwrite
  split
  · rfl
  · rw [List.getElem?_eq_none (by omega), Option.getD_none]

theorem segment_overwrite (cells : Nat → α) (start : Nat) (values : List α) :
    segment (overwrite cells start values) start values.length = values := by
  apply List.ext_getElem
  · simp
  · intro i _ inRange
    simp [segment, overwrite, inRange]

/-- Storing behind the last of `len` cells leaves them as they were, as long as the first of them is not
    reached again. -/
theorem ring_overwrite {cells : Nat → α} {start len : Nat} {values : List α} (inside : start < n)
    (room : len + values.length ≤ n) :
    ring n (overwrite cells ((start + len) % n) values) start len = ring n cells start len := by
  apply List.map_congr_left
  intro i inRange
  rw [List.mem_range] at inRange
  apply overwrite_of_outside
  by_cases wraps : start + len < n
  · rw [Nat.mod_eq_of_lt wraps, Nat.mod_eq_of_lt (by omega)]
    omega
  · by_cases empty : values.length = 0
    · omega
    · have atEnd : (start + len) % n = start + len - n := by
        rw [Nat.mod_eq_sub_mod (by omega), Nat.mod_eq_of_lt (by omega)]
      rw [atEnd]
      by_cases before : start + i < n
      · rw [Nat.mod_eq_of_lt before]
        omega
      · rw [Nat.mod_eq_sub_mod (by omega), Nat.mod_eq_of_lt (by omega)]
        omega

end K210Linux.Lib
