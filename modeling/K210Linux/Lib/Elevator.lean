import Mathlib

namespace K210Linux.Lib

variable {α κ : Type} [LinearOrder κ] {key : α → κ}

/-- Insertion into a queue that rises, falls once and rises again: behind the first element that the new one
    may follow, and before the next one. -/
def elevate (key : α → κ) (x : α) : List α → List α
  | [] => [x]
  | [t] => [t, x]
  | t :: n :: l =>
    if (key t < key x ∨ ¬ key t < key n) ∧ key x < key n then t :: x :: n :: l else t :: elevate key x (n :: l)

def Rising (key : α → κ) (l : List α) : Prop := l.Pairwise fun a b => key a < key b

/-- One rising run, and at most one further one. -/
def TwoRuns (key : α → κ) (l : List α) : Prop := ∃ a b, l = a ++ b ∧ Rising key a ∧ Rising key b

theorem elevate_perm (key : α → κ) (x : α) (l : List α) : (elevate key x l).Perm (x :: l) := by
  fun_induction elevate key x l with
  | case1 => exact .refl _
  | case2 t => exact .swap x t []
  | case3 t n l here => exact .swap x t (n :: l)
  | case4 t n l other ih => exact (ih.cons t).trans (.swap x t (n :: l))

theorem elevate_cons (key : α → κ) (x t : α) (l : List α) : ∃ l', elevate key x (t :: l) = t :: l' := by
  cases l with
  | nil => exact ⟨_, rfl⟩
  | cons n l =>
    unfold elevate
    split
    · exact ⟨_, rfl⟩
    · exact ⟨_, rfl⟩

theorem Rising.cons_of_head {t n : α} {l : List α} (rising : Rising key (n :: l)) (below : key t < key n) :
    Rising key (t :: n :: l) := by
  refine List.pairwise_cons.mpr ⟨?_, rising⟩
  intro b isIn
  rcases List.mem_cons.mp isIn with same | later
  · rw [same]
    exact below
  · exact below.trans ((List.pairwise_cons.mp rising).1 b later)

theorem Rising.head {t n : α} {l : List α} (rising : Rising key (t :: n :: l)) : key t < key n :=
  (List.pairwise_cons.mp rising).1 n (List.mem_cons_self ..)

theorem Rising.tail {t : α} {l : List α} (rising : Rising key (t :: l)) : Rising key l :=
  (List.pairwise_cons.mp rising).2

/-- Above its first element, a rising run stays one. -/
theorem Rising.elevate_above {x t : α} {l : List α} (rising : Rising key (t :: l)) (above : key t < key x)
    (new : ∀ y ∈ l, key y ≠ key x) : Rising key (elevate key x (t :: l)) := by
  induction l generalizing t with
  | nil =>
    unfold elevate
    exact List.pairwise_pair.mpr above
  | cons n l ih =>
    unfold elevate
    split
    · rename_i here
      exact (rising.tail.cons_of_head here.2).cons_of_head above
    · rename_i other
      have next : key n < key x := by
        by_contra notBelow
        have different := new n (List.mem_cons_self ..)
        exact other ⟨.inl above, lt_of_le_of_ne (not_lt.mp notBelow) different.symm⟩
      have rest := ih rising.tail next fun y isIn => new y (List.mem_cons_of_mem _ isIn)
      rcases elevate_cons key x n l with ⟨l', split⟩
      rw [split] at rest ⊢
      exact rest.cons_of_head rising.head

/-- Below it, the new element goes to the end. -/
theorem Rising.elevate_below {x t : α} {l : List α} (rising : Rising key (t :: l)) (below : key x < key t) :
    elevate key x (t :: l) = t :: l ++ [x] := by
  induction l generalizing t with
  | nil => rfl
  | cons n l ih =>
    have up := rising.head
    unfold elevate
    rw [if_neg, ih rising.tail (below.trans up)]
    · rfl
    · intro both
      rcases both.1 with wrong | wrong
      · exact absurd wrong (not_lt.mpr below.le)
      · exact wrong up

theorem elevate_runs {x t : α} {a b : List α} (first : Rising key (t :: a)) (second : Rising key b)
    (new : ∀ y ∈ t :: a ++ b, key y ≠ key x) :
    ∃ a' b', elevate key x (t :: a ++ b) = t :: a' ++ b' ∧ Rising key (t :: a') ∧ Rising key b' := by
  induction a generalizing t with
  | nil =>
    cases b with
    | nil => exact ⟨[], [x], rfl, List.pairwise_singleton .., List.pairwise_singleton ..⟩
    | cons n b =>
      have other : key n ≠ key x := new n (by simp)
      have mine : key t ≠ key x := new t (by simp)
      change ∃ a' b', elevate key x (t :: n :: b) = _ ∧ _
      unfold elevate
      by_cases here : (key t < key x ∨ ¬ key t < key n) ∧ key x < key n
      · rw [if_pos here]
        exact ⟨[], x :: n :: b, rfl, List.pairwise_singleton .., second.cons_of_head here.2⟩
      · rw [if_neg here]
        by_cases above : key n < key x
        · refine ⟨[], _, rfl, List.pairwise_singleton .., second.elevate_above above ?_⟩
          intro y isIn
          exact new y (by simp [isIn])
        · -- the element is below both, and the two runs are one
          have below : key x < key n := lt_of_le_of_ne (not_lt.mp above) other.symm
          have up : key t < key n := by
            by_contra down
            exact here ⟨.inr down, below⟩
          rw [second.elevate_below below]
          exact ⟨n :: b, [x], rfl, second.cons_of_head up, List.pairwise_singleton ..⟩
  | cons n a ih =>
    change ∃ a' b', elevate key x (t :: n :: (a ++ b)) = _ ∧ _
    unfold elevate
    split
    · rename_i here
      have above : key t < key x := here.1.resolve_right fun down => down first.head
      exact ⟨x :: n :: a, b, rfl, (first.tail.cons_of_head here.2).cons_of_head above, second⟩
    · rcases ih first.tail (fun y isIn => new y (by
        rw [List.cons_append, List.mem_cons]
        exact .inr isIn)) with ⟨a', b', same, rising, rest⟩
      rw [List.cons_append] at same
      rw [same]
      exact ⟨n :: a', b', rfl, rising.cons_of_head first.head, rest⟩

theorem TwoRuns.congr {key' : α → κ} {l : List α} (runs : TwoRuns key l) (same : ∀ x ∈ l, key' x = key x) :
    TwoRuns key' l := by
  rcases runs with ⟨a, b, split, first, second⟩
  refine ⟨a, b, split, first.imp_of_mem ?_, second.imp_of_mem ?_⟩
  · intro x y inX inY below
    rw [same x (split ▸ List.mem_append_left _ inX), same y (split ▸ List.mem_append_left _ inY)]
    exact below
  · intro x y inX inY below
    rw [same x (split ▸ List.mem_append_right _ inX), same y (split ▸ List.mem_append_right _ inY)]
    exact below

theorem TwoRuns.elevate {x : α} {l : List α} (runs : TwoRuns key l) (new : ∀ y ∈ l, key y ≠ key x) :
    TwoRuns key (elevate key x l) := by
  rcases runs with ⟨a, b, split, first, second⟩
  subst split
  cases a with
  | cons t a =>
    rcases elevate_runs first second new with ⟨a', b', same, rising, rest⟩
    exact ⟨t :: a', b', same, rising, rest⟩
  | nil =>
    cases b with
    | nil => exact ⟨[x], [], rfl, List.pairwise_singleton .., List.Pairwise.nil⟩
    | cons t b =>
      rcases elevate_runs (b := []) second List.Pairwise.nil (by simpa using new) with ⟨a', b', same, rising, rest⟩
      rw [List.append_nil] at same
      exact ⟨t :: a', b', same, rising, rest⟩

theorem TwoRuns.tail {x : α} {l : List α} (runs : TwoRuns key (x :: l)) : TwoRuns key l := by
  rcases runs with ⟨a, b, split, first, second⟩
  cases a with
  | cons t a =>
    rw [List.cons_append] at split
    cases split
    exact ⟨a, b, rfl, first.tail, second⟩
  | nil =>
    rw [List.nil_append] at split
    subst split
    exact ⟨[], l, rfl, List.Pairwise.nil, second.tail⟩

/-- The elements from the first one on as long as each is below the next. -/
def firstRun (key : α → κ) : List α → List α
  | [] => []
  | [t] => [t]
  | t :: n :: l => if key t < key n then t :: firstRun key (n :: l) else [t]

/-- Above the first element, the new one comes behind elements that are below it only. -/
theorem elevate_above (key : α → κ) {x t : α} {l : List α} (above : key t < key x) (new : ∀ y ∈ l, key y ≠ key x) :
    ∃ before after, elevate key x (t :: l) = before ++ x :: after ∧ ∀ y ∈ before, key y < key x := by
  induction l generalizing t with
  | nil =>
    refine ⟨[t], [], rfl, ?_⟩
    intro y isIn
    rw [List.mem_singleton.mp isIn]
    exact above
  | cons n l ih =>
    unfold elevate
    by_cases below : key x < key n
    · rw [if_pos ⟨.inl above, below⟩]
      refine ⟨[t], n :: l, rfl, ?_⟩
      intro y isIn
      rw [List.mem_singleton.mp isIn]
      exact above
    · rw [if_neg fun both => below both.2]
      have next : key n < key x := lt_of_le_of_ne (not_lt.mp below) (new n (List.mem_cons_self ..))
      rcases ih next fun y isIn => new y (List.mem_cons_of_mem _ isIn) with ⟨before, after, same, small⟩
      refine ⟨t :: before, after, by rw [same, List.cons_append], ?_⟩
      intro y isIn
      rcases List.mem_cons.mp isIn with first | later
      · rw [first]
        exact above
      · exact small y later

/-- Below it, the new one comes behind the first run, and elements below it. -/
theorem elevate_below (key : α → κ) {x t : α} {l : List α} (below : key x < key t) (new : ∀ y ∈ l, key y ≠ key x) :
    ∃ rest after, elevate key x (t :: l) = firstRun key (t :: l) ++ rest ++ x :: after ∧ ∀ y ∈ rest, key y < key x := by
  induction l generalizing t with
  | nil => exact ⟨[], [], rfl, nofun⟩
  | cons n l ih =>
    have newRest : ∀ y ∈ l, key y ≠ key x := fun y isIn => new y (List.mem_cons_of_mem _ isIn)
    unfold elevate firstRun
    by_cases up : key t < key n
    · -- the run goes on, and the new element is below the next one too
      have goesOn : ¬ ((key t < key x ∨ ¬ key t < key n) ∧ key x < key n) := by
        rintro ⟨small | falls, _⟩
        · exact lt_asymm small below
        · exact falls up
      rw [if_neg goesOn, if_pos up]
      rcases ih (below.trans up) newRest with ⟨rest, after, same, small⟩
      exact ⟨rest, after, by rw [same, List.cons_append, List.cons_append], small⟩
    · rw [if_neg up]
      by_cases here : key x < key n
      · rw [if_pos ⟨.inr up, here⟩]
        exact ⟨[], n :: l, rfl, nofun⟩
      · rw [if_neg fun both => here both.2]
        have next : key n < key x := lt_of_le_of_ne (not_lt.mp here) (new n (List.mem_cons_self ..))
        rcases elevate_above key next newRest with ⟨before, after, same, small⟩
        exact ⟨before, after, by rw [same, List.singleton_append, List.cons_append], small⟩

theorem firstRun_cons (key : α → κ) (t : α) (l : List α) : ∃ run, firstRun key (t :: l) = t :: run ∧ run ⊆ l := by
  induction l generalizing t with
  | nil => exact ⟨[], rfl, nofun⟩
  | cons n l ih =>
    unfold firstRun
    split
    · rcases ih n with ⟨run, same, inside⟩
      exact ⟨n :: run, by rw [same], List.cons_subset_cons n inside⟩
    · exact ⟨[], rfl, nofun⟩

theorem firstRun_congr {key' : α → κ} {l : List α} (same : ∀ x ∈ l, key' x = key x) : firstRun key' l = firstRun key l := by
  induction l with
  | nil => rfl
  | cons t l ih =>
    cases l with
    | nil => rfl
    | cons n l =>
      have rest := ih fun x isIn => same x (List.mem_cons_of_mem _ isIn)
      unfold firstRun
      rw [same t (by simp), same n (by simp), rest]

/-- In two rising runs at most one element is followed by one that is not above it. -/
theorem TwoRuns.one_descent {l : List α} (runs : TwoRuns key l) {i j : Nat} (inside : i + 1 < l.length)
    (inside' : j + 1 < l.length) (down : ¬ key l[i] < key l[i + 1]) (down' : ¬ key l[j] < key l[j + 1]) : i = j := by
  rcases runs with ⟨a, b, split, first, second⟩
  subst split
  have border : ∀ k, (bound : k + 1 < (a ++ b).length) → ¬ key (a ++ b)[k] < key (a ++ b)[k + 1] → k + 1 = a.length := by
    intro k bound falls
    rw [List.length_append] at bound
    by_contra other
    apply falls
    by_cases left : k + 1 < a.length
    · rw [List.getElem_append_left (by omega), List.getElem_append_left left]
      exact List.pairwise_iff_getElem.mp first k (k + 1) (by omega) left (Nat.lt_succ_self k)
    · rw [List.getElem_append_right (by omega), List.getElem_append_right (by omega)]
      exact List.pairwise_iff_getElem.mp second (k - a.length) (k + 1 - a.length) (by omega) (by omega) (by omega)
  have here := border i inside down
  have there := border j inside' down'
  omega

end K210Linux.Lib
