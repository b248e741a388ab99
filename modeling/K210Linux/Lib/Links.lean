import Mathlib.Data.List.Cycle

/-! Doubly linked lists: rings, and lists that end. -/

namespace K210Linux.Lib

variable {α : Type} [DecidableEq α] {next prev next' prev' : α → Option α} {a b n p : α} {l l' : List α}

/-- Two nodes that point at each other. -/
def Neighbours (next prev : α → Option α) (a b : α) : Prop := next a = some b ∧ prev b = some a

/-- The nodes of `l` are linked to a ring in this order. -/
def LinkRing (next prev : α → Option α) (l : List α) : Prop := (l : Cycle α).Chain (Neighbours next prev)

theorem LinkRing.rotate (ring : LinkRing next prev (l ++ l')) : LinkRing next prev (l' ++ l) := by
  have same : ((l ++ l' : List α) : Cycle α) = (l' ++ l : List α) := Cycle.coe_eq_coe.2 List.isRotated_append
  rw [LinkRing, ← same]
  exact ring

theorem linkRing_cons : LinkRing next prev (a :: l) ↔ (a :: (l ++ [a])).IsChain (Neighbours next prev) :=
  Cycle.chain_coe_cons ..

/-- Links in a row only rest on `next` of all nodes but the last and `prev` of all but the first. -/
theorem isChain_congr (chain : l.IsChain (Neighbours next prev)) (forward : ∀ x ∈ l.dropLast, next' x = next x)
    (backward : ∀ x ∈ l.tail, prev' x = prev x) : l.IsChain (Neighbours next' prev') := by
  induction l with
  | nil => exact .nil
  | cons a l ih =>
    cases l with
    | nil => exact .singleton a
    | cons b l =>
      rw [List.isChain_cons_cons] at chain ⊢
      refine ⟨⟨?_, ?_⟩, ih chain.2 ?_ ?_⟩
      · rw [forward a (by simp)]
        exact chain.1.1
      · rw [backward b (by simp)]
        exact chain.1.2
      · intro x inside
        exact forward x (by simp [inside])
      · intro x inside
        exact backward x (List.mem_of_mem_tail inside)

theorem getLast_not_mem_dropLast (nodup : l.Nodup) (some : l ≠ []) : l.getLast some ∉ l.dropLast := by
  intro inside
  rw [← List.dropLast_append_getLast some, List.nodup_append] at nodup
  exact nodup.2.2 _ inside _ (List.mem_singleton.2 rfl) rfl

/-- The ends of a ring point at each other. -/
theorem LinkRing.ends (ring : LinkRing next prev (a :: l)) :
    (a :: l).IsChain (Neighbours next prev) ∧ Neighbours next prev ((a :: l).getLast (List.cons_ne_nil a l)) a := by
  rw [linkRing_cons, ← List.cons_append, List.isChain_append] at ring
  refine ⟨ring.1, ring.2.2 _ ?_ a ?_⟩
  · rw [List.getLast?_eq_some_getLast (List.cons_ne_nil a l)]
    rfl
  · rfl

theorem LinkRing.of_ends (chain : (a :: l).IsChain (Neighbours next prev))
    (ends : Neighbours next prev ((a :: l).getLast (List.cons_ne_nil a l)) a) : LinkRing next prev (a :: l) := by
  rw [linkRing_cons, ← List.cons_append, List.isChain_append]
  refine ⟨chain, .singleton a, ?_⟩
  intro x isLast y isFirst
  rw [List.getLast?_eq_some_getLast (List.cons_ne_nil a l)] at isLast
  cases isLast
  cases isFirst
  exact ends

theorem LinkRing.next_mem (ring : LinkRing next prev l) (inside : a ∈ l) (link : next a = some b) : b ∈ l := by
  rcases List.append_of_mem inside with ⟨before, after, rfl⟩
  have rotated := ring.rotate
  rw [List.cons_append] at rotated
  cases rest : after ++ before with
  | nil =>
    rw [rest, linkRing_cons, List.nil_append, List.isChain_pair] at rotated
    rw [Option.some.inj (link.symm.trans rotated.1)]
    exact inside
  | cons c t =>
    rw [rest] at rotated
    have second := (List.isChain_cons_cons.1 rotated.ends.1).1.1
    have member : c ∈ after ++ before := by simp [rest]
    rw [Option.some.inj (link.symm.trans second)]
    rcases List.mem_append.1 member with later | earlier
    · simp [later]
    · simp [earlier]

/-- A node is taken out of a ring that has others. -/
theorem LinkRing.unlink (ring : LinkRing next prev (b :: a :: l)) (nodup : (b :: a :: l).Nodup)
    (before : prev b = some p) (after : next b = some n) :
    LinkRing (Function.update next p (some n)) (Function.update prev n (some p)) (a :: l) := by
  have ends := ring.ends
  have second := (List.isChain_cons_cons.1 ends.1).1
  obtain rfl : n = a := Option.some.inj (after.symm.trans second.1)
  have last : (b :: n :: l).getLast (List.cons_ne_nil _ _) = (n :: l).getLast (List.cons_ne_nil _ _) :=
    List.getLast_cons _
  obtain rfl : p = (n :: l).getLast (List.cons_ne_nil _ _) := by
    rw [← last]
    exact Option.some.inj (before.symm.trans ends.2.2)
  have tailNodup : (n :: l).Nodup := nodup.of_cons
  apply LinkRing.of_ends
  · apply isChain_congr (List.isChain_cons_cons.1 ends.1).2
    · intro x inside
      apply Function.update_of_ne
      rintro rfl
      exact getLast_not_mem_dropLast tailNodup _ inside
    · intro x inside
      apply Function.update_of_ne
      rintro rfl
      exact (List.nodup_cons.1 tailNodup).1 inside
  · exact ⟨Function.update_self .., Function.update_self ..⟩

theorem LinkRing.unlink_at {xs ys : List α} (ring : LinkRing next prev (xs ++ b :: ys)) (nodup : (xs ++ b :: ys).Nodup)
    (others : xs ++ ys ≠ []) (before : prev b = some p) (after : next b = some n) :
    LinkRing (Function.update next p (some n)) (Function.update prev n (some p)) (xs ++ ys) := by
  have rotated := ring.rotate
  have rotatedNodup : (b :: ys ++ xs).Nodup := (List.perm_append_comm.nodup_iff).1 nodup
  rw [List.cons_append] at rotated rotatedNodup
  cases rest : ys ++ xs with
  | nil =>
    rw [List.append_eq_nil_iff] at rest
    simp [rest.1, rest.2] at others
  | cons a l =>
    rw [rest] at rotated rotatedNodup
    have removed := rotated.unlink rotatedNodup before after
    rw [← rest] at removed
    exact removed.rotate

/-- Every node of a ring has links on both sides. -/
theorem LinkRing.links (ring : LinkRing next prev l) (inside : b ∈ l) :
    ∃ p n, p ∈ l ∧ prev b = some p ∧ next b = some n := by
  rcases List.append_of_mem inside with ⟨xs, ys, rfl⟩
  have rotated := ring.rotate
  rw [List.cons_append] at rotated
  have ends := rotated.ends
  have member : (b :: (ys ++ xs)).getLast (List.cons_ne_nil _ _) ∈ b :: (ys ++ xs) := List.getLast_mem _
  have follows : ∃ n, next b = some n := by
    cases rest : ys ++ xs with
    | nil =>
      rw [rest, linkRing_cons, List.nil_append, List.isChain_pair] at rotated
      exact ⟨b, rotated.1⟩
    | cons a l =>
      rw [rest] at ends
      exact ⟨a, (List.isChain_cons_cons.1 ends.1).1.1⟩
  rcases follows with ⟨n, follows⟩
  refine ⟨_, n, ?_, ends.2.2, follows⟩
  rcases List.mem_cons.1 member with self | other
  · rw [self]
    exact inside
  · rcases List.mem_append.1 other with later | earlier
    · simp [later]
    · simp [earlier]

/-- A node is put in at the end of a ring, before its first node. -/
theorem LinkRing.link (ring : LinkRing next prev (a :: l)) (nodup : (a :: l).Nodup) (new : b ∉ a :: l)
    (last : prev a = some p) :
    LinkRing (Function.update (Function.update next b (some a)) p (some b))
      (Function.update (Function.update prev b (some p)) a (some b)) (a :: (l ++ [b])) := by
  have ends := ring.ends
  obtain rfl : p = (a :: l).getLast (List.cons_ne_nil _ _) := Option.some.inj (last.symm.trans ends.2.2)
  have apart : (a :: l).getLast (List.cons_ne_nil _ _) ≠ b := by
    intro same
    exact new (same ▸ List.getLast_mem _)
  have other : a ≠ b := fun same => new (same ▸ List.mem_cons_self ..)
  have chain : (a :: (l ++ [b])).IsChain (Neighbours
      (Function.update (Function.update next b (some a)) ((a :: l).getLast (List.cons_ne_nil _ _)) (some b))
      (Function.update (Function.update prev b (some ((a :: l).getLast (List.cons_ne_nil _ _)))) a (some b))) := by
    rw [← List.cons_append, List.isChain_append]
    refine ⟨?_, .singleton b, ?_⟩
    · apply isChain_congr ends.1
      · intro x inside
        have inList : x ∈ a :: l := List.mem_of_mem_dropLast inside
        rw [Function.update_of_ne, Function.update_of_ne]
        · rintro rfl
          exact new inList
        · rintro rfl
          exact getLast_not_mem_dropLast nodup _ inside
      · intro x inside
        rw [Function.update_of_ne, Function.update_of_ne]
        · rintro rfl
          exact new (List.mem_of_mem_tail inside)
        · rintro rfl
          exact (List.nodup_cons.1 nodup).1 inside
    · intro x isLast y isFirst
      rw [List.getLast?_eq_some_getLast (List.cons_ne_nil a l)] at isLast
      cases isLast
      cases isFirst
      refine ⟨Function.update_self .., ?_⟩
      rw [Function.update_of_ne other.symm, Function.update_self]
  apply LinkRing.of_ends chain
  have atEnd : (a :: (l ++ [b])).getLast (List.cons_ne_nil _ _) = b := by
    simp
  rw [atEnd]
  refine ⟨?_, Function.update_self ..⟩
  rw [Function.update_of_ne apart.symm, Function.update_self]

/-- The nodes of `l` are linked in this order from `start` on, behind the node `before` or none, and end
    with no node. -/
def LinkList (next prev : α → Option α) : Option α → Option α → List α → Prop
  | _, start, [] => start = none
  | before, start, a :: l => start = some a ∧ prev a = before ∧ LinkList next prev (some a) (next a) l

variable {before start : Option α}

theorem LinkList.congr (list : LinkList next prev before start l) (forward : ∀ x ∈ l, next' x = next x)
    (backward : ∀ x ∈ l, prev' x = prev x) : LinkList next' prev' before start l := by
  induction l generalizing before start with
  | nil => exact list
  | cons a l ih =>
    rcases list with ⟨first, back, rest⟩
    refine ⟨first, ?_, ?_⟩
    · rw [backward a (List.mem_cons_self ..)]
      exact back
    · rw [forward a (List.mem_cons_self ..)]
      exact ih rest (fun x inside => forward x (List.mem_cons_of_mem _ inside))
        fun x inside => backward x (List.mem_cons_of_mem _ inside)

theorem LinkList.start_mem (list : LinkList next prev before start l) (leads : start = some a) : a ∈ l := by
  cases l with
  | nil => cases list.symm.trans leads
  | cons b l =>
    cases list.1.symm.trans leads
    exact List.mem_cons_self ..

/-- A node that is no node of the list is put in at its front. -/
theorem LinkList.push (list : LinkList next prev none start l) (new : b ∉ l) (nodup : l.Nodup)
    (forward : next' = Function.update next b start)
    (backward : ∀ x, prev' x = if x = b then none else if some x = start then some b else prev x) :
    LinkList next' prev' none (some b) (b :: l) := by
  have kept : ∀ x ∈ l, next' x = next x := by
    intro x inside
    rw [forward]
    apply Function.update_of_ne
    rintro rfl
    exact new inside
  refine ⟨rfl, by simp [backward], ?_⟩
  rw [forward, Function.update_self, ← forward]
  cases l with
  | nil => exact list
  | cons a l =>
    rcases list with ⟨rfl, back, rest⟩
    have other : a ≠ b := fun same => new (same ▸ List.mem_cons_self ..)
    refine ⟨rfl, by simp [backward, other], ?_⟩
    rw [kept a (List.mem_cons_self ..)]
    apply rest.congr
    · intro x inside
      exact kept x (List.mem_cons_of_mem _ inside)
    · intro x inside
      have notNew : x ≠ b := by
        rintro rfl
        exact new (List.mem_cons_of_mem _ inside)
      have notFirst : x ≠ a := by
        rintro rfl
        exact (List.nodup_cons.1 nodup).1 inside
      simp [backward, notNew, notFirst]

theorem LinkList.next_of {xs ys : List α} (list : LinkList next prev before start (xs ++ b :: ys)) :
    next b = ys.head? := by
  induction xs generalizing before start with
  | nil =>
    rcases list with ⟨_, _, rest⟩
    cases ys with
    | nil => exact rest
    | cons a ys => exact rest.1
  | cons a xs ih => exact ih list.2.2

theorem LinkList.prev_of {xs ys : List α} (list : LinkList next prev before start (xs ++ b :: ys)) :
    prev b = xs.getLast?.or before := by
  induction xs generalizing before start with
  | nil => exact list.2.1
  | cons a xs ih =>
    rw [ih list.2.2]
    cases xs with
    | nil => rfl
    | cons c xs => simp [List.getLast?_eq_some_getLast]

/-- A node is taken out of a list: its neighbours are linked over it. -/
theorem LinkList.remove {xs ys : List α} (list : LinkList next prev before start (xs ++ b :: ys))
    (nodup : (xs ++ b :: ys).Nodup) (outside : ∀ x, before = some x → x ∉ xs ++ b :: ys)
    (forward : ∀ x, next' x = if prev b = some x then next b else next x)
    (backward : ∀ x, prev' x = if next b = some x then prev b else prev x) :
    LinkList next' prev' before (if xs = [] then next b else start) (xs ++ ys) := by
  induction xs generalizing before start with
  | nil =>
    have follows : next b = ys.head? := LinkList.next_of list
    have back : prev b = before := list.2.1
    rw [if_pos rfl, List.nil_append]
    rw [List.nil_append, List.nodup_cons] at nodup
    cases ys with
    | nil => exact follows
    | cons a ys =>
      rcases list.2.2 with ⟨_, _, rest⟩
      have beforeNot (x : α) (inside : x ∈ a :: ys) : before ≠ some x := fun same =>
        outside x same (List.mem_cons_of_mem _ inside)
      have second : next b = some a := follows
      refine ⟨second, ?_, ?_⟩
      · rw [backward, if_pos second, back]
      · rw [forward, back, if_neg (beforeNot a (List.mem_cons_self ..))]
        apply rest.congr
        · intro x inside
          rw [forward, back, if_neg (beforeNot x (List.mem_cons_of_mem _ inside))]
        · intro x inside
          have notFirst : next b ≠ some x := by
            rw [follows]
            intro same
            cases same
            exact (List.nodup_cons.1 nodup.2).1 inside
          rw [backward, if_neg notFirst]
  | cons a xs ih =>
    rcases list with ⟨first, back, rest⟩
    rw [List.cons_append, List.nodup_cons] at nodup
    rw [if_neg (List.cons_ne_nil _ _)]
    have follows : next b = ys.head? := LinkList.next_of rest
    have later := ih rest nodup.2 (by
      intro x same
      cases same
      exact nodup.1)
    have notA : next b ≠ some a := by
      rw [follows]
      intro same
      apply nodup.1
      have : a ∈ ys := List.mem_of_mem_head? same
      simp [this]
    refine ⟨first, ?_, ?_⟩
    · rw [backward, if_neg notA]
      exact back
    · have leads : next' a = if xs = [] then next b else next a := by
        rw [forward, LinkList.prev_of rest]
        cases xs with
        | nil => simp
        | cons c xs =>
          rw [if_neg (List.cons_ne_nil _ _), if_neg]
          intro same
          have inside : a ∈ c :: xs := by
            apply List.mem_of_getLast?
            simpa [List.getLast?_eq_some_getLast] using same
          exact nodup.1 (List.mem_append_left _ inside)
      rw [leads]
      exact later

end K210Linux.Lib
