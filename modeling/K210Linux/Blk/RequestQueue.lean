import K210Linux.Lib.Chain
import K210Linux.Lib.Elevator
import Mathlib

namespace K210Linux.Blk

open K210Linux.Lib

def nrRequest : Nat := 32

/-- The fields of `struct request` that `add_request` and `end_request` use; requests are named by their index
    in `request`, and buffers by their number. -/
structure Request where
  dev : Int
  cmd : Int
  sector : BitVec 64
  bh : Option Nat
  next : Option Nat

/-- `IN_ORDER`. -/
def inOrder (s₁ s₂ : Request) : Prop :=
  s₁.cmd < s₂.cmd ∨ s₁.cmd = s₂.cmd ∧ (s₁.dev < s₂.dev ∨ s₁.dev = s₂.dev ∧ s₁.sector < s₂.sector)

instance (s₁ s₂ : Request) : Decidable (inOrder s₁ s₂) := inferInstanceAs (Decidable (_ ∨ _))

/-- The requests, the `current_request` of the device, and `b_dirt` of the buffers. -/
structure Queue where
  request : Nat → Request
  current : Option Nat
  dirt : Nat → Bool

def Queue.setRequest (q : Queue) (p : Nat) (r : Request) : Queue :=
  { q with request := Function.update q.request p r }

/-- The loop of `add_request`: the request behind which the new one goes. -/
def findPlace (q : Queue) (req tmp : Nat) : Nat → Option Nat
  | 0 => none
  | fuel + 1 =>
    match (q.request tmp).next with
    | none => some tmp
    | some next =>
      if (inOrder (q.request tmp) (q.request req) ∨ ¬ inOrder (q.request tmp) (q.request next)) ∧
          inOrder (q.request req) (q.request next) then some tmp
      else findPlace q req next fuel

/-- The start of `add_request`: `req -> next = NULL` and `req -> bh -> b_dirt = 0`. -/
def startRequest (q : Queue) (req : Nat) : Queue :=
  { q.setRequest req { q.request req with next := none } with
    dirt := match (q.request req).bh with
      | none => q.dirt
      | some bh => Function.update q.dirt bh false }

/-- `tmp -> next` becomes the request, and the old one comes behind it. -/
def linkRequest (q : Queue) (req tmp : Nat) : Queue :=
  let q := q.setRequest req { q.request req with next := (q.request tmp).next }
  q.setRequest tmp { q.request tmp with next := some req }

/-- `add_request`, without the call of `request_fn` that it makes for an empty queue. The loop has at most one
    round for each request. -/
def addRequest (q : Queue) (req : Nat) : Option Queue :=
  let q := startRequest q req
  match q.current with
  | none => some { q with current := some req }
  | some head => (findPlace q req head nrRequest).map (linkRequest q req)

/-- The end of `end_request`: `CURRENT -> dev = -1` and `CURRENT = CURRENT -> next`. -/
def endRequest (q : Queue) (head : Nat) : Queue :=
  { q.setRequest head { q.request head with dev := -1 } with current := (q.request head).next }

abbrev Key := Int ×ₗ Int ×ₗ Nat

def keyOf (r : Request) : Key := toLex (r.cmd, toLex (r.dev, r.sector.toNat))

theorem inOrder_iff (s₁ s₂ : Request) : inOrder s₁ s₂ ↔ keyOf s₁ < keyOf s₂ := by
  unfold inOrder keyOf
  rw [Prod.Lex.toLex_lt_toLex, Prod.Lex.toLex_lt_toLex, BitVec.lt_def]

/-- One call: a request that is not in the queue is filled in and added, or the head is taken off. The set
    holds the requests added and not yet removed. -/
inductive QueueStep : Queue × Finset Nat → Queue × Finset Nat → Prop
  | add {q q' : Queue} {waiting : Finset Nat} (p : Nat) (r : Request) (slot : p < nrRequest) (free : p ∉ waiting)
      (distinct : ∀ p' ∈ waiting, keyOf (q.request p') ≠ keyOf r)
      (run : addRequest (q.setRequest p r) p = some q') : QueueStep (q, waiting) (q', insert p waiting)
  | remove {q : Queue} {waiting : Finset Nat} (p : Nat) (head : q.current = some p) :
      QueueStep (q, waiting) (endRequest q p, waiting.erase p)

/-- What holds of a queue between the calls: following `next` visits `l`. -/
structure Elevator (q : Queue) (waiting : Finset Nat) (l : List Nat) : Prop where
  chain : Chain (fun p => (q.request p).next) q.current l
  nodup : l.Nodup
  members : ∀ p, p ∈ l ↔ p ∈ waiting
  slots : ∀ p ∈ l, p < nrRequest
  runs : TwoRuns (fun p => keyOf (q.request p)) l

section Add

variable {q : Queue} {req head : Nat} {l : List Nat}

/-- The links after `req` went behind `tmp`. -/
def linked (next : Nat → Option Nat) (req tmp : Nat) : Nat → Option Nat :=
  Function.update (Function.update next req (next tmp)) tmp (some req)

theorem findPlace_chain {fuel : Nat} (chain : Chain (fun p => (q.request p).next) (some head) (head :: l))
    (nodup : (head :: l).Nodup) (outside : req ∉ head :: l) (enough : l.length < fuel) :
    ∃ tmp, findPlace q req head fuel = some tmp ∧ tmp ∈ head :: l ∧
      Chain (linked (fun p => (q.request p).next) req tmp) (some head)
        (elevate (fun p => keyOf (q.request p)) req (head :: l)) := by
  induction l generalizing head fuel with
  | nil =>
    have last : (q.request head).next = none := by simpa using chain
    have other : req ≠ head := fun same => outside (by simp [same])
    cases fuel with
    | zero => omega
    | succ fuel =>
      refine ⟨head, ?_, List.mem_cons_self .., ?_⟩
      · unfold findPlace
        rw [last]
      · simp [elevate, linked, other, last]
  | cons n l ih =>
    have split := chain_cons.mp chain
    have rest := split.2
    have link : (q.request head).next = some n := (chain_cons.mp rest).1
    have headNew : head ∉ n :: l := (List.nodup_cons.mp nodup).1
    have reqNew : req ∉ n :: l := fun isIn => outside (List.mem_cons_of_mem _ isIn)
    have other : req ≠ head := fun same => outside (by simp [same])
    cases fuel with
    | zero => simp at enough
    | succ fuel =>
      unfold findPlace
      simp only [link, inOrder_iff]
      by_cases here : (keyOf (q.request head) < keyOf (q.request req) ∨
          ¬ keyOf (q.request head) < keyOf (q.request n)) ∧ keyOf (q.request req) < keyOf (q.request n)
      · rw [if_pos here]
        refine ⟨head, rfl, List.mem_cons_self .., ?_⟩
        unfold elevate
        rw [if_pos here, chain_cons, chain_cons]
        refine ⟨rfl, by simp [linked], ?_⟩
        have next : linked (fun p => (q.request p).next) req head req = some n := by
          simp [linked, other, link]
        rw [next]
        rw [link] at rest
        apply rest.congr
        intro p isIn
        have notHead : p ≠ head := fun same => headNew (same ▸ isIn)
        have notReq : p ≠ req := fun same => reqNew (same ▸ isIn)
        simp [linked, notHead, notReq]
      · rw [if_neg here]
        rw [link] at rest
        rcases ih rest (List.nodup_cons.mp nodup).2 reqNew (by simpa using enough) with ⟨tmp, found, inside, chain'⟩
        refine ⟨tmp, found, List.mem_cons_of_mem _ inside, ?_⟩
        unfold elevate
        rw [if_neg here, chain_cons]
        refine ⟨rfl, ?_⟩
        have notTmp : head ≠ tmp := fun same => headNew (same ▸ inside)
        have next : linked (fun p => (q.request p).next) req tmp head = some n := by
          simp [linked, notTmp, other.symm, link]
        rw [next]
        exact chain'

theorem addRequest_spec {waiting : Finset Nat} {r : Request} {p : Nat} (elevator : Elevator q waiting l)
    (slot : p < nrRequest) (free : p ∉ waiting) (distinct : ∀ p' ∈ waiting, keyOf (q.request p') ≠ keyOf r) :
    ∃ q', addRequest (q.setRequest p r) p = some q' ∧
      Elevator q' (insert p waiting) (elevate (fun p => keyOf (q'.request p)) p l) ∧
      ∀ head, q.current = some head → q'.current = some head := by
  have outside : p ∉ l := fun isIn => free ((elevator.members p).mp isIn)
  unfold addRequest
  dsimp only
  generalize started : startRequest (q.setRequest p r) p = q₀
  have request : q₀.request = Function.update q.request p { r with next := none } := by
    rw [← started]
    simp only [startRequest, Queue.setRequest, Function.update_self, Function.update_idem]
  have current : q₀.current = q.current := by
    rw [← started]
    rfl
  have others : ∀ p', p' ≠ p → q₀.request p' = q.request p' := by
    intro p' other
    rw [request, Function.update_of_ne other]
  have own : q₀.request p = { r with next := none } := by
    rw [request, Function.update_self]
  have chain₀ : Chain (fun p => (q₀.request p).next) q₀.current l := by
    rw [current]
    apply elevator.chain.congr
    intro p' isIn
    rw [others p' fun same => outside (same ▸ isIn)]
  have runs₀ : TwoRuns (fun p => keyOf (q₀.request p)) l := by
    apply elevator.runs.congr
    intro p' isIn
    rw [others p' fun same => outside (same ▸ isIn)]
  have new : ∀ y ∈ l, keyOf (q₀.request y) ≠ keyOf (q₀.request p) := by
    intro y isIn
    rw [others y fun same => outside (same ▸ isIn), own]
    exact distinct y ((elevator.members y).mp isIn)
  have perm := elevate_perm (fun p => keyOf (q₀.request p)) p l
  have nodup : (elevate (fun p => keyOf (q₀.request p)) p l).Nodup :=
    perm.nodup_iff.mpr (List.nodup_cons.mpr ⟨outside, elevator.nodup⟩)
  have members : ∀ p', p' ∈ elevate (fun p => keyOf (q₀.request p)) p l ↔ p' ∈ insert p waiting := by
    intro p'
    rw [perm.mem_iff, List.mem_cons, Finset.mem_insert, elevator.members]
  have slots : ∀ p' ∈ elevate (fun p => keyOf (q₀.request p)) p l, p' < nrRequest := by
    intro p' isIn
    rcases List.mem_cons.mp (perm.mem_iff.mp isIn) with same | old
    · rw [same]
      exact slot
    · exact elevator.slots p' old
  cases l with
  | nil =>
    have empty : q₀.current = none := chain_nil.mp chain₀
    rw [empty]
    refine ⟨_, rfl, ⟨?_, nodup, members, slots, runs₀.elevate new⟩, ?_⟩
    · have last : (q₀.request p).next = none := by rw [own]
      simp [elevate, last]
    · intro head some
      rw [← current, empty] at some
      cases some
  | cons head l =>
    have first : q₀.current = some head := (chain_cons.mp chain₀).1
    rw [first] at chain₀ ⊢
    have short : l.length < nrRequest := by
      have sub : head :: l ⊆ List.range nrRequest := fun p' isIn => List.mem_range.mpr (elevator.slots p' isIn)
      have bound := (elevator.nodup.subperm sub).length_le
      rw [List.length_range, List.length_cons] at bound
      omega
    rcases findPlace_chain chain₀ elevator.nodup outside short with ⟨tmp, found, inside, chain'⟩
    dsimp only
    rw [found]
    change ∃ q', some (linkRequest q₀ p tmp) = some q' ∧ _
    generalize after : linkRequest q₀ p tmp = q'
    have notReq : tmp ≠ p := fun same => outside (same ▸ inside)
    have next : (fun p' => (q'.request p').next) = linked (fun p' => (q₀.request p').next) p tmp := by
      funext p'
      rw [← after]
      simp only [linkRequest, Queue.setRequest, linked]
      by_cases isTmp : p' = tmp
      · rw [isTmp, Function.update_self, Function.update_self]
      · rw [Function.update_of_ne isTmp, Function.update_of_ne isTmp]
        by_cases isReq : p' = p
        · rw [isReq, Function.update_self, Function.update_self]
        · rw [Function.update_of_ne isReq, Function.update_of_ne isReq]
    have key : (fun p' => keyOf (q'.request p')) = fun p' => keyOf (q₀.request p') := by
      funext p'
      rw [← after]
      simp only [linkRequest, Queue.setRequest]
      by_cases isTmp : p' = tmp
      · rw [isTmp, Function.update_self, Function.update_of_ne notReq]
        rfl
      · rw [Function.update_of_ne isTmp]
        by_cases isReq : p' = p
        · rw [isReq, Function.update_self]
          rfl
        · rw [Function.update_of_ne isReq]
    have current' : q'.current = some head := by
      rw [← after]
      exact first
    refine ⟨q', rfl, ?_, ?_⟩
    · rw [key]
      refine ⟨?_, nodup, members, slots, ?_⟩
      · rw [next, current']
        exact chain'
      · rw [key]
        exact runs₀.elevate new
    · intro h some
      rw [← current, first] at some
      rw [current', some]

theorem Elevator.remove {waiting : Finset Nat} {p : Nat} (elevator : Elevator q waiting l) (head : q.current = some p) :
    ∃ l', l = p :: l' ∧ Elevator (endRequest q p) (waiting.erase p) l' := by
  cases l with
  | nil =>
    have empty := chain_nil.mp elevator.chain
    rw [head] at empty
    cases empty
  | cons p' l' =>
    rcases chain_cons.mp elevator.chain with ⟨first, rest⟩
    rw [head] at first
    cases first
    rcases List.nodup_cons.mp elevator.nodup with ⟨outside, nodup⟩
    have others : ∀ x ∈ l', (endRequest q p).request x = q.request x := by
      intro x isIn
      have other : x ≠ p := fun same => outside (same ▸ isIn)
      exact Function.update_of_ne other ..
    refine ⟨l', rfl, ?_, nodup, ?_, fun x isIn => elevator.slots x (List.mem_cons_of_mem _ isIn), ?_⟩
    · apply rest.congr
      intro x isIn
      rw [others x isIn]
    · intro x
      rw [Finset.mem_erase, ← elevator.members, List.mem_cons]
      constructor
      · intro isIn
        refine ⟨?_, .inr isIn⟩
        intro same
        rw [same] at isIn
        exact outside isIn
      · exact fun both => both.2.resolve_left both.1
    · apply elevator.runs.tail.congr
      intro x isIn
      rw [others x isIn]

end Add

section Run

/-- The queue has exactly the requests that wait, each once, in at most two
    rising runs, and the next one that is added leaves the head where it is. -/
structure Ordered (q : Queue) (waiting : Finset Nat) (l : List Nat) : Prop where
  chain : Chain (fun p => (q.request p).next) q.current l
  once : l.Nodup
  members : ∀ p, p ∈ l ↔ p ∈ waiting
  descent : ∀ i j, (inside : i + 1 < l.length) → (inside' : j + 1 < l.length) →
    ¬ inOrder (q.request l[i]) (q.request l[i + 1]) → ¬ inOrder (q.request l[j]) (q.request l[j + 1]) → i = j
  runs : ∃ a b, l = a ++ b ∧ (a.Pairwise fun p p' => inOrder (q.request p) (q.request p')) ∧
    b.Pairwise fun p p' => inOrder (q.request p) (q.request p')
  head : ∀ p r, p < nrRequest → p ∉ waiting → (∀ p' ∈ waiting, keyOf (q.request p') ≠ keyOf r) →
    ∃ q', addRequest (q.setRequest p r) p = some q' ∧ ∀ h, q.current = some h → q'.current = some h

theorem Elevator.ordered {q : Queue} {waiting : Finset Nat} {l : List Nat} (elevator : Elevator q waiting l) :
    Ordered q waiting l := by
  constructor
  · exact elevator.chain
  · exact elevator.nodup
  · exact elevator.members
  · intro i j inside inside' down down'
    rw [inOrder_iff] at down down'
    exact elevator.runs.one_descent inside inside' down down'
  · simp only [inOrder_iff]
    exact elevator.runs
  · intro p r slot free distinct
    rcases addRequest_spec elevator slot free distinct with ⟨q', run, _, head⟩
    exact ⟨q', run, head⟩

theorem QueueStep.elevator {s s' : Queue × Finset Nat} (step : QueueStep s s') {l : List Nat}
    (before : Elevator s.1 s.2 l) : ∃ l', Elevator s'.1 s'.2 l' := by
  cases step with
  | add p r slot free distinct run =>
    rcases addRequest_spec before slot free distinct with ⟨q', run', after, _⟩
    rw [run] at run'
    cases run'
    exact ⟨_, after⟩
  | remove p head =>
    rcases before.remove head with ⟨l', _, after⟩
    exact ⟨l', after⟩

theorem reachable_elevator {q : Queue} {s : Queue × Finset Nat} (empty : q.current = none)
    (run : Relation.ReflTransGen QueueStep (q, ∅) s) : ∃ l, Elevator s.1 s.2 l := by
  induction run with
  | refl =>
    refine ⟨[], chain_nil.mpr empty, List.nodup_nil, ?_, nofun, [], [], rfl, List.Pairwise.nil, List.Pairwise.nil⟩
    intro p
    simp
  | tail _ step ih =>
    rcases ih with ⟨l, before⟩
    exact step.elevator before

theorem elevator_queue {q : Queue} {s : Queue × Finset Nat} (empty : q.current = none)
    (run : Relation.ReflTransGen QueueStep (q, ∅) s) : ∃ l, Ordered s.1 s.2 l := by
  rcases reachable_elevator empty run with ⟨l, elevator⟩
  exact ⟨l, elevator.ordered⟩

/-- The requests as `blk_dev_init` leaves them. -/
def freshQueue : Queue where
  request := fun _ => ⟨-1, 0, 0, none, none⟩
  current := none
  dirt := fun _ => false

/-- Two requests, the second of which comes before the first and so goes behind it. -/
theorem two_requests_ordered : ∃ q l, Relation.ReflTransGen QueueStep (freshQueue, ∅) (q, {1, 0}) ∧
    q.current = some 0 ∧ Ordered q {1, 0} l := by
  have empty : Elevator freshQueue ∅ [] :=
    ⟨chain_nil.mpr rfl, List.nodup_nil, fun p => by simp, nofun, [], [], rfl, List.Pairwise.nil, List.Pairwise.nil⟩
  have others : ∀ p' ∈ (∅ : Finset Nat), keyOf (freshQueue.request p') ≠ keyOf ⟨257, 1, 8, none, none⟩ := by simp
  rcases addRequest_spec empty (show 0 < nrRequest by decide) (by simp) others with ⟨q₁, run₁, elevator₁, _⟩
  have first : q₁.current = some 0 := by
    cases run₁
    rfl
  have key : keyOf (q₁.request 0) = keyOf ⟨257, 1, 8, none, none⟩ := by
    cases run₁
    rfl
  have distinct : ∀ p' ∈ insert 0 (∅ : Finset Nat), keyOf (q₁.request p') ≠ keyOf ⟨257, 1, 2, none, none⟩ := by
    intro p' isIn
    rw [show p' = 0 by simpa using isIn, key]
    decide
  rcases addRequest_spec (p := 1) elevator₁ (by decide) (by simp) distinct with ⟨q₂, run₂, _, head⟩
  have steps : Relation.ReflTransGen QueueStep (freshQueue, ∅) (q₂, {1, 0}) :=
    (Relation.ReflTransGen.single (.add 0 _ (by decide) (by simp) (by simp) run₁)).tail
      (.add 1 _ (by decide) (by simp) distinct run₂)
  rcases elevator_queue rfl steps with ⟨l, ordered⟩
  exact ⟨q₂, l, steps, head 0 first, ordered⟩

end Run

end K210Linux.Blk
