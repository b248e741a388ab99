import K210Linux.Buffer.Cache

namespace K210Linux.Buffer

open K210Linux.Lib

/-- The representation invariant of the cache: the free list is a ring of all buffers in the given order,
    and each hash queue is a list of just the buffers of its blocks. -/
structure Queues (c : Cache) (order : List Nat) (chain : Nat → List Nat) : Prop where
  ring : LinkRing c.nextFree c.prevFree order
  first : order.head? = c.freeList
  all : order.Perm (List.range c.nrBuffers)
  room : 0 < c.nrBuffers
  queue : ∀ h, LinkList c.next c.prev none (c.hash h) (chain h)
  nodup : ∀ h, (chain h).Nodup
  hashed : ∀ h i, i ∈ chain h ↔ i < c.nrBuffers ∧ (c.head i).dev ≠ 0 ∧ c.slot i = h
  bare : ∀ i, i < c.nrBuffers → (c.head i).dev = 0 → c.next i = none ∧ c.prev i = none
  unique : ∀ i j, i < c.nrBuffers → j < c.nrBuffers → (c.head i).dev ≠ 0 → (c.head i).dev = (c.head j).dev →
    (c.head i).blocknr = (c.head j).blocknr → i = j

section

variable {c : Cache} {order : List Nat} {chain : Nat → List Nat} {i : Nat}

theorem Queues.mem_order (queues : Queues c order chain) : i ∈ order ↔ i < c.nrBuffers := by
  rw [queues.all.mem_iff, List.mem_range]

theorem Queues.order_nodup (queues : Queues c order chain) : order.Nodup :=
  queues.all.nodup_iff.2 List.nodup_range

/-- The links of a buffer on a hash queue lead to other buffers of the queue. -/
theorem Queues.split (queues : Queues c order chain) (inside : i < c.nrBuffers) (used : (c.head i).dev ≠ 0) :
    ∃ xs ys, chain (c.slot i) = xs ++ i :: ys ∧ c.next i = ys.head? ∧ c.prev i = xs.getLast? := by
  have member : i ∈ chain (c.slot i) := (queues.hashed _ _).2 ⟨inside, used, rfl⟩
  rcases List.append_of_mem member with ⟨xs, ys, split⟩
  have list := queues.queue (c.slot i)
  rw [split] at list
  exact ⟨xs, ys, split, list.next_of, by simpa using list.prev_of⟩

theorem Queues.next_mem (queues : Queues c order chain) (inside : i < c.nrBuffers) {n : Nat}
    (link : c.next i = some n) : n ∈ chain (c.slot i) ∧ i ∈ chain (c.slot i) ∧ n ≠ i := by
  by_cases used : (c.head i).dev = 0
  · rw [(queues.bare i inside used).1] at link
    cases link
  · rcases queues.split inside used with ⟨xs, ys, split, next, -⟩
    have later : n ∈ ys := List.mem_of_mem_head? (next ▸ link)
    have nodup := queues.nodup (c.slot i)
    rw [split] at nodup ⊢
    refine ⟨by simp [later], by simp, ?_⟩
    rintro rfl
    exact (List.nodup_cons.1 (List.nodup_append.1 nodup).2.1).1 later

theorem Queues.prev_mem (queues : Queues c order chain) (inside : i < c.nrBuffers) {p : Nat}
    (link : c.prev i = some p) : p ∈ chain (c.slot i) ∧ i ∈ chain (c.slot i) ∧ p ≠ i := by
  by_cases used : (c.head i).dev = 0
  · rw [(queues.bare i inside used).2] at link
    cases link
  · rcases queues.split inside used with ⟨xs, ys, split, -, prev⟩
    have earlier : p ∈ xs := List.mem_of_getLast? (prev ▸ link)
    have nodup := queues.nodup (c.slot i)
    rw [split] at nodup ⊢
    refine ⟨by simp [earlier], by simp, ?_⟩
    rintro rfl
    exact (List.nodup_append.1 nodup).2.2 p earlier p (List.mem_cons_self ..) rfl

theorem update_link (link : Nat → Option Nat) (a : Nat) (target : Option Nat) :
    Function.update link a target = fun x => if some a = some x then target else link x := by
  funext x
  rw [Function.update_apply]
  simp only [Option.some.injEq, eq_comm]

theorem linkBack_eq (c : Cache) (i : Nat) :
    c.linkBack i = { c with prev := fun x => if c.next i = some x then c.prev i else c.prev x } := by
  unfold Cache.linkBack
  cases link : c.next i with
  | none => simp
  | some n => simp only [update_link]

theorem linkForward_eq (c : Cache) (i : Nat) :
    c.linkForward i = { c with next := fun x => if c.prev i = some x then c.next i else c.next x } := by
  unfold Cache.linkForward
  cases link : c.prev i with
  | none => simp
  | some n => simp only [update_link]

theorem unhash_eq (notNext : c.next i ≠ some i) (notPrev : c.prev i ≠ some i) :
    c.unhash i = { c with
      next := fun x => if c.prev i = some x then c.next i else c.next x
      prev := fun x => if c.next i = some x then c.prev i else c.prev x
      hash := fun h => if h = c.slot i ∧ c.hash h = some i then c.next i else c.hash h } := by
  have linked : (c.linkBack i).linkForward i = { c with
      next := fun x => if c.prev i = some x then c.next i else c.next x
      prev := fun x => if c.next i = some x then c.prev i else c.prev x } := by
    simp only [linkBack_eq, linkForward_eq, if_neg notNext]
  have slot : ((c.linkBack i).linkForward i).slot i = c.slot i := by
    rw [linked]
    rfl
  simp only [Cache.unhash, slot]
  rw [linked]
  simp only [if_neg notPrev]
  split
  · rename_i first
    congr 1
    funext h
    rw [Function.update_apply]
    by_cases here : h = c.slot i
    · rw [if_pos here, if_pos ⟨here, here ▸ first⟩]
    · rw [if_neg here, if_neg fun both => here both.1]
  · rename_i notFirst
    congr 1
    funext h
    rw [if_neg]
    rintro ⟨rfl, first⟩
    exact notFirst first

/-- The hash queues without `i`. -/
theorem Queues.unhash (queues : Queues c order chain) (inside : i < c.nrBuffers) (h : Nat) :
    LinkList (c.unhash i).next (c.unhash i).prev none ((c.unhash i).hash h) ((chain h).erase i) := by
  have notNext : c.next i ≠ some i := fun link => (queues.next_mem inside link).2.2 rfl
  have notPrev : c.prev i ≠ some i := fun link => (queues.prev_mem inside link).2.2 rfl
  rw [unhash_eq notNext notPrev]
  have list := queues.queue h
  by_cases member : i ∈ chain h
  · have here : c.slot i = h := ((queues.hashed _ _).1 member).2.2
    rcases List.append_of_mem member with ⟨xs, ys, split⟩
    have nodup := queues.nodup h
    rw [split] at list nodup
    have notEarlier : i ∉ xs := fun earlier =>
      (List.nodup_append.1 nodup).2.2 i earlier i (List.mem_cons_self ..) rfl
    have erased : (chain h).erase i = xs ++ ys := by
      rw [split, List.erase_append_right _ notEarlier, List.erase_cons_head]
    rw [erased]
    have removed : LinkList (fun x => if c.prev i = some x then c.next i else c.next x)
        (fun x => if c.next i = some x then c.prev i else c.prev x) none
        (if xs = [] then c.next i else c.hash h) (xs ++ ys) :=
      list.remove nodup nofun (fun _ => rfl) fun _ => rfl
    have start : (if h = c.slot i ∧ c.hash h = some i then c.next i else c.hash h) =
        if xs = [] then c.next i else c.hash h := by
      cases xs with
      | nil => rw [if_pos rfl, if_pos ⟨here.symm, list.1⟩]
      | cons x xs =>
        rw [if_neg (List.cons_ne_nil _ _), if_neg]
        rintro ⟨-, first⟩
        have same : x = i := Option.some.inj (list.1.symm.trans first)
        exact notEarlier (same ▸ List.mem_cons_self ..)
    simp only [start]
    exact removed
  · rw [List.erase_of_not_mem member]
    have notFirst : ¬ (h = c.slot i ∧ c.hash h = some i) := by
      rintro ⟨-, first⟩
      exact member (list.start_mem first)
    simp only [if_neg notFirst]
    -- the neighbours of `i` are on the queue of `i`, which is another one
    have elsewhere (x : Nat) (onQueue : x ∈ chain h) (neighbour : x ∈ chain (c.slot i)) : i ∉ chain (c.slot i) := by
      intro own
      have same : c.slot i = h := by
        rw [← ((queues.hashed _ _).1 onQueue).2.2, ((queues.hashed _ _).1 neighbour).2.2]
      exact member (same ▸ own)
    apply list.congr
    · intro x onQueue
      rw [if_neg]
      intro link
      have onOwn := queues.prev_mem inside link
      exact elsewhere x onQueue onOwn.1 onOwn.2.1
    · intro x onQueue
      rw [if_neg]
      intro link
      have onOwn := queues.next_mem inside link
      exact elsewhere x onQueue onOwn.1 onOwn.2.1

theorem linkSelf_eq (c : Cache) (i : Nat) :
    c.linkSelf i = { c with prev := fun x => if c.next i = some x then some i else c.prev x } := by
  unfold Cache.linkSelf
  cases link : c.next i with
  | none => simp
  | some n => simp only [update_link]

theorem rehash_eq (used : (c.head i).dev ≠ 0) (notFirst : c.hash (c.slot i) ≠ some i) :
    c.rehash i = { c with
      next := Function.update c.next i (c.hash (c.slot i))
      prev := fun x => if x = i then none else if some x = c.hash (c.slot i) then some i else c.prev x
      hash := Function.update c.hash (c.slot i) (some i) } := by
  have slot (next prev : Nat → Option Nat) : ({ c with next, prev } : Cache).slot i = c.slot i := rfl
  simp only [Cache.rehash, if_neg used, slot, linkSelf_eq, Function.update_idem, Function.update_self]
  congr 1
  funext x
  by_cases self : x = i
  · rw [if_pos self, self, if_neg notFirst, Function.update_self]
  · rw [if_neg self, Function.update_of_ne self]
    simp only [eq_comm]

/-- The free list after a buffer was taken out and put in again at its end. -/
theorem ring_moved {nextFree prevFree : Nat → Option Nat} {p n : Nat} (ring : LinkRing nextFree prevFree order)
    (nodup : order.Nodup) (inside : i ∈ order) (before : prevFree i = some p) (after : nextFree i = some n) :
    let next := Function.update nextFree p (some n)
    let prev := Function.update prevFree n (some p)
    ∃ f z, (if order.head? = some i then some n else order.head?) = some f ∧
      Function.update prev i (prev f) f = some z ∧
      LinkRing (Function.update (Function.update next i (some f)) z (some i))
        (Function.update (Function.update prev i (prev f)) f (some i)) (order.erase i ++ [i]) ∧
      (order.erase i ++ [i]).head? = some f := by
  intro next prev
  rcases List.append_of_mem inside with ⟨xs, ys, rfl⟩
  have notEarlier : i ∉ xs := fun earlier =>
    (List.nodup_append.1 nodup).2.2 i earlier i (List.mem_cons_self ..) rfl
  have erased : (xs ++ i :: ys).erase i = xs ++ ys := by
    rw [List.erase_append_right _ notEarlier, List.erase_cons_head]
  have notLater : i ∉ ys := (List.nodup_cons.1 (List.nodup_append.1 nodup).2.1).1
  rw [erased]
  by_cases others : xs ++ ys = []
  · -- the only buffer stays where it is
    rw [List.append_eq_nil_iff] at others
    rcases others with ⟨rfl, rfl⟩
    rw [List.nil_append, linkRing_cons, List.nil_append, List.isChain_pair] at ring
    have selfNext : n = i := Option.some.inj (after.symm.trans ring.1)
    have selfPrev : p = i := Option.some.inj (before.symm.trans ring.2)
    subst n
    subst p
    refine ⟨i, i, by simp, by simp [prev], ?_, rfl⟩
    rw [List.nil_append, List.nil_append, linkRing_cons, List.nil_append, List.isChain_pair]
    exact ⟨Function.update_self .., Function.update_self ..⟩
  · have removed : LinkRing next prev (xs ++ ys) := ring.unlink_at nodup others before after
    have restNodup : (xs ++ ys).Nodup := by
      rw [← erased]
      exact nodup.erase i
    have notRest : i ∉ xs ++ ys := by
      simp [notEarlier, notLater]
    have leads : (if (xs ++ i :: ys).head? = some i then some n else (xs ++ i :: ys).head?) = (xs ++ ys).head? := by
      cases xs with
      | nil =>
        rw [List.nil_append, List.head?_cons, if_pos rfl, List.nil_append]
        cases ys with
        | nil => exact absurd rfl others
        | cons a ys =>
          have second := (List.isChain_cons_cons.1 ring.ends.1).1.1
          rw [← after, second]
          rfl
      | cons x xs =>
        have other : x ≠ i := fun same => notEarlier (same ▸ List.mem_cons_self ..)
        simp [other]
    cases rest : xs ++ ys with
    | nil => exact absurd rest others
    | cons f l =>
      rw [rest] at removed restNodup notRest leads
      have atEnd := removed.ends.2.2
      have other : f ≠ i := fun same => notRest (same ▸ List.mem_cons_self ..)
      refine ⟨f, (f :: l).getLast (List.cons_ne_nil _ _), leads, ?_, ?_, rfl⟩
      · rw [Function.update_of_ne other]
        exact atEnd
      · rw [atEnd]
        exact removed.link restNodup notRest atEnd

/-- Other fields than the identity of a buffer are no part of the invariant. -/
theorem Queues.setHead (queues : Queues c order chain) {head : BufferHead} (dev : head.dev = (c.head i).dev)
    (block : head.blocknr = (c.head i).blocknr) : Queues (c.setHead i head) order chain := by
  have same (j : Nat) : ((c.setHead i head).head j).dev = (c.head j).dev ∧
      ((c.setHead i head).head j).blocknr = (c.head j).blocknr := by
    simp only [Cache.setHead, Function.update_apply]
    split
    · rename_i here
      rw [here]
      exact ⟨dev, block⟩
    · exact ⟨rfl, rfl⟩
  have slot (j : Nat) : (c.setHead i head).slot j = c.slot j := by
    rw [Cache.slot, (same j).1, (same j).2]
    rfl
  refine ⟨queues.ring, queues.first, queues.all, queues.room, queues.queue, queues.nodup, ?_, ?_, ?_⟩
  · intro h j
    rw [slot, (same j).1]
    exact queues.hashed h j
  · intro j inside bare
    rw [(same j).1] at bare
    exact queues.bare j inside bare
  · intro j k insideJ insideK
    rw [(same j).1, (same k).1, (same j).2, (same k).2]
    exact queues.unique j k insideJ insideK

/-- The identity that `getblk` gives to a buffer. -/
def BufferHead.taken (head : BufferHead) (dev : BitVec 16) (block : BitVec 64) : BufferHead :=
  { head with count := 1, dirt := false, uptodate := false, dev := dev, blocknr := block }

theorem unhash_frame (c : Cache) (i : Nat) :
    c.unhash i = { c with next := (c.unhash i).next, prev := (c.unhash i).prev, hash := (c.unhash i).hash } := by
  simp only [Cache.unhash, linkBack_eq, linkForward_eq]
  split_ifs <;> rfl

theorem removeFromQueues_spec (c : Cache) {p n : Nat} (before : c.prevFree i = some p) (after : c.nextFree i = some n) :
    c.removeFromQueues i = some { c.unhash i with
      nextFree := Function.update c.nextFree p (some n)
      prevFree := Function.update c.prevFree n (some p)
      freeList := if c.freeList = some i then some n else c.freeList } := by
  have prevFree : (c.unhash i).prevFree = c.prevFree := by rw [unhash_frame]
  have nextFree : (c.unhash i).nextFree = c.nextFree := by rw [unhash_frame]
  have freeList : (c.unhash i).freeList = c.freeList := by rw [unhash_frame]
  have leads : Function.update c.nextFree p (some n) i = some n := by
    rw [Function.update_apply]
    split
    · rfl
    · exact after
  simp only [Cache.removeFromQueues, prevFree, nextFree, freeList, before, after, leads]
  split <;> rfl

theorem insertIntoQueues_spec (c : Cache) {f z : Nat} (list : c.freeList = some f)
    (last : Function.update c.prevFree i (c.prevFree f) f = some z) :
    c.insertIntoQueues i = some (Cache.rehash { c with
      nextFree := Function.update (Function.update c.nextFree i (some f)) z (some i)
      prevFree := Function.update (Function.update c.prevFree i (c.prevFree f)) f (some i) } i) := by
  simp only [Cache.insertIntoQueues, list, last]

/-- The cache just before `insert_into_queues` hashes the buffer: it has its new identity, is last on the free list,
    and is on no hash queue. -/
structure Detached (c : Cache) (order : List Nat) (chain : Nat → List Nat) (i : Nat) (dev : BitVec 16)
    (block : BitVec 64) (c' : Cache) : Prop where
  assigned : c.assign i dev block = some (c'.rehash i)
  nr : c'.nrBuffers = c.nrBuffers
  head : c'.head = Function.update c.head i ((c.head i).taken dev block)
  ring : LinkRing c'.nextFree c'.prevFree (order.erase i ++ [i])
  first : (order.erase i ++ [i]).head? = c'.freeList
  queue : ∀ h, LinkList c'.next c'.prev none (c'.hash h) ((chain h).erase i)
  bare : ∀ j, j < c.nrBuffers → j ≠ i → (c.head j).dev = 0 → c'.next j = none ∧ c'.prev j = none

theorem Queues.detach (queues : Queues c order chain) (inside : i < c.nrBuffers) (dev : BitVec 16)
    (block : BitVec 64) : ∃ c', Detached c order chain i dev block c' := by
  let c₀ := c.setHead i { c.head i with count := 1, dirt := false, uptodate := false }
  have queues₀ : Queues c₀ order chain := queues.setHead rfl rfl
  have member := queues₀.mem_order.2 inside
  rcases queues₀.ring.links member with ⟨p, n, -, before, after⟩
  rcases ring_moved queues₀.ring queues₀.order_nodup member before after with ⟨f, z, first, last, ring, ends⟩
  rw [queues₀.first] at first
  let c₂ : Cache := { c₀.unhash i with
    nextFree := Function.update c₀.nextFree p (some n)
    prevFree := Function.update c₀.prevFree n (some p)
    freeList := if c₀.freeList = some i then some n else c₀.freeList }
  have removed : c₀.removeFromQueues i = some c₂ := removeFromQueues_spec c₀ before after
  have head₂ : c₂.head = c₀.head := by
    change (c₀.unhash i).head = c₀.head
    rw [unhash_frame]
  have nr₂ : c₂.nrBuffers = c.nrBuffers := by
    change (c₀.unhash i).nrBuffers = c₀.nrBuffers
    rw [unhash_frame]
  let c₃ := c₂.setHead i { c₂.head i with dev := dev, blocknr := block }
  have head₃ : c₃.head = Function.update c.head i ((c.head i).taken dev block) := by
    simp only [c₃, Cache.setHead, head₂, c₀, Function.update_idem, Function.update_self]
    rfl
  let c₄ : Cache := { c₃ with
    nextFree := Function.update (Function.update c₃.nextFree i (some f)) z (some i)
    prevFree := Function.update (Function.update c₃.prevFree i (c₃.prevFree f)) f (some i) }
  have inserted : c₃.insertIntoQueues i = some (c₄.rehash i) := insertIntoQueues_spec c₃ first last
  refine ⟨c₄, ?_, nr₂, head₃, ring, ends.trans first.symm, queues₀.unhash inside, ?_⟩
  · simp only [Cache.assign]
    rw [removed]
    exact inserted
  · intro j insideJ apart bare
    have bareLinks := queues.bare j insideJ bare
    -- a buffer without a device is on no queue, so nothing that was linked leads to it
    have onNone (h : Nat) : j ∉ chain h := fun onQueue => ((queues.hashed _ _).1 onQueue).2.1 bare
    have notNext : c₀.next i ≠ some i := fun link => (queues₀.next_mem inside link).2.2 rfl
    have notPrev : c₀.prev i ≠ some i := fun link => (queues₀.prev_mem inside link).2.2 rfl
    have unhashed := unhash_eq notNext notPrev
    constructor
    · change (c₀.unhash i).next j = none
      rw [unhashed]
      change (if c₀.prev i = some j then c₀.next i else c₀.next j) = none
      rw [if_neg fun link => onNone _ (queues₀.prev_mem inside link).1]
      exact bareLinks.1
    · change (c₀.unhash i).prev j = none
      rw [unhashed]
      change (if c₀.next i = some j then c₀.prev i else c₀.prev j) = none
      rw [if_neg fun link => onNone _ (queues₀.next_mem inside link).1]
      exact bareLinks.2

section

variable {dev : BitVec 16} {block : BitVec 64} {c' : Cache}

theorem Detached.self (detached : Detached c order chain i dev block c') : c'.head i = (c.head i).taken dev block := by
  rw [detached.head, Function.update_self]

theorem Detached.other (detached : Detached c order chain i dev block c') {j : Nat} (apart : j ≠ i) :
    c'.head j = c.head j := by
  rw [detached.head, Function.update_of_ne apart]

theorem Detached.slot (detached : Detached c order chain i dev block c') : c'.slot i = hashfn dev block := by
  rw [Cache.slot, detached.self]
  rfl

theorem Detached.slotOther (detached : Detached c order chain i dev block c') {j : Nat} (apart : j ≠ i) :
    c'.slot j = c.slot j := by
  rw [Cache.slot, detached.other apart, Cache.slot]

theorem Detached.all (detached : Detached c order chain i dev block c') (queues : Queues c order chain)
    (inside : i < c.nrBuffers) : (order.erase i ++ [i]).Perm (List.range c'.nrBuffers) := by
  rw [detached.nr]
  have back : (order.erase i ++ [i]).Perm order := by
    apply List.Perm.trans List.perm_append_comm
    exact (List.perm_cons_erase (queues.mem_order.2 inside)).symm
  exact back.trans queues.all

theorem Detached.unique (detached : Detached c order chain i dev block c') (queues : Queues c order chain)
    (new : dev ≠ 0 → ∀ j, j < c.nrBuffers → ¬ ((c.head j).dev = dev ∧ (c.head j).blocknr = block)) (j k : Nat)
    (insideJ : j < c'.nrBuffers) (insideK : k < c'.nrBuffers) (used : (c'.head j).dev ≠ 0)
    (sameDev : (c'.head j).dev = (c'.head k).dev) (sameBlock : (c'.head j).blocknr = (c'.head k).blocknr) : j = k := by
  rw [detached.nr] at insideJ insideK
  by_cases atJ : j = i
  · by_cases atK : k = i
    · rw [atJ, atK]
    · rw [atJ, detached.self] at used
      rw [atJ, detached.self, detached.other atK] at sameDev sameBlock
      exact absurd ⟨sameDev.symm, sameBlock.symm⟩ (new used k insideK)
  · by_cases atK : k = i
    · rw [atK, detached.self, detached.other atJ] at sameDev sameBlock
      rw [detached.other atJ, sameDev] at used
      exact absurd ⟨sameDev, sameBlock⟩ (new used j insideJ)
    · rw [detached.other atJ] at used sameDev sameBlock
      rw [detached.other atK] at sameDev sameBlock
      exact queues.unique j k insideJ insideK used sameDev sameBlock

end

/-- The queues and heads after the end of `getblk`. -/
theorem Queues.assign (queues : Queues c order chain) (inside : i < c.nrBuffers) {dev : BitVec 16}
    {block : BitVec 64} (device : dev ≠ 0)
    (new : ∀ j, j < c.nrBuffers → ¬ ((c.head j).dev = dev ∧ (c.head j).blocknr = block)) :
    ∃ c', c.assign i dev block = some c' ∧ c'.nrBuffers = c.nrBuffers ∧
      c'.head = Function.update c.head i ((c.head i).taken dev block) ∧
      Queues c' (order.erase i ++ [i])
        (fun h => if h = hashfn dev block then i :: (chain h).erase i else (chain h).erase i) := by
  rcases queues.detach inside dev block with ⟨c₄, detached⟩
  have gone (h : Nat) : i ∉ (chain h).erase i := (queues.nodup h).not_mem_erase
  have inErased (h j : Nat) : j ∈ (chain h).erase i ↔ j ≠ i ∧ j ∈ chain h := (queues.nodup h).mem_erase_iff
  have used : (c₄.head i).dev ≠ 0 := by
    rw [detached.self]
    exact device
  have notFirst : c₄.hash (c₄.slot i) ≠ some i := fun same => gone _ ((detached.queue _).start_mem same)
  have hashed := rehash_eq used notFirst
  rw [detached.slot] at hashed
  have frame : (c₄.rehash i).head = c₄.head ∧ (c₄.rehash i).nrBuffers = c₄.nrBuffers := by
    rw [hashed]
    exact ⟨rfl, rfl⟩
  have slot (j : Nat) : (c₄.rehash i).slot j = c₄.slot j := by
    rw [Cache.slot, frame.1, Cache.slot]
  refine ⟨_, detached.assigned, frame.2.trans detached.nr, frame.1.trans detached.head, ?_⟩
  refine ⟨?_, ?_, ?_, ?_, ?_, ?_, ?_, ?_, ?_⟩
  · rw [hashed]
    exact detached.ring
  · rw [hashed]
    exact detached.first
  · rw [frame.2]
    exact detached.all queues inside
  · rw [frame.2, detached.nr]
    exact queues.room
  · intro h
    rw [hashed]
    by_cases here : h = hashfn dev block
    · rw [if_pos here]
      have pushed : LinkList (Function.update c₄.next i (c₄.hash h))
          (fun x => if x = i then none else if some x = c₄.hash h then some i else c₄.prev x) none (some i)
          (i :: (chain h).erase i) := (detached.queue h).push (gone h) ((queues.nodup h).erase i) rfl fun _ => rfl
      simp only [← here, Function.update_self]
      exact pushed
    · rw [if_neg here]
      simp only [Function.update_of_ne here]
      apply (detached.queue h).congr
      · intro x inQueue
        rw [Function.update_of_ne]
        rintro rfl
        exact gone h inQueue
      · intro x inQueue
        have notSelf : x ≠ i := by
          rintro rfl
          exact gone h inQueue
        rw [if_neg notSelf, if_neg]
        intro leads
        -- the first buffer of the new queue is on no other queue
        have onNew := (detached.queue (hashfn dev block)).start_mem leads.symm
        have there := ((queues.hashed _ _).1 ((inErased _ _).1 onNew).2).2.2
        exact here (((queues.hashed _ _).1 ((inErased _ _).1 inQueue).2).2.2.symm.trans there)
  · intro h
    by_cases here : h = hashfn dev block
    · simp only [if_pos here]
      exact List.nodup_cons.2 ⟨gone h, (queues.nodup h).erase i⟩
    · simp only [if_neg here]
      exact (queues.nodup h).erase i
  · intro h j
    rw [frame.1, frame.2, detached.nr, slot]
    by_cases same : j = i
    · subst j
      rw [detached.self, detached.slot]
      by_cases here : h = hashfn dev block
      · rw [if_pos here]
        exact ⟨fun _ => ⟨inside, device, here.symm⟩, fun _ => List.mem_cons_self ..⟩
      · simp only [if_neg here]
        have apart : hashfn dev block ≠ h := fun eq => here eq.symm
        simp [gone h, apart]
    · rw [detached.other same, detached.slotOther same, ← queues.hashed h j]
      by_cases here : h = hashfn dev block
      · simp [here, same, inErased]
      · simp [here, same, inErased]
  · intro j insideJ bare
    rw [frame.2, detached.nr] at insideJ
    rw [frame.1] at bare
    have apart : j ≠ i := by
      rintro rfl
      exact used bare
    rw [detached.other apart] at bare
    have links := detached.bare j insideJ apart bare
    have notFirstJ : ¬ some j = c₄.hash (hashfn dev block) := by
      intro leads
      have onQueue := List.mem_of_mem_erase ((detached.queue _).start_mem leads.symm)
      exact ((queues.hashed _ _).1 onQueue).2.1 bare
    rw [hashed]
    simp only [Function.update_of_ne apart, if_neg apart, if_neg notFirstJ]
    exact links
  · intro j k
    rw [frame.1, frame.2]
    exact detached.unique queues (fun _ => new) j k

/-- A buffer that gets no device is put on no hash queue. -/
theorem Queues.assignBare (queues : Queues c order chain) (inside : i < c.nrBuffers) (block : BitVec 64) :
    ∃ c', c.assign i 0 block = some c' ∧ c'.nrBuffers = c.nrBuffers ∧
      c'.head = Function.update c.head i ((c.head i).taken 0 block) ∧
      Queues c' (order.erase i ++ [i]) fun h => (chain h).erase i := by
  rcases queues.detach inside 0 block with ⟨c₄, detached⟩
  have inErased (h j : Nat) : j ∈ (chain h).erase i ↔ j ≠ i ∧ j ∈ chain h := (queues.nodup h).mem_erase_iff
  have noDevice : (c₄.head i).dev = 0 := by
    rw [detached.self]
    rfl
  have plain : c₄.rehash i =
      { c₄ with prev := Function.update c₄.prev i none, next := Function.update c₄.next i none } := by
    simp only [Cache.rehash, noDevice, if_true]
  refine ⟨_, detached.assigned, ?_, ?_, ?_⟩
  · rw [plain]
    exact detached.nr
  · rw [plain]
    exact detached.head
  · rw [plain]
    refine ⟨detached.ring, detached.first, detached.all queues inside, ?_, ?_, fun h => (queues.nodup h).erase i, ?_, ?_, ?_⟩
    · change 0 < c₄.nrBuffers
      rw [detached.nr]
      exact queues.room
    · intro h
      apply (detached.queue h).congr
      · intro x inQueue
        exact Function.update_of_ne ((inErased h x).1 inQueue).1 ..
      · intro x inQueue
        exact Function.update_of_ne ((inErased h x).1 inQueue).1 ..
    · intro h j
      change _ ↔ j < c₄.nrBuffers ∧ (c₄.head j).dev ≠ 0 ∧ c₄.slot j = h
      rw [inErased]
      by_cases same : j = i
      · rw [same, noDevice]
        simp
      · rw [detached.nr, detached.other same, detached.slotOther same, ← queues.hashed h j]
        exact and_iff_right same
    · intro j insideJ bare
      change j < c₄.nrBuffers at insideJ
      change (c₄.head j).dev = 0 at bare
      change Function.update c₄.next i none j = none ∧ Function.update c₄.prev i none j = none
      by_cases same : j = i
      · rw [same, Function.update_self, Function.update_self]
        exact ⟨rfl, rfl⟩
      · rw [detached.nr] at insideJ
        rw [detached.other same] at bare
        rw [Function.update_of_ne same, Function.update_of_ne same]
        exact detached.bare j insideJ same bare
    · exact detached.unique queues fun device => absurd rfl device

theorem findFrom_spec {dev : BitVec 16} {block : BitVec 64} {before tmp : Option Nat} {left : Nat} {l : List Nat}
    (list : LinkList c.next c.prev before tmp l) (enough : l.length < left) :
    c.findFrom dev block tmp left = l.find? fun i => (c.head i).dev = dev ∧ (c.head i).blocknr = block := by
  induction l generalizing before tmp left with
  | nil =>
    cases left with
    | zero => cases enough
    | succ left =>
      cases list
      rfl
  | cons i l ih =>
    cases left with
    | zero => cases enough
    | succ left =>
      rcases list with ⟨rfl, -, rest⟩
      rw [Cache.findFrom, List.find?_cons]
      by_cases found : (c.head i).dev = dev ∧ (c.head i).blocknr = block
      · simp [found]
      · simp only [found, decide_false, if_false]
        exact ih rest (by simpa using enough)

theorem Queues.find_eq (queues : Queues c order chain) (dev : BitVec 16) (block : BitVec 64) :
    c.findBuffer dev block =
      (chain (hashfn dev block)).find? fun i => (c.head i).dev = dev ∧ (c.head i).blocknr = block := by
  apply findFrom_spec (queues.queue _)
  have among : chain (hashfn dev block) ⊆ List.range c.nrBuffers := by
    intro i onQueue
    exact List.mem_range.2 ((queues.hashed _ _).1 onQueue).1
  have atMost := (List.subperm_of_subset (queues.nodup _) among).length_le
  rw [List.length_range] at atMost
  omega

theorem Queues.found (queues : Queues c order chain) {dev : BitVec 16} {block : BitVec 64}
    (found : c.findBuffer dev block = some i) :
    i < c.nrBuffers ∧ (c.head i).dev = dev ∧ (c.head i).blocknr = block := by
  rw [queues.find_eq] at found
  have onQueue := List.mem_of_find?_eq_some found
  have fits := List.find?_some found
  simp only [decide_eq_true_eq] at fits
  exact ⟨((queues.hashed _ _).1 onQueue).1, fits⟩

/-- A buffer without a device is on no queue. -/
theorem Queues.found_device (queues : Queues c order chain) {dev : BitVec 16} {block : BitVec 64}
    (found : c.findBuffer dev block = some i) : dev ≠ 0 := by
  have here := queues.found found
  rw [queues.find_eq] at found
  have onQueue := (queues.hashed _ _).1 (List.mem_of_find?_eq_some found)
  rw [here.2.1] at onQueue
  exact onQueue.2.1

/-- `find_buffer` finds the buffer of a block, if there is one. -/
theorem Queues.findBuffer (queues : Queues c order chain) {dev : BitVec 16} (block : BitVec 64) (device : dev ≠ 0) :
    match c.findBuffer dev block with
    | some i => i < c.nrBuffers ∧ (c.head i).dev = dev ∧ (c.head i).blocknr = block
    | none => ∀ i, i < c.nrBuffers → ¬ ((c.head i).dev = dev ∧ (c.head i).blocknr = block) := by
  split
  · rename_i i first
    exact queues.found first
  · rename_i missing
    intro i inside fits
    have onQueue : i ∈ chain (hashfn dev block) := by
      rw [queues.hashed, Cache.slot, fits.1, fits.2]
      exact ⟨inside, device, rfl⟩
    rw [queues.find_eq] at missing
    have other := List.find?_eq_none.1 missing i onQueue
    simp [fits] at other

theorem Queues.pickFrom_spec (queues : Queues c order chain) {tmp left : Nat} {bh : Option Nat}
    (here : tmp ∈ order) (best : ∀ b, bh = some b → b ∈ order ∧ (c.head b).count = 0) :
    ∀ b, c.pickFrom tmp bh left = some b → b ∈ order ∧ (c.head b).count = 0 := by
  induction left generalizing tmp bh with
  | zero => exact best
  | succ left ih =>
    intro b picked
    unfold Cache.pickFrom at picked
    extract_lets rest at picked
    have onward (bh : Option Nat) (best : ∀ b, bh = some b → b ∈ order ∧ (c.head b).count = 0) (b : Nat)
        (picked : rest bh = some b) : b ∈ order ∧ (c.head b).count = 0 := by
      simp only [rest] at picked
      split at picked
      · exact best b picked
      · rename_i n link
        split at picked
        · exact best b picked
        · exact ih (queues.ring.next_mem here link) best b picked
    split at picked
    · exact onward bh best b picked
    · rename_i unused
      have chosen (b : Nat) (same : some tmp = some b) : b ∈ order ∧ (c.head b).count = 0 := by
        cases same
        exact ⟨here, not_not.1 unused⟩
      split at picked
      · split at picked
        · exact chosen b picked
        · exact onward _ chosen b picked
      · split at picked
        · split at picked
          · exact chosen b picked
          · exact onward _ chosen b picked
        · exact onward _ best b picked

/-- `getblk` only chooses buffers that nobody uses. -/
theorem Queues.pick (queues : Queues c order chain) (picked : c.pick = some i) :
    i < c.nrBuffers ∧ (c.head i).count = 0 := by
  unfold Cache.pick at picked
  split at picked
  · cases picked
  · rename_i f first
    have member : f ∈ order := List.mem_of_mem_head? (queues.first.trans first)
    have spec := queues.pickFrom_spec member (by simp) i picked
    exact ⟨queues.mem_order.1 spec.1, spec.2⟩

/-- A buffer at least as good as `j`. -/
def Beats (c : Cache) (bh : Option Nat) (j : Nat) : Prop := ∃ b, bh = some b ∧ c.badness b ≤ c.badness j

/-- The better of the buffers that `getblk` has seen, after `tmp`. -/
def Cache.better (c : Cache) (tmp : Nat) (bh : Option Nat) : Option Nat :=
  if (c.head tmp).count ≠ 0 then bh
  else
    match bh with
    | none => some tmp
    | some b => if c.badness tmp < c.badness b then some tmp else some b

theorem better_beats (c : Cache) (tmp : Nat) (bh : Option Nat) :
    ((c.head tmp).count = 0 → Beats c (c.better tmp bh) tmp) ∧ ∀ b, bh = some b → Beats c (c.better tmp bh) b := by
  unfold Cache.better
  split_ifs with inUse
  · exact ⟨fun unused => absurd unused inUse, fun b same => ⟨b, same, le_refl _⟩⟩
  · cases bh with
    | none => exact ⟨fun _ => ⟨tmp, rfl, le_refl _⟩, nofun⟩
    | some b₀ =>
      simp only
      split_ifs with less
      · refine ⟨fun _ => ⟨tmp, rfl, le_refl _⟩, ?_⟩
        rintro b ⟨⟩
        exact ⟨tmp, rfl, less.le⟩
      · refine ⟨fun _ => ⟨b₀, rfl, not_lt.1 less⟩, ?_⟩
        rintro b ⟨⟩
        exact ⟨b₀, rfl, le_refl _⟩

/-- A turn of the loop stops at a clean buffer, or goes on with the better one. -/
theorem pickFrom_succ (c : Cache) (tmp left : Nat) (bh : Option Nat) :
    (c.pickFrom tmp bh (left + 1) = some tmp ∧ c.badness tmp = 0) ∨
    c.pickFrom tmp bh (left + 1) =
      match c.nextFree tmp with
      | none => c.better tmp bh
      | some n => if some n = c.freeList then c.better tmp bh else c.pickFrom n (c.better tmp bh) left := by
  by_cases inUse : (c.head tmp).count ≠ 0
  · have same : c.better tmp bh = bh := if_pos inUse
    rw [same]
    cases bh with
    | none => exact .inr (if_pos inUse)
    | some b => exact .inr (if_pos inUse)
  · cases bh with
    | none =>
      have first : c.better tmp none = some tmp := if_neg inUse
      rw [first, Cache.pickFrom, if_neg inUse]
      by_cases good : c.badness tmp = 0
      · exact .inl ⟨if_pos good, good⟩
      · exact .inr (if_neg good)
    | some b =>
      have better : c.better tmp (some b) = if c.badness tmp < c.badness b then some tmp else some b := if_neg inUse
      rw [better, Cache.pickFrom, if_neg inUse]
      by_cases less : c.badness tmp < c.badness b
      · simp only [less, if_true]
        by_cases good : c.badness tmp = 0
        · exact .inl ⟨if_pos good, good⟩
        · exact .inr (if_neg good)
      · right
        cases c.nextFree tmp with
        | none => simp [less]
        | some n => simp [less]

/-- The loop of `getblk` over the rest of the free list ends with the best buffer it has seen. -/
theorem pickFrom_best {f tmp left : Nat} {rest : List Nat} (bh : Option Nat) (list : c.freeList = some f)
    (links : (tmp :: (rest ++ [f])).IsChain (Neighbours c.nextFree c.prevFree)) (notAgain : f ∉ rest)
    (enough : rest.length < left) :
    (∀ j, j ∈ tmp :: rest → (c.head j).count = 0 → Beats c (c.pickFrom tmp bh left) j) ∧
      ∀ b, bh = some b → Beats c (c.pickFrom tmp bh left) b := by
  induction rest generalizing tmp bh left with
  | nil =>
    obtain ⟨left, rfl⟩ : ∃ m, left = m + 1 := ⟨left - 1, by omega⟩
    have next : c.nextFree tmp = some f := (List.isChain_pair.1 links).1
    rcases pickFrom_succ c tmp left bh with ⟨stopped, good⟩ | onward
    · rw [stopped]
      exact ⟨fun _ _ _ => ⟨tmp, rfl, by omega⟩, fun _ _ => ⟨tmp, rfl, by omega⟩⟩
    · rw [onward, next]
      simp only [list, if_true]
      refine ⟨?_, (better_beats c tmp bh).2⟩
      intro j member unused
      rw [List.mem_singleton.1 member] at unused ⊢
      exact (better_beats c tmp bh).1 unused
  | cons n rest ih =>
    obtain ⟨left, rfl⟩ : ∃ m, left = m + 1 := ⟨left - 1, by omega⟩
    rw [List.cons_append, List.isChain_cons_cons] at links
    rcases pickFrom_succ c tmp left bh with ⟨stopped, good⟩ | onward
    · rw [stopped]
      exact ⟨fun _ _ _ => ⟨tmp, rfl, by omega⟩, fun _ _ => ⟨tmp, rfl, by omega⟩⟩
    · have notFirst : ¬ some n = c.freeList := by
        rw [list]
        rintro ⟨⟩
        exact notAgain (List.mem_cons_self ..)
      rw [onward, links.1.1]
      simp only [notFirst, if_false]
      have better := better_beats c tmp bh
      rcases ih _ links.2 (fun later => notAgain (List.mem_cons_of_mem _ later)) (by simpa using enough) with ⟨later, best⟩
      have onto {j : Nat} (beats : Beats c (c.better tmp bh) j) : Beats c (c.pickFrom n (c.better tmp bh) left) j := by
        rcases beats with ⟨b, same, le⟩
        rcases best b same with ⟨b', same', le'⟩
        exact ⟨b', same', le'.trans le⟩
      refine ⟨?_, fun b same => onto (better.2 b same)⟩
      intro j member unused
      rcases List.mem_cons.1 member with rfl | member
      · exact onto (better.1 unused)
      · exact later j member unused

/-- Where there are unused buffers, `getblk` chooses a best one. -/
theorem Queues.pick_best (queues : Queues c order chain) (inside : i < c.nrBuffers) (unused : (c.head i).count = 0) :
    ∃ b, c.pick = some b ∧ b < c.nrBuffers ∧ (c.head b).count = 0 ∧
      ∀ j, j < c.nrBuffers → (c.head j).count = 0 → c.badness b ≤ c.badness j := by
  have first := queues.first
  cases split : order with
  | nil =>
    have member := queues.mem_order.2 inside
    rw [split] at member
    cases member
  | cons f rest =>
    rw [split] at first
    have ring := queues.ring
    have nodup := queues.order_nodup
    rw [split] at ring nodup
    have length : (f :: rest).length = c.nrBuffers := by
      rw [← split, queues.all.length_eq, List.length_range]
    have enough : rest.length < c.nrBuffers := by
      rw [← length]
      exact Nat.lt_succ_self _
    have best := (pickFrom_best none first.symm (linkRing_cons.1 ring) (List.nodup_cons.1 nodup).1 enough).1
    have picked : c.pick = c.pickFrom f none c.nrBuffers := by
      rw [Cache.pick, ← first]
      rfl
    have among (j : Nat) (insideJ : j < c.nrBuffers) : j ∈ f :: rest := by
      rw [← split]
      exact queues.mem_order.2 insideJ
    rcases best i (among i inside) unused with ⟨b, same, -⟩
    rw [← picked] at same
    refine ⟨b, same, (queues.pick same).1, (queues.pick same).2, ?_⟩
    intro j insideJ unusedJ
    rcases best j (among j insideJ) unusedJ with ⟨b', same', le⟩
    rw [← picked, same] at same'
    cases same'
    exact le

end

/-- `buffer_init` sets up the queues. -/
theorem bufferInit_queues {n : Nat} (room : 0 < n) (blocknr : Nat → BitVec 64) (data : Nat → Fs.Block) :
    Queues (bufferInit n blocknr data) (List.range n) fun _ => [] where
  ring := by
    obtain ⟨m, rfl⟩ : ∃ m, n = m + 1 := ⟨n - 1, by omega⟩
    rw [LinkRing, Cycle.chain_range_succ]
    refine ⟨⟨by simp [bufferInit], by simp [bufferInit]⟩, ?_⟩
    intro k below
    refine ⟨?_, by simp [bufferInit]⟩
    simp only [bufferInit, Nat.add_right_cancel_iff, if_neg (Nat.ne_of_lt below)]
  first := by
    cases n with
    | zero => cases room
    | succ n => simp [bufferInit, List.head?_range]
  all := .rfl
  room := room
  queue := fun _ => rfl
  nodup := fun _ => .nil
  hashed := by
    intro h i
    simp [bufferInit]
  bare := fun _ _ _ => ⟨rfl, rfl⟩
  unique := fun _ _ _ _ used => absurd rfl used

end K210Linux.Buffer
