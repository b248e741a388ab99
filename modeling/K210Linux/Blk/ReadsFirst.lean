import K210Linux.Blk.MakeRequest

namespace K210Linux.Blk

open K210Linux.Lib

/-- The requests of two queues differ in their links only. -/
def Relinked (q q' : Queue) : Prop := ∀ p, ∃ next, q'.request p = { q.request p with next }

/-- A request is in the queue, and a `WRITE` before it can only be the current request. -/
def ReadsFirst (q : Queue) (p : Nat) : Prop :=
  ∃ before after, Chain (fun p => (q.request p).next) q.current (before ++ p :: after) ∧
    ∀ w ∈ before, (q.request w).cmd = WRITE → q.current = some w

/-- Either the new request orders after the current one, or no `WRITE` stands behind the current one in the
    first rising run of the queue. -/
def RoomForRead (q : Queue) (r : Request) (l : List Nat) : Prop :=
  ∀ head rest, l = head :: rest → inOrder (q.request head) r ∨
    ∀ w ∈ (firstRun (fun p => keyOf (q.request p)) l).tail, (q.request w).cmd ≠ WRITE

variable {q q' : Queue} {p : Nat} {r : Request} {l : List Nat}

theorem Relinked.trans {q₁ q₂ q₃ : Queue} (first : Relinked q₁ q₂) (second : Relinked q₂ q₃) : Relinked q₁ q₃ := by
  intro x
  rcases first x with ⟨_, same₁⟩
  rcases second x with ⟨next, same₂⟩
  exact ⟨next, by rw [same₂, same₁]⟩

theorem relinked_setRequest (q : Queue) (p : Nat) (next : Option Nat) :
    Relinked q (q.setRequest p { q.request p with next }) := by
  intro x
  by_cases here : x = p
  · subst here
    exact ⟨next, by simp [Queue.setRequest]⟩
  · exact ⟨(q.request x).next, by simp [Queue.setRequest, here]⟩

theorem addRequest_relinked {req : Nat} (run : addRequest q req = some q') : Relinked q q' := by
  have started : Relinked q (startRequest q req) := relinked_setRequest q req none
  unfold addRequest at run
  generalize startRequest q req = q₀ at run started
  cases current : q₀.current with
  | none =>
    simp only [current] at run
    cases run
    exact started
  | some head =>
    simp only [current, Option.map_eq_some_iff] at run
    rcases run with ⟨tmp, _, linked⟩
    rw [← linked]
    have inner := relinked_setRequest q₀ req (q₀.request tmp).next
    exact (started.trans inner).trans (relinked_setRequest _ tmp (some req))

theorem Relinked.key (relinked : Relinked q q') : (fun p => keyOf (q'.request p)) = fun p => keyOf (q.request p) := by
  funext x
  rcases relinked x with ⟨_, same⟩
  rw [same]
  rfl

theorem Relinked.cmd (relinked : Relinked q q') (x : Nat) : (q'.request x).cmd = (q.request x).cmd := by
  rcases relinked x with ⟨_, same⟩
  rw [same]

/-- A request that orders before a `READ` is no `WRITE`. -/
theorem not_write_of_lt {r r' : Request} (below : keyOf r' < keyOf r) (isRead : r.cmd = READ) : r'.cmd ≠ WRITE := by
  intro isWrite
  rw [← inOrder_iff] at below
  unfold inOrder at below
  rw [isRead, isWrite] at below
  rcases below with less | same
  · exact absurd less (by decide)
  · exact absurd same.1 (by decide)

theorem readsFirst_iff {before after : List Nat} (nodup : (before ++ p :: after).Nodup)
    (chain : Chain (fun p => (q.request p).next) q.current (before ++ p :: after)) :
    ReadsFirst q p ↔ ∀ w ∈ before, (q.request w).cmd = WRITE → q.current = some w := by
  constructor
  · rintro ⟨before', after', chain', first⟩
    have same := chain.unique chain'
    rcases List.nodup_append.mp nodup with ⟨_, second, apart⟩
    have outside : p ∉ before := fun isIn => apart p isIn p (List.mem_cons_self ..) rfl
    rw [((List.append_cons_inj_of_notMem outside (List.nodup_cons.mp second).1).mp same).1]
    exact first
  · exact fun first => ⟨before, after, chain, first⟩

theorem addRequest_readsFirst {waiting : Finset Nat} (elevator : Elevator q waiting l) (slot : p < nrRequest)
    (free : p ∉ waiting) (distinct : ∀ p' ∈ waiting, keyOf (q.request p') ≠ keyOf r) (isRead : r.cmd = READ)
    (run : addRequest (q.setRequest p r) p = some q') : ReadsFirst q' p ↔ RoomForRead q r l := by
  rcases addRequest_spec elevator slot free distinct with ⟨_, run', after', head⟩
  rw [run] at run'
  cases run'
  have relinked := addRequest_relinked run
  have outside : p ∉ l := fun isIn => free ((elevator.members p).mp isIn)
  have own : keyOf (q'.request p) = keyOf r := by
    rw [congrFun relinked.key p]
    simp [Queue.setRequest]
  have old : ∀ x ∈ l, (q.setRequest p r).request x = q.request x := by
    intro x isIn
    have other : x ≠ p := fun same => outside (same ▸ isIn)
    exact Function.update_of_ne other ..
  have oldKey : ∀ x ∈ l, keyOf (q'.request x) = keyOf (q.request x) := by
    intro x isIn
    rw [congrFun relinked.key x, old x isIn]
  have oldCmd : ∀ x ∈ l, (q'.request x).cmd = (q.request x).cmd := by
    intro x isIn
    rw [relinked.cmd x, old x isIn]
  cases l with
  | nil =>
    have alone : ReadsFirst q' p := ⟨[], [], after'.chain, fun x isIn => by cases isIn⟩
    refine ⟨?_, fun _ => alone⟩
    intro _ head rest same
    cases same
  | cons t l =>
    have current : q'.current = some t := head t (chain_cons.mp elevator.chain).1
    have nodup := after'.nodup
    have chain := after'.chain
    have new : ∀ y ∈ l, keyOf (q'.request y) ≠ keyOf (q'.request p) := by
      intro y isIn
      have inside := List.mem_cons_of_mem t isIn
      rw [oldKey y inside, own]
      exact distinct y ((elevator.members y).mp inside)
    have small : ∀ y ∈ t :: l, keyOf (q'.request y) < keyOf (q'.request p) → (q'.request y).cmd ≠ WRITE := by
      intro y isIn below
      rw [own, oldKey y isIn] at below
      rw [oldCmd y isIn]
      exact not_write_of_lt below isRead
    have inQueue : ∀ y, y ∈ elevate (fun p => keyOf (q'.request p)) p (t :: l) → y ≠ p → y ∈ t :: l := by
      intro y isIn other
      exact (List.mem_cons.mp ((elevate_perm _ p (t :: l)).mem_iff.mp isIn)).resolve_left other
    have first := oldKey t (List.mem_cons_self ..)
    by_cases above : keyOf (q'.request t) < keyOf (q'.request p)
    · have order : inOrder (q.request t) r := by
        rw [inOrder_iff, ← first, ← own]
        exact above
      have room : RoomForRead q r (t :: l) := by
        intro _ _ same
        cases same
        exact .inl order
      rcases elevate_above (fun p => keyOf (q'.request p)) above new with ⟨before, after, split, below⟩
      rw [split] at nodup chain
      refine iff_of_true ((readsFirst_iff nodup chain).mpr ?_) room
      intro w isIn isWrite
      have other : w ≠ p := fun same => lt_irrefl _ (same ▸ below w isIn)
      have inside := inQueue w (by rw [split]; exact List.mem_append_left _ isIn) other
      exact absurd isWrite (small w inside (below w isIn))
    · have different : keyOf (q.request t) ≠ keyOf r := distinct t ((elevator.members t).mp (List.mem_cons_self ..))
      have below : keyOf (q'.request p) < keyOf (q'.request t) := by
        apply lt_of_le_of_ne (not_lt.mp above)
        rw [own, first]
        exact different.symm
      have order : ¬ inOrder (q.request t) r := by
        rw [inOrder_iff, ← first, ← own]
        exact above
      rcases elevate_below (fun p => keyOf (q'.request p)) below new with ⟨rest, after, split, under⟩
      rcases firstRun_cons (fun p => keyOf (q'.request p)) t l with ⟨run, isRun, inside⟩
      have oldRun : firstRun (fun p => keyOf (q.request p)) (t :: l) = t :: run := by
        rw [← isRun]
        exact (firstRun_congr oldKey).symm
      rw [split, isRun] at nodup chain
      rw [readsFirst_iff nodup chain, current]
      have headNew : t ∉ run := by
        intro isIn
        rw [List.append_assoc, List.cons_append, List.nodup_cons] at nodup
        exact nodup.1 (List.mem_append_left _ isIn)
      constructor
      · intro only _ _ _
        right
        rw [oldRun]
        intro w isIn isWrite
        have same := only w (List.mem_append_left _ (List.mem_cons_of_mem t isIn))
          ((oldCmd w (List.mem_cons_of_mem t (inside isIn))).trans isWrite)
        exact headNew (Option.some.inj same ▸ isIn)
      · intro room w isIn isWrite
        rcases List.mem_append.mp isIn with inRun | inRest
        · rcases List.mem_cons.mp inRun with isHead | later
          · rw [isHead]
          · have none := (room t l rfl).resolve_left order
            rw [oldRun] at none
            rw [oldCmd w (List.mem_cons_of_mem t (inside later))] at isWrite
            exact absurd isWrite (none w later)
        · have other : w ≠ p := fun same => lt_irrefl _ (same ▸ under w inRest)
          have inOld := inQueue w (by
            rw [split]
            exact List.mem_append_left _ (List.mem_append_right _ inRest)) other
          exact absurd isWrite (small w inOld (under w inRest))

theorem fresh_elevator : Elevator freshQueue ∅ [] :=
  ⟨chain_nil.mpr rfl, List.nodup_nil, fun p => by simp, nofun, [], [], rfl, List.Pairwise.nil, List.Pairwise.nil⟩

/-- Two `WRITE`s on one device wait, added in this order. -/
theorem two_writes {a b : BitVec 64} (different : a ≠ b) :
    ∃ q next next', Relation.ReflTransGen QueueStep (freshQueue, ∅) (q, {1, 0}) ∧ Elevator q {1, 0} [0, 1] ∧
      q.request 0 = ⟨257, WRITE, a, none, next⟩ ∧ q.request 1 = ⟨257, WRITE, b, none, next'⟩ := by
  rcases addRequest_spec fresh_elevator (r := ⟨257, WRITE, a, none, none⟩) (show 0 < nrRequest by decide) (by simp)
    (by simp) with ⟨q₁, run₁, elevator₁, _⟩
  rcases addRequest_relinked run₁ 0 with ⟨next₁, first⟩
  simp only [Queue.setRequest, Function.update_self] at first
  have distinct : ∀ p' ∈ insert 0 (∅ : Finset Nat), keyOf (q₁.request p') ≠ keyOf ⟨257, WRITE, b, none, none⟩ := by
    intro p' isIn same
    rw [show p' = 0 by simpa using isIn, first] at same
    simp only [keyOf, toLex_inj, Prod.mk.injEq, true_and] at same
    exact different (BitVec.eq_of_toNat_eq same)
  rcases addRequest_spec elevator₁ (p := 1) (show 1 < nrRequest by decide) (by simp) distinct with
    ⟨q₂, run₂, elevator₂, _⟩
  rcases addRequest_relinked run₂ 0 with ⟨next, first₂⟩
  rcases addRequest_relinked run₂ 1 with ⟨next', second⟩
  simp only [Queue.setRequest, Function.update_self] at second
  have kept : (q₁.setRequest 1 ⟨257, WRITE, b, none, none⟩).request 0 = q₁.request 0 := by
    simp [Queue.setRequest]
  rw [kept, first] at first₂
  exact ⟨q₂, next, next', (Relation.ReflTransGen.single (.add 0 _ (by decide) (by simp) (by simp) run₁)).tail
    (.add 1 _ (by decide) (by simp) distinct run₂), elevator₂, first₂, second⟩

/-- In every queue that additions and removals with distinct keys build, a `READ` goes before the `WRITE`s
    exactly when there is room for it. -/
theorem reads_go_first_iff {start : Queue} {s : Queue × Finset Nat} (empty : start.current = none)
    (run : Relation.ReflTransGen QueueStep (start, ∅) s)
    (queue : Chain (fun p => (s.1.request p).next) s.1.current l) (slot : p < nrRequest) (free : p ∉ s.2)
    (distinct : ∀ p' ∈ s.2, keyOf (s.1.request p') ≠ keyOf r) (isRead : r.cmd = READ)
    (added : addRequest (s.1.setRequest p r) p = some q') : ReadsFirst q' p ↔ RoomForRead s.1 r l := by
  rcases reachable_elevator empty run with ⟨l', elevator⟩
  rw [elevator.chain.unique queue] at elevator
  exact addRequest_readsFirst elevator slot free distinct isRead added

def readOf (sector : BitVec 64) : Request := ⟨257, READ, sector, none, none⟩

theorem keyOf_readOf {q : Queue} {a b : BitVec 64} {next next' : Option Nat} (sector : BitVec 64)
    (first : q.request 0 = ⟨257, WRITE, a, none, next⟩) (second : q.request 1 = ⟨257, WRITE, b, none, next'⟩) :
    ∀ p' ∈ ({1, 0} : Finset Nat), keyOf (q.request p') ≠ keyOf (readOf sector) := by
  intro p' isIn same
  have apart : WRITE ≠ READ := by decide
  simp only [Finset.mem_insert, Finset.mem_singleton] at isIn
  rcases isIn with rfl | rfl
  · rw [second] at same
    exact apart (congrArg (fun key => (ofLex key).1) same)
  · rw [first] at same
    exact apart (congrArg (fun key => (ofLex key).1) same)

/-- Behind two falling `WRITE`s a `READ` goes between them. -/
theorem read_between_writes : ∃ q q', Relation.ReflTransGen QueueStep (freshQueue, ∅) (q, {1, 0}) ∧
    addRequest (q.setRequest 2 (readOf 10)) 2 = some q' ∧ RoomForRead q (readOf 10) [0, 1] ∧ ReadsFirst q' 2 := by
  rcases two_writes (show (100 : BitVec 64) ≠ 50 by decide) with ⟨q, next, next', run, elevator, first, second⟩
  have distinct := keyOf_readOf 10 first second
  rcases addRequest_spec elevator (p := 2) (by decide) (by simp) distinct with ⟨q', added, _⟩
  have room : RoomForRead q (readOf 10) [0, 1] := by
    intro head rest _
    right
    have falls : firstRun (fun p => keyOf (q.request p)) [0, 1] = [0] := by
      unfold firstRun
      rw [if_neg]
      rw [first, second]
      change ¬ keyOf ⟨257, WRITE, 100, none, none⟩ < keyOf ⟨257, WRITE, 50, none, none⟩
      decide
    rw [falls]
    simp
  exact ⟨q, q', run, added, room,
    (reads_go_first_iff rfl run elevator.chain (by decide) (by simp) distinct rfl added).2 room⟩

/-- Behind two rising ones it goes to the end. -/
theorem read_after_write : ¬ ∀ (start : Queue) (s : Queue × Finset Nat) (l : List Nat) (p : Nat) (r : Request)
    (q' : Queue), start.current = none → Relation.ReflTransGen QueueStep (start, ∅) s →
      Chain (fun p => (s.1.request p).next) s.1.current l → p < nrRequest → p ∉ s.2 →
      (∀ p' ∈ s.2, keyOf (s.1.request p') ≠ keyOf r) → r.cmd = READ →
      addRequest (s.1.setRequest p r) p = some q' → ReadsFirst q' p := by
  intro law
  rcases two_writes (show (50 : BitVec 64) ≠ 100 by decide) with ⟨q, next, next', run, elevator, first, second⟩
  have distinct := keyOf_readOf 10 first second
  rcases addRequest_spec elevator (p := 2) (by decide) (by simp) distinct with ⟨q', added, _⟩
  have goesFirst := law freshQueue (q, {1, 0}) [0, 1] 2 (readOf 10) q' rfl run elevator.chain (by decide) (by simp)
    distinct rfl added
  have room := (addRequest_readsFirst elevator (by decide) (by simp) distinct rfl added).1 goesFirst
  have rises : firstRun (fun p => keyOf (q.request p)) [0, 1] = [0, 1] := by
    unfold firstRun
    rw [if_pos]
    · rfl
    · rw [first, second]
      change keyOf ⟨257, WRITE, 50, none, none⟩ < keyOf ⟨257, WRITE, 100, none, none⟩
      decide
  rcases room 0 [1] rfl with before | none
  · rw [first] at before
    change inOrder ⟨257, WRITE, 50, none, none⟩ (readOf 10) at before
    exact absurd before (by decide)
  · rw [rises] at none
    exact none 1 (by simp) (by rw [second])

end K210Linux.Blk
