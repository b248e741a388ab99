import K210Linux.Sched.WaitQueue

namespace K210Linux.Sched

open K210Linux.Kernel K210Linux.Lib

variable {T : Type} {idle : T} {s s' : WaitQueue T} {event : QueueEvent T} {l : List T} {t : T}

/-- The task that a sleeping task has in its `tmp`. -/
def WaitQueue.behind (s : WaitQueue T) (t : T) : Option T := (s.asleep t).bind (·.tmp)

/-- The sleeping calls are a chain from the head of the queue, each with the next one in its `tmp`. -/
structure Chained (s : WaitQueue T) (l : List T) : Prop where
  chain : Chain s.behind s.head l
  nodup : l.Nodup
  inside : ∀ t, t ∈ l ↔ s.asleep t ≠ none

namespace Chained

theorem empty (state : T → TaskState) : Chained (.empty state) [] :=
  ⟨trivial, .nil, by simp [WaitQueue.empty]⟩

theorem reachable (chained : Chained s l) (isIn : t ∈ l) : s.Reachable t := by
  have reaches := chained.chain.reaches_of_mem isIn
  clear isIn
  induction reaches with
  | first here => exact .head here
  | step before link ih =>
    obtain ⟨call, inside, tmp⟩ := Option.bind_eq_some_iff.mp link
    exact .saved ih inside tmp

theorem noneDropped (chained : Chained s l) : s.NoneDropped :=
  fun t inside _ => chained.reachable ((chained.inside t).mpr inside)

/-- A step that leaves the links of the sleeping calls alone keeps the chain. -/
theorem of_behind (chained : Chained s l) (head : s'.head = s.head) (behind : ∀ t, s'.behind t = s.behind t)
    (asleep : ∀ t, s'.asleep t = none ↔ s.asleep t = none) : Chained s' l where
  chain := by
    rw [head]
    exact chained.chain.congr fun t _ => behind t
  nodup := chained.nodup
  inside t := (chained.inside t).trans (not_congr (asleep t)).symm

theorem of_asleep (chained : Chained s l) (head : s'.head = s.head) (asleep : s'.asleep = s.asleep) :
    Chained s' l :=
  chained.of_behind head (fun t => by rw [WaitQueue.behind, WaitQueue.behind, asleep]) fun t => by rw [asleep]

theorem head_eq (chained : Chained s l) (inside : s.asleep t ≠ none) (first : s.head = none ∨ s.head = some t) :
    ∃ rest, l = t :: rest := by
  have isIn := (chained.inside t).mpr inside
  cases l with
  | nil => cases isIn
  | cons u rest =>
    obtain ⟨here, -⟩ := chain_cons.mp chained.chain
    rw [here] at first
    rcases first with none | same
    · cases none
    · cases same
      exact ⟨rest, rfl⟩

variable [DecidableEq T]

/-- A new sleeper comes in front. -/
theorem enter (chained : Chained s l) (awake : s.asleep t = none) (state : TaskState) :
    Chained (s.enter t state) (t :: l) := by
  have new : t ∉ l := fun isIn => (chained.inside t).mp isIn awake
  have others : ∀ u, u ≠ t → (s.enter t state).asleep u = s.asleep u := fun u other => Function.update_of_ne other ..
  have own : (s.enter t state).asleep t = some ⟨s.head, none⟩ := Function.update_self ..
  refine ⟨?_, List.nodup_cons.mpr ⟨new, chained.nodup⟩, ?_⟩
  · rw [chain_cons]
    refine ⟨rfl, ?_⟩
    have first : (s.enter t state).behind t = s.head := by rw [WaitQueue.behind, own, Option.bind_some]
    rw [first]
    apply chained.chain.congr
    intro u isIn
    rw [WaitQueue.behind, WaitQueue.behind, others u fun same => new (same ▸ isIn)]
  · intro u
    by_cases same : u = t
    · simp [same, own]
    · rw [others u same, List.mem_cons, chained.inside u]
      simp [same]

/-- The sleeper at the head goes. -/
theorem leave (chained : Chained s (t :: l)) {tmp next : Option T} (inside : s.asleep t = some ⟨tmp, next⟩) :
    Chained ({ s.leave t with head := tmp }.wake tmp) l := by
  obtain ⟨first, rest⟩ := chain_cons.mp chained.chain
  obtain ⟨gone, nodup⟩ := List.nodup_cons.mp chained.nodup
  have link : s.behind t = tmp := by rw [WaitQueue.behind, inside, Option.bind_some]
  rw [link] at rest
  have left : Chained { s.leave t with head := tmp } l := by
    have others : ∀ u, u ≠ t → (s.leave t).asleep u = s.asleep u := fun u other => Function.update_of_ne other ..
    refine ⟨rest.congr ?_, nodup, ?_⟩
    · intro u isIn
      rw [WaitQueue.behind, WaitQueue.behind, others u fun same => gone (same ▸ isIn)]
    · intro u
      by_cases same : u = t
      · simp [same, gone, WaitQueue.leave]
      · rw [others u same, ← chained.inside u, List.mem_cons]
        simp [same]
  cases tmp with
  | none => exact left
  | some u => exact left.of_asleep rfl rfl

theorem finishInterruptible (chained : Chained s l) {tmp : Option T} {next : T} {value : Bool}
    (inside : s.asleep t = some ⟨tmp, some next⟩)
    (first : value = false → s.head = none ∨ s.head = some t) :
    ∃ l', Chained (s.finishInterruptible t tmp value) l' := by
  unfold WaitQueue.finishInterruptible
  split
  case isTrue other =>
    obtain ⟨u, here⟩ := Option.ne_none_iff_exists'.mp other.2.1
    rw [here]
    refine ⟨l, chained.of_behind rfl ?_ ?_⟩
    · intro v
      by_cases same : v = t
      · simp [WaitQueue.behind, same, inside]
      · simp [WaitQueue.behind, same]
    · intro v
      by_cases same : v = t
      · simp [same, inside]
      · simp [same]
  case isFalse stops =>
    have atHead : s.head = none ∨ s.head = some t := by
      cases value with
      | false => exact first rfl
      | true =>
        by_contra other
        exact stops ⟨rfl, not_or.mp other⟩
    obtain ⟨rest, rfl⟩ := chained.head_eq (by rw [inside]; exact Option.some_ne_none _) atHead
    exact ⟨rest, chained.leave inside⟩

end Chained

variable [DecidableEq T]

theorem QueueStep.chained (step : QueueStep idle s event s') (chained : Chained s l) (atHead : AtHead s event) :
    ∃ l', Chained s' l' := by
  cases step with
  | sleep awake => exact ⟨_, chained.enter awake _⟩
  | signal | elsewhere => exact ⟨l, chained.of_asleep rfl rfl⟩
  | @switch t next tmp inside picked =>
    refine ⟨l, chained.of_behind rfl ?_ ?_⟩
    · intro u
      by_cases same : u = t
      · simp [WaitQueue.behind, WaitQueue.switch, same, inside]
      · simp [WaitQueue.behind, WaitQueue.switch, same]
    · intro u
      by_cases same : u = t
      · simp [WaitQueue.switch, same, inside]
      · simp [WaitQueue.switch, same]
  | @resume t next tmp inside running =>
    apply chained.finishInterruptible inside
    intro switched
    apply atHead tmp next inside
    rintro rfl
    simp [switchTo] at switched
  | wakeUp =>
    refine ⟨l, ?_⟩
    rw [WaitQueue.wakeUp]
    cases s.head with
    | none => exact chained
    | some t => exact chained.of_asleep rfl rfl

theorem QueueRun.chained {state : T → TaskState} (run : QueueRun idle AtHead (.empty state) s) :
    ∃ l, Chained s l := by
  induction run with
  | refl => exact ⟨[], .empty state⟩
  | tail before step meets ih =>
    obtain ⟨l, chained⟩ := ih
    exact step.chained chained meets

/-- No sleeper is dropped as long as a task that goes on after others ran finds itself at the head of the
    queue. -/
theorem no_sleeper_dropped {state : T → TaskState} (run : QueueRun idle AtHead (.empty state) s) :
    s.NoneDropped := by
  obtain ⟨l, chained⟩ := run.chained
  exact chained.noneDropped

/-- Task 1 sleeps, is woken and goes on. -/
theorem single_interruptible_run : ∃ s, QueueRun 0 AtHead (WaitQueue.empty fun _ : Nat => .running) s ∧
    s.asleep 1 = none := by
  have sleeps : QueueRun 0 AtHead (WaitQueue.empty fun _ : Nat => .running)
      ((WaitQueue.empty fun _ => .running).enter 1 .interruptible) :=
    .tail .refl (.sleep rfl (by decide)) trivial
  have switches : QueueRun 0 AtHead (WaitQueue.empty fun _ : Nat => .running)
      (((WaitQueue.empty fun _ => .running).enter 1 .interruptible).switch 1 0) :=
    .tail sleeps (.switch rfl (.inl rfl)) trivial
  have woken := QueueRun.tail switches .wakeUp trivial
  exact ⟨_, .tail woken (.resume (t := 1) rfl rfl) fun _ _ _ _ => .inr rfl, rfl⟩

theorem single_interruptible_kept : ∃ s, QueueRun 0 AtHead (WaitQueue.empty fun _ : Nat => .running) s ∧
    s.asleep 1 = none ∧ s.NoneDropped := by
  obtain ⟨s, run, gone⟩ := single_interruptible_run
  exact ⟨s, run, gone, no_sleeper_dropped run⟩

/-- Task 1 sleeps and switches to task 2, which sleeps and switches to the idle task. -/
def twoQueue : WaitQueue Nat :=
  ((((WaitQueue.empty fun _ => .running).enter 1 .interruptible).switch 1 2).enter 2 .interruptible).switch 2 0

theorem twoQueue_run : QueueRun 0 (fun _ _ => True) (WaitQueue.empty fun _ : Nat => .running) twoQueue := by
  have first : QueueRun 0 (fun _ _ => True) (WaitQueue.empty fun _ : Nat => .running)
      ((WaitQueue.empty fun _ => .running).enter 1 .interruptible) :=
    .tail .refl (.sleep rfl (by decide)) trivial
  have switched : QueueRun 0 (fun _ _ => True) (WaitQueue.empty fun _ : Nat => .running)
      (((WaitQueue.empty fun _ => .running).enter 1 .interruptible).switch 1 2) :=
    .tail first (.switch rfl (.inr rfl)) trivial
  have second := QueueRun.tail switched (.sleep (t := 2) rfl (by decide)) trivial
  exact .tail second (.switch rfl (.inl rfl)) trivial

/-- A signal wakes task 1, which goes on and takes task 2 off the queue. -/
def droppedQueue : WaitQueue Nat := (twoQueue.setState 1 .running).finishInterruptible 1 none (switchTo 1 2)

theorem droppedQueue_run : QueueRun 0 (fun _ _ => True) (WaitQueue.empty fun _ : Nat => .running) droppedQueue := by
  have signalled := QueueRun.tail twoQueue_run (.signal (t := 1) rfl) trivial
  exact .tail signalled (.resume rfl rfl) trivial

theorem droppedQueue_asleep (t : Nat) : droppedQueue.asleep t = if t = 2 then some ⟨some 1, some 0⟩ else none := by
  by_cases second : t = 2
  · subst second
    rfl
  · by_cases first : t = 1
    · subst first
      rfl
    · simp [droppedQueue, WaitQueue.finishInterruptible, switchTo, WaitQueue.leave, WaitQueue.wake, twoQueue,
        WaitQueue.switch, WaitQueue.enter, WaitQueue.setState, WaitQueue.empty, first, second]

theorem later_sleeper_dropped : ∃ s, QueueRun 0 (fun _ _ => True) (WaitQueue.empty fun _ : Nat => .running) s ∧
    ¬ s.NoneDropped := by
  refine ⟨droppedQueue, droppedQueue_run, ?_⟩
  intro all
  have notSaved : ∀ t call, droppedQueue.asleep t = some call → call.tmp ≠ some 2 := by
    intro t call inside link
    rw [droppedQueue_asleep] at inside
    split at inside
    · cases inside
      cases link
    · cases inside
  cases all 2 (by rw [droppedQueue_asleep]; decide) rfl with
  | head first => cases first
  | saved _ inside link | woken _ inside link => exact notSaved _ _ inside link

end K210Linux.Sched
