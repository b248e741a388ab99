import K210Linux.Sched.WaitQueue

namespace K210Linux.Sched

open K210Linux.Kernel K210Linux.Lib

variable {T : Type} [DecidableEq T]

variable {idle : T} {s s' : WaitQueue T} {t : T} {ts : List T}

theorem switchTo_of_picked {state : T → TaskState} {next : T} (picked : Picked state idle next)
    (notIdle : t ≠ idle) (waits : state t ≠ .running) : switchTo t next = false := by
  have other : t ≠ next := by
    rintro rfl
    rcases picked with same | running
    · exact notIdle same
    · exact waits running
  simp [switchTo, other]

/-- The calls that sleep on the queue all switched to another task. -/
def SwitchedAway (s : WaitQueue T) : Prop :=
  ∀ t tmp next, s.asleep t = some ⟨tmp, some next⟩ → switchTo t next = false

/-- After some tasks went to sleep on an empty queue, they all wait, the last one at the head. -/
structure Slept (s : WaitQueue T) (ts : List T) : Prop where
  head : s.head = ts.getLast?
  waits : ∀ t ∈ ts, s.state t = .uninterruptible
  inside : ∀ t, s.asleep t ≠ none → t ∈ ts
  present : ∀ t ∈ ts, ∃ tmp next, s.asleep t = some ⟨tmp, some next⟩
  switched : SwitchedAway s
  nodup : ts.Nodup

theorem Sleeps.slept (sleeps : Sleeps idle s ts s') (empty : s.head = none) (outside : ∀ t, s.asleep t = none) :
    Slept s' ts := by
  induction sleeps with
  | nil => exact ⟨by simpa using empty, by simp, by simp [outside], by simp, by simp [SwitchedAway, outside], .nil⟩
  | @snoc ts s' t next before awake notIdle picked ih =>
    have new : t ∉ ts := by
      intro isIn
      obtain ⟨tmp, next', inside⟩ := ih.present t isIn
      rw [awake] at inside
      cases inside
    have asleep : (s'.sleepOn t next).asleep = Function.update s'.asleep t (some ⟨s'.head, some next⟩) := by
      simp [WaitQueue.sleepOn, WaitQueue.switch, WaitQueue.enter]
    have state : (s'.sleepOn t next).state = Function.update s'.state t .uninterruptible := rfl
    refine ⟨by simp [WaitQueue.sleepOn, WaitQueue.switch, WaitQueue.enter], ?_, ?_, ?_, ?_, ?_⟩
    · intro u isIn
      rw [state]
      by_cases same : u = t
      · rw [same, Function.update_self]
      · rw [Function.update_of_ne same]
        exact ih.waits u (by simpa [same] using isIn)
    · intro u inside
      rw [asleep] at inside
      by_cases same : u = t
      · simp [same]
      · rw [Function.update_of_ne same] at inside
        exact List.mem_append_left _ (ih.inside u inside)
    · intro u isIn
      rw [asleep]
      by_cases same : u = t
      · exact ⟨s'.head, next, by rw [same, Function.update_self]⟩
      · rw [Function.update_of_ne same]
        exact ih.present u (by simpa [same] using isIn)
    · intro u tmp next' inside
      rw [asleep] at inside
      by_cases same : u = t
      · subst same
        rw [Function.update_self] at inside
        cases inside
        exact switchTo_of_picked picked notIdle (by rw [state, Function.update_self]; decide)
      · rw [Function.update_of_ne same] at inside
        exact ih.switched u tmp next' inside
    · simpa [List.nodup_append] using ⟨ih.nodup, fun a isIn same => new (same ▸ isIn)⟩

/-- A task that is resumed after a switch wakes nobody. -/
theorem Resume.state_eq (resume : Resume s s') (switched : SwitchedAway s) :
    s'.state = s.state ∧ SwitchedAway s' := by
  obtain @⟨t, next, tmp, inside, -⟩ := resume
  rw [switched _ _ _ inside]
  refine ⟨rfl, ?_⟩
  intro u tmp' next' inside'
  simp only [WaitQueue.finishSleepOn, WaitQueue.leave, Bool.false_eq_true, if_false] at inside'
  by_cases same : u = t
  · rw [same, Function.update_self] at inside'
    cases inside'
  · rw [Function.update_of_ne same] at inside'
    exact switched u tmp' next' inside'

theorem resumes_state_eq (resumes : Relation.ReflTransGen Resume s s') (switched : SwitchedAway s) :
    s'.state = s.state := by
  suffices s'.state = s.state ∧ SwitchedAway s' from this.1
  induction resumes with
  | refl => exact ⟨rfl, switched⟩
  | tail before resume ih =>
    obtain ⟨same, switched'⟩ := resume.state_eq ih.2
    exact ⟨same.trans ih.1, switched'⟩

theorem Slept.wakeUp_state (slept : Slept s (ts ++ [t])) : s.wakeUp.state = Function.update s.state t .running := by
  rw [WaitQueue.wakeUp, slept.head, List.getLast?_concat]
  rfl

theorem Slept.wakeUp_asleep (s : WaitQueue T) : s.wakeUp.asleep = s.asleep := by
  rw [WaitQueue.wakeUp]
  cases s.head <;> rfl

theorem Slept.switchedAway (slept : Slept s ts) : SwitchedAway s.wakeUp := by
  intro u tmp next inside
  rw [Slept.wakeUp_asleep] at inside
  exact slept.switched u tmp next inside

/-- The last sleeper is the only one that a `wake_up` lets run, and it leaves the others asleep. -/
theorem Slept.resume_last (slept : Slept s (ts ++ [t])) :
    ∃ woken, Resume s.wakeUp woken ∧ ∀ next, ¬ Resume woken next := by
  obtain ⟨tmp, next, inside⟩ := slept.present t (by simp)
  have running : s.wakeUp.state t = .running := by rw [slept.wakeUp_state, Function.update_self]
  refine ⟨_, .mk (by rw [Slept.wakeUp_asleep]; exact inside) running, ?_⟩
  rintro _ @⟨u, next', tmp', inside', running'⟩
  rw [slept.switched _ _ _ inside] at inside' running'
  simp only [WaitQueue.finishSleepOn, WaitQueue.leave, Bool.false_eq_true, if_false, Slept.wakeUp_asleep,
    slept.wakeUp_state] at inside' running'
  by_cases same : u = t
  · rw [same, Function.update_self] at inside'
    cases inside'
  · rw [Function.update_of_ne same] at inside' running'
    have waits := slept.waits u (slept.inside u (by rw [inside']; exact Option.some_ne_none _))
    rw [waits] at running'
    cases running'

/-- Of several sleepers all but the last one are lost. -/
theorem Slept.first_lost (slept : Slept s (ts ++ [t])) {first : T} (isIn : first ∈ ts) :
    ∃ woken, Relation.ReflTransGen Resume s.wakeUp woken ∧ (∀ next, ¬ Resume woken next) ∧
      woken.state first = .uninterruptible := by
  obtain ⟨woken, resume, final⟩ := slept.resume_last
  refine ⟨woken, .single resume, final, ?_⟩
  have other : first ≠ t := by
    rintro rfl
    have nodup := slept.nodup
    rw [List.nodup_append] at nodup
    exact nodup.2.2 first isIn first (by simp) rfl
  rw [resumes_state_eq (.single resume) slept.switchedAway, slept.wakeUp_state, Function.update_of_ne other,
    slept.waits first (List.mem_append_left _ isIn)]

/-- One `wake_up` brings all sleepers of a queue back, in whatever order they are resumed, exactly when there
    is only one of them. -/
theorem sleepers_woken_iff (someone : ts ≠ []) (empty : s.head = none) (outside : ∀ t, s.asleep t = none)
    (sleeps : Sleeps idle s ts s') :
    (∀ woken, Relation.ReflTransGen Resume s'.wakeUp woken → (∀ next, ¬ Resume woken next) →
      ∀ t ∈ ts, woken.state t = .running) ↔ ts.length = 1 := by
  obtain ⟨init, last, rfl⟩ := (List.eq_nil_or_concat' ts).resolve_left someone
  have slept := sleeps.slept empty outside
  constructor
  · intro all
    cases init with
    | nil => rfl
    | cons first init =>
      exfalso
      obtain ⟨woken, resumes, final, lost⟩ := slept.first_lost (List.mem_cons_self ..)
      rw [all woken resumes final first (by simp)] at lost
      cases lost
  · intro single woken resumes _ t isIn
    have nil : init = [] := by simpa using single
    subst nil
    rw [resumes_state_eq resumes slept.switchedAway, slept.wakeUp_state, List.mem_singleton.mp isIn,
      Function.update_self]

/-- Task 1 sleeps on an empty queue, and the idle task goes on. -/
theorem single_sleeps : Sleeps 0 (WaitQueue.empty fun _ => .running) [1]
    ((WaitQueue.empty fun _ => .running).sleepOn 1 0) :=
  .snoc 1 0 .nil rfl (by decide) (.inl rfl)

theorem single_sleeper_woken_iff :
    (∀ woken, Relation.ReflTransGen Resume ((WaitQueue.empty fun _ => .running).sleepOn 1 0).wakeUp woken →
      (∀ next, ¬ Resume woken next) → ∀ t ∈ [1], woken.state t = .running) ↔ [1].length = 1 :=
  sleepers_woken_iff (by decide) rfl (fun _ => rfl) single_sleeps

/-- Tasks 1 and 2 sleep on an empty queue. -/
theorem two_sleep : Sleeps 0 (WaitQueue.empty fun _ => .running) [1, 2]
    (((WaitQueue.empty fun _ => .running).sleepOn 1 2).sleepOn 2 0) :=
  .snoc 2 0 (.snoc 1 2 .nil rfl (by decide) (.inr rfl)) rfl (by decide) (.inl rfl)

/-- The one that came first is never woken. -/
theorem first_sleeper_lost : ∃ s : WaitQueue Nat, Sleeps 0 (WaitQueue.empty fun _ => .running) [1, 2] s ∧
    ¬ ∀ woken, Relation.ReflTransGen Resume s.wakeUp woken → (∀ next, ¬ Resume woken next) →
      ∀ t ∈ [1, 2], woken.state t = .running := by
  refine ⟨_, two_sleep, ?_⟩
  intro all
  have slept : Slept _ ([1] ++ [2]) := two_sleep.slept rfl fun _ => rfl
  obtain ⟨woken, resumes, final, lost⟩ := slept.first_lost (List.mem_singleton_self 1)
  rw [all woken resumes final 1 (by simp)] at lost
  cases lost

end K210Linux.Sched
