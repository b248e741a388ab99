import K210Linux.Sched.TimerList

namespace K210Linux.Sched

open K210Linux.Lib

variable {F : Type}

theorem runCalls_append (t : Timers F) (calls : List (TimerCall F)) (call : TimerCall F) :
    runCalls t (calls ++ [call]) = (runCalls t calls).bind fun before =>
      (call.run before.1).map fun last => (last.1, before.2 ++ [last.2]) := by
  induction calls generalizing t with
  | nil =>
    simp only [List.nil_append, runCalls, Option.bind_some]
    cases call.run t <;> rfl
  | cons first calls ih =>
    simp only [List.cons_append, runCalls, ih]
    cases first.run t with
    | none => rfl
    | some r =>
      simp only [Option.bind_eq_bind, Option.bind_some]
      cases runCalls r.1 calls with
      | none => rfl
      | some r' =>
        simp only [Option.bind_some]
        cases call.run r'.1 <;> rfl

theorem ticks_append_addTimer (calls : List (TimerCall F)) (jiffies : Int) (fn : F) :
    ticks (calls ++ [.addTimer jiffies fn]) = ticks calls := by
  induction calls with
  | nil => rfl
  | cons call calls ih => cases call <;> simp [ticks, ih]

theorem ticks_append_doTimer (calls : List (TimerCall F)) (current : Clock) (user : Bool) :
    ticks (calls ++ [.doTimer current user]) = ticks calls + 1 := by
  induction calls with
  | nil => rfl
  | cons call calls ih => cases call <;> simp [ticks, ih]

theorem pending_append_addTimer (calls : List (TimerCall F)) {jiffies : Int} (fn : F) (positive : 0 < jiffies) :
    pending (calls ++ [.addTimer jiffies fn]) = pending calls ++ [(jiffies, fn)] := by
  induction calls with
  | nil => simp [pending, ticks, positive]
  | cons call calls ih =>
    cases call with
    | addTimer => simp only [List.cons_append, pending, ticks_append_addTimer, ih]; split <;> rfl
    | doTimer => exact ih

theorem pending_append_doTimer (calls : List (TimerCall F)) (current : Clock) (user : Bool) :
    pending (calls ++ [.doTimer current user]) =
      ((pending calls).filter fun x => 1 < x.1).map fun x => (x.1 - 1, x.2) := by
  induction calls with
  | nil => rfl
  | cons call calls ih =>
    cases call with
    | addTimer jiffies fn =>
      simp only [List.cons_append, pending, ticks_append_doTimer, ih]
      split_ifs with later now now
      · rw [List.filter_cons_of_pos (by simp; omega), List.map_cons]
        congr 2
        push_cast
        omega
      · omega
      · rw [List.filter_cons_of_neg (by simp; omega)]
      · rfl
    | doTimer => exact ih

theorem pending_pos {calls : List (TimerCall F)} {x : Int × F} (isIn : x ∈ pending calls) : 0 < x.1 := by
  induction calls with
  | nil => cases isIn
  | cons call calls ih =>
    cases call with
    | addTimer jiffies fn =>
      simp only [pending] at isIn
      split at isIn
      · rcases List.mem_cons.mp isIn with rfl | later
        · simp only
          omega
        · exact ih later
      · exact ih isIn
    | doTimer => exact ih isIn

/-- The callers keep to what `add_timer` is for: every delay is positive, and no more than 64 timers are
    pending at once. -/
structure Admissible (calls : List (TimerCall F)) : Prop where
  positive : ∀ jiffies fn, .addTimer jiffies fn ∈ calls → 0 < jiffies
  few : ∀ before, before <+: calls → (pending before).length ≤ timeRequests

/-- During every call exactly the callbacks that are due are called. -/
def OnTime (calls : List (TimerCall F)) (log : List (List F)) : Prop :=
  ∀ before call, before ++ [call] <+: calls →
    ∃ fired, log[before.length]? = some fired ∧ fired.Perm (due before call)

/-- The timers of the list are the pending ones. -/
def Represents (t : Timers F) (calls : List (TimerCall F)) : Prop :=
  ∃ l, Listed t l ∧ (remaining t 0 l).Perm ((pending calls).map fun x => (x.1, some x.2))

namespace Represents

variable {t : Timers F} {before : List (TimerCall F)}

theorem addTimer {jiffies : Int} {fn : F} (represents : Represents t before) (positive : 0 < jiffies)
    (few : (pending (before ++ [.addTimer jiffies fn])).length ≤ timeRequests)
    (fits : Fits (pending before) jiffies fn) :
    ∃ t', addTimer t jiffies (some fn) = some (t', []) ∧ Represents t' (before ++ [.addTimer jiffies fn]) := by
  obtain ⟨l, listed, timers⟩ := represents
  rw [pending_append_addTimer before fn positive] at few
  have length := timers.length_eq
  rw [length_remaining, List.length_map] at length
  obtain ⟨t', l', added, listed', timers'⟩ := listed.addTimer (by simp at few; omega) positive
    ((fits.map some).perm timers.symm)
  refine ⟨t', added, l', listed', ?_⟩
  rw [pending_append_addTimer before fn positive, List.map_append]
  exact timers'.trans ((timers.cons _).trans (List.perm_append_singleton ..).symm)

theorem doTimer (represents : Represents t before) (current : Clock) (user : Bool) :
    ∃ t' fired, TimerCall.run t (.doTimer current user) = some (t', fired) ∧
      Represents t' (before ++ [.doTimer current user]) ∧ fired.Perm (due before (.doTimer current user)) := by
  obtain ⟨l, listed, timers⟩ := represents
  obtain ⟨t', l', fired, ticked, listed', calls, left⟩ := listed.tickTimers
  refine ⟨t', fired, ?_, ⟨l', listed', ?_⟩, ?_⟩
  · simp only [TimerCall.run, Sched.doTimer, ticked, Option.bind_eq_bind, Option.bind_some]
    split <;> rfl
  · rw [left, pending_append_doTimer]
    refine ((timers.filter _).map _).trans (.of_eq ?_)
    simp [List.filter_map, Function.comp_def]
  · have perm := ((timers.filter fun x => decide (x.1 ≤ 1)).map Prod.snd).filterMap id
    have now : (pending before).filter (fun x => x.1 = 1) = (pending before).filter fun x => x.1 ≤ 1 := by
      apply List.filter_congr
      intro x isIn
      have := pending_pos isIn
      simp only [decide_eq_decide]
      omega
    rw [← calls] at perm
    rw [due, now]
    simpa [List.filter_map, Function.comp_def, List.filterMap_map] using perm

end Represents

theorem OnTime.append {calls : List (TimerCall F)} {log : List (List F)} {call : TimerCall F} {fired : List F}
    (onTime : OnTime calls log) (length : log.length = calls.length) (perm : fired.Perm (due calls call)) :
    OnTime (calls ++ [call]) (log ++ [fired]) := by
  intro before last isPrefix
  rcases List.prefix_concat_iff.mp isPrefix with whole | earlier
  · obtain ⟨rfl, same⟩ := List.append_inj' whole rfl
    cases same
    exact ⟨fired, by simp [← length], perm⟩
  · obtain ⟨fired', found, perm'⟩ := onTime before last earlier
    refine ⟨fired', ?_, perm'⟩
    rw [List.getElem?_append_left, found]
    exact (List.getElem?_eq_some_iff.mp found).1

/-- One more call that fits keeps the timers on time. -/
theorem Represents.run {t : Timers F} {before : List (TimerCall F)} (represents : Represents t before)
    (call : TimerCall F) (positive : ∀ jiffies fn, call = .addTimer jiffies fn → 0 < jiffies)
    (few : (pending (before ++ [call])).length ≤ timeRequests)
    (fits : ∀ jiffies fn, call = .addTimer jiffies fn → Fits (pending before) jiffies fn) :
    ∃ t' fired, call.run t = some (t', fired) ∧ Represents t' (before ++ [call]) ∧
      fired.Perm (due before call) := by
  cases call with
  | addTimer jiffies fn =>
    obtain ⟨t', added, represents'⟩ := represents.addTimer (positive _ _ rfl) few (fits _ _ rfl)
    exact ⟨t', [], added, represents', .refl _⟩
  | doTimer current user => exact represents.doTimer current user

theorem runCalls_represents (calls : List (TimerCall F)) (admissible : Admissible calls)
    (fits : ∀ before jiffies fn, before ++ [.addTimer jiffies fn] <+: calls → Fits (pending before) jiffies fn) :
    ∃ t log, runCalls .empty calls = some (t, log) ∧ log.length = calls.length ∧ OnTime calls log ∧
      Represents t calls := by
  induction calls using List.reverseRecOn with
  | nil =>
    refine ⟨.empty, [], rfl, rfl, ?_, [], .empty, .refl _⟩
    intro before call isPrefix
    simp at isPrefix
  | append_singleton calls call ih =>
    have isPrefix : calls <+: calls ++ [call] := List.prefix_append ..
    obtain ⟨t, log, runs, length, onTime, represents⟩ := ih
      ⟨fun jiffies fn isIn => admissible.positive jiffies fn (isPrefix.subset isIn),
        fun before earlier => admissible.few before (earlier.trans isPrefix)⟩
      fun before jiffies fn earlier => fits before jiffies fn (earlier.trans isPrefix)
    obtain ⟨t', fired, ran, represents', perm⟩ := represents.run call
      (fun jiffies fn same => admissible.positive jiffies fn (by simp [same]))
      (admissible.few _ List.prefix_rfl) fun jiffies fn same => fits calls jiffies fn (same ▸ List.prefix_rfl)
    refine ⟨t', log ++ [fired], ?_, by simp [length], onTime.append length perm, represents'⟩
    rw [runCalls_append, runs, Option.bind_some, ran, Option.map_some]

/-- As long as every new timer fits among the pending ones, the timers are on time, and no slot without a
    callback is on the list. -/
theorem timers_on_time (calls : List (TimerCall F)) (admissible : Admissible calls)
    (fits : ∀ before jiffies fn, before ++ [.addTimer jiffies fn] <+: calls → Fits (pending before) jiffies fn) :
    ∃ t log, runCalls .empty calls = some (t, log) ∧ OnTime calls log ∧
      ∀ p, (t.slot p).fn = none → ¬ Reaches (fun q => (t.slot q).next) t.nextTimer p := by
  obtain ⟨t, log, runs, -, onTime, l, listed, -⟩ := runCalls_represents calls admissible fits
  refine ⟨t, log, runs, onTime, ?_⟩
  intro p unset reaches
  exact (listed.callback p).mp (listed.chain.mem_of_reaches reaches) unset

theorem pending_length_le (calls : List (TimerCall F)) : (pending calls).length ≤ calls.length := by
  induction calls with
  | nil => exact le_rfl
  | cons call calls ih =>
    cases call with
    | addTimer jiffies fn =>
      simp only [pending, List.length_cons]
      split
      · simpa using ih
      · omega
    | doTimer => exact ih.trans (Nat.le_succ _)

theorem Admissible.of_short {calls : List (TimerCall F)} (short : calls.length ≤ timeRequests)
    (positive : ∀ jiffies fn, .addTimer jiffies fn ∈ calls → 0 < jiffies) : Admissible calls where
  positive := positive
  few before earlier := (pending_length_le before).trans (earlier.length_le.trans short)

theorem eq_take_of_append_prefix {α : Type} {before l : List α} {x : α} (isPrefix : before ++ [x] <+: l) :
    before = l.take before.length ∧ l[before.length]? = some x := by
  obtain ⟨rest, rfl⟩ := isPrefix
  simp

/-- Two timers with one callback, and one that is due after them. -/
def sampleCalls : List (TimerCall Nat) :=
  [.addTimer 3 7, .addTimer 1 7, .doTimer ⟨0, 0, 15⟩ true, .doTimer ⟨1, 0, 14⟩ true]

theorem sampleCalls_on_time : ∃ t log, runCalls .empty sampleCalls = some (t, log) ∧ OnTime sampleCalls log ∧
    ∀ p, (t.slot p).fn = none → ¬ Reaches (fun q => (t.slot q).next) t.nextTimer p := by
  apply timers_on_time
  · refine .of_short (by decide) ?_
    simp only [sampleCalls, List.mem_cons, TimerCall.addTimer.injEq]
    grind
  · intro before jiffies fn isPrefix
    obtain ⟨earlier, call⟩ := eq_take_of_append_prefix isPrefix
    rw [earlier]
    generalize before.length = n at call
    match n, call with
    | 0, call =>
      cases call
      exact ⟨by decide, by decide⟩
    | 1, call =>
      cases call
      exact ⟨by decide, by decide⟩
    | 2, call => cases call
    | 3, call => cases call
    | n + 4, call => cases call

/-- A timer for 2 ticks and then one for 5: at the second tick the wrong callback is called. -/
def swappedCalls : List (TimerCall Nat) :=
  [.addTimer 2 0, .addTimer 5 1, .doTimer ⟨0, 0, 15⟩ true, .doTimer ⟨1, 0, 14⟩ true]

theorem add_timer_loses_callback : Admissible swappedCalls ∧
    ¬ ∃ t log, runCalls .empty swappedCalls = some (t, log) ∧ OnTime swappedCalls log := by
  refine ⟨.of_short (by decide) ?_, ?_⟩
  · simp only [swappedCalls, List.mem_cons, TimerCall.addTimer.injEq]
    grind
  rintro ⟨t, log, runs, onTime⟩
  have calls : (runCalls .empty swappedCalls).map Prod.snd = some [[], [], [], [1]] := by decide
  rw [runs] at calls
  obtain rfl : log = [[], [], [], [1]] := Option.some.inj calls
  obtain ⟨fired, found, perm⟩ := onTime (swappedCalls.take 3) (.doTimer ⟨1, 0, 14⟩ true) List.prefix_rfl
  obtain rfl : [1] = fired := Option.some.inj found
  exact absurd perm (by decide)

end K210Linux.Sched
