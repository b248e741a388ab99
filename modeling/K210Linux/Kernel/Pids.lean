import K210Linux.Kernel.Process
import Mathlib

namespace K210Linux.Kernel

/-- The process table as the functions on process ids see it: every slot with the structure that its pointer
    leads to. -/
structure TaskTable where
  task : Nat → Option Task
  current : Nat
  lastPid : Int
  jiffies : Int

/-- The largest `int`. -/
def maxPid : Int := 2 ^ 31 - 1

/-- `if((++last_pid) < 0) last_pid = 1`, where the increment wraps. -/
def nextPid (lastPid : Int) : Int :=
  let pid := if lastPid = maxPid then - 2 ^ 31 else lastPid + 1
  if pid < 0 then 1 else pid

/-- The scan for a task that has the new id. -/
def pidTaken (t : TaskTable) (pid : Int) : Bool :=
  (List.range nrTasks).any fun i => (t.task i).any fun p => p.pid = pid

/-- The loop of `find_empty_process` up to the second scan. -/
def searchPid (t : TaskTable) (lastPid : Int) : Nat → Option Int
  | 0 => none
  | fuel + 1 => if pidTaken t (nextPid lastPid) then searchPid t (nextPid lastPid) fuel else some (nextPid lastPid)

/-- The first free slot from 1 on. -/
def emptySlot (t : TaskTable) : Option Nat := (List.range' 1 (nrTasks - 1)).find? fun i => (t.task i).isNone

/-- `find_empty_process`, with one more round than there are tasks. -/
def findEmptyProcess (t : TaskTable) : Option (Int × TaskTable) :=
  (searchPid t t.lastPid (nrTasks + 1)).map fun pid =>
    (match emptySlot t with
      | some i => (i : Int)
      | none => -eagain, { t with lastPid := pid })

/-- The structure that a successful `copy_process` leaves in slot `nr`. -/
def copyTask (t : TaskTable) (parent : Task) (nr : Nat) : TaskTable :=
  { t with task := Function.update t.task nr (some { parent with
      state := .running
      pid := t.lastPid
      father := parent.pid
      counter := parent.priority
      signal := 0
      alarm := 0
      leader := false
      utime := 0
      stime := 0
      cutime := 0
      cstime := 0
      startTime := t.jiffies }) }

/-- `release` of the task in slot `i`. -/
def releaseTask (t : TaskTable) (i : Nat) : TaskTable := { t with task := Function.update t.task i none }

/-- A fork that succeeds or finds no slot, the release of a task that exited, or anything that keeps the ids. -/
inductive PidStep : TaskTable → TaskTable → Prop
  | forked {t t' : TaskTable} {parent : Task} (nr : Nat) (caller : t.task t.current = some parent)
      (found : findEmptyProcess t = some ((nr : Int), t')) : PidStep t (copyTask t' parent nr)
  | refused {t t' : TaskTable} (found : findEmptyProcess t = some (-eagain, t')) : PidStep t t'
  | released {t : TaskTable} {p : Task} (i : Nat) (slot : 1 ≤ i ∧ i < nrTasks) (present : t.task i = some p)
      (exited : p.state = .zombie) : PidStep t (releaseTask t i)
  | other {t t' : TaskTable} (same : ∀ i, (t'.task i).map Task.pid = (t.task i).map Task.pid)
      (lastPid : t'.lastPid = t.lastPid) : PidStep t t'

section Search

variable {t : TaskTable}

theorem nextPid_eq {lastPid : Int} (low : 0 ≤ lastPid) (high : lastPid ≤ maxPid) :
    nextPid lastPid = lastPid % maxPid + 1 := by
  unfold nextPid maxPid at *
  dsimp only
  split_ifs <;> omega

/-- The `k`-th id that the search looks at. -/
def candidate (lastPid : Int) (k : Nat) : Int := (lastPid + k) % maxPid + 1

theorem candidate_range (lastPid : Int) (k : Nat) : 1 ≤ candidate lastPid k ∧ candidate lastPid k ≤ maxPid := by
  unfold candidate maxPid
  omega

theorem candidate_nextPid {lastPid : Int} (low : 0 ≤ lastPid) (high : lastPid ≤ maxPid) (k : Nat) :
    candidate (nextPid lastPid) k = candidate lastPid (k + 1) := by
  rw [nextPid_eq low high]
  unfold candidate maxPid
  push_cast
  omega

theorem candidate_inj {lastPid : Int} {k k' : Nat} (small : k < 65) (small' : k' < 65)
    (same : candidate lastPid k = candidate lastPid k') : k = k' := by
  unfold candidate maxPid at same
  omega

/-- The search returns an id that no task has, or went over ids that are all taken. -/
theorem searchPid_cases {lastPid : Int} (low : 0 ≤ lastPid) (high : lastPid ≤ maxPid) (fuel : Nat) :
    (∃ pid, searchPid t lastPid fuel = some pid ∧ 1 ≤ pid ∧ pid ≤ maxPid ∧ pidTaken t pid = false) ∨
    (∀ k, k < fuel → pidTaken t (candidate lastPid k) = true) := by
  induction fuel generalizing lastPid with
  | zero => exact .inr fun k below => absurd below (Nat.not_lt_zero _)
  | succ fuel ih =>
    have first : nextPid lastPid = candidate lastPid 0 := by
      rw [nextPid_eq low high, candidate, Nat.cast_zero, add_zero]
    have range := candidate_range lastPid 0
    rw [← first] at range
    unfold searchPid
    by_cases taken : pidTaken t (nextPid lastPid) = true
    · rw [if_pos taken]
      rcases ih (by omega) range.2 with found | all
      · exact .inl found
      · right
        intro k below
        cases k with
        | zero =>
          rw [← first]
          exact taken
        | succ k =>
          rw [← candidate_nextPid low high]
          exact all k (by omega)
    · rw [if_neg taken]
      exact .inl ⟨_, rfl, range.1, range.2, Bool.not_eq_true _ ▸ taken⟩

theorem pidTaken_iff {pid : Int} :
    pidTaken t pid = true ↔ ∃ i, i < nrTasks ∧ ∃ p, t.task i = some p ∧ p.pid = pid := by
  unfold pidTaken
  simp only [List.any_eq_true, List.mem_range, Option.any_eq_true, decide_eq_true_eq]

/-- 65 ids are more than the tasks can have. -/
theorem not_all_taken {lastPid : Int} (all : ∀ k, k < nrTasks + 1 → pidTaken t (candidate lastPid k) = true) : False := by
  have slot : ∀ k, ∃ i, k < nrTasks + 1 → i < nrTasks ∧ ∃ p, t.task i = some p ∧ p.pid = candidate lastPid k := by
    intro k
    by_cases below : k < nrTasks + 1
    · rcases pidTaken_iff.mp (all k below) with ⟨i, inside, found⟩
      exact ⟨i, fun _ => ⟨inside, found⟩⟩
    · exact ⟨0, fun below' => absurd below' below⟩
  choose f found using slot
  have maps : ∀ k ∈ Finset.range (nrTasks + 1), f k ∈ Finset.range nrTasks := by
    intro k isIn
    exact Finset.mem_range.mpr (found k (Finset.mem_range.mp isIn)).1
  have more : (Finset.range nrTasks).card < (Finset.range (nrTasks + 1)).card := by
    rw [Finset.card_range, Finset.card_range]
    exact Nat.lt_succ_self _
  rcases Finset.exists_ne_map_eq_of_card_lt_of_maps_to more maps with ⟨k, isIn, k', isIn', different, same⟩
  rw [Finset.mem_range] at isIn isIn'
  rcases (found k isIn).2 with ⟨p, here, pid⟩
  rcases (found k' isIn').2 with ⟨p', there, pid'⟩
  rw [same, there] at here
  cases here
  exact different (candidate_inj isIn isIn' (pid.symm.trans pid'))

/-- What `find_empty_process` returns: the least free slot or -EAGAIN, with an id that no task has. -/
structure Found (t : TaskTable) (value : Int) (t' : TaskTable) : Prop where
  low : 1 ≤ t'.lastPid
  high : t'.lastPid ≤ maxPid
  task : t'.task = t.task
  unused : ∀ i, i < nrTasks → ∀ p, t.task i = some p → p.pid ≠ t'.lastPid
  slot : (∃ i : Nat, value = i ∧ 1 ≤ i ∧ i < nrTasks ∧ t.task i = none ∧ ∀ j, 1 ≤ j → j < i → t.task j ≠ none) ∨
    (value = -eagain ∧ ∀ i, 1 ≤ i → i < nrTasks → t.task i ≠ none)

theorem emptySlot_cases (t : TaskTable) :
    (∃ i, emptySlot t = some i ∧ 1 ≤ i ∧ i < nrTasks ∧ t.task i = none ∧ ∀ j, 1 ≤ j → j < i → t.task j ≠ none) ∨
    (emptySlot t = none ∧ ∀ i, 1 ≤ i → i < nrTasks → t.task i ≠ none) := by
  have sixtyFour : nrTasks = 64 := rfl
  unfold emptySlot
  cases search : (List.range' 1 (nrTasks - 1)).find? fun i => (t.task i).isNone with
  | none =>
    right
    refine ⟨rfl, ?_⟩
    intro i low high none
    have busy := List.find?_eq_none.mp search i (List.mem_range'_1.mpr ⟨low, by omega⟩)
    rw [none] at busy
    exact busy rfl
  | some i =>
    left
    rcases List.find?_eq_some_iff_getElem.mp search with ⟨free, k, bound, here, before⟩
    rw [List.length_range'] at bound
    rw [List.getElem_range'] at here
    refine ⟨i, rfl, by omega, by omega, Option.isNone_iff_eq_none.mp free, ?_⟩
    intro j low below none
    have busy := before (j - 1) (by omega)
    rw [List.getElem_range'] at busy
    have index : 1 + 1 * (j - 1) = j := by omega
    rw [index, none] at busy
    cases busy

theorem findEmptyProcess_spec (low : 0 ≤ t.lastPid) (high : t.lastPid ≤ maxPid) :
    ∃ value t', findEmptyProcess t = some (value, t') ∧ Found t value t' := by
  rcases searchPid_cases (t := t) low high (nrTasks + 1) with ⟨pid, search, low', high', free⟩ | all
  · unfold findEmptyProcess
    rw [search]
    refine ⟨_, _, rfl, low', high', rfl, ?_, ?_⟩
    · intro i inside p present same
      have taken := pidTaken_iff.mpr ⟨i, inside, p, present, same⟩
      rw [free] at taken
      cases taken
    · rcases emptySlot_cases t with ⟨i, slot, facts⟩ | ⟨slot, full⟩
      · rw [slot]
        exact .inl ⟨i, rfl, facts⟩
      · rw [slot]
        exact .inr ⟨rfl, full⟩
  · exact (not_all_taken all).elim

end Search

/-- Live tasks have different ids, and the last one handed out is no negative number. -/
structure PidsWf (t : TaskTable) : Prop where
  low : 0 ≤ t.lastPid
  high : t.lastPid ≤ maxPid
  distinct : ∀ i j p q, i < nrTasks → j < nrTasks → t.task i = some p → t.task j = some q → p.pid = q.pid → i = j

theorem PidStep.wf {t t' : TaskTable} (step : PidStep t t') (wf : PidsWf t) : PidsWf t' := by
  cases step with
  | @forked t₁ parent nr caller found =>
    rcases findEmptyProcess_spec wf.low wf.high with ⟨value, t₂, run, spec⟩
    rw [run] at found
    cases found
    have low := spec.low
    refine ⟨by change 0 ≤ t₁.lastPid; omega, spec.high, ?_⟩
    intro i j p q inI inJ atI atJ same
    have old : ∀ k p, k ≠ nr → (copyTask t₁ parent nr).task k = some p → t.task k = some p := by
      intro k p other present
      rw [← spec.task, ← present]
      exact (Function.update_of_ne other ..).symm
    have new : ∀ p, (copyTask t₁ parent nr).task nr = some p → p.pid = t₁.lastPid := by
      intro p present
      simp only [copyTask, Function.update_self] at present
      cases present
      rfl
    by_cases here : i = nr
    · by_cases there : j = nr
      · rw [here, there]
      · rw [here] at atI
        rw [new p atI] at same
        exact absurd same.symm (spec.unused j inJ q (old j q there atJ))
    · by_cases there : j = nr
      · rw [there] at atJ
        rw [new q atJ] at same
        exact absurd same (spec.unused i inI p (old i p here atI))
      · exact wf.distinct i j p q inI inJ (old i p here atI) (old j q there atJ) same
  | refused found =>
    rcases findEmptyProcess_spec wf.low wf.high with ⟨value, t₂, run, spec⟩
    rw [run] at found
    cases found
    have low := spec.low
    refine ⟨by omega, spec.high, ?_⟩
    rw [spec.task]
    exact wf.distinct
  | @released p i slot present exited =>
    refine ⟨wf.low, wf.high, ?_⟩
    intro a b p q inA inB atA atB same
    have old : ∀ k p, (releaseTask t i).task k = some p → t.task k = some p := by
      intro k p present'
      by_cases here : k = i
      · simp only [here, releaseTask, Function.update_self] at present'
        cases present'
      · rw [← present']
        exact (Function.update_of_ne here ..).symm
    exact wf.distinct a b p q inA inB (old a p atA) (old b q atB) same
  | other ids lastPid =>
    refine ⟨lastPid ▸ wf.low, lastPid ▸ wf.high, ?_⟩
    intro i j p q inI inJ atI atJ same
    have old : ∀ k p, t'.task k = some p → ∃ p', t.task k = some p' ∧ p'.pid = p.pid := by
      intro k p present
      have map := ids k
      rw [present, Option.map_some] at map
      exact Option.map_eq_some_iff.mp map.symm
    rcases old i p atI with ⟨p', atI', pidI⟩
    rcases old j q atJ with ⟨q', atJ', pidJ⟩
    exact wf.distinct i j p' q' inI inJ atI' atJ' (by rw [pidI, pidJ, same])

/-- Task 0 alone, before the first fork. -/
structure Booted (t : TaskTable) : Prop where
  first : ∃ p, t.task 0 = some p ∧ p.pid = 0
  others : ∀ i, 1 ≤ i → i < nrTasks → t.task i = none
  lastPid : t.lastPid = 0

theorem Booted.wf {t : TaskTable} (booted : Booted t) : PidsWf t := by
  have last := booted.lastPid
  refine ⟨by omega, by rw [last]; decide, ?_⟩
  intro i j p q inI inJ atI atJ _
  have zero : ∀ k p, k < nrTasks → t.task k = some p → k = 0 := by
    intro k p inside present
    by_contra positive
    rw [booted.others k (by omega) inside] at present
    cases present
  rw [zero i p inI atI, zero j q inJ atJ]

theorem pids_unique {t t' : TaskTable} (booted : Booted t) (run : Relation.ReflTransGen PidStep t t') :
    (∃ value t'', findEmptyProcess t' = some (value, t'') ∧ Found t' value t'') ∧
    ∀ i j p q, i < nrTasks → j < nrTasks → t'.task i = some p → t'.task j = some q → i ≠ j → p.pid ≠ q.pid := by
  have wf : PidsWf t' := by
    induction run with
    | refl => exact booted.wf
    | tail _ step ih => exact step.wf ih
  refine ⟨findEmptyProcess_spec wf.low wf.high, ?_⟩
  intro i j p q inI inJ atI atJ different same
  exact different (wf.distinct i j p q inI inJ atI atJ same)

/-- The `init_task`, as far as the ids go. -/
def initTask : Task where
  state := .running
  counter := 15
  priority := 15
  signal := 0
  exitCode := 0
  startCode := 0
  endData := 0
  pid := 0
  father := -1
  pgrp := 0
  session := 0
  leader := false
  alarm := 0
  utime := 0
  stime := 0
  cutime := 0
  cstime := 0
  startTime := 0
  pwd := none
  root := none
  executable := none
  filp := fun _ => none
  pageDirTable := 0
  codeBase := 0
  dataBase := 0
  codeLimit := 0
  dataLimit := 0
  tss := ⟨fun _ => 0, fun _ => 0, 0⟩

def bootTable : TaskTable := ⟨fun i => if i = 0 then some initTask else none, 0, 0, 0⟩

theorem bootTable_booted : Booted bootTable where
  first := ⟨initTask, rfl, rfl⟩
  others i low _ := if_neg (by omega)
  lastPid := rfl

theorem first_fork_unique :
    (∃ value t'', findEmptyProcess (copyTask { bootTable with lastPid := 1 } initTask 1) = some (value, t'') ∧
      Found (copyTask { bootTable with lastPid := 1 } initTask 1) value t'') ∧
    ∀ i j p q, i < nrTasks → j < nrTasks → (copyTask { bootTable with lastPid := 1 } initTask 1).task i = some p →
      (copyTask { bootTable with lastPid := 1 } initTask 1).task j = some q → i ≠ j → p.pid ≠ q.pid := by
  have found : findEmptyProcess bootTable = some (((1 : Nat) : Int), { bootTable with lastPid := 1 }) := by rfl
  exact pids_unique bootTable_booted (.single (.forked 1 (show _ = some initTask from rfl) found))

end K210Linux.Kernel
