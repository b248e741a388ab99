import K210Linux.Sched.Timer

namespace K210Linux.Sched

open K210Linux.Lib

variable {F : Type}

@[simp] theorem Timers.set_slot (t : Timers F) (p : Nat) (timer : Timer F) : (t.set p timer).slot p = timer :=
  Function.update_self ..

theorem Timers.set_slot_of_ne (t : Timers F) {p q : Nat} (timer : Timer F) (other : q ≠ p) :
    (t.set p timer).slot q = t.slot q :=
  Function.update_of_ne other ..

/-- The timers of the list with the ticks they still have to wait: the sums of the differences kept in the
    nodes, counted from `base`. -/
def remaining (t : Timers F) : Int → List Nat → List (Int × Option F)
  | _, [] => []
  | base, p :: l => (base + (t.slot p).jiffies, (t.slot p).fn) :: remaining t (base + (t.slot p).jiffies) l

section Remaining

variable {t t' : Timers F} {l : List Nat}

theorem remaining_congr (same : ∀ p ∈ l, t'.slot p = t.slot p) (base : Int) :
    remaining t' base l = remaining t base l := by
  induction l generalizing base with
  | nil => rfl
  | cons p l ih =>
    rw [remaining, remaining, same p (List.mem_cons_self ..),
      ih fun q inList => same q (List.mem_cons_of_mem _ inList)]

theorem remaining_shift (t : Timers F) (l : List Nat) (base shift : Int) :
    remaining t (base + shift) l = (remaining t base l).map fun x => (x.1 + shift, x.2) := by
  induction l generalizing base with
  | nil => rfl
  | cons p l ih => rw [remaining, remaining, List.map_cons, ← ih, add_right_comm]

theorem remaining_from (t : Timers F) (l : List Nat) (base : Int) :
    remaining t base l = (remaining t 0 l).map fun x => (x.1 + base, x.2) := by
  rw [← remaining_shift, zero_add]

theorem remaining_cons (t : Timers F) (p : Nat) (l : List Nat) : remaining t 0 (p :: l) =
    ((t.slot p).jiffies, (t.slot p).fn) :: (remaining t 0 l).map fun x => (x.1 + (t.slot p).jiffies, x.2) := by
  rw [remaining, zero_add, remaining_from]

theorem length_remaining (t : Timers F) (l : List Nat) (base : Int) : (remaining t base l).length = l.length := by
  induction l generalizing base with
  | nil => rfl
  | cons p l ih => simp [remaining, ih]

theorem le_of_mem_remaining {base : Int} {x : Int × Option F} (ordered : ∀ p ∈ l, 0 ≤ (t.slot p).jiffies)
    (isIn : x ∈ remaining t base l) : base ≤ x.1 := by
  induction l generalizing base with
  | nil => cases isIn
  | cons p l ih =>
    have step := ordered p (List.mem_cons_self ..)
    rcases List.mem_cons.mp isIn with rfl | later
    · simp only
      omega
    · have rest := ih (fun q inList => ordered q (List.mem_cons_of_mem _ inList)) later
      omega

theorem snd_remaining (t : Timers F) (l : List Nat) (base : Int) :
    (remaining t base l).map Prod.snd = l.map fun p => (t.slot p).fn := by
  induction l generalizing base with
  | nil => rfl
  | cons p l ih => simp [remaining, ih]

theorem exists_mem_remaining {p : Nat} (isIn : p ∈ l) : ∃ x ∈ remaining t 0 l, x.2 = (t.slot p).fn := by
  have inCallbacks : (t.slot p).fn ∈ (remaining t 0 l).map Prod.snd := by
    rw [snd_remaining]
    exact List.mem_map_of_mem isIn
  exact List.mem_map.mp inCallbacks

theorem slot_of_mem_remaining {x : Int × Option F} (isIn : x ∈ remaining t 0 l) :
    ∃ p ∈ l, x.2 = (t.slot p).fn := by
  have inCallbacks : x.2 ∈ l.map fun p => (t.slot p).fn := by
    rw [← snd_remaining t l 0]
    exact List.mem_map_of_mem isIn
  obtain ⟨p, inList, eq⟩ := List.mem_map.mp inCallbacks
  exact ⟨p, inList, eq.symm⟩

end Remaining

/-- A new timer of `jiffies` ticks can go among these timers: at most one of them has to wait as long, and
    every one that is due before it has the same callback. -/
structure Fits {G : Type} (timers : List (Int × G)) (jiffies : Int) (fn : G) : Prop where
  later : (timers.filter fun x => jiffies ≤ x.1).length ≤ 1
  earlier : ∀ x ∈ timers, x.1 < jiffies → x.2 = fn

namespace Fits

variable {G H : Type} {timers timers' : List (Int × G)} {jiffies : Int} {fn : G}

theorem perm (fits : Fits timers jiffies fn) (same : timers.Perm timers') : Fits timers' jiffies fn where
  later := by
    rw [← (same.filter _).length_eq]
    exact fits.later
  earlier x isIn := fits.earlier x (same.mem_iff.mpr isIn)

theorem map (fits : Fits timers jiffies fn) (g : G → H) :
    Fits (timers.map fun x => (x.1, g x.2)) jiffies (g fn) where
  later := by
    rw [List.filter_map, List.length_map]
    exact fits.later
  earlier x isIn before := by
    obtain ⟨y, inTimers, rfl⟩ := List.mem_map.mp isIn
    exact congrArg g (fits.earlier y inTimers before)

/-- What fits among timers behind one of `shift` ticks fits among the others, counted from there. -/
theorem tail {shift : Int} {fn' : G}
    (fits : Fits ((shift, fn') :: timers.map fun x => (x.1 + shift, x.2)) jiffies fn) :
    Fits timers (jiffies - shift) fn where
  later := by
    have count := fits.later
    rw [List.filter_cons] at count
    have rest : ((timers.map fun x => (x.1 + shift, x.2)).filter fun x => decide (jiffies ≤ x.1)).length ≤ 1 := by
      split at count
      · exact (Nat.le_succ _).trans count
      · exact count
    rw [List.filter_map, List.length_map] at rest
    simpa only [Function.comp_def, tsub_le_iff_right] using rest
  earlier x isIn before :=
    fits.earlier (x.1 + shift, x.2) (List.mem_cons_of_mem _ (List.mem_map_of_mem isIn)) (by simp only; omega)

end Fits

/-- The new timer at `p`, in front of the timers of `l`, went to its place. -/
structure Settled (t t' : Timers F) (p : Nat) (l : List Nat) : Prop where
  nextTimer : t'.nextTimer = t.nextTimer
  next : ∀ q, (t'.slot q).next = (t.slot q).next
  others : ∀ q, q ∉ p :: l → t'.slot q = t.slot q
  ordered : ∀ q ∈ p :: l, 0 ≤ (t'.slot q).jiffies
  timers : (remaining t' 0 (p :: l)).Perm (((t.slot p).jiffies, (t.slot p).fn) :: remaining t 0 l)

theorem lowerFollowing_single {t : Timers F} {p q : Nat} {fuel : Nat} (following : (t.slot p).next = some q)
    (last : (t.slot q).next = none) (jiffies : Int) :
    lowerFollowing t p jiffies (fuel + 2) =
      some (t.set q { t.slot q with jiffies := (t.slot q).jiffies - jiffies }) := by
  simp [lowerFollowing, following, last]

/-- One pass of the first loop of `add_timer`, from `p` to the timer `q` behind it. -/
def passed (t : Timers F) (p q : Nat) : Timers F :=
  (t.set p { t.slot p with jiffies := (t.slot q).jiffies }).set q
    { t.slot q with jiffies := (t.slot p).jiffies - (t.slot q).jiffies, fn := (t.slot p).fn }

section Passed

variable {t : Timers F} {p q : Nat}

theorem moveBehind_passed {fuel : Nat} (following : (t.slot p).next = some q)
    (before : (t.slot q).jiffies < (t.slot p).jiffies) :
    moveBehind t p (fuel + 1) = moveBehind (passed t p q) q fuel := by
  simp [moveBehind, following, before, passed]

theorem moveBehind_stops {fuel : Nat} (following : (t.slot p).next = some q)
    (after : ¬ (t.slot q).jiffies < (t.slot p).jiffies) : moveBehind t p (fuel + 1) = some (t, p) := by
  simp only [moveBehind, following, if_neg after]

@[simp] theorem passed_slot (t : Timers F) (p q : Nat) : (passed t p q).slot q =
    { t.slot q with jiffies := (t.slot p).jiffies - (t.slot q).jiffies, fn := (t.slot p).fn } := by
  simp [passed]

theorem passed_slot_left (t : Timers F) (other : q ≠ p) :
    (passed t p q).slot p = { t.slot p with jiffies := (t.slot q).jiffies } := by
  rw [passed, Timers.set_slot_of_ne _ _ other.symm, Timers.set_slot]

theorem passed_slot_of_ne (t : Timers F) {r : Nat} (left : r ≠ p) (right : r ≠ q) :
    (passed t p q).slot r = t.slot r := by
  rw [passed, Timers.set_slot_of_ne _ _ right, Timers.set_slot_of_ne _ _ left]

theorem passed_next (t : Timers F) (other : q ≠ p) (r : Nat) :
    ((passed t p q).slot r).next = (t.slot r).next := by
  by_cases right : r = q
  · rw [right, passed_slot]
  · by_cases left : r = p
    · rw [left, passed_slot_left t other]
    · rw [passed_slot_of_ne t left right]

end Passed

theorem Settled.of_passed {t t' : Timers F} {p q : Nat} {l : List Nat} (settled : Settled (passed t p q) t' q l)
    (nodup : (p :: q :: l).Nodup) (nonneg : 0 ≤ (t.slot q).jiffies) (same : (t.slot q).fn = (t.slot p).fn) :
    Settled t t' p (q :: l) := by
  have other : q ≠ p := fun same => by simp [same] at nodup
  have outside : p ∉ q :: l := (List.nodup_cons.mp nodup).1
  have first : t'.slot p = { t.slot p with jiffies := (t.slot q).jiffies } := by
    rw [settled.others p outside, passed_slot_left t other]
  have rest : remaining (passed t p q) 0 l = remaining t 0 l := by
    apply remaining_congr
    intro r inList
    apply passed_slot_of_ne
    · rintro rfl
      exact outside (List.mem_cons_of_mem _ inList)
    · rintro rfl
      exact (List.nodup_cons.mp (List.nodup_cons.mp nodup).2).1 inList
  have moved := settled.timers.map fun x => (x.1 + (t.slot q).jiffies, x.2)
  rw [passed_slot, rest, List.map_cons, ← remaining_from] at moved
  refine ⟨settled.nextTimer, fun r => (settled.next r).trans (passed_next t other r), ?_, ?_, ?_⟩
  · intro r notIn
    obtain ⟨left, notIn⟩ := List.ne_and_not_mem_of_not_mem_cons notIn
    rw [settled.others r notIn, passed_slot_of_ne t left fun eq => notIn (eq ▸ List.mem_cons_self ..)]
  · intro r isIn
    rcases List.mem_cons.mp isIn with rfl | later
    · rw [first]
      exact nonneg
    · exact settled.ordered r later
  · have front : remaining t' 0 (p :: q :: l) =
        ((t.slot q).jiffies, (t.slot p).fn) :: remaining t' (t.slot q).jiffies (q :: l) := by
      rw [remaining, first, zero_add]
    rw [front, remaining_cons, same]
    refine (moved.cons _).trans ?_
    simp only [sub_add_cancel]
    exact .swap ..

/-- A new timer that fits takes its place in the two loops of `add_timer`. -/
theorem settle {l : List Nat} {t : Timers F} {p : Nat} (fuel fuel' : Nat)
    (chain : Chain (fun q => (t.slot q).next) (t.slot p).next l) (nodup : (p :: l).Nodup)
    (positive : 0 < (t.slot p).jiffies) (ordered : ∀ q ∈ l, 0 ≤ (t.slot q).jiffies)
    (fits : Fits (remaining t 0 l) (t.slot p).jiffies (t.slot p).fn) (enough : l.length < fuel) :
    ∃ t₁ q t', moveBehind t p fuel = some (t₁, q) ∧
      lowerFollowing t₁ q (t₁.slot q).jiffies (fuel' + 2) = some t' ∧ Settled t t' p l := by
  induction l generalizing t p fuel with
  | nil =>
    rw [chain_nil] at chain
    obtain ⟨fuel, rfl⟩ : ∃ n, fuel = n + 1 := ⟨fuel - 1, by omega⟩
    refine ⟨t, p, t, by simp [moveBehind, chain], by simp [lowerFollowing, chain], rfl, fun _ => rfl,
      fun _ _ => rfl, ?_, ?_⟩
    · simpa using positive.le
    · simp [remaining]
  | cons q l ih =>
    obtain ⟨fuel, rfl⟩ : ∃ n, fuel = n + 1 := ⟨fuel - 1, by omega⟩
    obtain ⟨following, chain⟩ := chain_cons.mp chain
    obtain ⟨outside, nodup'⟩ := List.nodup_cons.mp nodup
    have other : q ≠ p := fun same => outside (same ▸ List.mem_cons_self ..)
    by_cases before : (t.slot q).jiffies < (t.slot p).jiffies
    · have kept : ∀ r ∈ l, (passed t p q).slot r = t.slot r := fun r inList =>
        passed_slot_of_ne t (fun eq => outside (eq ▸ List.mem_cons_of_mem _ inList))
          fun eq => (List.nodup_cons.mp nodup').1 (eq ▸ inList)
      rw [moveBehind_passed following before]
      rw [remaining_cons] at fits
      obtain ⟨t₁, r, t', moves, lowers, settled⟩ := ih (t := passed t p q) (p := q) fuel
        (by
          rw [passed_next t other]
          exact chain.congr fun r inList => by rw [kept r inList])
        nodup' (by rw [passed_slot]; simp only; omega)
        (fun r inList => by rw [kept r inList]; exact ordered r (List.mem_cons_of_mem _ inList))
        (by rw [remaining_congr kept, passed_slot]; exact fits.tail)
        (by simpa using enough)
      refine ⟨t₁, r, t', moves, lowers, settled.of_passed nodup (ordered q (List.mem_cons_self ..)) ?_⟩
      exact fits.earlier _ (List.mem_cons_self ..) before
    · have alone : l = [] := by
        have all : ∀ x ∈ remaining t 0 (q :: l), (t.slot p).jiffies ≤ x.1 := by
          intro x isIn
          rw [remaining, zero_add] at isIn
          rcases List.mem_cons.mp isIn with rfl | later
          · exact not_lt.mp before
          · exact (not_lt.mp before).trans
              (le_of_mem_remaining (fun r inList => ordered r (List.mem_cons_of_mem _ inList)) later)
        have count := fits.later
        rw [List.filter_eq_self.mpr (by simpa using all), length_remaining] at count
        exact List.length_eq_zero_iff.mp (by simpa using count)
      subst alone
      rw [moveBehind_stops following before]
      refine ⟨t, p, _, rfl, lowerFollowing_single following (chain_nil.mp chain) _, rfl, ?_, ?_, ?_, ?_⟩
      · intro r
        by_cases same : r = q
        · rw [same, Timers.set_slot]
        · rw [Timers.set_slot_of_ne _ _ same]
      · intro r notIn
        exact Timers.set_slot_of_ne _ _ fun eq => notIn (by simp [eq])
      · intro r isIn
        rcases List.mem_cons.mp isIn with rfl | later
        · rw [Timers.set_slot_of_ne _ _ other.symm]
          exact positive.le
        · rw [List.mem_singleton.mp later, Timers.set_slot]
          simp only
          omega
      · simp only [remaining, Timers.set_slot_of_ne _ _ other.symm, Timers.set_slot, zero_add,
          add_sub_cancel]
        exact .refl _

/-- The list of `next_timer` goes through the slots of `l`, which are those with a callback, and no timer on
    it is due yet. -/
structure Listed (t : Timers F) (l : List Nat) : Prop where
  chain : Chain (fun p => (t.slot p).next) t.nextTimer l
  nodup : l.Nodup
  inside : ∀ p ∈ l, p < timeRequests
  callback : ∀ p, p ∈ l ↔ (t.slot p).fn ≠ none
  ordered : ∀ p ∈ l, 0 ≤ (t.slot p).jiffies
  waits : ∀ x ∈ remaining t 0 l, 0 < x.1

theorem Listed.empty : Listed (Timers.empty : Timers F) [] := by
  refine ⟨trivial, List.nodup_nil, ?_, ?_, ?_, ?_⟩ <;> simp [Timers.empty, remaining]

namespace Listed

variable {t : Timers F} {l : List Nat}

theorem length_le (listed : Listed t l) : l.length ≤ timeRequests := by
  have within : l ⊆ List.range timeRequests := fun p isIn => List.mem_range.mpr (listed.inside p isIn)
  simpa using (List.subperm_of_subset listed.nodup within).length_le

theorem free_slot (listed : Listed t l) (room : l.length < timeRequests) :
    ∃ p, (List.range timeRequests).find? (fun p => (t.slot p).fn.isNone) = some p ∧ p < timeRequests ∧ p ∉ l := by
  cases found : (List.range timeRequests).find? fun p => (t.slot p).fn.isNone with
  | none =>
    exfalso
    have all : List.range timeRequests ⊆ l := by
      intro p inRange
      have taken := List.find?_eq_none.mp found p inRange
      rw [listed.callback]
      simpa using taken
    have count := (List.subperm_of_subset List.nodup_range all).length_le
    rw [List.length_range] at count
    omega
  | some p =>
    refine ⟨p, rfl, List.mem_range.mp (List.mem_of_find?_eq_some found), ?_⟩
    rw [listed.callback, not_not]
    simpa using List.find?_some found

/-- `add_timer` on a timer that fits adds it to the timers of the list. -/
theorem addTimer {jiffies : Int} {fn : F} (listed : Listed t l) (room : l.length < timeRequests)
    (positive : 0 < jiffies) (fits : Fits (remaining t 0 l) jiffies (some fn)) :
    ∃ t' l', addTimer t jiffies (some fn) = some (t', []) ∧ Listed t' l' ∧
      (remaining t' 0 l').Perm ((jiffies, some fn) :: remaining t 0 l) := by
  obtain ⟨p, found, within, outside⟩ := listed.free_slot room
  let start : Timers F := { t.set p ⟨jiffies, some fn, t.nextTimer⟩ with nextTimer := some p }
  have atStart : start.slot p = ⟨jiffies, some fn, t.nextTimer⟩ := Timers.set_slot ..
  have kept : ∀ q, q ≠ p → start.slot q = t.slot q := fun q other => Timers.set_slot_of_ne t _ other
  have keptList : ∀ q ∈ l, start.slot q = t.slot q := fun q inList =>
    kept q fun same => outside (same ▸ inList)
  have nodup : (p :: l).Nodup := List.nodup_cons.mpr ⟨outside, listed.nodup⟩
  have chain : Chain (fun q => (start.slot q).next) (start.slot p).next l := by
    rw [atStart]
    exact listed.chain.congr fun q inList => by rw [keptList q inList]
  obtain ⟨t₁, q, t', moves, lowers, settled⟩ := settle (timeRequests + 1) 63 chain nodup
    (by rw [atStart]; exact positive)
    (fun q inList => by rw [keptList q inList]; exact listed.ordered q inList)
    (by rw [remaining_congr keptList, atStart]; exact fits) (by omega)
  have timers : (remaining t' 0 (p :: l)).Perm ((jiffies, some fn) :: remaining t 0 l) := by
    simpa only [remaining_congr keptList, atStart] using settled.timers
  refine ⟨t', p :: l, ?_, ⟨?_, nodup, ?_, ?_, settled.ordered, ?_⟩, timers⟩
  · have inserted : insertTimer t jiffies fn p = some t' := by
      rw [insertTimer]
      exact Option.bind_eq_some_iff.mpr ⟨(t₁, q), moves, lowers⟩
    rw [Sched.addTimer]
    simp only [found, inserted, if_neg (not_le.mpr positive), Option.map_some]
  · rw [settled.nextTimer, chain_cons]
    refine ⟨rfl, ?_⟩
    simp only [settled.next]
    exact chain
  · intro r isIn
    rcases List.mem_cons.mp isIn with rfl | later
    · exact within
    · exact listed.inside r later
  · intro r
    constructor
    · intro isIn
      obtain ⟨x, inTimers, eq⟩ := exists_mem_remaining (t := t') isIn
      rw [← eq]
      rcases List.mem_cons.mp (timers.mem_iff.mp inTimers) with rfl | old
      · exact Option.some_ne_none _
      · obtain ⟨q, inList, eq'⟩ := slot_of_mem_remaining old
        rw [eq']
        exact (listed.callback q).mp inList
    · intro set
      by_contra notIn
      rw [settled.others r notIn, kept r (List.ne_of_not_mem_cons notIn)] at set
      exact notIn (List.mem_cons_of_mem _ ((listed.callback r).mpr set))
  · intro x isIn
    rcases List.mem_cons.mp (timers.mem_iff.mp isIn) with rfl | old
    · exact positive
    · exact listed.waits x old

end Listed

/-- `do_timer` has called `calls` for the front of the list and left the timers of `l'`. -/
structure Fired (t t' : Timers F) (l l' : List Nat) (calls : List F) : Prop where
  chain : Chain (fun p => (t'.slot p).next) t'.nextTimer l'
  suffix : l' <:+ l
  kept : ∀ p, p ∈ l' ∨ p ∉ l → t'.slot p = t.slot p
  cleared : ∀ p ∈ l, p ∉ l' → (t'.slot p).fn = none
  calls : calls.map some = ((remaining t 0 l).filter fun x => x.1 ≤ 0).map Prod.snd
  timers : remaining t' 0 l' = (remaining t 0 l).filter fun x => 0 < x.1

/-- The loop of `do_timer` calls the timers that are due. -/
theorem fireTimers_fired {l : List Nat} {t : Timers F} (fuel : Nat)
    (chain : Chain (fun p => (t.slot p).next) t.nextTimer l) (nodup : l.Nodup)
    (callback : ∀ p ∈ l, (t.slot p).fn ≠ none) (ordered : ∀ p ∈ l, 0 ≤ (t.slot p).jiffies)
    (enough : l.length < fuel) :
    ∃ t' l' calls, fireTimers t fuel = some (t', calls) ∧ Fired t t' l l' calls := by
  induction l generalizing t fuel with
  | nil =>
    obtain ⟨fuel, rfl⟩ : ∃ n, fuel = n + 1 := ⟨fuel - 1, by omega⟩
    refine ⟨t, [], [], ?_, chain, List.suffix_rfl, fun _ _ => rfl, ?_, rfl, rfl⟩
    · rw [chain_nil] at chain
      simp [fireTimers, chain]
    · intro p isIn
      cases isIn
  | cons p l ih =>
    obtain ⟨fuel, rfl⟩ : ∃ n, fuel = n + 1 := ⟨fuel - 1, by omega⟩
    obtain ⟨first, rest⟩ := chain_cons.mp chain
    have nonneg := ordered p (List.mem_cons_self ..)
    by_cases isDue : (t.slot p).jiffies ≤ 0
    · obtain ⟨outside, nodup'⟩ := List.nodup_cons.mp nodup
      obtain ⟨fn, set⟩ := Option.ne_none_iff_exists'.mp (callback p (List.mem_cons_self ..))
      let called : Timers F := { t.set p { t.slot p with fn := none } with nextTimer := (t.slot p).next }
      have kept : ∀ q, q ≠ p → called.slot q = t.slot q := fun q other => Timers.set_slot_of_ne t _ other
      have keptList : ∀ q ∈ l, called.slot q = t.slot q := fun q inList =>
        kept q fun same => outside (same ▸ inList)
      obtain ⟨t', l', calls, fires, fired⟩ := ih (t := called) fuel
        (rest.congr fun q inList => by rw [keptList q inList]) nodup'
        (fun q inList => by rw [keptList q inList]; exact callback q (List.mem_cons_of_mem _ inList))
        (fun q inList => by rw [keptList q inList]; exact ordered q (List.mem_cons_of_mem _ inList))
        (by simpa using enough)
      have now : remaining t 0 (p :: l) = (0, some fn) :: remaining called 0 l := by
        have zero : (t.slot p).jiffies = 0 := le_antisymm isDue nonneg
        rw [remaining, zero, zero_add, set, remaining_congr keptList]
      refine ⟨t', l', fn :: calls, ?_, fired.chain, fired.suffix.trans (List.suffix_cons ..), ?_, ?_, ?_, ?_⟩
      · simp only [fireTimers, first, if_pos isDue, set]
        exact Option.bind_eq_some_iff.mpr ⟨fn, rfl, Option.bind_eq_some_iff.mpr ⟨(t', calls), fires, rfl⟩⟩
      · rintro q (left | outsideAll)
        · have inList := fired.suffix.subset left
          rw [fired.kept q (.inl left), keptList q inList]
        · obtain ⟨other, notIn⟩ := List.ne_and_not_mem_of_not_mem_cons outsideAll
          rw [fired.kept q (.inr notIn), kept q other]
      · intro q isIn gone
        rcases List.mem_cons.mp isIn with rfl | later
        · rw [fired.kept q (.inr outside)]
          exact congrArg Timer.fn (Timers.set_slot ..)
        · exact fired.cleared q later gone
      · rw [now, List.filter_cons_of_pos (by simp), List.map_cons, List.map_cons, fired.calls]
      · rw [now, List.filter_cons_of_neg (by simp), fired.timers]
    · have none : ∀ x ∈ remaining t 0 (p :: l), 0 < x.1 := by
        intro x isIn
        rw [remaining] at isIn
        rcases List.mem_cons.mp isIn with rfl | later
        · simp only
          omega
        · have := le_of_mem_remaining (fun q inList => ordered q (List.mem_cons_of_mem _ inList)) later
          omega
      refine ⟨t, p :: l, [], by simp only [fireTimers, first, if_neg isDue], chain, List.suffix_rfl,
        fun _ _ => rfl, fun q isIn notIn => absurd isIn notIn, ?_, ?_⟩
      · rw [List.filter_eq_nil_iff.mpr, List.map_nil, List.map_nil]
        intro x isIn
        simpa using none x isIn
      · rw [List.filter_eq_self.mpr]
        intro x isIn
        simpa using none x isIn

/-- A tick brings every timer one step nearer and calls those that were to wait for one more tick. -/
theorem Listed.tickTimers {t : Timers F} {l : List Nat} (listed : Listed t l) :
    ∃ t' l' calls, tickTimers t = some (t', calls) ∧ Listed t' l' ∧
      calls.map some = ((remaining t 0 l).filter fun x => x.1 ≤ 1).map Prod.snd ∧
      remaining t' 0 l' = ((remaining t 0 l).filter fun x => 1 < x.1).map fun x => (x.1 - 1, x.2) := by
  cases l with
  | nil =>
    have ends := chain_nil.mp listed.chain
    exact ⟨t, [], [], by simp [Sched.tickTimers, ends], listed, rfl, rfl⟩
  | cons p l =>
    obtain ⟨first, rest⟩ := chain_cons.mp listed.chain
    obtain ⟨outside, -⟩ := List.nodup_cons.mp listed.nodup
    have positive := listed.waits _ (List.mem_cons_self ..)
    let nearer : Timers F := t.set p { t.slot p with jiffies := (t.slot p).jiffies - 1 }
    have atFirst : nearer.slot p = { t.slot p with jiffies := (t.slot p).jiffies - 1 } := Timers.set_slot ..
    have kept : ∀ q, q ≠ p → nearer.slot q = t.slot q := fun q other => Timers.set_slot_of_ne t _ other
    have sameNext : ∀ q, (nearer.slot q).next = (t.slot q).next := by
      intro q
      by_cases same : q = p
      · rw [same, atFirst]
      · rw [kept q same]
    have sameFn : ∀ q, (nearer.slot q).fn = (t.slot q).fn := by
      intro q
      by_cases same : q = p
      · rw [same, atFirst]
      · rw [kept q same]
    have moved : remaining nearer 0 (p :: l) = (remaining t 0 (p :: l)).map fun x => (x.1 - 1, x.2) := by
      rw [remaining, remaining, atFirst, remaining_congr fun q inList => kept q fun same => outside (same ▸ inList),
        ← add_sub_assoc, List.map_cons, sub_eq_add_neg, remaining_shift]
      rfl
    have chain : Chain (fun q => (nearer.slot q).next) nearer.nextTimer (p :: l) :=
      listed.chain.congr fun q _ => sameNext q
    have ordered : ∀ q ∈ p :: l, 0 ≤ (nearer.slot q).jiffies := by
      intro q isIn
      by_cases same : q = p
      · rw [same, atFirst]
        simp only at positive ⊢
        omega
      · rw [kept q same]
        exact listed.ordered q isIn
    obtain ⟨t', l', calls, fires, fired⟩ := fireTimers_fired (timeRequests + 1) chain listed.nodup
      (fun q isIn => by rw [sameFn q]; exact (listed.callback q).mp isIn) ordered
      (Nat.lt_succ_of_le listed.length_le)
    refine ⟨t', l', calls, by simp only [Sched.tickTimers, first]; exact fires, ?_, ?_, ?_⟩
    · refine ⟨fired.chain, listed.nodup.sublist fired.suffix.sublist,
        fun q isIn => listed.inside q (fired.suffix.subset isIn), ?_, ?_, ?_⟩
      · intro q
        constructor
        · intro left
          rw [fired.kept q (.inl left), sameFn q]
          exact (listed.callback q).mp (fired.suffix.subset left)
        · intro set
          by_contra gone
          by_cases isIn : q ∈ p :: l
          · exact set (fired.cleared q isIn gone)
          · rw [fired.kept q (.inr isIn), sameFn q] at set
            exact isIn ((listed.callback q).mpr set)
      · intro q left
        rw [fired.kept q (.inl left)]
        exact ordered q (fired.suffix.subset left)
      · intro x isIn
        rw [fired.timers] at isIn
        simpa using (List.mem_filter.mp isIn).2
    · rw [fired.calls, moved, List.filter_map, List.map_map]
      simp [Function.comp_def]
    · rw [fired.timers, moved, List.filter_map]
      simp [Function.comp_def]

end K210Linux.Sched
