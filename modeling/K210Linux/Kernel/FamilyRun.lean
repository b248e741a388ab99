import K210Linux.Kernel.Family
import K210Linux.Lib.Members

/-! Over any run of tasks: no father is dead or missing, everything descends from task 0, and every exit is reported
    once. -/

namespace K210Linux.Kernel

open K210Linux.Mm Relation

/-- The slots of the process table, as relatives see them. -/
abbrev Family := Nat → Option Member

/-- Where the child with number `pid` of the task in slot `c` goes. -/
def Member.child (m : Member) (pid : Int) : Member := { m with pid, father := m.pid, leader := false, dead := none }

namespace Family

/-- The task in slot `i` is a child of the one in slot `j`. -/
def ChildOf (F : Family) (i j : Nat) : Prop := i ≠ 0 ∧ ∃ m m', F i = some m ∧ F j = some m' ∧ m.father = m'.pid

/-- Numbers are different and from 1 on, task 0 and task 1 are alive, every other task has a father that is alive, and descends from
    task 0; who leads has his own session and group. -/
structure Wf (F : Family) : Prop where
  distinct : ∀ i j m m', F i = some m → F j = some m' → m.pid = m'.pid → i = j
  positive : ∀ i m, F i = some m → i ≠ 0 → 0 < m.pid
  first : ∃ m, F 0 = some m ∧ m.pid = 0 ∧ m.dead = none
  init : ∃ i m, F i = some m ∧ m.pid = 1 ∧ m.father = 0 ∧ m.dead = none
  fathers : ∀ i m, F i = some m → i ≠ 0 → ∃ j m', F j = some m' ∧ m'.pid = m.father ∧ m'.dead = none
  descends : ∀ i m, F i = some m → ReflTransGen F.ChildOf i 0
  leaders : ∀ i m, F i = some m → m.leader = true → m.session = m.pid ∧ m.pgrp = m.pid

/-- What a zombie has for `sys_waitpid`. -/
def zombieOf (m : Option Member) : Multiset (Int × BitVec 32) :=
  (m.bind fun m => m.dead.map fun code => (m.pid, code)).elim 0 fun z => {z}

def zombies (F : Family) : Multiset (Int × BitVec 32) := ∑ i ∈ Finset.range nrTasks, zombieOf (F i)

/-- The task in slot `c` dies, and its children go to task 1. -/
def die (F : Family) (c : Nat) (me : Member) (code : BitVec 32) : Family :=
  Function.update (fun i => (F i).map (Member.adopt me.pid)) c (some { me with dead := some code })

def remove (F : Family) (i : Nat) : Family := Function.update F i none

variable {F F' : Family} {i j c nr : Nat} {m me : Member} {pid : Int} {code : BitVec 32}

theorem Wf.functional (wf : F.Wf) (x y z : Nat) (one : F.ChildOf x y) (two : F.ChildOf x z) : y = z := by
  rcases one with ⟨-, m, m', atX, atY, father⟩
  rcases two with ⟨-, m₁, m₁', atX₁, atZ, father₁⟩
  rw [atX] at atX₁
  cases atX₁
  exact wf.distinct y z m' m₁' atY atZ (father.symm.trans father₁)

theorem Wf.acyclic (wf : F.Wf) (found : F i = some m) : ¬ TransGen F.ChildOf i i :=
  Members.acyclic wf.functional (fun _ child => child.1 rfl) (wf.descends i m found)

/-- Nobody is his own father. -/
theorem Wf.father_ne (wf : F.Wf) (found : F i = some m) (other : i ≠ 0) : m.father ≠ m.pid := by
  intro same
  exact wf.acyclic found (.single ⟨other, m, m, found, found, same⟩)

theorem Wf.first_pid (wf : F.Wf) (found : F i = some m) : i = 0 ↔ m.pid = 0 := by
  rcases wf.first with ⟨m₀, at₀, zero, -⟩
  constructor
  · intro same
    rw [same, at₀] at found
    cases found
    exact zero
  · intro same
    exact wf.distinct i 0 m m₀ found at₀ (same.trans zero.symm)

/-- A change of the group, the session or the leadership of one task. -/
theorem Wf.change (m' : Member) (wf : F.Wf) (found : F i = some m) (pid : m'.pid = m.pid) (father : m'.father = m.father)
    (dead : m'.dead = m.dead) (leads : m'.leader = true → m'.session = m'.pid ∧ m'.pgrp = m'.pid) :
    Wf (Function.update F i (some m')) := by
  -- what the other fields say is the same in every slot
  have same (j : Nat) (u : Member) : Function.update F i (some m') j = some u → ∃ u', F j = some u' ∧ u.pid = u'.pid ∧
      u.father = u'.father ∧ u.dead = u'.dead := by
    intro present
    by_cases here : j = i
    · subst here
      rw [Function.update_self] at present
      cases present
      exact ⟨m, found, pid, father, dead⟩
    · rw [Function.update_of_ne here] at present
      exact ⟨u, present, rfl, rfl, rfl⟩
  have back (j : Nat) (u : Member) : F j = some u → ∃ u', Function.update F i (some m') j = some u' ∧ u'.pid = u.pid ∧
      u'.father = u.father ∧ u'.dead = u.dead := by
    intro present
    by_cases here : j = i
    · subst here
      rw [found] at present
      cases present
      exact ⟨m', Function.update_self .., pid, father, dead⟩
    · exact ⟨u, (Function.update_of_ne here ..).trans present, rfl, rfl, rfl⟩
  refine ⟨?_, ?_, ?_, ?_, ?_, ?_, ?_⟩
  · intro a b u v atA atB equal
    rcases same a u atA with ⟨u', atA', pidA, -⟩
    rcases same b v atB with ⟨v', atB', pidB, -⟩
    exact wf.distinct a b u' v' atA' atB' (by rw [← pidA, ← pidB, equal])
  · intro a u atA other
    rcases same a u atA with ⟨u', atA', pidA, -⟩
    rw [pidA]
    exact wf.positive a u' atA' other
  · rcases wf.first with ⟨u, at₀, zero, alive⟩
    rcases back 0 u at₀ with ⟨u', at₀', pid', -, dead'⟩
    exact ⟨u', at₀', pid'.trans zero, dead'.trans alive⟩
  · rcases wf.init with ⟨a, u, atA, one, zero, alive⟩
    rcases back a u atA with ⟨u', atA', pid', father', dead'⟩
    exact ⟨a, u', atA', pid'.trans one, father'.trans zero, dead'.trans alive⟩
  · intro a u atA other
    rcases same a u atA with ⟨u', atA', -, father', -⟩
    rcases wf.fathers a u' atA' other with ⟨b, v, atB, pidB, alive⟩
    rcases back b v atB with ⟨v', atB', pidB', -, deadB'⟩
    exact ⟨b, v', atB', by rw [pidB', pidB, father'], deadB'.trans alive⟩
  · intro a u atA
    rcases same a u atA with ⟨u', atA', -⟩
    refine ReflTransGen.mono ?_ _ _ (wf.descends a u' atA')
    intro x y child
    rcases child with ⟨other, v, v', atX, atY, father'⟩
    rcases back x v atX with ⟨w, atX', -, fatherX, -⟩
    rcases back y v' atY with ⟨w', atY', pidY, -⟩
    exact ⟨other, w, w', atX', atY', by rw [fatherX, father', pidY]⟩
  · intro a u atA leads'
    by_cases here : a = i
    · subst here
      rw [Function.update_self] at atA
      cases atA
      exact leads leads'
    · rw [Function.update_of_ne here] at atA
      exact wf.leaders a u atA leads'

theorem Wf.spawn (wf : F.Wf) (here : F c = some me) (alive : me.dead = none) (free : F nr = none)
    (positive : 0 < pid) (unused : ∀ i m, F i = some m → m.pid ≠ pid) : Wf (Function.update F nr (some (me.child pid))) := by
  have slots (a : Nat) (u : Member) (present : Function.update F nr (some (me.child pid)) a = some u) :
      a = nr ∧ u = me.child pid ∨ a ≠ nr ∧ F a = some u := by
    by_cases new : a = nr
    · subst new
      rw [Function.update_self] at present
      cases present
      exact .inl ⟨rfl, rfl⟩
    · rw [Function.update_of_ne new] at present
      exact .inr ⟨new, present⟩
  have kept (a : Nat) (u : Member) (present : F a = some u) : Function.update F nr (some (me.child pid)) a = some u := by
    have old : a ≠ nr := by
      intro same
      rw [same, free] at present
      cases present
    rw [Function.update_of_ne old]
    exact present
  have descends (x y : Nat) (child : F.ChildOf x y) : ChildOf (Function.update F nr (some (me.child pid))) x y := by
    rcases child with ⟨other, v, v', atX, atY, father⟩
    exact ⟨other, v, v', kept x v atX, kept y v' atY, father⟩
  refine ⟨?_, ?_, ?_, ?_, ?_, ?_, ?_⟩
  · intro a b u v atA atB equal
    rcases slots a u atA with ⟨newA, newU⟩ | ⟨-, oldA⟩
    · rcases slots b v atB with ⟨newB, -⟩ | ⟨-, oldB⟩
      · rw [newA, newB]
      · rw [newU] at equal
        exact absurd equal.symm (unused b v oldB)
    · rcases slots b v atB with ⟨-, newV⟩ | ⟨-, oldB⟩
      · rw [newV] at equal
        exact absurd equal (unused a u oldA)
      · exact wf.distinct a b u v oldA oldB equal
  · intro a u atA other
    rcases slots a u atA with ⟨-, new⟩ | ⟨-, old⟩
    · rw [new]
      exact positive
    · exact wf.positive a u old other
  · rcases wf.first with ⟨u, at₀, rest⟩
    exact ⟨u, kept 0 u at₀, rest⟩
  · rcases wf.init with ⟨a, u, atA, rest⟩
    exact ⟨a, u, kept a u atA, rest⟩
  · intro a u atA other
    rcases slots a u atA with ⟨-, new⟩ | ⟨-, old⟩
    · rw [new]
      exact ⟨c, me, kept c me here, rfl, alive⟩
    · rcases wf.fathers a u old other with ⟨b, v, atB, rest⟩
      exact ⟨b, v, kept b v atB, rest⟩
  · intro a u atA
    rcases slots a u atA with ⟨new, -⟩ | ⟨-, old⟩
    · have up := ReflTransGen.mono descends _ _ (wf.descends c me here)
      by_cases root : nr = 0
      · rw [new, root]
      · rw [new]
        exact up.head ⟨root, me.child pid, me, Function.update_self .., kept c me here, rfl⟩
    · exact ReflTransGen.mono descends _ _ (wf.descends a u old)
  · intro a u atA leads
    rcases slots a u atA with ⟨-, new⟩ | ⟨-, old⟩
    · rw [new] at leads
      cases leads
    · exact wf.leaders a u old leads

theorem adopt_pid (me : Int) (m : Member) : (m.adopt me).pid = m.pid := by
  unfold Member.adopt
  split <;> rfl

theorem adopt_dead (me : Int) (m : Member) : (m.adopt me).dead = m.dead := by
  unfold Member.adopt
  split <;> rfl

theorem adopt_leads {me : Int} {m : Member} (leads : m.leader = true → m.session = m.pid ∧ m.pgrp = m.pid) :
    (m.adopt me).leader = true → (m.adopt me).session = (m.adopt me).pid ∧ (m.adopt me).pgrp = (m.adopt me).pid := by
  unfold Member.adopt
  split
  · exact leads
  · exact leads

theorem die_self (F : Family) (c : Nat) (me : Member) (code : BitVec 32) :
    F.die c me code c = some { me with dead := some code } := Function.update_self ..

theorem die_other (other : i ≠ c) (found : F i = some m) : F.die c me code i = some (m.adopt me.pid) := by
  refine (Function.update_of_ne other ..).trans ?_
  rw [found]
  rfl

/-- Who is in a slot after a death was there before it. -/
theorem of_die (here : F c = some me) (present : F.die c me code i = some m) :
    ∃ m', F i = some m' ∧ m.pid = m'.pid ∧ (i = c ∧ m = { me with dead := some code } ∨ i ≠ c ∧ m = m'.adopt me.pid) := by
  by_cases own : i = c
  · subst own
    rw [die_self] at present
    cases present
    exact ⟨me, here, rfl, .inl ⟨rfl, rfl⟩⟩
  · cases found : F i with
    | none =>
      unfold die at present
      rw [Function.update_of_ne own, found] at present
      cases present
    | some m' =>
      rw [die_other own found] at present
      cases present
      exact ⟨m', rfl, adopt_pid _ _, .inr ⟨own, rfl⟩⟩

/-- Neither task 0 nor task 1 dies, so the children have somebody to go to. -/
theorem Wf.die (wf : F.Wf) (here : F c = some me) (zero : me.pid ≠ 0) (one : me.pid ≠ 1) (code : BitVec 32) :
    (F.die c me code).Wf := by
  have slot : c ≠ 0 := fun same => zero ((wf.first_pid here).mp same)
  have father := wf.father_ne here slot
  rcases wf.first with ⟨m₀, at₀, pid₀, alive₀⟩
  rcases wf.init with ⟨k, m₁, at₁, pid₁, father₁, alive₁⟩
  have init : k ≠ c := by
    intro same
    rw [same, here] at at₁
    cases at₁
    exact one pid₁
  have adopted : m₁.adopt me.pid = m₁ := adopt_other (by rw [father₁]; exact zero.symm)
  have after₁ : F.die c me code k = some m₁ := by rw [die_other init at₁, adopted]
  have after₀ : F.die c me code 0 = some (m₀.adopt me.pid) := die_other slot.symm at₀
  have above : k ≠ 0 := by
    intro same
    rw [same, at₀] at at₁
    cases at₁
    rw [pid₀] at pid₁
    cases pid₁
  refine ⟨?_, ?_, ?_, ?_, ?_, ?_, ?_⟩
  · intro a b u v atA atB equal
    rcases of_die here atA with ⟨u', oldA, pidA, -⟩
    rcases of_die here atB with ⟨v', oldB, pidB, -⟩
    exact wf.distinct a b u' v' oldA oldB (by rw [← pidA, ← pidB, equal])
  · intro a u atA other
    rcases of_die here atA with ⟨u', oldA, pidA, -⟩
    rw [pidA]
    exact wf.positive a u' oldA other
  · exact ⟨_, after₀, (adopt_pid _ _).trans pid₀, (adopt_dead _ _).trans alive₀⟩
  · exact ⟨k, m₁, after₁, pid₁, father₁, alive₁⟩
  · intro a u atA other
    -- a father that is not the dead task is there as before
    have kept (u' : Member) (oldA : F a = some u') (same : u'.father ≠ me.pid) :
        ∃ b v, F.die c me code b = some v ∧ v.pid = u'.father ∧ v.dead = none := by
      rcases wf.fathers a u' oldA other with ⟨b, v, atB, pidB, alive⟩
      have alsoOther : b ≠ c := by
        intro equal
        rw [equal, here] at atB
        cases atB
        exact same pidB.symm
      exact ⟨b, v.adopt me.pid, die_other alsoOther atB, (adopt_pid _ _).trans pidB, (adopt_dead _ _).trans alive⟩
    rcases of_die here atA with ⟨u', oldA, -, ⟨own, dead⟩ | ⟨-, adopts⟩⟩
    · rw [own, here] at oldA
      cases oldA
      rw [dead]
      refine kept me ?_ father
      rw [own]
      exact here
    · rw [adopts]
      by_cases child : u'.father = me.pid
      · refine ⟨k, m₁, after₁, ?_, alive₁⟩
        rw [pid₁, Member.adopt, if_pos child]
      · rw [adopt_other child]
        exact kept u' oldA child
  · intro a u atA
    rcases of_die here atA with ⟨u', oldA, -⟩
    have top : ReflTransGen (F.die c me code).ChildOf k 0 :=
      .single ⟨above, m₁, m₀.adopt me.pid, after₁, after₀, by rw [father₁, adopt_pid, pid₀]⟩
    refine Members.descends_adopt top ?_ (wf.descends a u' oldA)
    intro x y child
    rcases child with ⟨root, v, v', atX, atY, fatherX⟩
    have pidY : ∃ w, F.die c me code y = some w ∧ w.pid = v'.pid := by
      by_cases own : y = c
      · rw [own, here] at atY
        cases atY
        rw [own]
        exact ⟨_, die_self F c me code, rfl⟩
      · exact ⟨_, die_other own atY, adopt_pid _ _⟩
    rcases pidY with ⟨w, atY', pidW⟩
    by_cases own : x = c
    · rw [own, here] at atX
      cases atX
      rw [own] at root ⊢
      exact .inl ⟨root, _, w, die_self F c me code, atY', by rw [pidW]; exact fatherX⟩
    · by_cases orphan : v.father = me.pid
      · refine .inr ⟨root, _, m₁, die_other own atX, after₁, ?_⟩
        rw [pid₁, Member.adopt, if_pos orphan]
      · refine .inl ⟨root, _, w, die_other own atX, atY', ?_⟩
        rw [adopt_other orphan, pidW, fatherX]
  · intro a u atA
    rcases of_die here atA with ⟨u', oldA, -, ⟨own, dead⟩ | ⟨-, adopts⟩⟩
    · rw [dead]
      rw [own, here] at oldA
      exact wf.leaders c me here
    · rw [adopts]
      exact adopt_leads (wf.leaders a u' oldA)

/-- A dead task is nobody's father. -/
theorem Wf.remove (wf : F.Wf) (found : F i = some m) (dead : m.dead ≠ none) : (F.remove i).Wf := by
  have of_remove (a : Nat) (u : Member) (present : F.remove i a = some u) : a ≠ i ∧ F a = some u := by
    unfold Family.remove at present
    by_cases gone : a = i
    · rw [gone, Function.update_self] at present
      cases present
    · rw [Function.update_of_ne gone] at present
      exact ⟨gone, present⟩
  have alive_stays (a : Nat) (u : Member) (present : F a = some u) (alive : u.dead = none) : F.remove i a = some u := by
    refine (Function.update_of_ne ?_ ..).trans present
    intro same
    rw [same, found] at present
    cases present
    exact dead alive
  refine ⟨?_, ?_, ?_, ?_, ?_, ?_, ?_⟩
  · intro a b u v atA atB
    exact wf.distinct a b u v (of_remove a u atA).2 (of_remove b v atB).2
  · intro a u atA
    exact wf.positive a u (of_remove a u atA).2
  · rcases wf.first with ⟨u, at₀, zero, alive⟩
    exact ⟨u, alive_stays 0 u at₀ alive, zero, alive⟩
  · rcases wf.init with ⟨a, u, atA, one, father, alive⟩
    exact ⟨a, u, alive_stays a u atA alive, one, father, alive⟩
  · intro a u atA other
    rcases wf.fathers a u (of_remove a u atA).2 other with ⟨b, v, atB, pid, alive⟩
    exact ⟨b, v, alive_stays b v atB alive, pid, alive⟩
  · intro a u atA
    -- along the way up everyone is a father, and so alive
    have up (x : Nat) (descends : ReflTransGen F.ChildOf x 0) : x ≠ i → ReflTransGen (F.remove i).ChildOf x 0 := by
      induction descends using ReflTransGen.head_induction_on with
      | refl =>
        intro _
        exact .refl
      | @head x y child _ ih =>
        intro staysX
        rcases child with ⟨root, v, v', atX, atY, father⟩
        rcases wf.fathers x v atX root with ⟨b, w, atB, pid, alive⟩
        have same : y = b := wf.distinct y b v' w atY atB (father.symm.trans pid.symm)
        rw [← same] at atB
        rw [atY] at atB
        cases atB
        have staysY : y ≠ i := by
          intro equal
          rw [equal, found] at atY
          cases atY
          exact dead alive
        exact (ih staysY).head ⟨root, v, v', (Function.update_of_ne staysX ..).trans atX, alive_stays y v' atY alive, father⟩
    rcases of_remove a u atA with ⟨stays, old⟩
    exact up a (wf.descends a u old) stays
  · intro a u atA
    exact wf.leaders a u (of_remove a u atA).2

section Zombies

theorem zombieOf_alive (found : F i = some m) (alive : m.dead = none) : zombieOf (F i) = 0 := by
  rw [zombieOf, found, Option.bind_some, alive]
  rfl

theorem zombieOf_dead (found : F i = some m) (dead : m.dead = some code) : zombieOf (F i) = {(m.pid, code)} := by
  rw [zombieOf, found, Option.bind_some, dead]
  rfl

/-- One slot has something else for `sys_waitpid`. -/
theorem zombies_exchange (inside : i < nrTasks) (others : ∀ j, j ≠ i → zombieOf (F' j) = zombieOf (F j)) :
    F'.zombies + zombieOf (F i) = F.zombies + zombieOf (F' i) :=
  Members.sum_exchange (Finset.mem_range.mpr inside) others

theorem zombies_same (same : ∀ j, zombieOf (F' j) = zombieOf (F j)) : F'.zombies = F.zombies :=
  Finset.sum_congr rfl fun j _ => same j

theorem zombies_die (inside : c < nrTasks) (here : F c = some me) (alive : me.dead = none) :
    (F.die c me code).zombies = F.zombies + {(me.pid, code)} := by
  have exchange : (F.die c me code).zombies + zombieOf (F c) = F.zombies + zombieOf (F.die c me code c) := zombies_exchange inside (by
    intro j other
    cases found : F j with
    | none =>
      unfold die
      rw [Function.update_of_ne other, found]
      rfl
    | some m =>
      rw [die_other other found]
      simp only [zombieOf, Option.bind_some, adopt_dead, adopt_pid])
  rw [zombieOf_alive here alive, add_zero, zombieOf_dead (die_self F c me code) rfl] at exchange
  exact exchange

theorem zombies_remove (inside : i < nrTasks) : (F.remove i).zombies + zombieOf (F i) = F.zombies := by
  have exchange : (F.remove i).zombies + zombieOf (F i) = F.zombies + zombieOf (F.remove i i) := zombies_exchange inside (by
    intro j other
    rw [Family.remove, Function.update_of_ne other])
  rwa [show zombieOf (F.remove i i) = 0 by rw [Family.remove, Function.update_self]; rfl, add_zero] at exchange

theorem zombies_update (m' : Member) (same : zombieOf (some m') = zombieOf (F i)) :
    zombies (Function.update F i (some m')) = F.zombies := by
  apply zombies_same
  intro j
  by_cases here : j = i
  · rw [here, Function.update_self, same]
  · rw [Function.update_of_ne here]

end Zombies

end Family

/-- Who left the process table to `sys_waitpid`, by this report. The child of task 0 does not wait for it. -/
def Report.leaves : Report → Multiset (Int × BitVec 32)
  | .exited pid father code => if father = 0 then 0 else {(pid, code)}
  | _ => 0

/-- Whom `sys_waitpid` returned, by this report. -/
def Report.returns : Report → Multiset (Int × BitVec 32)
  | .reaped pid code => {(pid, code)}
  | _ => 0

section Run

variable (iputLast : Process → Nat → Except (Stop Memory) Process) (image : Word → Nat → Word)

/-- The current task is in the table and no zombie. -/
def Process.Runs (k : Process) : Prop := (∃ c, k.At c) ∧ (k.structs k.current).state ≠ .zombie

/-- What can happen to the process table: a call of the current task that returns, a switch to a task that is alive, and
    everything that families do not see. A fork that fails gives its slot back; tasks 0 and 1 do not exit. -/
inductive FamilyStep : Process → Report → Process → Prop
  | fork {k k' : Process} {t : TaskTable} {nr : Nat} (runs : k.Runs) (found : findEmptyProcess k.table = some ((nr : Int), t))
      (fresh : FreshStruct k) (run : copyProcess { k with lastPid := t.lastPid } nr = .ok (t.lastPid, k')) :
      FamilyStep k .nothing k'
  | refused {k k' : Process} {t : TaskTable} {nr : Nat} (runs : k.Runs)
      (found : findEmptyProcess k.table = some ((nr : Int), t)) (fresh : FreshStruct k)
      (run : copyProcess { k with lastPid := t.lastPid } nr = .ok (-eagain, k')) (back : k'.task = k.task) :
      FamilyStep k .nothing k'
  | full {k : Process} {t : TaskTable} (found : findEmptyProcess k.table = some (-eagain, t)) :
      FamilyStep k .nothing { k with lastPid := t.lastPid }
  | exit {k k' : Process} {code : BitVec 32} (runs : k.Runs) (zero : (k.structs k.current).pid ≠ 0)
      (one : (k.structs k.current).pid ≠ 1) (run : doExit iputLast k code = .ok k') :
      FamilyStep k (.exited (k.structs k.current).pid (k.structs k.current).father code) k'
  | wait {k k' : Process} {pid : Int} {statAddr : Word} {options : BitVec 32} {waited : Waited} {r : Report} (runs : k.Runs)
      (run : sysWaitpid k image pid statAddr options = .ok (waited, k')) (tells : WaitTells k image statAddr waited k' r) :
      FamilyStep k r k'
  | setpgid {k : Process} {pid pgid : Int} (runs : k.Runs) : FamilyStep k .nothing (sysSetpgid k pid pgid).2
  | setsid {k : Process} {suser : Bool} (runs : k.Runs) : FamilyStep k .nothing (sysSetsid k suser).2
  | switch {k : Process} {nr : Nat} {m : Member} (found : k.member nr = some m) (alive : m.dead = none) :
      FamilyStep k .nothing (switchTo k nr)
  | other {k k' : Process} (same : SameFamily k k') : FamilyStep k .nothing k'

/-- Steps from `k` to a state, with their reports. -/
inductive FamilyRun (k : Process) : List Report → Process → Prop
  | start : FamilyRun k [] k
  | next {reports : List Report} {k₁ k' : Process} {r : Report} (run : FamilyRun k reports k₁)
      (step : FamilyStep iputLast image k₁ r k') : FamilyRun k (r :: reports) k'

end Run

/-- The table keeps the families well formed. -/
structure TableWf (k : Process) : Prop where
  apart : k.Apart
  low : 0 ≤ k.lastPid
  high : k.lastPid ≤ maxPid
  family : Family.Wf k.member

section Step

variable {iputLast : Process → Nat → Except (Stop Memory) Process} {image : Word → Nat → Word} {k k' : Process} {r : Report}
  {c : Nat}

theorem member_alive (here : k.At c) (alive : (k.structs k.current).state ≠ .zombie) :
    k.member c = some (k.structs k.current).member ∧ (k.structs k.current).member.dead = none :=
  ⟨member_current here, if_neg alive⟩

theorem found_table {value : Int} {t : TaskTable} (wf : TableWf k) (found : findEmptyProcess k.table = some (value, t)) :
    Found k.table value t := by
  rcases findEmptyProcess_spec (t := k.table) wf.low wf.high with ⟨value', t', run, spec⟩
  rw [run] at found
  cases found
  exact spec

theorem SameFamily.tableWf (same : SameFamily k k') (wf : TableWf k) : TableWf k' where
  apart := same.apart wf.apart
  low := same.lastPid.symm ▸ wf.low
  high := same.lastPid.symm ▸ wf.high
  family := by
    rw [same.member]
    exact wf.family

theorem table_none {i : Nat} (free : k.table.task i = none) : k.task i = 0 := by
  unfold Process.table at free
  dsimp only at free
  split at free
  · cases free
  · rename_i zero
    exact not_not.mp zero

theorem table_some {i : Nat} {m : Member} (found : k.member i = some m) :
    ∃ t, i < nrTasks ∧ k.table.task i = some t ∧ t.pid = m.pid := by
  rcases member_some found with ⟨inside, some, same⟩
  refine ⟨_, inside, if_pos some, ?_⟩
  rw [same]
  rfl

/-- The slot that `find_empty_process` found, and the number of the child. -/
theorem found_slot {t : TaskTable} {nr : Nat} (spec : Found k.table nr t) :
    nr < nrTasks ∧ k.task nr = 0 ∧ 0 < t.lastPid := by
  have positive : 0 < t.lastPid := Int.lt_of_lt_of_le (by decide) spec.low
  rcases spec.slot with ⟨i, value, low, inside, free, -⟩ | ⟨full, -⟩
  · have same : nr = i := Int.ofNat_inj.mp value
    subst same
    exact ⟨inside, table_none free, positive⟩
  · have bad : ((nr : Nat) : Int) = -eagain := full
    unfold eagain at bad
    omega

theorem fork_kept {t : TaskTable} {nr : Nat} (wf : TableWf k) (runs : k.Runs)
    (found : findEmptyProcess k.table = some ((nr : Int), t)) (fresh : FreshStruct k)
    (run : copyProcess { k with lastPid := t.lastPid } nr = .ok (t.lastPid, k')) :
    TableWf k' ∧ Family.zombies k'.member = Family.zombies k.member := by
  have spec := found_table wf found
  rcases runs.1 with ⟨c, here⟩
  rcases member_alive here runs.2 with ⟨me, alive⟩
  rcases found_slot spec with ⟨inside, free, positive⟩
  have empty : k.member nr = none := by
    unfold Process.member
    rw [if_neg]
    intro both
    exact both.2 free
  rcases fork_family (k := { k with lastPid := t.lastPid }) wf.apart here inside free positive.le fresh run with
    ⟨member, apart, -, lastPid⟩
  have spawned : k'.member = Function.update k.member nr (some ((k.structs k.current).member.child t.lastPid)) := member
  refine ⟨⟨apart, ?_, ?_, ?_⟩, ?_⟩
  · rw [lastPid]
    exact positive.le
  · rw [lastPid]
    exact spec.high
  · rw [spawned]
    apply wf.family.spawn me alive empty positive
    intro j m present
    rcases table_some present with ⟨u, inside', present', pid⟩
    rw [← pid]
    exact spec.unused j inside' u present'
  · rw [spawned]
    apply Family.zombies_update
    rw [empty]
    rfl

theorem refused_kept {t : TaskTable} {nr : Nat} (wf : TableWf k) (runs : k.Runs)
    (found : findEmptyProcess k.table = some ((nr : Int), t)) (fresh : FreshStruct k)
    (run : copyProcess { k with lastPid := t.lastPid } nr = .ok (-eagain, k')) (back : k'.task = k.task) :
    TableWf k' ∧ Family.zombies k'.member = Family.zombies k.member := by
  have spec := found_table wf found
  rcases runs.1 with ⟨c, here⟩
  rcases found_slot spec with ⟨-, free, positive⟩
  rcases refused_family (k := { k with lastPid := t.lastPid }) wf.apart here free positive.le fresh run back with
    ⟨member, apart, -, lastPid⟩
  have same : k'.member = k.member := member
  refine ⟨⟨apart, ?_, ?_, ?_⟩, ?_⟩
  · rw [lastPid]
    exact positive.le
  · rw [lastPid]
    exact spec.high
  · rw [same]
    exact wf.family
  · rw [same]

theorem exit_kept {code : BitVec 32} (keeps : KeepsFamily iputLast) (wf : TableWf k) (runs : k.Runs)
    (zero : (k.structs k.current).pid ≠ 0) (one : (k.structs k.current).pid ≠ 1) (run : doExit iputLast k code = .ok k') :
    TableWf k' ∧ Family.zombies k'.member = Family.zombies k.member +
      (Report.exited (k.structs k.current).pid (k.structs k.current).father code).leaves := by
  rcases runs.1 with ⟨c, here⟩
  rcases member_alive here runs.2 with ⟨me, alive⟩
  have slot : c ≠ 0 := fun same => zero ((wf.family.first_pid me).mp same)
  have father : (k.structs k.current).father ≠ (k.structs k.current).pid := wf.family.father_ne me slot
  have exited := doExit_family keeps wf.apart here father run
  have died : Family.Wf (Family.die k.member c (k.structs k.current).member code) := wf.family.die me zero one code
  have zombies : (Family.die k.member c (k.structs k.current).member code).zombies =
      Family.zombies k.member + {((k.structs k.current).member.pid, code)} := Family.zombies_die here.1 me alive
  have table (family : Family.Wf k'.member) : TableWf k' :=
    ⟨exited.apart, exited.lastPid.symm ▸ wf.low, exited.lastPid.symm ▸ wf.high, family⟩
  unfold Report.leaves
  dsimp only
  by_cases orphan : (k.structs k.current).father = 0
  · have gone : k'.member = Family.remove (Family.die k.member c (k.structs k.current).member code) c := by
      rw [exited.untold orphan, Family.remove, Family.die, Function.update_idem]
      rfl
    refine ⟨table ?_, ?_⟩
    · rw [gone]
      exact died.remove (Family.die_self ..) (Option.some_ne_none _)
    · rw [gone, if_pos orphan, add_zero]
      have removed := Family.zombies_remove (F := Family.die k.member c (k.structs k.current).member code) here.1
      rw [zombies, Family.zombieOf_dead (Family.die_self ..) rfl] at removed
      exact Multiset.add_left_inj.mp removed
  · have there : ∃ i m, k.member i = some m ∧ m.pid = (k.structs k.current).father := by
      rcases wf.family.fathers c _ me slot with ⟨j, m, atJ, pid, -⟩
      exact ⟨j, m, atJ, pid⟩
    have told : k'.member = Family.die k.member c (k.structs k.current).member code := exited.told orphan there
    refine ⟨table ?_, ?_⟩
    · rw [told]
      exact died
    · rw [told, if_neg orphan]
      exact zombies

theorem wait_kept {pid : Int} {statAddr : Word} {options : BitVec 32} {waited : Waited} (wf : TableWf k) (runs : k.Runs)
    (run : sysWaitpid k image pid statAddr options = .ok (waited, k')) (tells : WaitTells k image statAddr waited k' r) :
    TableWf k' ∧ r.leaves = 0 ∧ Family.zombies k'.member + r.returns = Family.zombies k.member := by
  rcases runs.1 with ⟨c, here⟩
  rcases wait_family wf.apart here runs.2 run with ⟨ends, apart, -, lastPid⟩
  have table (family : Family.Wf k'.member) : TableWf k' :=
    ⟨apart, lastPid.symm ▸ wf.low, lastPid.symm ▸ wf.high, family⟩
  generalize deadChild k pid options = child at ends
  cases ends with
  | @reaped i m code found positive other child dead value status task gone =>
    have removed : k'.member = Family.remove k.member i := gone
    refine ⟨table ?_, ?_⟩
    · rw [removed]
      exact wf.family.remove found (by rw [dead]; exact Option.some_ne_none _)
    · have zombies := Family.zombies_remove (F := k.member) (member_some found).1
      rw [Family.zombieOf_dead found dead] at zombies
      cases tells with
      | reaped changed value' status' =>
        rw [value] at value'
        cases value'
        rw [status_unique status' status changed, removed]
        exact ⟨rfl, zombies⟩
      | nothing kept =>
        rw [task] at kept
        have slot := congrFun kept i
        rw [Function.update_self] at slot
        exact absurd slot.symm (member_some found).2.1
  | same task member =>
    refine ⟨table ?_, ?_⟩
    · rw [member]
      exact wf.family
    · cases tells with
      | reaped changed => exact absurd task changed
      | nothing =>
        rw [member]
        exact ⟨rfl, add_zero _⟩

/-- One step keeps the table, and no exit is lost or returned twice by it. -/
theorem FamilyStep.kept (keeps : KeepsFamily iputLast) (wf : TableWf k) (step : FamilyStep iputLast image k r k') :
    TableWf k' ∧ Family.zombies k'.member + r.returns = Family.zombies k.member + r.leaves := by
  cases step with
  | fork runs found fresh run =>
    rcases fork_kept wf runs found fresh run with ⟨table, zombies⟩
    exact ⟨table, by rw [zombies]; rfl⟩
  | refused runs found fresh run back =>
    rcases refused_kept wf runs found fresh run back with ⟨table, zombies⟩
    exact ⟨table, by rw [zombies]; rfl⟩
  | @full t found =>
    have spec := found_table wf found
    exact ⟨⟨wf.apart, (by decide : (0 : Int) ≤ 1).trans spec.low, spec.high, wf.family⟩, rfl⟩
  | exit runs zero one run =>
    rcases exit_kept keeps wf runs zero one run with ⟨table, zombies⟩
    exact ⟨table, (add_zero _).trans zombies⟩
  | wait runs run tells =>
    rcases wait_kept wf runs run tells with ⟨table, leaves, zombies⟩
    rw [leaves, add_zero]
    exact ⟨table, zombies⟩
  | @setpgid pid pgid runs =>
    rcases setpgid_family wf.apart (rfl : (sysSetpgid k pid pgid).2 = _) with
      ⟨apart, -, -, lastPid, same | ⟨i, m, pgrp, found, follows, changed⟩⟩
    · refine ⟨⟨apart, lastPid.symm ▸ wf.low, lastPid.symm ▸ wf.high, same.symm ▸ wf.family⟩, ?_⟩
      rw [same]
      rfl
    · refine ⟨⟨apart, lastPid.symm ▸ wf.low, lastPid.symm ▸ wf.high, ?_⟩, ?_⟩
      · rw [changed]
        apply wf.family.change { m with pgrp } found rfl rfl rfl
        intro leads
        exact absurd leads (by rw [follows]; decide)
      · rw [changed, Family.zombies_update _ (by rw [found]; rfl)]
        rfl
  | @setsid suser runs =>
    rcases runs.1 with ⟨c, here⟩
    have me := member_current here
    rcases setsid_family wf.apart here (rfl : (sysSetsid k suser).2 = _) with ⟨apart, -, lastPid, same | changed⟩
    · refine ⟨⟨apart, lastPid.symm ▸ wf.low, lastPid.symm ▸ wf.high, same.symm ▸ wf.family⟩, ?_⟩
      rw [same]
      rfl
    · refine ⟨⟨apart, lastPid.symm ▸ wf.low, lastPid.symm ▸ wf.high, ?_⟩, ?_⟩
      · rw [changed]
        exact wf.family.change _ me rfl rfl rfl fun _ => ⟨rfl, rfl⟩
      · rw [changed, Family.zombies_update _ (by rw [me]; rfl)]
        rfl
  | switch found alive =>
    unfold switchTo
    split
    · exact ⟨wf, rfl⟩
    · exact ⟨⟨wf.apart, wf.low, wf.high, wf.family⟩, rfl⟩
  | other same =>
    refine ⟨same.tableWf wf, ?_⟩
    rw [same.member]
    rfl

end Step

section Result

variable {iputLast : Process → Nat → Except (Stop Memory) Process} {image : Word → Nat → Word} {k k' : Process}
  {reports : List Report} {i : Nat} {m : Member}

theorem FamilyRun.kept (keeps : KeepsFamily iputLast) (wf : TableWf k) (run : FamilyRun iputLast image k reports k') :
    TableWf k' ∧ Family.zombies k'.member + (reports.map Report.returns).sum =
      Family.zombies k.member + (reports.map Report.leaves).sum := by
  induction run with
  | start => exact ⟨wf, rfl⟩
  | @next reports k₁ k' r run step ih =>
    rcases step.kept keeps ih.1 with ⟨table, zombies⟩
    refine ⟨table, ?_⟩
    rw [List.map_cons, List.sum_cons, List.map_cons, List.sum_cons, ← add_assoc, zombies, add_right_comm, ih.2]
    ac_rfl

/-- Task 0 has forked task 1, and nobody else is there. -/
structure FamilyBoot (k : Process) : Prop where
  apart : k.task 0 ≠ k.task 1
  first : ∃ m, k.member 0 = some m ∧ m.pid = 0 ∧ m.dead = none ∧ m.leader = false
  init : ∃ m, k.member 1 = some m ∧ m.pid = 1 ∧ m.father = 0 ∧ m.dead = none ∧ m.leader = false
  others : ∀ i, 1 < i → k.task i = 0
  lastPid : k.lastPid = 1

theorem FamilyBoot.only (boot : FamilyBoot k) (found : k.member i = some m) : i = 0 ∨ i = 1 := by
  rcases member_some found with ⟨-, present, -⟩
  by_contra other
  rw [not_or] at other
  exact present (boot.others i (by omega))

theorem FamilyBoot.table (boot : FamilyBoot k) : TableWf k := by
  rcases boot.first with ⟨m₀, at₀, pid₀, alive₀, leader₀⟩
  rcases boot.init with ⟨m₁, at₁, pid₁, father₁, alive₁, leader₁⟩
  have lastPid := boot.lastPid
  have each (i : Nat) (m : Member) (found : k.member i = some m) : i = 0 ∧ m = m₀ ∨ i = 1 ∧ m = m₁ := by
    rcases boot.only found with zero | one
    · rw [zero, at₀] at found
      exact .inl ⟨zero, (Option.some.inj found).symm⟩
    · rw [one, at₁] at found
      exact .inr ⟨one, (Option.some.inj found).symm⟩
  have up : Family.ChildOf k.member 1 0 := ⟨Nat.one_ne_zero, m₁, m₀, at₁, at₀, father₁.trans pid₀.symm⟩
  have family : Family.Wf k.member := by
    refine ⟨?_, ?_, ⟨m₀, at₀, pid₀, alive₀⟩, ⟨1, m₁, at₁, pid₁, father₁, alive₁⟩, ?_, ?_, ?_⟩
    · intro i j m m' atI atJ same
      rcases each i m atI with ⟨slotI, sameI⟩ | ⟨slotI, sameI⟩ <;>
        rcases each j m' atJ with ⟨slotJ, sameJ⟩ | ⟨slotJ, sameJ⟩ <;> simp_all
    · intro i m found other
      rcases each i m found with ⟨zero, -⟩ | ⟨-, same⟩
      · exact absurd zero other
      · rw [same, pid₁]
        decide
    · intro i m found other
      rcases each i m found with ⟨zero, -⟩ | ⟨-, same⟩
      · exact absurd zero other
      · rw [same]
        exact ⟨0, m₀, at₀, pid₀.trans father₁.symm, alive₀⟩
    · intro i m found
      rcases each i m found with ⟨zero, -⟩ | ⟨one, -⟩
      · rw [zero]
      · rw [one]
        exact .single up
    · intro i m found leads
      rcases each i m found with ⟨-, same⟩ | ⟨-, same⟩
      · rw [same, leader₀] at leads
        cases leads
      · rw [same, leader₁] at leads
        cases leads
  refine ⟨?_, by omega, by rw [lastPid]; decide, family⟩
  intro i j inI inJ present same
  rcases each i _ (member_of_slot inI present) with ⟨slotI, -⟩ | ⟨slotI, -⟩
  · rcases each j _ (member_of_slot inJ (same ▸ present)) with ⟨slotJ, -⟩ | ⟨slotJ, -⟩
    · rw [slotI, slotJ]
    · rw [slotI, slotJ] at same
      exact absurd same boot.apart
  · rcases each j _ (member_of_slot inJ (same ▸ present)) with ⟨slotJ, -⟩ | ⟨slotJ, -⟩
    · rw [slotI, slotJ] at same
      exact absurd same.symm boot.apart
    · rw [slotI, slotJ]

theorem FamilyBoot.no_zombies (boot : FamilyBoot k) : Family.zombies k.member = 0 := by
  apply Finset.sum_eq_zero
  intro i _
  cases found : k.member i with
  | none => rfl
  | some m =>
    have alive : m.dead = none := by
      rcases boot.first with ⟨m₀, at₀, -, alive₀, -⟩
      rcases boot.init with ⟨m₁, at₁, -, -, alive₁, -⟩
      rcases boot.only found with zero | one
      · rw [zero, at₀] at found
        exact Option.some.inj found ▸ alive₀
      · rw [one, at₁] at found
        exact Option.some.inj found ▸ alive₁
    rw [← found]
    exact Family.zombieOf_alive found alive

/-- In every run every task but task 0 has a father in the table who is alive, descends from task 0, is not its own
    ancestor, and has its own session and group if it is a leader. -/
theorem fathers_alive (keeps : KeepsFamily iputLast) (boot : FamilyBoot k) (run : FamilyRun iputLast image k reports k')
    (found : k'.member i = some m) (child : i ≠ 0) :
    (∃ j m', k'.member j = some m' ∧ m'.pid = m.father ∧ m'.dead = none) ∧
      ReflTransGen (Family.ChildOf k'.member) i 0 ∧ ¬ TransGen (Family.ChildOf k'.member) i i ∧
      (m.leader = true → m.session = m.pid ∧ m.pgrp = m.pid) := by
  have wf := (run.kept keeps boot.table).1.family
  exact ⟨wf.fathers i m found child, wf.descends i m found, wf.acyclic found, wf.leaders i m found⟩

/-- In every run whoever left the table to his father is there as a zombie, or was returned by one `sys_waitpid` with
    his exit code. -/
theorem exits_returned_once (keeps : KeepsFamily iputLast) (boot : FamilyBoot k)
    (run : FamilyRun iputLast image k reports k') :
    (reports.map Report.leaves).sum = Family.zombies k'.member + (reports.map Report.returns).sum := by
  have kept := (run.kept keeps boot.table).2
  rw [boot.no_zombies, zero_add] at kept
  exact kept.symm

/-- Only one slot has what the loop of `sys_waitpid` looks for. -/
theorem waitScan_only {pid : Int} {untraced flag : Bool} {n : Nat} (low : 0 < i) (high : i < n) (present : k.task i ≠ 0)
    (other : k.task i ≠ k.current) (fits : waitMatches k (k.task i) pid = true)
    (zombie : (k.structs (k.task i)).state = .zombie)
    (only : ∀ j, j < n → k.task j ≠ 0 → waitMatches k (k.task j) pid = true → j = i) :
    (waitScan k pid untraced n flag).1 = some (k.task i) := by
  induction n with
  | zero => cases high
  | succ n ih =>
    unfold waitScan
    rw [if_neg (by omega)]
    by_cases here : n = i
    · rw [here, if_neg (not_or.mpr ⟨present, not_or.mpr ⟨other, not_not.mpr fits⟩⟩), zombie]
    · have skips : k.task n = 0 ∨ k.task n = k.current ∨ ¬ waitMatches k (k.task n) pid = true := by
        by_cases empty : k.task n = 0
        · exact .inl empty
        · right
          right
          intro fits'
          exact here (only n (Nat.lt_succ_self n) empty fits')
      rw [if_pos skips]
      exact ih (by omega) fun j below => only j (Nat.lt_succ_of_lt below)

/-- In every run the father of a zombie gets its number and its exit code from `sys_waitpid` with its number, and the
    zombie leaves the table. -/
theorem zombie_returned {code : BitVec 32} {statAddr : Word} {options : BitVec 32} {waited : Waited} {k₁ : Process}
    (keeps : KeepsFamily iputLast) (boot : FamilyBoot k) (run : FamilyRun iputLast image k reports k') (runs : k'.Runs)
    (found : k'.member i = some m) (dead : m.dead = some code) (father : m.father = (k'.structs k'.current).pid)
    (wait : sysWaitpid k' image m.pid statAddr options = .ok (waited, k₁)) :
    waited = .returned m.pid ∧ StatusStored k' image statAddr code k₁ ∧ k₁.member = Function.update k'.member i none := by
  have tables := (run.kept keeps boot.table).1
  have wf := tables.family
  rcases member_some found with ⟨inside, present, same⟩
  have zombie : (k'.structs (k'.task i)).state = .zombie ∧ (k'.structs (k'.task i)).exitCode = code := by
    rw [same] at dead
    simp only [Task.member, Option.ite_none_right_eq_some, Option.some.injEq] at dead
    exact dead
  have slot : i ≠ 0 := by
    intro zero
    rcases wf.first with ⟨m₀, at₀, -, alive⟩
    rw [zero, at₀] at found
    cases found
    rw [alive] at dead
    cases dead
  have positive := wf.positive i m found slot
  have other : k'.task i ≠ k'.current := by
    intro own
    rw [own] at zombie
    exact runs.2 zombie.1
  have pid : (k'.structs (k'.task i)).pid = m.pid := by rw [same]; rfl
  have father' : (k'.structs (k'.task i)).father = (k'.structs k'.current).pid := by rw [← father, same]; rfl
  have fits : waitMatches k' (k'.task i) m.pid = true := by
    simp only [waitMatches, father', positive, pid, if_true, and_self, decide_true]
  have scan : (waitScan k' m.pid (options.getLsbD 1) nrTasks false).1 = some (k'.task i) :=
    waitScan_only (Nat.pos_of_ne_zero slot) inside present other fits zombie.1 (by
      intro j below there matches'
      simp only [waitMatches, positive, if_true, decide_eq_true_eq] at matches'
      exact wf.distinct j i _ m (member_of_slot below there) found matches'.2)
  have child : deadChild k' m.pid options = some (k'.task i) := by
    unfold deadChild
    rw [scan, Option.filter_some_pos (by rw [zombie.1]; rfl)]
  rcases runs.1 with ⟨c, here⟩
  have ends := (wait_family tables.apart here runs.2 wait).1
  generalize deadChild k' m.pid options = p at ends child
  cases ends with
  | @reaped j m' code' found' _ _ _ dead' value status _ gone =>
    have here' := member_some found'
    have equal : j = i := tables.apart j i here'.1 inside here'.2.1 (Option.some.inj child)
    subst equal
    rw [found] at found'
    cases found'
    rw [dead] at dead'
    cases dead'
    exact ⟨value, status, gone⟩
  | same => cases child

section Example

/-- Task 0, and task 1, which runs; neither has user memory, files or inodes. -/
def bootFamily : Process where
  memory := ⟨fun f => if f < 3800 then 1 else 0, fun _ _ => 0, fun _ _ => 0, 0, fun _ => 0, 0x81000000⟩
  structs := fun p =>
    if p = 0x80208000 then { sampleTask 0 with pid := 1, father := 0, pageDirTable := 0 }
    else { sampleTask 0 with pageDirTable := 0 }
  task := fun i => if i = 0 then 0x80200000 else if i = 1 then 0x80208000 else 0
  current := 0x80208000
  kernelStack := fun _ => 0
  kernelStackbottom := fun _ => 0
  lastPid := 1
  jiffies := 0
  trapInfo := ⟨fun _ => 0, fun _ => 0, 0⟩
  forkProcessExit := 0
  fsIsKernel := false
  fCount := fun _ => 0
  fInode := fun _ => none
  iCount := fun _ => 0

/-- No task has an inode that `iput` could write back. -/
def putsNothing (k : Process) (_ : Nat) : Except (Stop Memory) Process := .ok k

theorem putsNothing_keeps : KeepsFamily putsNothing := by
  intro k i k' run
  cases run
  exact .refl k

theorem bootFamily_boot : FamilyBoot bootFamily where
  apart := by decide
  first := ⟨_, if_pos (by decide), rfl, rfl, rfl⟩
  init := ⟨_, if_pos (by decide), rfl, rfl, rfl, rfl⟩
  others i above := (if_neg (by omega)).trans (if_neg (by omega))
  lastPid := rfl

/-- What a computation that succeeds leaves. -/
def left {α : Type} (result : Except (Stop Memory) (α × Process)) : Process := (result.toOption.map Prod.snd).getD bootFamily

theorem left_ok {α : Type} {result : Except (Stop Memory) (α × Process)} {a : α}
    (done : result.toOption.map Prod.fst = some a) : result = .ok (a, left result) := by
  cases result with
  | error stop => cases done
  | ok r =>
    cases done
    rfl

/-- Task 1 forks, the child exits with 1, and task 1 waits for it. -/
def forkedFamily : Process := left (copyProcess { bootFamily with lastPid := 2 } 2)

def childExits : Except (Stop Memory) Process := doExit putsNothing (switchTo forkedFamily 2) 0x100

def zombieFamily : Process := switchTo (childExits.toOption.getD bootFamily) 1

def emptiedFamily : Process := left (sysWaitpid zombieFamily (fun _ _ => 0) 2 0x80300000 0)

theorem fork_run : FamilyRun putsNothing (fun _ _ => 0) bootFamily [.nothing] forkedFamily := by
  have number : (findEmptyProcess bootFamily.table).map (fun r => (r.1, r.2.lastPid)) = some (2, 2) := by decide +kernel
  rcases Option.map_eq_some_iff.mp number with ⟨⟨value, t⟩, found, same⟩
  have slot : value = ((2 : Nat) : Int) := congrArg Prod.fst same
  have lastPid : t.lastPid = 2 := congrArg Prod.snd same
  rw [slot] at found
  have copied : (copyProcess { bootFamily with lastPid := 2 } 2).toOption.map Prod.fst = some 2 := by decide +kernel
  have fresh : FreshStruct bootFamily := by
    unfold FreshStruct
    decide +kernel
  have runs : bootFamily.Runs := ⟨⟨1, by decide, by decide, by decide⟩, by decide⟩
  have run : copyProcess { bootFamily with lastPid := t.lastPid } 2 = .ok (t.lastPid, forkedFamily) := by
    rw [lastPid]
    exact left_ok copied
  exact .next .start (.fork runs found fresh run)

theorem member_of_test {k : Process} {i : Nat} {test : Member → Bool} (passed : (k.member i).any test = true) :
    ∃ m, k.member i = some m ∧ test m = true := by
  cases found : k.member i with
  | none =>
    rw [found] at passed
    cases passed
  | some m =>
    rw [found] at passed
    exact ⟨m, rfl, passed⟩

theorem zombie_run : FamilyRun putsNothing (fun _ _ => 0) bootFamily [.nothing, .exited 2 1 0x100, .nothing, .nothing]
    zombieFamily := by
  have alive (k : Process) (nr : Nat) (passed : (k.member nr).any (fun m => m.dead.isNone) = true) :
      FamilyStep putsNothing (fun _ _ => 0) k .nothing (switchTo k nr) := by
    rcases member_of_test passed with ⟨m, found, test⟩
    exact .switch found (Option.isNone_iff_eq_none.mp test)
  have switched := fork_run.next (alive forkedFamily 2 (by decide +kernel))
  have runs : (switchTo forkedFamily 2).Runs :=
    ⟨⟨2, by decide +kernel, by decide +kernel, by decide +kernel⟩, by decide +kernel⟩
  have child : ((switchTo forkedFamily 2).structs (switchTo forkedFamily 2).current).pid = 2 ∧
      ((switchTo forkedFamily 2).structs (switchTo forkedFamily 2).current).father = 1 := by decide +kernel
  have exits : childExits = .ok (childExits.toOption.getD bootFamily) := by
    have passed : childExits.toOption.isSome = true := by decide +kernel
    cases done : childExits with
    | error stop =>
      rw [done] at passed
      cases passed
    | ok k => rfl
  have exited := switched.next (.exit runs (by rw [child.1]; decide) (by rw [child.1]; decide) exits)
  rw [child.1, child.2] at exited
  exact exited.next (alive _ 1 (by decide +kernel))

theorem child_has_father : ∃ m, forkedFamily.member 2 = some m ∧
    (∃ j m', forkedFamily.member j = some m' ∧ m'.pid = m.father ∧ m'.dead = none) ∧
      ReflTransGen (Family.ChildOf forkedFamily.member) 2 0 ∧ ¬ TransGen (Family.ChildOf forkedFamily.member) 2 2 ∧
      (m.leader = true → m.session = m.pid ∧ m.pgrp = m.pid) := by
  have passed : (forkedFamily.member 2).any (fun m => m.pid = 2) = true := by decide +kernel
  rcases member_of_test passed with ⟨m, found, -⟩
  exact ⟨m, found, fathers_alive putsNothing_keeps bootFamily_boot fork_run found (by decide)⟩

/-- The father is told of the zombie. -/
theorem child_returned : ∃ m, zombieFamily.member 2 = some m ∧ m.pid = 2 ∧
    sysWaitpid zombieFamily (fun _ _ => 0) 2 0x80300000 0 = .ok (.returned 2, emptiedFamily) ∧
      StatusStored zombieFamily (fun _ _ => 0) 0x80300000 0x100 emptiedFamily := by
  have passed : (zombieFamily.member 2).any (fun m => m.pid = 2 && (m.dead = some 0x100 && m.father = 1)) = true := by
    decide +kernel
  rcases member_of_test passed with ⟨m, found, test⟩
  simp only [Bool.and_eq_true, decide_eq_true_eq] at test
  have runs : zombieFamily.Runs := ⟨⟨1, by decide +kernel, by decide +kernel, by decide +kernel⟩, by decide +kernel⟩
  have current : (zombieFamily.structs zombieFamily.current).pid = 1 := by decide +kernel
  have father : m.father = (zombieFamily.structs zombieFamily.current).pid := by rw [current, test.2.2]
  have waited : (sysWaitpid zombieFamily (fun _ _ => 0) 2 0x80300000 0).toOption.map Prod.fst = some (.returned 2) := by decide +kernel
  have wait : sysWaitpid zombieFamily (fun _ _ => 0) m.pid 0x80300000 0 = .ok (.returned 2, emptiedFamily) := by
    rw [test.1]
    exact left_ok waited
  have told := zombie_returned putsNothing_keeps bootFamily_boot zombie_run runs found test.2.1 father wait
  exact ⟨m, found, test.1, left_ok waited, told.2.1⟩

/-- And he gets it once. -/
theorem exit_returned_once : ∃ reports, FamilyRun putsNothing (fun _ _ => 0) bootFamily reports emptiedFamily ∧
    (reports.map Report.leaves).sum = Family.zombies emptiedFamily.member + (reports.map Report.returns).sum ∧
    emptiedFamily.task 2 = 0 := by
  have runs : zombieFamily.Runs := ⟨⟨1, by decide +kernel, by decide +kernel, by decide +kernel⟩, by decide +kernel⟩
  have waited : (sysWaitpid zombieFamily (fun _ _ => 0) 2 0x80300000 0).toOption.map Prod.fst = some (.returned 2) := by decide +kernel
  have tables := (zombie_run.kept putsNothing_keeps bootFamily_boot.table).1
  rcases runs.1 with ⟨c, here⟩
  rcases (wait_family tables.apart here runs.2 (left_ok waited)).1.told with ⟨r, tells⟩
  have run := zombie_run.next (.wait runs (left_ok waited) tells)
  exact ⟨_, run, exits_returned_once putsNothing_keeps bootFamily_boot run, by decide +kernel⟩

end Example

end Result

end K210Linux.Kernel
