import K210Linux.Kernel.ExitContract

namespace K210Linux.Kernel

open K210Linux.Mm Outcome

/-- The number of the first `n` descriptors that name file `f`. -/
def named (filp : Nat → Option Nat) (f : Nat) : Nat → Nat
  | 0 => 0
  | n + 1 => named filp f n + if filp n = some f then 1 else 0

theorem named_le (filp : Nat → Option Nat) (f n : Nat) : named filp f n ≤ n := by
  induction n with
  | zero => exact Nat.le_refl _
  | succ n ih =>
    rw [named]
    split <;> omega

theorem named_mono (filp : Nat → Option Nat) (f : Nat) {n m : Nat} (le : n ≤ m) : named filp f n ≤ named filp f m := by
  induction le with
  | refl => exact Nat.le_refl _
  | step _ ih =>
    rw [named]
    omega

theorem countFiles_toNat (filp : Nat → Option Nat) (fCount : Nat → BitVec 16) (f n : Nat)
    (fits : (fCount f).toNat + n < 2 ^ 16) :
    (countFiles filp fCount n f).toNat = (fCount f).toNat + named filp f n := by
  induction n with
  | zero => rfl
  | succ n ih =>
    have before := ih (by omega)
    have bound := named_le filp f n
    rw [countFiles, named]
    cases slot : filp n with
    | none =>
      rw [if_neg nofun]
      exact before
    | some g =>
      by_cases here : f = g
      · subst here
        simp only [Function.update_self, if_true]
        rw [BitVec.toNat_add, before, show (1 : BitVec 16).toNat = 1 from rfl]
        omega
      · simp only [Function.update_of_ne here, Option.some.injEq, Ne.symm here, if_false]
        exact before

/-- The number of the three directories and the executable of a task that are inode `i`. -/
def inodeUses (t : Task) (i : Nat) : Nat :=
  (if t.pwd = some i then 1 else 0) + (if t.root = some i then 1 else 0) + (if t.executable = some i then 1 else 0)

theorem countInode_toNat (inode : Option Nat) (iCount : Nat → BitVec 16) (i : Nat)
    (fits : (iCount i).toNat + 1 < 2 ^ 16) :
    (countInode inode iCount i).toNat = (iCount i).toNat + if inode = some i then 1 else 0 := by
  cases inode with
  | none => rfl
  | some j =>
    by_cases here : i = j
    · subst here
      simp only [countInode, Function.update_self, if_true]
      rw [BitVec.toNat_add, show (1 : BitVec 16).toNat = 1 from rfl]
      omega
    · simp only [countInode, Function.update_of_ne here, Option.some.injEq, Ne.symm here, if_false, Nat.add_zero]

section Exit

variable {k : Process} (iputLast : Process → Nat → Except (Stop Memory) Process)

/-- The current task with other descriptors and file counts. -/
def Process.withFiles (k : Process) (filp : Nat → Option Nat) (fCount : Nat → BitVec 16) : Process :=
  { k.setStruct k.current { k.structs k.current with filp := filp } with fCount := fCount }

theorem closeFiles_counted (many : ∀ f, 0 < named (k.structs k.current).filp f nrOpen →
      named (k.structs k.current).filp f nrOpen < (k.fCount f).toNat) {n : Nat} (room : n ≤ nrOpen) :
    ∃ filp fCount, closeFiles iputLast k n = .ok (k.withFiles filp fCount) ∧
      (∀ i, n ≤ i → filp i = (k.structs k.current).filp i) ∧
      ∀ f, (fCount f).toNat = (k.fCount f).toNat - named (k.structs k.current).filp f n := by
  induction n with
  | zero =>
    refine ⟨(k.structs k.current).filp, k.fCount, ?_, fun _ _ => rfl, fun _ => rfl⟩
    simp only [closeFiles, Process.withFiles, Process.setStruct, Function.update_eq_self]
  | succ n ih =>
    obtain ⟨filp, fCount, run, later, counts⟩ := ih (by omega)
    rw [closeFiles, bind_ok run, sysClose]
    have own : ((k.withFiles filp fCount).structs (k.withFiles filp fCount).current).filp = filp := by
      change (Function.update k.structs k.current _ k.current).filp = filp
      rw [Function.update_self]
    rw [own, later n (Nat.le_refl _)]
    cases slot : (k.structs k.current).filp n with
    | none =>
      refine ⟨filp, fCount, rfl, fun i above => later i (by omega), fun f => ?_⟩
      rw [counts f, named, slot, if_neg (fun absent => by cases absent), Nat.add_zero]
    | some f =>
      have once : named (k.structs k.current).filp f (n + 1) = named (k.structs k.current).filp f n + 1 := by
        rw [named, slot, if_pos rfl]
      have most := named_mono (k.structs k.current).filp f room
      have more := many f (by omega)
      have before := counts f
      have least : 2 ≤ (fCount f).toNat := by omega
      have after : (fCount f - 1).toNat = (fCount f).toNat - 1 := by
        rw [BitVec.toNat_sub_of_le (by rw [BitVec.le_def]; exact Nat.le_of_succ_le least)]
        rfl
      have some : fCount f ≠ 0 := by
        intro zero
        rw [zero] at least
        exact absurd least (by decide)
      have rest : fCount f - 1 ≠ 0 := by
        intro zero
        rw [zero] at after
        change 0 = _ at after
        omega
      refine ⟨Function.update filp n none, Function.update fCount f (fCount f - 1), ?_, ?_, ?_⟩
      · change (if fCount f = 0 then _ else _) = _
        rw [if_neg some]
        dsimp only
        rw [if_pos (by rw [Function.update_self]; exact rest)]
        simp only [Process.withFiles, Process.setStruct, Function.update_self, Function.update_idem]
      · intro i above
        rw [Function.update_of_ne (by omega)]
        exact later i (by omega)
      · intro g
        by_cases here : g = f
        · subst here
          rw [Function.update_self, after, before, once]
          omega
        · rw [Function.update_of_ne here, counts g, named, slot, if_neg (fun same => here (Option.some.inj same).symm)]
          rfl

/-- One reference to an inode less. -/
def dropInode (inode : Option Nat) (iCount : Nat → BitVec 16) : Nat → BitVec 16 :=
  match inode with
  | some i => Function.update iCount i (iCount i - 1)
  | none => iCount

theorem dropInode_toNat {inode : Option Nat} {iCount : Nat → BitVec 16} (shared : ∀ i, inode = some i → 1 ≤ (iCount i).toNat)
    (i : Nat) : (dropInode inode iCount i).toNat = (iCount i).toNat - if inode = some i then 1 else 0 := by
  cases inode with
  | none => rfl
  | some j =>
    by_cases here : i = j
    · subst here
      have least := shared i rfl
      rw [if_pos rfl, dropInode, Function.update_self, BitVec.toNat_sub_of_le (by rw [BitVec.le_def]; exact least)]
      rfl
    · rw [if_neg (fun same => here (Option.some.inj same).symm), dropInode, Function.update_of_ne here]
      rfl

theorem iput_shared (k : Process) {inode : Option Nat} (shared : ∀ i, inode = some i → 2 ≤ (k.iCount i).toNat) :
    iput iputLast k inode = .ok { k with iCount := dropInode inode k.iCount } := by
  cases inode with
  | none => rfl
  | some i =>
    have least := shared i rfl
    have some : k.iCount i ≠ 0 := by
      intro zero
      rw [zero] at least
      exact absurd least (by decide)
    have more : 1 < k.iCount i := by
      rw [BitVec.lt_def]
      exact least
    rw [iput, if_neg some, if_pos more]
    rfl

/-- The tasks keep their numbers, their directories and their stacks, and the memory is the same. -/
structure SameTasks (k k' : Process) : Prop where
  memory : k'.memory = k.memory
  task : k'.task = k.task
  current : k'.current = k.current
  bottoms : k'.kernelStackbottom = k.kernelStackbottom
  pid : ∀ p, (k'.structs p).pid = (k.structs p).pid
  table : ∀ p, (k'.structs p).pageDirTable = (k.structs p).pageDirTable

theorem SameTasks.trans {a b c : Process} (one : SameTasks a b) (two : SameTasks b c) : SameTasks a c where
  memory := two.memory.trans one.memory
  task := two.task.trans one.task
  current := two.current.trans one.current
  bottoms := two.bottoms.trans one.bottoms
  pid p := (two.pid p).trans (one.pid p)
  table p := (two.table p).trans (one.table p)

theorem sameTasks_update (k : Process) (p : Word) (t : Task) (pid : t.pid = (k.structs p).pid)
    (table : t.pageDirTable = (k.structs p).pageDirTable) (fCount iCount : Nat → BitVec 16) :
    SameTasks k { k with structs := Function.update k.structs p t, fCount := fCount, iCount := iCount } := by
  refine ⟨rfl, rfl, rfl, rfl, ?_, ?_⟩
  · intro q
    simp only [Function.update_apply]
    split
    · rename_i here
      rw [pid, here]
    · rfl
  · intro q
    simp only [Function.update_apply]
    split
    · rename_i here
      rw [table, here]
    · rfl

theorem dropInodes_shared (k : Process) (shared : ∀ i, 0 < inodeUses (k.structs k.current) i →
      inodeUses (k.structs k.current) i < (k.iCount i).toNat) :
    ∃ k', dropInodes iputLast k = .ok k' ∧ SameTasks k k' ∧ k'.structs k'.current = { k.structs k.current with
      pwd := none
      root := none
      executable := none } := by
  generalize same : k.structs k.current = t at shared
  simp only [inodeUses] at shared
  have first : ∀ i, t.pwd = some i → 2 ≤ (k.iCount i).toNat := by
    intro i here
    have := shared i (by rw [if_pos here]; omega)
    rw [if_pos here] at this
    omega
  have count₁ := dropInode_toNat fun i here => Nat.le_of_succ_le (first i here)
  have second : ∀ i, t.root = some i → 2 ≤ (dropInode t.pwd k.iCount i).toNat := by
    intro i here
    have := shared i (by rw [if_pos here]; omega)
    rw [if_pos here] at this
    rw [count₁]
    omega
  have count₂ := dropInode_toNat fun i here => Nat.le_of_succ_le (second i here)
  have third : ∀ i, t.executable = some i → 2 ≤ (dropInode t.root (dropInode t.pwd k.iCount) i).toNat := by
    intro i here
    have := shared i (by rw [if_pos here]; omega)
    rw [if_pos here] at this
    rw [count₂, count₁]
    omega
  refine ⟨{ k with
    structs := Function.update k.structs k.current { t with pwd := none, root := none, executable := none }
    iCount := dropInode t.executable (dropInode t.root (dropInode t.pwd k.iCount)) }, ?_, ?_, Function.update_self ..⟩
  rotate_left
  · apply sameTasks_update
    · rw [same]
    · rw [same]
  rw [dropInodes, same, bind_ok (iput_shared iputLast k first)]
  simp only [Process.setStruct, same, Function.update_self]
  rw [bind_ok (iput_shared iputLast _ second)]
  simp only [Function.update_self, Function.update_idem]
  rw [bind_ok (iput_shared iputLast _ third)]
  simp only [Function.update_self, Function.update_idem]

theorem Process.setStruct_self (k : Process) (p : Word) (t : Task) : (k.setStruct p t).structs p = t :=
  Function.update_self ..

theorem Process.setStruct_of_ne {k : Process} {p q : Word} {t : Task} (other : q ≠ p) :
    (k.setStruct p t).structs q = k.structs q :=
  Function.update_of_ne other ..

/-- Only the `father` and the `signal` of tasks differ. -/
structure Adopted (k k' : Process) : Prop where
  rest : k' = { k with structs := k'.structs }
  structs : ∀ p, ∃ father signal, k'.structs p = { k.structs p with father := father, signal := signal } ∧
    ((k.structs p).father ≠ (k.structs k.current).pid → father = (k.structs p).father)

namespace Adopted

theorem refl (k : Process) : Adopted k k := ⟨rfl, fun _ => ⟨_, _, rfl, fun _ => rfl⟩⟩

theorem pid {k k' : Process} (adopted : Adopted k k') (p : Word) : (k'.structs p).pid = (k.structs p).pid := by
  obtain ⟨father, signal, same, -⟩ := adopted.structs p
  rw [same]

theorem current {k k' : Process} (adopted : Adopted k k') : k'.current = k.current := by rw [adopted.rest]

theorem signal {k k' : Process} (adopted : Adopted k k') (p : Word) (sig : Nat) : Adopted k (raiseSignal k' p sig) := by
  refine ⟨?_, ?_⟩
  · rw [adopted.rest]
    rfl
  · intro q
    obtain ⟨father, signal, same, kept⟩ := adopted.structs q
    by_cases here : q = p
    · subst here
      refine ⟨father, (k'.structs q).signal ||| BitVec.twoPow 64 (sig - 1), ?_, kept⟩
      rw [raiseSignal, Process.setStruct_self, same]
    · refine ⟨father, signal, ?_, kept⟩
      rw [raiseSignal, Process.setStruct_of_ne here, same]

theorem father {k k' : Process} (adopted : Adopted k k') {p : Word}
    (child : (k'.structs p).father = (k'.structs k'.current).pid) :
    Adopted k (k'.setStruct p { k'.structs p with father := 1 }) := by
  refine ⟨?_, ?_⟩
  · rw [adopted.rest]
    rfl
  · intro q
    obtain ⟨father, signal, same, kept⟩ := adopted.structs q
    by_cases here : q = p
    · subst here
      refine ⟨1, signal, ?_, ?_⟩
      · rw [Process.setStruct_self, same]
      · intro other
        rw [adopted.pid, adopted.current, same] at child
        exact absurd (child.symm.trans (kept other)).symm other
    · refine ⟨father, signal, ?_, kept⟩
      rw [Process.setStruct_of_ne here, same]

end Adopted

theorem reparent_adopts (k : Process) (n : Nat) : Adopted k (reparent k n) := by
  induction n with
  | zero => exact .refl k
  | succ n ih =>
    rw [reparent]
    dsimp only
    split
    · rename_i child
      split
      · exact (ih.father child.2).signal _ _
      · exact ih.father child.2
    · exact ih

theorem findPid_isSome {k : Process} {pid : Int} {i : Nat} (some : k.task i ≠ 0) (here : (k.structs (k.task i)).pid = pid)
    {start left : Nat} (after : start ≤ i) (before : i < start + left) : (findPid k pid start left).isSome := by
  induction left generalizing start with
  | zero => omega
  | succ left ih =>
    rw [findPid]
    split
    · rfl
    · rename_i other
      have past : start ≠ i := by
        rintro rfl
        exact other ⟨some, here⟩
      exact ih (by omega) (by omega)

theorem Adopted.sameTasks {k k' : Process} (adopted : Adopted k k') : SameTasks k k' := by
  refine ⟨by rw [adopted.rest], by rw [adopted.rest], by rw [adopted.rest], by rw [adopted.rest], adopted.pid, ?_⟩
  intro p
  obtain ⟨father, signal, same, -⟩ := adopted.structs p
  rw [same]

theorem tellFather_found {pid : Int} (nonzero : pid ≠ 0) {i : Nat} (slot : i < nrTasks) (some : k.task i ≠ 0)
    (here : (k.structs (k.task i)).pid = pid) : ∃ k', tellFather k pid = .ok k' ∧ SameTasks k k' := by
  have bound : i < 0 + nrTasks := by omega
  obtain ⟨j, found⟩ := Option.isSome_iff_exists.mp (findPid_isSome some here (Nat.zero_le i) bound)
  refine ⟨raiseSignal k (k.task j) sigchld, ?_, ((Adopted.refl k).signal _ _).sameTasks⟩
  rw [tellFather, if_neg nonzero, found]

/-- An exiting task that shares its files and inodes with its parent leaves the memory to its
    `free_page_tables` call, and stays in the table for the parent. -/
theorem doExit_shared {m : Memory} (freed : exitMemory k = .ok m)
    (many : ∀ f, 0 < named (k.structs k.current).filp f nrOpen →
      named (k.structs k.current).filp f nrOpen < (k.fCount f).toNat)
    (shared : ∀ i, 0 < inodeUses (k.structs k.current) i → inodeUses (k.structs k.current) i < (k.iCount i).toNat)
    (notLeader : (k.structs k.current).leader = false) {i : Nat} (slot : i < nrTasks) (some : k.task i ≠ 0)
    (parent : (k.structs (k.task i)).pid = (k.structs k.current).father) (nonzero : (k.structs k.current).father ≠ 0)
    (other : (k.structs k.current).father ≠ (k.structs k.current).pid) (code : BitVec 32) :
    ∃ k', doExit iputLast k code = .ok k' ∧ SameTasks (k.setMemory m) k' := by
  have adopted := reparent_adopts (k.setMemory m) nrTasks
  generalize reparented : reparent (k.setMemory m) nrTasks = k₁ at adopted
  have current₁ : k₁.current = k.current := adopted.current
  obtain ⟨father, signal, own, kept⟩ := adopted.structs k.current
  change k₁.structs k.current = { k.structs k.current with father := father, signal := signal } at own
  have father₁ : father = (k.structs k.current).father := kept other
  have fCount₁ : k₁.fCount = k.fCount := by rw [adopted.rest]; rfl
  have iCount₁ : k₁.iCount = k.iCount := by rw [adopted.rest]; rfl
  obtain ⟨filp, fCount, closed, -, -⟩ := closeFiles_counted (k := k₁) iputLast (by
    rw [current₁, own, fCount₁]
    exact many) (Nat.le_refl _)
  have same₂ : SameTasks k₁ (k₁.withFiles filp fCount) :=
    sameTasks_update k₁ k₁.current { k₁.structs k₁.current with filp := filp } rfl rfl fCount k₁.iCount
  have own₂ : (k₁.withFiles filp fCount).structs (k₁.withFiles filp fCount).current =
      { k₁.structs k₁.current with filp := filp } := Process.setStruct_self ..
  obtain ⟨k₃, dropped, same₃, last⟩ := dropInodes_shared iputLast (k₁.withFiles filp fCount) (by
    rw [own₂, current₁, own]
    change ∀ i, _ → _ < (k₁.iCount i).toNat
    rw [iCount₁]
    exact shared)
  have own₃ : k₃.structs k₃.current = { k.structs k.current with
      father := (k.structs k.current).father
      signal := signal
      filp := filp
      pwd := none
      root := none
      executable := none } := by
    rw [last, own₂, current₁, own, father₁]
  have same₄ := sameTasks_update k₃ k₃.current { k₃.structs k₃.current with state := .zombie, exitCode := code } rfl rfl
    k₃.fCount k₃.iCount
  have all := (adopted.sameTasks.trans (same₂.trans same₃)).trans same₄
  have task₄ := all.task
  have pid₄ := all.pid (k.task i)
  generalize zombie : ({ k₃ with
    structs := Function.update k₃.structs k₃.current { k₃.structs k₃.current with state := .zombie, exitCode := code }
    fCount := k₃.fCount
    iCount := k₃.iCount } : Process) = k₄ at all task₄ pid₄
  obtain ⟨k₅, told, same₅⟩ := tellFather_found (k := k₄) nonzero slot (by rw [task₄]; exact some)
    (by rw [task₄]; exact pid₄.trans parent)
  refine ⟨k₅, ?_, all.trans same₅⟩
  rw [doExit, bind_ok freed]
  dsimp only
  rw [reparented, bind_ok closed, bind_ok dropped]
  have own₄ : (k₄.structs k₄.current).father = (k.structs k.current).father := by
    rw [← zombie]
    dsimp only
    rw [Function.update_self, own₃]
  have leader : (k₃.structs k₃.current).leader = false := by
    rw [own₃]
    exact notLeader
  rw [leader, if_neg (by decide)]
  change tellFather _ (Process.structs _ _).father = _
  rw [show k₃.setStruct k₃.current { k₃.structs k₃.current with state := .zombie, exitCode := code } = k₄ from zombie, own₄]
  exact told

end Exit

section Fork

variable {k k' : Process} {nr : Nat} {p : Word}

theorem copyMem_shape {r : Int} (run : copyMem k p = .ok (r, k')) :
    ∃ m, k' = (setStartCode k p userStartAddr).setMemory m := by
  rw [copyMem] at run
  rcases of_bind run with ⟨⟨r', m⟩, _, last⟩
  dsimp only at last
  split at last
  · rcases of_bind last with ⟨m', _, done⟩
    cases done
    exact ⟨m', rfl⟩
  · cases last
    exact ⟨m, rfl⟩

/-- What a finished `copy_process` leaves besides the memory, with the child's structure at `p`. -/
structure Forked (k k' : Process) (nr : Nat) (p : Word) : Prop where
  task : k'.task = Function.update k.task nr p
  current : k'.current = k.current
  pid : (k'.structs p).pid = k.lastPid
  father : (k'.structs p).father = (k.structs k.current).pid
  leader : (k'.structs p).leader = false
  filp : (k'.structs p).filp = (k.structs k.current).filp
  uses : inodeUses (k'.structs p) = inodeUses (k.structs k.current)
  fCount : k'.fCount = countFiles (k.structs k.current).filp k.fCount nrOpen
  iCount : k'.iCount = countInode (k.structs k.current).executable
    (countInode (k.structs k.current).root (countInode (k.structs k.current).pwd k.iCount))
  others : ∀ q, q ≠ p → k'.structs q = k.structs q

theorem beforeCopy_forked {stack : Word} {m m₁ m₂ : Memory} (own : p ≠ k.current) :
    Forked k (startChild ((setStartCode (beforeCopy k nr p stack m₁ m₂) p userStartAddr).setMemory m) p).2 nr p := by
  have parent : k.current ≠ p := own.symm
  constructor <;>
    simp only [startChild, setStartCode, beforeCopy, setUpStack, placeStack, placeTask, childOf, Process.setStruct,
      Process.setMemory, Process.setTask, Function.update_self, Function.update_of_ne parent, inodeUses]
  case others =>
    intro q other
    simp only [Function.update_of_ne other]
  · rfl

/-- How `copy_process` ends, with the structure of the child at `p`. Only where there is no kernel stack does the slot of
    a child that failed stay in use. -/
inductive CopyEnds (k : Process) (nr : Nat) (p : Word) (r : Int) (k' : Process) : Prop
  | noStruct (m : Memory) (value : r = -eagain) (state : k' = k.setMemory m)
  | noStack (m m₁ : Memory) (some : p ≠ 0) (value : r = -eagain)
      (state : k' = (placeStack (placeTask (k.setMemory m₁) nr p) nr 0).setMemory m)
  | abandoned (stack : Word) (m m₁ m₂ m₃ : Memory) (value : r = -eagain)
      (state : k' = (((setStartCode (beforeCopy k nr p stack m₁ m₂) p userStartAddr).setMemory m).setTask nr 0).setMemory m₃)
  | started (stack : Word) (m m₁ m₂ : Memory) (some : p ≠ 0) (value : r = k.lastPid)
      (state : k' = (startChild ((setStartCode (beforeCopy k nr p stack m₁ m₂) p userStartAddr).setMemory m) p).2)

theorem copyProcess_ends {r : Int} (run : copyProcess k nr = .ok (r, k')) :
    CopyEnds k nr (getFreePages k.memory 5).1 r k' := by
  have eight : (kernelStackSize >>> 12).toNat = 8 := by decide
  rcases found : getFreePages k.memory 5 with ⟨p, m₁⟩
  rw [copyProcess, found] at run
  dsimp only at run
  split at run
  · cases run
    exact .noStruct m₁ rfl rfl
  · rename_i some
    rw [eight] at run
    rcases found' : getFreePages (placeTask (k.setMemory m₁) nr p).memory 8 with ⟨stack, m₂⟩
    rw [found'] at run
    dsimp only at run
    split at run
    · rename_i none
      rcases of_bind run with ⟨m, _, done⟩
      cases done
      rw [none]
      exact .noStack m m₁ some rfl rfl
    · rcases of_bind run with ⟨⟨r, k₁⟩, copied, last⟩
      obtain ⟨m, shape⟩ := copyMem_shape copied
      dsimp only at last
      split at last
      · rw [abandonChild] at last
        rcases of_bind last with ⟨_, _, more⟩
        rcases of_bind more with ⟨m₃, _, done⟩
        cases done
        rw [shape]
        exact .abandoned stack m m₁ m₂ m₃ rfl rfl
      · have value := congrArg Prod.fst (Except.ok.inj last)
        have state := congrArg Prod.snd (Except.ok.inj last)
        rw [shape] at value state
        exact .started stack m m₁ m₂ some value.symm state.symm

/-- A `copy_process` that returns the number of the child. -/
theorem copyProcess_started (pid : 0 ≤ k.lastPid) (run : copyProcess k nr = .ok (k.lastPid, k')) :
    ∃ stack m m₁ m₂, (getFreePages k.memory 5).1 ≠ 0 ∧
      k' = (startChild ((setStartCode (beforeCopy k nr (getFreePages k.memory 5).1 stack m₁ m₂)
        (getFreePages k.memory 5).1 userStartAddr).setMemory m) (getFreePages k.memory 5).1).2 := by
  have failed : k.lastPid ≠ -eagain := by
    unfold eagain
    omega
  cases copyProcess_ends run with
  | noStruct m value => exact absurd value failed
  | noStack m m₁ some value => exact absurd value failed
  | abandoned stack m m₁ m₂ m₃ value => exact absurd value failed
  | started stack m m₁ m₂ some value state => exact ⟨stack, m, m₁, m₂, some, state⟩

theorem copyProcess_forked (pid : 0 ≤ k.lastPid) (run : copyProcess k nr = .ok (k.lastPid, k'))
    (own : (getFreePages k.memory 5).1 ≠ k.current) : Forked k k' nr (getFreePages k.memory 5).1 := by
  rcases copyProcess_started pid run with ⟨stack, m, m₁, m₂, -, state⟩
  rw [state]
  exact beforeCopy_forked own

/-- A `copy_process` that failed and gave its slot back changed the structure of the child at most. -/
theorem copyProcess_refused (pid : 0 ≤ k.lastPid) (free : k.task nr = 0) (run : copyProcess k nr = .ok (-eagain, k'))
    (back : k'.task = k.task) : k'.current = k.current ∧ k'.lastPid = k.lastPid ∧
      ∀ q, q ≠ (getFreePages k.memory 5).1 → k'.structs q = k.structs q := by
  cases copyProcess_ends run with
  | noStruct m _ state =>
    rw [state]
    exact ⟨rfl, rfl, fun _ _ => rfl⟩
  | noStack m m₁ some _ state =>
    have slot : k'.task nr = (getFreePages k.memory 5).1 := by
      rw [state]
      exact Function.update_self ..
    rw [back, free] at slot
    exact absurd slot.symm some
  | abandoned stack m m₁ m₂ m₃ _ state =>
    rw [state]
    refine ⟨rfl, rfl, ?_⟩
    intro q other
    simp only [setStartCode, beforeCopy, setUpStack, placeStack, placeTask, Process.setStruct, Process.setMemory,
      Process.setTask, Function.update_of_ne other]
  | started stack m m₁ m₂ _ value =>
    unfold eagain at value
    omega

end Fork

section Release

theorem releaseFrom_slot {k : Process} {p : Word} {nr : Nat} {m₁ m₂ : Memory} (here : k.task nr = p)
    (freed : freePages k.memory p 5 = .ok m₁) (freed' : freePages m₁ (k.kernelStackbottom nr) 8 = .ok m₂)
    {start left : Nat} (after : start ≤ nr) (before : nr < start + left) (first : ∀ i, start ≤ i → i < nr → k.task i ≠ p) :
    ∃ k', releaseFrom k p start left = .ok k' ∧ k'.memory = m₂ := by
  induction left generalizing start with
  | zero => omega
  | succ left ih =>
    rw [releaseFrom]
    by_cases now : start = nr
    · subst now
      have eight : (kernelStackSize >>> 12).toNat = 8 := by decide
      rw [if_pos here, eight]
      exact ⟨_, (bind_ok freed).trans ((bind_ok freed').trans rfl), rfl⟩
    · rw [if_neg (first start (Nat.le_refl _) (by omega))]
      exact ih (by omega) (by omega) fun i above below => first i (by omega) below

end Release

end K210Linux.Kernel
