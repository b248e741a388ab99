import K210Linux.Kernel.ForkContract
import K210Linux.Kernel.UserStore
import K210Linux.Kernel.UserCalls
import K210Linux.Lib.Outcome

namespace K210Linux.Kernel

open K210Linux.Mm Outcome

/-- The pages of the task in slot `i` and its kernel stack are frames of the kernel. -/
def Process.Owns (k : Process) (held : Finset Nat) (i : Nat) : Prop :=
  ∃ r s, k.task i = frameAddr r ∧ k.kernelStackbottom i = frameAddr s ∧ Finset.Ico r (r + 5) ⊆ held ∧
    Finset.Ico s (s + 8) ⊆ held \ Finset.Ico r (r + 5)

/-- The state in which a task makes a system call: exact counters, its own directory in use, addresses
    taken as user addresses, and the pages of dead tasks still held for them. -/
structure UserWf (pool : Pool) (dirs : Finset Word) (held : Finset Nat) (k : Process) : Prop where
  wf : Wf pool dirs held k.memory
  currentDir : k.memory.pageDirTable = (k.structs k.current).pageDirTable
  mode : k.fsIsKernel = false
  zombies : ∀ i, 0 < i → i < nrTasks → k.task i ≠ 0 → (k.structs (k.task i)).state = .zombie → k.Owns held i

namespace UserCall

/-- The call has `verify_area` go over all it stores to. -/
def Verifies : UserCall → Prop
  | read _ buf count => count.toNat + buf.toNat % 4096 < 2 ^ 31
  | pipe _ => False
  | _ => True

/-- The stores of a call that does not verify. -/
def stores (env : Environment) (k : Process) : UserCall → List (Word × Byte)
  | read fd buf count =>
    if nrOpen ≤ fd ∨ count.msb ∨ count = 0 then []
    else
      match (k.structs k.current).filp fd with
      | none => []
      | some f => byteStores buf (env.deliver k f count).2
  | pipe fildes =>
    match (List.range nrFile).filter (fun f => k.fCount f = 0),
        (List.range nrOpen).filter (fun fd => (k.structs k.current).filp fd = none) with
    | f₀ :: f₁ :: _, fd₀ :: fd₁ :: _ =>
      if (getPipeInode env (openPipe k f₀ f₁ fd₀ fd₁)).1 = none then []
      else byteStores fildes (longBytes (BitVec.ofNat 32 fd₀)) ++
        byteStores (fildes + 8) (longBytes (BitVec.ofNat 32 fd₁))
    | _, _ => []
  | _ => []

end UserCall

section Pieces

variable {pool : Pool} {dirs : Finset Word} {held : Finset Nat} {k k' : Process} {env : Environment}
variable {m m' : Memory} {addr : Word}

theorem mem_byteStores {bytes : List Byte} {w : Word × Byte} (member : w ∈ byteStores addr bytes) :
    ∃ i, i < bytes.length ∧ w.1 = addr + BitVec.ofNat 64 i := by
  induction bytes generalizing addr with
  | nil => cases member
  | cons b bytes ih =>
    rcases List.mem_cons.mp member with rfl | later
    · exact ⟨0, Nat.succ_pos _, (BitVec.add_zero _).symm⟩
    · obtain ⟨i, inside, same⟩ := ih later
      refine ⟨i + 1, Nat.succ_lt_succ inside, ?_⟩
      rw [same, BitVec.add_assoc, Nat.add_comm, BitVec.ofNat_add]
      rfl

/-- Stores to a range that was verified. -/
theorem verified_stores {size : BitVec 32} {bytes : List Byte} (wf : Wf pool dirs held m)
    (verified : verifyArea m addr size = .ok m') (fits : size.toNat + addr.toNat % 4096 < 2 ^ 31)
    (length : bytes.length ≤ size.toNat) : Harmless dirs m' (byteStores addr bytes) := by
  obtain ⟨done, own⟩ := verifyArea_cases wf verified
  apply harmless_of_unshared
  intro w member
  obtain ⟨i, inside, same⟩ := mem_byteStores member
  rw [same, Memory.slotOf, done.control.pageDirTable]
  exact own fits i (by omega)

theorem harmless_congr {stores : List (Word × Byte)} (wf : Wf pool dirs held m)
    (leaf : ∀ s ∈ leafSlots dirs, m'.leafOf s = m.leafOf s)
    (data : ∀ g, m.IsData dirs g → m'.phys (framePage g) = m.phys (framePage g)) (control : SameControl m m') :
    Harmless dirs m' stores ↔ Harmless dirs m stores := by
  have target : ∀ s ∈ leafSlots dirs, m'.view.leafTarget s = m.view.leafTarget s := by
    intro s hs
    simp only [View.leafTarget, Memory.view, leaf s hs]
  have slot : ∀ addr, m'.slotOf addr = m.slotOf addr := by
    intro addr
    rw [Memory.slotOf, Memory.slotOf, control.pageDirTable]
  have seen : ∀ g, SeenByOthers dirs m' g ↔ SeenByOthers dirs m g := by
    intro g
    unfold SeenByOthers
    rw [control.pageDirTable]
    exact exists_congr fun s => and_congr_right fun hs => by rw [target s hs]
  have last : ∀ g, SeenByOthers dirs m g → ∀ o, lastStored m' g o stores = lastStored m g o stores := by
    intro g visible o
    refine lastStored_congr (fun addr g _ => ?_) visible o
    rw [slot, target _ (slotOf_mem wf addr)]
  refine forall_congr' fun g => ?_
  rw [seen g]
  refine forall_congr' fun visible => ?_
  rw [data g (visible.in_use wf).2]
  refine forall_congr' fun o => ?_
  rw [last g visible o]

/-- Where `sys_waitpid` finds a child to report. -/
theorem waitScan_found {pid : Int} {untraced flag flag' : Bool} {n : Nat} {p : Word}
    (found : waitScan k pid untraced n flag = (some p, flag')) :
    ∃ i, 0 < i ∧ i < n ∧ k.task i = p ∧ p ≠ 0 ∧ waitMatches k p pid = true ∧
      ((k.structs p).state = .stopped ∨ (k.structs p).state = .zombie) := by
  induction n generalizing flag with
  | zero => cases found
  | succ n ih =>
    rw [waitScan] at found
    split at found
    · cases found
    rename_i positive
    have later : ∀ flag, waitScan k pid untraced n flag = (some p, flag') → ∃ i, 0 < i ∧ i < n + 1 ∧ k.task i = p ∧
        p ≠ 0 ∧ waitMatches k p pid = true ∧
          ((k.structs p).state = .stopped ∨ (k.structs p).state = .zombie) := by
      intro flag run
      obtain ⟨i, low, high, rest⟩ := ih run
      exact ⟨i, low, by omega, rest⟩
    split at found
    · exact later _ found
    rename_i skip
    simp only [not_or, not_not] at skip
    split at found
    · rename_i stopped
      split at found
      · cases found
        exact ⟨n, by omega, by omega, rfl, skip.1, skip.2.2, .inl stopped⟩
      · exact later _ found
    · rename_i zombie
      cases found
      exact ⟨n, by omega, by omega, rfl, skip.1, skip.2.2, .inr zombie⟩
    · exact later _ found

theorem releaseFrom_found {p : Word} {i left : Nat} (slot : ∃ j, i ≤ j ∧ j < i + left ∧ k.task j = p) :
    ∃ j, i ≤ j ∧ j < i + left ∧ k.task j = p ∧ releaseFrom k p i left =
      freePages k.memory p 5 >>= fun m => freePages m (k.kernelStackbottom j) 8 >>= fun m =>
        .ok { k.setTask j 0 with
          memory := m
          kernelStackbottom := Function.update k.kernelStackbottom j 0
          kernelStack := Function.update k.kernelStack j 0 } := by
  induction left generalizing i with
  | zero =>
    obtain ⟨j, low, high, _⟩ := slot
    omega
  | succ left ih =>
    by_cases here : k.task i = p
    · refine ⟨i, Nat.le_refl _, by omega, here, ?_⟩
      rw [releaseFrom, if_pos here]
      rfl
    · obtain ⟨j, low, high, same, run⟩ := ih (i := i + 1) (by
        obtain ⟨j, low, high, same⟩ := slot
        refine ⟨j, ?_, by omega, same⟩
        rcases Nat.eq_or_lt_of_le low with rfl | later
        · exact absurd same here
        · exact later)
      refine ⟨j, by omega, by omega, same, ?_⟩
      rw [releaseFrom, if_neg here, run]

/-- The state after the task in slot `j` was released: only counters changed in memory. -/
structure Released (k k' : Process) (j : Nat) (counts : Nat → Byte) : Prop where
  memory : k'.memory = { k.memory with memMap := counts }
  structs : k'.structs = k.structs
  current : k'.current = k.current
  task : k'.task = Function.update k.task j 0
  mode : k'.fsIsKernel = k.fsIsKernel

/-- `release` of a task whose pages are held gives these back. -/
theorem release_owned {p : Word} (wf : Wf pool dirs held k.memory) (nonzero : p ≠ 0)
    (slot : ∃ j, 0 < j ∧ j < nrTasks ∧ k.task j = p)
    (owned : ∀ j, 0 < j → j < nrTasks → k.task j = p → k.Owns held j) :
    ∃ j r s counts k', k.task j = p ∧ p = frameAddr r ∧ k.kernelStackbottom j = frameAddr s ∧
      release k p = .ok k' ∧ Released k k' j counts ∧
      Wf pool dirs ((held \ Finset.Ico r (r + 5)) \ Finset.Ico s (s + 8)) { k.memory with memMap := counts } := by
  obtain ⟨j₀, low₀, high₀, same₀⟩ := slot
  have sixtyFour : nrTasks = 64 := rfl
  obtain ⟨j, low, high, same, run⟩ := releaseFrom_found
    (show ∃ j, 1 ≤ j ∧ j < 1 + (nrTasks - 1) ∧ k.task j = p from ⟨j₀, by omega, by omega, same₀⟩)
  obtain ⟨r, s, task, stack, pages, frames⟩ := owned j (by omega) (by omega) same
  obtain ⟨counts₁, freed₁, wf₁⟩ := wf.freePages_run pages
  obtain ⟨counts₂, freed₂, wf₂⟩ := wf₁.freePages_run frames
  refine ⟨j, r, s, counts₂, { k.setTask j 0 with
    memory := { k.memory with memMap := counts₂ }
    kernelStackbottom := Function.update k.kernelStackbottom j 0
    kernelStack := Function.update k.kernelStack j 0 }, same, same.symm.trans task, stack, ?_,
    ⟨rfl, rfl, rfl, rfl, rfl⟩, wf₂⟩
  rw [release, if_neg nonzero, run, stack, ← same, task, bind_ok freed₁, bind_ok freed₂]

end Pieces

section Calls

variable {pool : Pool} {dirs : Finset Word} {held : Finset Nat} {k k' : Process} {env : Environment}
variable {m m₁ m' : Memory} {addr : Word} {image : Word → Nat → Word}

/-- When the length overflows `verify_area` does nothing. -/
theorem verifyArea_overflow {size : BitVec 32} (positive : ¬ size.msb = true)
    (overflow : ¬ size.toNat + addr.toNat % 4096 < 2 ^ 31) : verifyArea m addr size = .ok m := by
  have small : size.toNat < 2 ^ 31 := by
    rw [BitVec.msb_eq_decide, decide_eq_true_eq] at positive
    omega
  have sum : (size + (addr &&& (pageSize - 1)).setWidth 32).toNat = size.toNat + addr.toNat % 4096 := by
    rw [BitVec.toNat_add, BitVec.toNat_setWidth, show (pageSize - 1 : Word) = 0xFFF from rfl, toNat_and_mask]
    omega
  have negative : positivePart (size + (addr &&& (pageSize - 1)).setWidth 32) = 0 := by
    rw [positivePart, if_pos]
    rw [BitVec.msb_eq_decide, sum, decide_eq_true_eq]
    omega
  rw [verifyArea, negative]
  rfl

theorem bytes_isolated {size : BitVec 32} {bytes : List Byte} (wf : Wf pool dirs held m)
    (current : m.pageDirTable = (k.structs k.current).pageDirTable) (mode : k.fsIsKernel = false)
    (user : userStartAddr ≤ addr) (verified : verifyArea m addr size = .ok m₁)
    (fits : size.toNat + addr.toNat % 4096 < 2 ^ 31) (length : bytes.length ≤ size.toNat)
    (run : putFsBytes k image m₁ addr bytes = .ok m') : Isolated dirs m m' := by
  have done := (verifyArea_cases wf verified).1
  have stored := put_fs_bytes done.wf (done.control.pageDirTable.trans current) mode user run
  rw [done.isolated.iff_of_left done.control, stored.isolated_iff done.wf]
  exact verified_stores wf verified fits length

theorem long_isolated {size val : BitVec 32} (wf : Wf pool dirs held m)
    (current : m.pageDirTable = (k.structs k.current).pageDirTable) (mode : k.fsIsKernel = false)
    (user : userStartAddr ≤ addr) (verified : verifyArea m addr size = .ok m₁) (enough : 4 ≤ size.toNat)
    (fits : size.toNat + addr.toNat % 4096 < 2 ^ 31) (run : putFsLong k image m₁ val addr = .ok m') :
    Isolated dirs m m' := by
  have done := (verifyArea_cases wf verified).1
  obtain ⟨_, _, stored⟩ := put_fs_long done.wf (done.control.pageDirTable.trans current) mode user run
  rw [done.isolated.iff_of_left done.control, stored.isolated_iff done.wf]
  exact verified_stores wf verified fits enough

theorem cpStat_isolated {inode : Nat} (inv : UserWf pool dirs held k) (user : userStartAddr ≤ addr)
    (run : cpStat env k inode addr = .ok k') : Isolated dirs k.memory k'.memory := by
  obtain ⟨m₁, verified, run⟩ := of_bind run
  obtain ⟨m₂, put, done⟩ := of_bind run
  cases done
  have length := env.stat_length (k.setMemory m₁) inode
  have size : (BitVec.ofNat 32 statSize).toNat = 48 := rfl
  have bound : statSize = 48 := rfl
  exact bytes_isolated (k := k.setMemory m₁) inv.wf inv.currentDir inv.mode user verified (by omega) (by omega) put

theorem getFsBytes_isolated {m m' : Memory} {addrs : List Word} (wf : Wf pool dirs held m)
    (current : m.pageDirTable = (k.structs k.current).pageDirTable) (mode : k.fsIsKernel = false)
    (run : getFsBytes env k m addrs = .ok m') :
    Wf pool dirs held m' ∧ Isolated dirs m m' ∧ SameControl m m' := by
  induction addrs generalizing m with
  | nil =>
    cases run
    exact ⟨wf, .refl dirs _, .refl _⟩
  | cons addr addrs ih =>
    rw [getFsBytes, mode, if_neg Bool.false_ne_true] at run
    obtain ⟨⟨a, m₁⟩, found, run⟩ := of_bind run
    have first : Wf pool dirs held m₁ ∧ Isolated dirs m m₁ ∧ SameControl m m₁ := by
      by_cases user : userStartAddr ≤ addr
      · obtain ⟨wf₁, present, _⟩ := user_addr_to_kernel wf current user found
        have opened := Stored.of_present wf present
        exact ⟨wf₁, (opened.isolated_iff wf).mpr (fun _ _ _ _ _ last => by cases last), opened.control⟩
      · rw [userAddrToKernel, if_pos (BitVec.not_le.mp user)] at found
        cases found
        exact ⟨wf, .refl dirs m, .refl m⟩
    obtain ⟨wf₁, isolated₁, control₁⟩ := first
    obtain ⟨wf', isolated', control'⟩ := ih wf₁ (control₁.pageDirTable.trans current) run
    exact ⟨wf', (isolated₁.iff_of_left control₁).mpr isolated', control₁.trans control'⟩

theorem sysStat_isolated {filename : Word} {value : Int} (inv : UserWf pool dirs held k) (user : userStartAddr ≤ addr)
    (run : sysStat env k filename addr = .ok (value, k')) : Isolated dirs k.memory k'.memory := by
  obtain ⟨m₁, reads, run⟩ := of_bind run
  obtain ⟨wf₁, isolated₁, control₁⟩ := getFsBytes_isolated inv.wf inv.currentDir inv.mode reads
  split at run
  · cases run
    exact isolated₁
  · obtain ⟨k₁, copied, run⟩ := of_bind run
    cases run
    have inv₁ : UserWf pool dirs held (k.setMemory m₁) :=
      ⟨wf₁, control₁.pageDirTable.trans inv.currentDir, inv.mode, inv.zombies⟩
    exact (isolated₁.iff_of_left control₁).mpr (cpStat_isolated inv₁ user copied)

theorem sysFstat_isolated {fd : Nat} {value : Int} (inv : UserWf pool dirs held k) (user : userStartAddr ≤ addr)
    (run : sysFstat env k fd addr = .ok (value, k')) : Isolated dirs k.memory k'.memory := by
  unfold sysFstat at run
  split at run
  · cases run
    exact .refl dirs _
  · split at run
    · cases run
      exact .refl dirs _
    · obtain ⟨k₁, copied, run⟩ := of_bind run
      cases run
      exact cpStat_isolated inv user copied

theorem sysTime_isolated {value : Int} (inv : UserWf pool dirs held k) (user : userStartAddr ≤ addr)
    (run : sysTime env k addr = .ok (value, k')) : Isolated dirs k.memory k'.memory := by
  unfold sysTime at run
  split at run
  · cases run
    exact .refl dirs _
  · obtain ⟨m₁, verified, run⟩ := of_bind run
    obtain ⟨m₂, put, run⟩ := of_bind run
    cases run
    have size : (8 : BitVec 32).toNat = 8 := rfl
    exact long_isolated (k := k.setMemory m₁) inv.wf inv.currentDir inv.mode user verified (by omega) (by omega) put

theorem reap_isolated {p : Word} {value : Waited} {i : Nat} (inv : UserWf pool dirs held k)
    (user : userStartAddr ≤ addr) (verified : verifyArea m addr 4 = .ok k.memory) (wf : Wf pool dirs held m)
    (low : 0 < i) (high : i < nrTasks) (task : k.task i = p) (nonzero : p ≠ 0) (zombie : (k.structs p).state = .zombie)
    (run : reap k image p addr = .ok (value, k')) : Isolated dirs m k'.memory := by
  obtain ⟨k₂, released, run⟩ := of_bind run
  obtain ⟨m₃, put, run⟩ := of_bind run
  cases run
  obtain ⟨j, r, s, counts, k₃, _, _, _, done, gone, wf₂⟩ := release_owned (k := addChildTimes k p) inv.wf nonzero
    ⟨i, low, high, task⟩ (fun j low high same => by
      have slot : k.task j = p := same
      exact inv.zombies j low high (slot ▸ nonzero) (slot ▸ zombie))
  rw [done] at released
  cases released
  have memory : k₂.memory = { k.memory with memMap := counts } := gone.memory
  have verification := (verifyArea_cases wf verified).1
  have current : k₂.memory.pageDirTable = (k₂.structs k₂.current).pageDirTable := by
    rw [memory, gone.structs, gone.current]
    simp only [addChildTimes, Process.setStruct, Function.update_self]
    exact inv.currentDir
  have wf₃ : Wf pool dirs ((held \ Finset.Ico r (r + 5)) \ Finset.Ico s (s + 8)) k₂.memory := memory ▸ wf₂
  obtain ⟨_, _, stored⟩ := put_fs_long wf₃ current (gone.mode.trans inv.mode) user put
  have quiet : Isolated dirs k.memory k₂.memory := by
    rw [memory]
    exact ⟨fun _ _ _ => rfl, fun _ _ _ _ _ _ _ => rfl⟩
  have control : SameControl k.memory k₂.memory := by
    rw [memory]
    exact ⟨rfl, rfl, rfl⟩
  have size : (4 : BitVec 32).toNat = 4 := rfl
  have harmless : Harmless dirs k₂.memory (byteStores addr (longBytes (k.structs p).exitCode)) := by
    refine (harmless_congr inv.wf ?_ ?_ control).mpr (verified_stores wf verified (by omega) (by rw [size]; exact Nat.le_refl 4))
    · rw [memory]
      exact fun _ _ => rfl
    · rw [memory]
      exact fun _ _ => rfl
  rw [verification.isolated.iff_of_left verification.control]
  exact (quiet.iff_of_left control).mpr ((stored.isolated_iff wf₃).mpr harmless)

theorem sysWaitpid_isolated {pid : Int} {options : BitVec 32} {value : Waited} (inv : UserWf pool dirs held k)
    (user : userStartAddr ≤ addr) (run : sysWaitpid k image pid addr options = .ok (value, k')) :
    Isolated dirs k.memory k'.memory := by
  obtain ⟨m₁, verified, run⟩ := of_bind run
  obtain ⟨done, _⟩ := verifyArea_cases inv.wf verified
  have size : (4 : BitVec 32).toNat = 4 := rfl
  unfold waitFor at run
  split at run
  · rename_i p flag found
    obtain ⟨i, low, high, task, nonzero, _, state⟩ := waitScan_found found
    split at run
    · obtain ⟨m₂, put, run⟩ := of_bind run
      cases run
      exact long_isolated (k := k.setMemory m₁) inv.wf inv.currentDir inv.mode user verified (by omega) (by omega) put
    · rename_i running
      have inv₁ : UserWf pool dirs held (k.setMemory m₁) :=
        ⟨done.wf, done.control.pageDirTable.trans inv.currentDir, inv.mode, inv.zombies⟩
      exact reap_isolated inv₁ user verified inv.wf low high task nonzero (state.resolve_left running) run
  · split at run
    · cases run
      exact done.isolated
    · cases run
      exact done.isolated
  · cases run
    exact done.isolated

theorem sysRead_isolated_iff {fd : Nat} {count : BitVec 32} {value : Int} (inv : UserWf pool dirs held k)
    (user : userStartAddr ≤ addr) (run : sysRead env k fd addr count = .ok (value, k')) :
    Isolated dirs k.memory k'.memory ↔ (UserCall.read fd addr count).Verifies ∨
      Harmless dirs k.memory ((UserCall.read fd addr count).stores env k) := by
  have nothing : Harmless dirs k.memory [] := fun _ _ _ _ _ last => by cases last
  unfold sysRead at run
  split at run
  · rename_i refused
    cases run
    refine iff_of_true (.refl dirs _) (.inr ?_)
    rw [UserCall.stores, if_pos (refused.imp id .inl)]
    exact nothing
  rename_i accepted
  obtain ⟨small, positive⟩ := not_or.mp accepted
  split at run
  · rename_i closed
    cases run
    refine iff_of_true (.refl dirs _) (.inr ?_)
    simp only [UserCall.stores, closed]
    split
    · exact nothing
    · exact nothing
  · rename_i f opened
    split at run
    · rename_i zero
      cases run
      refine iff_of_true (.refl dirs _) (.inr ?_)
      rw [UserCall.stores, if_pos (.inr (.inr zero))]
      exact nothing
    · rename_i nonzero
      obtain ⟨m₁, verified, run⟩ := of_bind run
      obtain ⟨m₂, put, run⟩ := of_bind run
      cases run
      by_cases fits : count.toNat + addr.toNat % 4096 < 2 ^ 31
      · refine iff_of_true ?_ (.inl fits)
        exact bytes_isolated (k := k.setMemory m₁) inv.wf inv.currentDir inv.mode user verified fits
          (env.deliver_length _ _ _) put
      · rw [verifyArea_overflow positive fits] at verified
        cases verified
        have stored := put_fs_bytes (k := k) inv.wf inv.currentDir inv.mode user put
        have list : (UserCall.read fd addr count).stores env k = byteStores addr (env.deliver k f count).2 := by
          rw [UserCall.stores, if_neg (by rintro (h | h | h) <;> contradiction), opened]
        rw [list, or_iff_right (show ¬ (UserCall.read fd addr count).Verifies from fits)]
        exact stored.isolated_iff inv.wf

theorem getPipeInode_cases (env : Environment) (k : Process) :
    ((getPipeInode env k).1 = none ∧ (getPipeInode env k).2.memory = k.memory) ∨
    ∃ i f, 0 < f ∧ f < pagingPages ∧ k.memory.memMap f = 0 ∧ (getPipeInode env k).1 = some i ∧
      (getPipeInode env k).2.memory = (k.memory.setCount f 1).clearPage (framePage f) ∧
      (getPipeInode env k).2.structs = k.structs ∧ (getPipeInode env k).2.current = k.current ∧
      (getPipeInode env k).2.fsIsKernel = k.fsIsKernel := by
  unfold getPipeInode
  split
  · exact .inl ⟨rfl, rfl⟩
  · rename_i i _
    rcases getFreePage_cases k.memory with ⟨none, _⟩ | ⟨f, positive, bound, free, found⟩
    · simp only [none, if_true]
      exact .inl ⟨trivial, rfl⟩
    · simp only [found, frameAddr_ne_zero bound, if_false]
      exact .inr ⟨i, f, positive, bound, free, rfl, rfl, rfl, rfl, rfl⟩

/-- The two stores of `sys_pipe`, once its page was taken. -/
theorem pipe_stores_isolated_iff {f : Nat} {v₀ v₁ : BitVec 32} (wf : Wf pool dirs held m)
    (positive : 0 < f) (bound : f < pagingPages) (free : m.memMap f = 0)
    (memory : k.memory = (m.setCount f 1).clearPage (framePage f))
    (current : m.pageDirTable = (k.structs k.current).pageDirTable) (mode : k.fsIsKernel = false)
    (user : userStartAddr ≤ addr) (first : putFsLong k image k.memory v₀ addr = .ok m₁)
    (second : putFsLong k image m₁ v₁ (addr + 8) = .ok m') :
    Isolated dirs m m' ↔ Harmless dirs m (byteStores addr (longBytes v₀) ++ byteStores (addr + 8) (longBytes v₁)) := by
  have has := wf.pool_of_free positive bound free
  have taken := wf.take_free positive bound free
  rw [← memory] at taken
  have leaf : ∀ s ∈ leafSlots dirs, k.memory.leafOf s = m.leafOf s := by
    intro s hs
    rw [memory, wf.leafOf_clear has free s hs]
  have data : ∀ g, m.IsData dirs g → k.memory.phys (framePage g) = m.phys (framePage g) := by
    intro g used
    have other : framePage g ≠ framePage f := fun same => used.1 (framePage_inj same ▸ free)
    rw [memory]
    exact Function.update_of_ne other _ _
  have control : SameControl m k.memory := by
    rw [memory]
    exact ⟨rfl, rfl, rfl⟩
  have quiet : Isolated dirs m k.memory := by
    refine ⟨fun s hs _ => leaf s hs, fun s hs _ e mapped o _ => ?_⟩
    obtain ⟨g, _, page, _⟩ := wf.leaf_frame hs mapped
    rw [page, data g (wf.isData_of_leaf hs mapped page)]
  have here : k.memory.pageDirTable = (k.structs k.current).pageDirTable := control.pageDirTable.trans current
  obtain ⟨below, _, stored₁⟩ := put_fs_long taken here mode user first
  have later : userStartAddr ≤ addr + 8 := by
    have low : userStartAddr.toNat = 0xC0000000 := rfl
    have high : userEndAddr.toNat = 0x1BFFFFFFF := rfl
    rw [BitVec.le_def] at user below ⊢
    rw [high] at below
    rw [low] at user ⊢
    rw [BitVec.toNat_add, show (8 : Word).toNat = 8 from rfl]
    omega
  obtain ⟨_, _, stored₂⟩ := put_fs_long stored₁.wf (stored₁.control.pageDirTable.trans here) mode later second
  rw [quiet.iff_of_left control, (stored₁.append taken stored₂).isolated_iff taken]
  exact harmless_congr wf leaf data control

theorem sysPipe_isolated_iff {value : Int} (inv : UserWf pool dirs held k) (user : userStartAddr ≤ addr)
    (run : sysPipe env k addr = .ok (value, k')) :
    Isolated dirs k.memory k'.memory ↔ Harmless dirs k.memory ((UserCall.pipe addr).stores env k) := by
  have nothing : Harmless dirs k.memory [] := fun _ _ _ _ _ last => by cases last
  unfold sysPipe at run
  split at run
  · rename_i f₀ f₁ _ fd₀ fd₁ _ files descriptors
    have current : k.memory.pageDirTable =
        ((openPipe k f₀ f₁ fd₀ fd₁).structs k.current).pageDirTable := by
      simp only [openPipe, Process.setStruct, Function.update_self]
      exact inv.currentDir
    simp only [UserCall.stores, files, descriptors]
    rcases getPipeInode_cases env (openPipe k f₀ f₁ fd₀ fd₁) with
      ⟨failed, memory⟩ | ⟨i, f, positive, bound, free, found, memory, structs, task, mode⟩
    · rw [if_pos failed]
      refine iff_of_true ?_ nothing
      split at run
      · rename_i k₁ result
        cases run
        rw [result] at memory
        change Isolated dirs k.memory k₁.memory
        rw [show k₁.memory = k.memory from memory]
        exact .refl dirs _
      · rename_i result
        rw [result] at failed
        cases failed
    · rw [if_neg (by rw [found]; simp)]
      split at run
      · rename_i result
        rw [result] at found
        cases found
      · rename_i inode k₁ result
        rw [result] at memory structs task mode
        obtain ⟨m₁, first, run⟩ := of_bind run
        obtain ⟨m₂, second, run⟩ := of_bind run
        cases run
        have directory : k.memory.pageDirTable = (k₁.structs k₁.current).pageDirTable := by
          rw [structs, task]
          exact current
        exact pipe_stores_isolated_iff (k := setPipeFiles k₁ f₀ f₁ (some inode)) inv.wf positive bound free memory
          directory (mode.trans inv.mode) user first second
  · rename_i short
    cases run
    refine iff_of_true (.refl dirs _) ?_
    simp only [UserCall.stores]
    exact nothing

end Calls

/-- A system call that stores its results in user memory leaves what other tasks see of theirs alone
    exactly when it has `verify_area` break the sharing of all it stores to, or when every byte it leaves
    in a page that another task maps is the one that was there. -/
theorem user_call_isolated_iff {pool : Pool} {dirs : Finset Word} {held : Finset Nat} {k k' : Process}
    (env : Environment) (inv : UserWf pool dirs held k) (call : UserCall) (user : userStartAddr ≤ call.buffer)
    (run : call.run env k = .ok k') :
    Isolated dirs k.memory k'.memory ↔ call.Verifies ∨ Harmless dirs k.memory (call.stores env k) := by
  cases call with
  | read fd buf count =>
    obtain ⟨⟨value, k₁⟩, done, rfl⟩ := of_map run
    exact sysRead_isolated_iff inv user done
  | pipe fildes =>
    obtain ⟨⟨value, k₁⟩, done, rfl⟩ := of_map run
    rw [or_iff_right (show ¬ (UserCall.pipe fildes).Verifies from id)]
    exact sysPipe_isolated_iff inv user done
  | waitpid pid statAddr options =>
    obtain ⟨⟨value, k₁⟩, done, rfl⟩ := of_map run
    exact iff_of_true (sysWaitpid_isolated inv user done) (.inl trivial)
  | stat filename statbuf =>
    obtain ⟨⟨value, k₁⟩, done, rfl⟩ := of_map run
    exact iff_of_true (sysStat_isolated inv user done) (.inl trivial)
  | fstat fd statbuf =>
    obtain ⟨⟨value, k₁⟩, done, rfl⟩ := of_map run
    exact iff_of_true (sysFstat_isolated inv user done) (.inl trivial)
  | time tloc =>
    obtain ⟨⟨value, k₁⟩, done, rfl⟩ := of_map run
    exact iff_of_true (sysTime_isolated inv user done) (.inl trivial)

section Example

variable {pool : Pool} {dirs : Finset Word} {held : Finset Nat} {k : Process} {image : Word → Nat → Word}
variable {m : Memory} {addr e : Word}

theorem lastStored_elsewhere {g o : Nat} {stores : List (Word × Byte)} (other : ∀ w ∈ stores, w.1.toNat % 4096 ≠ o) :
    lastStored m g o stores = none := by
  induction stores with
  | nil => rfl
  | cons store stores ih =>
    obtain ⟨addr, b⟩ := store
    rw [lastStored, ih (fun w member => other w (List.mem_cons_of_mem _ member))]
    exact if_neg (fun both => other _ List.mem_cons_self both.2)

/-- An environment with one free inode. -/
def quietEnvironment : Environment where
  image := fun _ _ => 0
  deliver := fun _ _ _ => (0, [])
  getEmptyInode := fun _ => some 0
  namei := fun _ _ => ([], none)
  stat := fun _ _ => List.replicate statSize 0
  currentTime := 0
  deliver_length := fun _ _ _ => Nat.zero_le _
  stat_length := fun _ _ => List.length_replicate

/-- A parent right after `fork`, with a page of ones that it shares with its child. -/
def sharingProcess : Process := sampleProcess (forkedTask fun _ => 1) 0x4000000

theorem sharing_wf (wf : Wf bootPool dirs ∅ m) (current : m.pageDirTable = parentDir) :
    UserWf bootPool dirs ∅ (sampleProcess m 0x4000000) := by
  refine ⟨wf, current, rfl, fun i low _ nonzero => absurd ?_ nonzero⟩
  exact if_neg (by omega)

theorem sample_files (m : Memory) (limit : Word) : ∃ files descriptors,
    (List.range nrFile).filter (fun f => (sampleProcess m limit).fCount f = 0) = 0 :: 1 :: files ∧
    (List.range nrOpen).filter (fun fd => ((sampleProcess m limit).structs (sampleProcess m limit).current).filp fd =
      none) = 0 :: 1 :: descriptors :=
  ⟨_, _, rfl, rfl⟩

theorem quiet_pipe_inode (k : Process) (available : ∃ g, 0 < g ∧ g < pagingPages ∧ k.memory.memMap g = 0) :
    ∃ f k', getPipeInode quietEnvironment k = (some 0, k') ∧ 0 < f ∧ f < pagingPages ∧ k.memory.memMap f = 0 ∧
      k'.memory = (k.memory.setCount f 1).clearPage (framePage f) ∧ k'.fsIsKernel = k.fsIsKernel := by
  rcases getFreePage_cases k.memory with ⟨_, full⟩ | ⟨f, positive, bound, free, found⟩
  · obtain ⟨g, positive, bound, zero⟩ := available
    exact absurd zero (full g positive bound)
  · refine ⟨f, { k.setMemory ((k.memory.setCount f 1).clearPage (framePage f)) with
      iCount := Function.update k.iCount 0 2 }, ?_, positive, bound, free, rfl, rfl⟩
    simp only [getPipeInode, quietEnvironment, found, frameAddr_ne_zero bound, if_false]

/-- The stores of `sys_pipe` in that state. -/
theorem sharing_stores {words : Nat → Word} (shared : MapsShared dirs words m) (fildes : Word) :
    (UserCall.pipe fildes).stores quietEnvironment (sampleProcess m 0x4000000) =
      byteStores fildes (longBytes 0) ++ byteStores (fildes + 8) (longBytes 1) := by
  obtain ⟨files, descriptors, first, second⟩ := sample_files m 0x4000000
  obtain ⟨f, k', found, _⟩ := quiet_pipe_inode (openPipe (sampleProcess m 0x4000000) 0 1 0 1) shared.free
  simp only [UserCall.stores, first, second]
  rw [found, if_neg (by exact nofun)]
  rfl

theorem sharing_pipe_runs {words : Nat → Word} (shared : MapsShared dirs words m) (parent : parentDir ∈ dirs) :
    ∃ k', (UserCall.pipe userStartAddr).run quietEnvironment (sampleProcess m 0x4000000) = .ok k' := by
  obtain ⟨files, descriptors, first, second⟩ := sample_files m 0x4000000
  obtain ⟨f, k₁, found, positive, bound, free, memory, mode⟩ :=
    quiet_pipe_inode (openPipe (sampleProcess m 0x4000000) 0 1 0 1) shared.free
  have before : m.memMap f = 0 := free
  have has := shared.wf.pool_of_free positive bound before
  obtain ⟨e, leaf, _⟩ := shared.leaf parentDir (.inl rfl)
  have hs : (parentDir, 0, 0) ∈ leafSlots dirs := mem_leafSlots.mpr ⟨parent, by decide, by decide⟩
  have wf₁ : Wf bootPool dirs (insert f ∅) k₁.memory := by
    rw [memory]
    exact shared.wf.take_free positive bound before
  have current : k₁.memory.pageDirTable = parentDir := by
    rw [memory]
    exact shared.current
  have leaf₁ : k₁.memory.leafOf (parentDir, 0, 0) = some e := by
    rw [memory, ← leaf]
    exact shared.wf.leafOf_clear has before _ hs
  have slot : ∀ (addr : Word) (m' : Memory), m'.pageDirTable = parentDir → addr >>> 12 = userStartAddr >>> 12 →
      m'.slotOf addr = (parentDir, 0, 0) := by
    intro addr m' directory page
    rw [slotOf_congr m' page, Memory.slotOf, directory, show getPageDirId userStartAddr = 0 by decide,
      show getPageEntryId userStartAddr = 0 by decide]
  obtain ⟨m₁, put₁, stored₁, _⟩ := put_fs_long_runs (k := setPipeFiles k₁ 0 1 (some 0)) quietEnvironment.image
    (BitVec.ofNat 32 0) wf₁ mode (by rw [current]; decide) (BitVec.le_refl _) (by decide) (by decide)
    ((slot userStartAddr _ current rfl).symm ▸ leaf₁)
  have current₁ := stored₁.control.pageDirTable.trans current
  obtain ⟨m₂, put₂, _⟩ := put_fs_long_runs (k := setPipeFiles k₁ 0 1 (some 0)) quietEnvironment.image
    (BitVec.ofNat 32 1) stored₁.wf mode (by rw [current₁]; decide) (show userStartAddr ≤ userStartAddr + 8 by decide) (by decide) (by decide)
    ((slot (userStartAddr + 8) _ current₁ (by decide)).symm ▸ stored₁.kept _ hs e leaf₁)
  have put : putFsLong (setPipeFiles k₁ 0 1 (some 0)) quietEnvironment.image (setPipeFiles k₁ 0 1 (some 0)).memory
    (BitVec.ofNat 32 0) userStartAddr = .ok m₁ := put₁
  refine ⟨(setPipeFiles k₁ 0 1 (some 0)).setMemory m₂, ?_⟩
  have whole : sysPipe quietEnvironment (sampleProcess m 0x4000000) userStartAddr =
      .ok (0, (setPipeFiles k₁ 0 1 (some 0)).setMemory m₂) := by
    simp only [sysPipe, first, second, found]
    rw [bind_ok put, bind_ok put₂]
  rw [UserCall.run, whole]
  rfl

/-- The call of `sys_pipe` puts descriptor 0 over a byte that the child sees. -/
theorem sharing_pipe_not_isolated {words : Nat → Word} (shared : MapsShared dirs words m) (child : childDir ∈ dirs)
    (byte : byteAt words 0 ≠ 0) {k' : Process}
    (run : (UserCall.pipe userStartAddr).run quietEnvironment (sampleProcess m 0x4000000) = .ok k') :
    ¬ Isolated dirs m k'.memory := by
  obtain ⟨⟨value, k₁⟩, done, rfl⟩ := of_map run
  have inv := sharing_wf shared.wf shared.current
  intro isolated
  have harmless := (sysPipe_isolated_iff inv (BitVec.le_refl _) done).mp isolated
  rw [sharing_stores shared] at harmless
  obtain ⟨e, leaf, target, _⟩ := shared.leaf childDir (.inr rfl)
  obtain ⟨e', leaf', target', _⟩ := shared.leaf parentDir (.inl rfl)
  have seen : SeenByOthers dirs m 1279 :=
    ⟨(childDir, 0, 0), mem_leafSlots.mpr ⟨child, by decide, by decide⟩, by rw [shared.current]; decide,
      target ▸ Counted.leafTarget_of_leaf (v := m.view) leaf⟩
  have here : m.view.leafTarget (m.slotOf userStartAddr) = some (framePage 1279) := by
    rw [forkedTask_slot shared]
    exact target' ▸ Counted.leafTarget_of_leaf (v := m.view) leaf'
  have elsewhere : ∀ w ∈ byteStores (userStartAddr + 1) [0, 0, 0] ++ byteStores (userStartAddr + 8) (longBytes 1),
      w.1.toNat % 4096 ≠ 0 := by
    intro w member
    rcases List.mem_append.mp member with near | far
    · obtain ⟨i, small, same⟩ := mem_byteStores near
      rw [same]
      have : i < 3 := small
      interval_cases i <;> decide
    · obtain ⟨i, small, same⟩ := mem_byteStores far
      rw [same]
      have : i < 4 := small
      interval_cases i <;> decide
  have last : lastStored m 1279 0 (byteStores userStartAddr (longBytes 0) ++
      byteStores (userStartAddr + 8) (longBytes 1)) = some 0 := by
    rw [show byteStores userStartAddr (longBytes 0) ++ byteStores (userStartAddr + 8) (longBytes 1) =
      (userStartAddr, 0) :: (byteStores (userStartAddr + 1) [0, 0, 0] ++ byteStores (userStartAddr + 8) (longBytes 1))
        from rfl, lastStored, lastStored_elsewhere elsewhere]
    exact if_pos ⟨here, by decide⟩
  have same : (0 : Byte) = byteAt (m.phys (framePage 1279)) 0 := harmless 1279 seen 0 (by decide) 0 last
  rw [shared.words] at same
  exact byte same.symm

theorem sharingProcess_wf : UserWf bootPool {parentDir, childDir} ∅ sharingProcess :=
  sharing_wf (forkedTask_both fun _ => 1).wf (forkedTask_both fun _ => 1).current

theorem sharingProcess_runs : ∃ k', (UserCall.pipe userStartAddr).run quietEnvironment sharingProcess = .ok k' :=
  sharing_pipe_runs (forkedTask_both fun _ => 1) (Finset.mem_insert_self _ _)

/-- The parent opens a pipe right after `fork`, and the child finds its memory changed. -/
theorem pipe_writes_child_memory : ∃ k', (UserCall.pipe userStartAddr).run quietEnvironment sharingProcess = .ok k' ∧
    ¬ Isolated {parentDir, childDir} sharingProcess.memory k'.memory := by
  obtain ⟨k', run⟩ := sharingProcess_runs
  refine ⟨k', run, ?_⟩
  rw [sharingProcess, sampleProcess_memory]
  exact sharing_pipe_not_isolated (forkedTask_both fun _ => 1)
    (Finset.mem_insert_of_mem (Finset.mem_singleton_self _)) (by decide) run

theorem sharingProcess_isolated_iff :
    ∃ k', (UserCall.pipe userStartAddr).run quietEnvironment sharingProcess = .ok k' ∧
      (Isolated {parentDir, childDir} sharingProcess.memory k'.memory ↔ (UserCall.pipe userStartAddr).Verifies ∨
        Harmless {parentDir, childDir} sharingProcess.memory
          ((UserCall.pipe userStartAddr).stores quietEnvironment sharingProcess)) := by
  obtain ⟨k', run⟩ := sharingProcess_runs
  refine ⟨k', run, ?_⟩
  have low : userStartAddr ≤ (UserCall.pipe userStartAddr).buffer := by
    rw [UserCall.buffer]
    exact BitVec.le_refl _
  exact user_call_isolated_iff quietEnvironment sharingProcess_wf (UserCall.pipe userStartAddr) low run

end Example

end K210Linux.Kernel
