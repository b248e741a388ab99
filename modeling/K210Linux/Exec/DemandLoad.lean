import K210Linux.Exec.PageLoad

namespace K210Linux.Exec

open K210Linux.Mm K210Linux.Kernel K210Linux.Fs Outcome

variable {pool : Pool} {dirs : Finset Word} {held : Finset Nat} {ex : Header} {address : Word}

/-- A fault on a page that is not there and that no other task can share, with memory to spare. -/
structure PageFault (pool : Pool) (dirs : Finset Word) (held : Finset Nat) (k : Process) (address : Word) : Prop where
  wf : Wf pool dirs held k.memory
  absent : k.memory.leafOf (k.memory.slotOf address) = none
  two : TwoFree k.memory
  alone : sharePage k k.memory address = .ok (false, k.memory)

/-- `do_no_page` maps a page with these bytes. -/
def PageLoaded (k : Process) (fs : FileSystem) (address : Word) (byte : Nat → Except String (BitVec 8)) : Prop :=
  ∃ m' f, f < pagingPages ∧ doNoPage k fs k.memory address = .ok m' ∧ walk m' address = .found (frameAddr f) ∧
    ∀ o, o < 4096 → byte o = .ok (byteAt (m'.phys (framePage f)) o)

/-- The bytes of a program that belong to a page. -/
def programByte (fs : FileSystem) (ino : Nat) (ex : Header) (address : Word) (o : Nat) : Except String (BitVec 8) :=
  if address.toNat + o < (endData ex).toNat then content fs ino (1024 + (address.toNat - 0xC0000000) + o) else .ok 0

/-- Programs with this header have the page loaded as it is in the file. -/
def LoadsRight (ex : Header) (address : Word) : Prop :=
  ∀ fs ino cred k pool dirs held, openProgram fs ino cred = .program ex →
    PageFault pool dirs held (startProgram k ino ex) address →
    PageLoaded (startProgram k ino ex) fs address (programByte fs ino ex address)

/-- The blocks of the page are blocks that a file can have, and the end of the program is not so far
    behind the page that the difference changes its sign as an `int`. -/
def InReach (ex : Header) (address : Word) : Prop :=
  (address.toNat - 0xC0000000) / 1024 + 4 < 7 + 512 + 512 * 512 ∧
    (endData ex).toNat ≤ address.toNat + 4096 + 2 ^ 31

/-- An address of the program on a page boundary. -/
structure InProgram (ex : Header) (address : Word) : Prop where
  noWrap : ex.text.toNat + ex.data.toNat < 2 ^ 32
  aligned : address &&& 0xFFF = 0
  start : 0xC0000000 ≤ address
  inside : address < endData ex

theorem toNat_endData (ex : Header) :
    (endData ex).toNat = ex.data.toNat + (0xC0000000 + ex.text.toNat) % 2 ^ 32 := by
  have one := ex.data.isLt
  have two := ex.text.isLt
  rw [endData, BitVec.toNat_add, BitVec.toNat_setWidth, BitVec.toNat_setWidth, BitVec.toNat_add]
  simp only [BitVec.ofNat_eq_ofNat, BitVec.toNat_ofNat]
  omega

theorem InProgram.bounds (program : InProgram ex address) :
    address.toNat % 4096 = 0 ∧ 0xC0000000 ≤ address.toNat ∧ address.toNat < (endData ex).toNat ∧
      (endData ex).toNat < 0xC0000000 + 2 ^ 32 := by
  have low := congrArg BitVec.toNat program.aligned
  rw [toNat_and_mask] at low
  have start : 0xC0000000 ≤ address.toNat := program.start
  have inside : address.toNat < (endData ex).toNat := program.inside
  have noWrap := program.noWrap
  have value := toNat_endData ex
  exact ⟨low, start, inside, by omega⟩

theorem InProgram.masked (program : InProgram ex address) : address &&& ~~~ (pageSize - 1) = address := by
  apply BitVec.eq_of_toNat_eq
  have low := program.bounds.1
  rw [toNat_masked]
  omega

theorem InProgram.offset (program : InProgram ex address) :
    (address - 0xC0000000).toNat = address.toNat - 0xC0000000 := by
  rw [BitVec.toNat_sub_of_le program.start]
  rfl

theorem InProgram.block (program : InProgram ex address) :
    ((1 + (address - 0xC0000000) / 1024).setWidth 32 : BitVec 32).toNat =
      1 + (address.toNat - 0xC0000000) / 1024 := by
  rcases program.bounds with ⟨_, start, inside, top⟩
  rw [BitVec.toNat_setWidth, BitVec.toNat_add, BitVec.toNat_udiv, program.offset]
  simp only [BitVec.ofNat_eq_ofNat, BitVec.toNat_ofNat, Nat.reducePow, Nat.reduceMod]
  omega

/-- The `int` that counts the bytes behind the end of the program. -/
theorem InProgram.tail (program : InProgram ex address) :
    positivePart ((address - 0xC0000000 + 0xC0000000 + 4096 - endData ex).setWidth 32) =
      if (endData ex).toNat ≤ address.toNat + 4096 + 2 ^ 31 then address.toNat + 4096 - (endData ex).toNat
      else 2 ^ 32 + address.toNat + 4096 - (endData ex).toNat := by
  rcases program.bounds with ⟨_, start, inside, top⟩
  have value : ((address - 0xC0000000 + 0xC0000000 + 4096 - endData ex).setWidth 32 : BitVec 32).toNat =
      (2 ^ 32 + address.toNat + 4096 - (endData ex).toNat) % 2 ^ 32 := by
    rw [BitVec.sub_add_cancel, BitVec.toNat_setWidth, BitVec.toNat_sub, BitVec.toNat_add]
    simp only [BitVec.ofNat_eq_ofNat, BitVec.toNat_ofNat]
    omega
  have sign := BitVec.msb_eq_decide ((address - 0xC0000000 + 0xC0000000 + 4096 - endData ex).setWidth 32 : BitVec 32)
  unfold positivePart
  rw [sign, value]
  split_ifs with negative near near
  · have := of_decide_eq_true negative
    omega
  · have := of_decide_eq_true negative
    omega
  · have := of_decide_eq_false (Bool.not_eq_true _ ▸ negative)
    omega
  · have := of_decide_eq_false (Bool.not_eq_true _ ▸ negative)
    omega

theorem getD_map_range (g : Nat → Nat) {i n : Nat} (bound : i < n) : ((List.range n).map g).getD i 0 = g i := by
  rw [List.getD_eq_getElem?_getD, List.getElem?_map, List.getElem?_range bound]
  rfl

section Started

variable {fs : FileSystem} {k : Process} {ino : Nat}

theorem startProgram_task (k : Process) (ino : Nat) (ex : Header) :
    (startProgram k ino ex).structs (startProgram k ino ex).current = startedTask (k.structs k.current) ino ex :=
  Function.update_self ..

theorem doNoPage_started (program : InProgram ex address) (fault : PageFault pool dirs held (startProgram k ino ex) address) :
    doNoPage (startProgram k ino ex) fs (startProgram k ino ex).memory address =
      loadPage fs ((startProgram k ino ex).structs (startProgram k ino ex).current) ino
        (startProgram k ino ex).memory address := by
  have inside : ¬ endData ex ≤ address := BitVec.not_le.mpr program.inside
  unfold doNoPage
  rw [program.masked, startProgram_task]
  dsimp only [startedTask]
  rw [if_neg inside, bind_ok fault.alone]
  rfl

/-- The page that is loaded when all its blocks can be looked up. -/
theorem page_of_blocks (fs : FileSystem) (program : InProgram ex address) (fault : PageFault pool dirs held (startProgram k ino ex) address)
    (blocks : (address.toNat - 0xC0000000) / 1024 + 4 < 7 + 512 + 512 * 512)
    (harmless : (endData ex).toNat ≤ address.toNat + 4096 + 2 ^ 31 ∨
      ∀ s ∈ tableSlots dirs, (startProgram k ino ex).memory.tableOf s = none) :
    ∃ f m', f < pagingPages ∧
      doNoPage (startProgram k ino ex) fs (startProgram k ino ex).memory address = .ok m' ∧
      walk m' address = .found (frameAddr f) ∧
      ∀ o, o < 4096 → byteAt (m'.phys (framePage f)) o =
        if (endData ex).toNat ≤ address.toNat + 4096 + 2 ^ 31 ∧ address.toNat + o < (endData ex).toNat then
          byteOf fs ino (1024 + (address.toNat - 0xC0000000) + o)
        else 0 := by
  rcases program.bounds with ⟨aligned, start, inside, top⟩
  have value := program.block
  have inRange : ((1 + (address - 0xC0000000) / 1024).setWidth 32 : BitVec 32).toNat + 4 ≤ bigBlock := by
    rw [value, bigBlock]
    omega
  have looked : bmapFrom fs ino ((1 + (address - 0xC0000000) / 1024).setWidth 32) 4 = .ok _ := bmapFrom_ok inRange
  rw [value] at looked
  rw [doNoPage_started program fault, startProgram_task]
  have tail := program.tail
  rcases loadPage_spec (startedTask (k.structs k.current) ino ex) fault.wf fault.absent fault.two looked tail.symm (by
      rcases harmless with near | none
      · rw [if_pos near]
        exact .inl (by omega)
      · exact .inr none) with ⟨f, m', bound, run, found, bytes⟩
  refine ⟨f, m', bound, run, ?_, ?_⟩
  · rw [found, program.aligned]
    exact congrArg Walk.found (BitVec.add_zero _)
  · intro o small
    rw [bytes o small]
    by_cases near : (endData ex).toNat ≤ address.toNat + 4096 + 2 ^ 31
    · rw [if_pos near]
      by_cases before : address.toNat + o < (endData ex).toNat
      · have place : (1024 + (address.toNat - 0xC0000000) + o) / 1024 =
            1 + (address.toNat - 0xC0000000) / 1024 + o / 1024 ∧
            (1024 + (address.toNat - 0xC0000000) + o) % 1024 = o % 1024 := by
          omega
        have entry : ((List.range 4).map fun i =>
            fs.zoneOf (blockRef ino (1 + (address.toNat - 0xC0000000) / 1024 + i))).getD (o / 1024) 0 =
              fs.zoneOf (blockRef ino (1 + (address.toNat - 0xC0000000) / 1024 + o / 1024)) :=
          getD_map_range _ (by omega)
        have kept : o < 4096 - (address.toNat + 4096 - (endData ex).toNat) := by omega
        rw [entry, if_pos kept, if_pos (And.intro near before), byteOf, blockSize, place.1, place.2,
          FileSystem.dataAt]
      · rw [if_neg (by omega), if_neg (fun both => before both.2)]
    · rw [if_neg near, if_neg (by omega), if_neg (fun both => near both.1)]

/-- A page in reach is loaded as it is in the file. -/
theorem loads_in_reach (program : InProgram ex address) (reach : InReach ex address) : LoadsRight ex address := by
  intro fs ino cred k pool dirs held _ fault
  rcases page_of_blocks fs program fault reach.1 (.inl reach.2) with ⟨f, m', bound, run, found, bytes⟩
  refine ⟨m', f, bound, run, found, ?_⟩
  intro o small
  rw [bytes o small, programByte]
  by_cases before : address.toNat + o < (endData ex).toNat
  · have blocks := reach.1
    have bounds := program.bounds
    rw [if_pos before, if_pos (And.intro reach.2 before), content_eq]
    rw [blockSize, bigBlock]
    omega
  · rw [if_neg before, if_neg (fun both => before both.2)]

end Started

end K210Linux.Exec
