import K210Linux.Lib.Outcome
import K210Linux.Kernel.ForkContract
import K210Linux.Kernel.UserFault

/-! What `get_fs_byte`, `put_fs_byte` and their siblings touch. -/

namespace K210Linux.Kernel

open K210Linux.Mm Outcome

/-- The types that `segment.c` has a `get_fs` and a `put_fs` for. -/
inductive Access where
  | byte
  | word
  | long
  | long64
  deriving DecidableEq, Repr

def Access.size : Access → Nat
  | .byte => 1
  | .word => 2
  | .long => 4
  | .long64 => 8

/-- The address that an access goes to. Where it is not aligned the access traps, and the handler halts. -/
def fsAddress (text : String) (k : Process) (image : Word → Nat → Word) (m : Memory) (access : Access) (addr : Word) :
    Except (Stop Memory) (Word × Memory) := do
  let (addr, m) ← if k.fsIsKernel then .ok (addr, m) else userAddrToKernel k image m addr
  if addr.toNat % access.size ≠ 0 then .error (.panic text) else .ok (addr, m)

def loadByte (m : Memory) (addr : Word) : Byte :=
  let offset := (addr &&& 0xFFF).toNat
  (m.phys (pageOf addr) (offset / 8) >>> (8 * (offset % 8))).setWidth 8

def loadBytes (m : Memory) (addr : Word) : Nat → List Byte
  | 0 => []
  | n + 1 => loadByte m addr :: loadBytes m (addr + 1) n

/-- The bytes that an access loads, the lowest one first. -/
def getFs (access : Access) (k : Process) (image : Word → Nat → Word) (m : Memory) (addr : Word) :
    Except (Stop Memory) (List Byte × Memory) := do
  let (addr, m) ← fsAddress "load address misaligned" k image m access addr
  .ok (loadBytes m addr access.size, m)

def getFsByte := getFs .byte
def getFsWord := getFs .word
def getFsLong := getFs .long
def getFs64long := getFs .long64

/-- The bytes of a value are stored, the lowest one first. -/
def putFs (access : Access) (k : Process) (image : Word → Nat → Word) (m : Memory) (bytes : List Byte) (addr : Word) :
    Except (Stop Memory) Memory := do
  let (addr, m) ← fsAddress "store/amo address misaligned" k image m access addr
  .ok (storeBytes m addr bytes)

def putFsWord (k : Process) (image : Word → Nat → Word) (m : Memory) (val : BitVec 16) (addr : Word) :
    Except (Stop Memory) Memory :=
  putFs .word k image m ((List.range 2).map fun i => (val >>> (8 * i)).setWidth 8) addr

def putFs64long (k : Process) (image : Word → Nat → Word) (m : Memory) (val : BitVec 64) (addr : Word) :
    Except (Stop Memory) Memory :=
  putFs .long64 k image m ((List.range 8).map fun i => (val >>> (8 * i)).setWidth 8) addr

section

variable {k : Process} {image : Word → Nat → Word} {m m' : Memory} {address : Word}

theorem fsAddress_user {text : String} {access : Access} (user : k.fsIsKernel = false) :
    fsAddress text k image m access address = (userAddrToKernel k image m address).bind fun r =>
      if r.1.toNat % access.size ≠ 0 then .error (.panic text) else .ok r := by
  unfold fsAddress
  rw [user]
  rfl

/-- The two stores that the system calls use are the members of the family for a byte and for a long. -/
theorem putFsByte_eq (val : Byte) : putFsByte k image m val address = putFs .byte k image m [val] address := by
  have aligned (a : Word) : ¬ a.toNat % Access.byte.size ≠ 0 := not_not.2 (Nat.mod_one _)
  unfold putFsByte putFs fsAddress
  cases k.fsIsKernel with
  | true =>
    simp only [if_true, bind, Except.bind, if_neg (aligned _)]
    rfl
  | false =>
    cases userAddrToKernel k image m address with
    | error stop => rfl
    | ok result =>
      simp only [Bool.false_eq_true, if_false, bind, Except.bind, if_neg (aligned _)]
      rfl

theorem putFsLong_eq (val : BitVec 32) :
    putFsLong k image m val address = putFs .long k image m (longBytes val) address := by
  have aligned (a : Word) : a &&& 3 = 0 ↔ a.toNat % Access.long.size = 0 := by
    have mask : (a &&& 3).toNat = a.toNat % 4 := by
      rw [BitVec.toNat_and]
      exact Nat.and_two_pow_sub_one_eq_mod a.toNat 2
    rw [← BitVec.toNat_inj, mask]
    rfl
  unfold putFsLong putFs fsAddress
  cases k.fsIsKernel with
  | true =>
    simp only [if_true, ne_eq, aligned, bind, Except.bind]
    split <;> rfl
  | false =>
    cases userAddrToKernel k image m address with
    | error stop => rfl
    | ok result =>
      simp only [Bool.false_eq_true, if_false, ne_eq, aligned, bind, Except.bind]
      split <;> rfl

/-! No step of the demand loading changes the directory in use. -/

theorem getFreePage_directory (m : Memory) : (getFreePage m).2.pageDirTable = m.pageDirTable := by
  unfold getFreePage
  simp only
  split <;> rfl

theorem putPage_directory (m : Memory) (page address : Word) : (putPage m page address).2.pageDirTable = m.pageDirTable := by
  unfold putPage
  simp only
  split
  · rfl
  · have taken := getFreePage_directory m
    split
    · exact taken
    · exact taken

theorem getEmptyPage_directory (run : getEmptyPage m address = .ok m') : m'.pageDirTable = m.pageDirTable := by
  unfold getEmptyPage at run
  simp only at run
  split at run
  · rcases of_bind run with ⟨m₁, -, stop⟩
    cases stop
  · split at run
    · rcases of_bind run with ⟨m₁, -, stop⟩
      cases stop
    · cases run
      rw [putPage_directory, getFreePage_directory]

theorem doNoPage_directory (run : doNoPage k image m address = .ok m') : m'.pageDirTable = m.pageDirTable := by
  unfold doNoPage at run
  simp only at run
  split at run
  · exact getEmptyPage_directory run
  · rcases of_bind run with ⟨⟨shared, m₁⟩, sharing, rest⟩
    have same : m₁.pageDirTable = m.pageDirTable := by
      rcases sharePage_report sharing with ⟨_, rfl⟩ | ⟨_, same, _⟩
      · rfl
      · exact same
    cases shared with
    | true =>
      cases rest
      exact same
    | false =>
      simp only [Bool.false_eq_true, if_false] at rest
      split at rest
      · cases rest
      · split at rest
        · cases rest
          rw [putPage_directory]
          exact (getFreePage_directory m₁).trans same
        · rcases of_bind rest with ⟨m₂, -, stop⟩
          cases stop

/-- An address of user space is translated through a valid leaf entry of the directory in use. -/
theorem user_address_leaf {a : Word} (user : userStartAddr ≤ address)
    (run : userAddrToKernel k image m address = .ok (a, m')) :
    m'.pageDirTable = m.pageDirTable ∧
      ∃ e, m'.leafOf (m'.slotOf address) = some e ∧ a = pteCommonPpnToAddr e + (address &&& 0xFFF) := by
  have faulted (run : faultIn k image m address = .ok (a, m')) : m'.pageDirTable = m.pageDirTable ∧
      ∃ e, m'.leafOf (m'.slotOf address) = some e ∧ a = pteCommonPpnToAddr e + (address &&& 0xFFF) := by
    rcases of_bind run with ⟨m₁, loaded, rest⟩
    split at rest
    · rename_i found
      cases rest
      exact ⟨doNoPage_directory loaded, leaf_of_walk found⟩
    · cases rest
    · cases rest
  rw [userAddrToKernel, if_neg (BitVec.not_lt.mpr user)] at run
  split at run
  · cases run
  · split at run
    · cases run
    · split at run
      · rename_i found
        cases run
        exact ⟨rfl, leaf_of_walk found⟩
      · exact faulted run

/-- A page that a valid leaf entry of the task's own directory maps. -/
def OwnFrame (k : Process) (m : Memory) (page : Nat) : Prop :=
  ∃ i j e, m.leafOf ((k.structs k.current).pageDirTable, i, j) = some e ∧ pageTarget e = page

/-- If the access is made at all, every byte of it lies on a page of the task. -/
def Access.KeepsToOwnFrames (access : Access) (k : Process) (image : Word → Nat → Word) (m : Memory) (addr : Word) : Prop :=
  ∀ text a m', fsAddress text k image m access addr = .ok (a, m') →
    ∀ i, i < access.size → OwnFrame k m' (pageOf (a + BitVec.ofNat 64 i))

theorem pageOf_toNat (a : Word) : pageOf a = a.toNat / 4096 := by
  rw [pageOf, BitVec.toNat_ushiftRight, Nat.shiftRight_eq_div_pow]

theorem ppnToAddr_toNat (e : Word) : (pteCommonPpnToAddr e).toNat = 4096 * pageTarget e := by
  have bound := (Pte.ppn e).isLt
  rw [pteCommonPpnToAddr, pageTarget, BitVec.toNat_shiftLeft, BitVec.toNat_setWidth, Nat.shiftLeft_eq]
  omega

/-- An aligned access stays on the page of its first byte. -/
theorem Access.same_page {access : Access} {a : Word} (aligned : a.toNat % access.size = 0) {i : Nat} (inside : i < access.size) :
    pageOf (a + BitVec.ofNat 64 i) = pageOf a := by
  have bound := a.isLt
  rw [pageOf_toNat, pageOf_toNat, BitVec.toNat_add, BitVec.toNat_ofNat]
  cases access <;> simp only [Access.size] at aligned inside <;> omega

theorem translated_page {e a : Word} (value : a = pteCommonPpnToAddr e + (address &&& 0xFFF)) : pageOf a = pageTarget e := by
  have low : (address &&& 0xFFF).toNat = address.toNat % 4096 := toNat_and_mask address
  have small : pageTarget e < 2 ^ 38 := (Pte.ppn e).isLt
  rw [pageOf_toNat, value, BitVec.toNat_add, ppnToAddr_toNat, low]
  omega

/-- The access keeps to the frames of the task if and only if the pointer does not lie below user space, or is not
    aligned, or happens to be the physical address of one of the frames. -/
theorem user_access_confined_iff (user : k.fsIsKernel = false)
    (current : m.pageDirTable = (k.structs k.current).pageDirTable) (access : Access) (addr : Word) :
    access.KeepsToOwnFrames k image m addr ↔
      userStartAddr ≤ addr ∨ addr.toNat % access.size ≠ 0 ∨ OwnFrame k m (pageOf addr) := by
  have below (low : ¬ userStartAddr ≤ addr) : userAddrToKernel k image m addr = .ok (addr, m) := by
    rw [userAddrToKernel, if_pos (BitVec.not_le.mp low)]
  constructor
  · intro keeps
    by_cases low : userStartAddr ≤ addr
    · exact .inl low
    · by_cases aligned : addr.toNat % access.size = 0
      · right
        right
        have made : fsAddress "" k image m access addr = .ok (addr, m) := by
          rw [fsAddress_user user, below low]
          exact if_neg (not_not.2 aligned)
        have positive : 0 < access.size := by cases access <;> decide
        have first := keeps "" addr m made 0 positive
        rwa [access.same_page aligned positive] at first
      · exact .inr (.inl aligned)
  · intro allowed text a m' made i inside
    rw [fsAddress_user user] at made
    rcases of_bind made with ⟨⟨a', m₁⟩, translated, rest⟩
    simp only at rest
    split at rest
    · cases rest
    · rename_i aligned
      cases rest
      rw [access.same_page (not_not.1 aligned) inside]
      by_cases low : userStartAddr ≤ addr
      · rcases user_address_leaf low translated with ⟨directory, e, leaf, value⟩
        refine ⟨getPageDirId addr, getPageEntryId addr, e, ?_, (translated_page value).symm⟩
        rw [← current, ← directory]
        exact leaf
      · rw [below low] at translated
        cases translated
        rcases allowed with high | odd | own
        · exact absurd high low
        · exact absurd odd aligned
        · exact own

end

/-- A task with an empty directory. Every byte of the kernel's first page is 7. -/
def emptyMemory : Memory where
  memMap := fun _ => 0
  phys := fun page _ => if page = 0x80000 then 0x0707070707070707 else 0
  dirs := fun _ _ => 0
  pageDirTable := parentDir
  pageRootTable := fun _ => 0
  highMemory := 0x80700000

def emptyTask : Process := sampleProcess emptyMemory 0x4000000

/-- A long at the start of user space is fetched from a page that is mapped on demand. -/
theorem first_long_confined :
    (fsAddress "" emptyTask (fun _ _ => 0) emptyMemory .long userStartAddr).isOk = true ∧
      Access.long.KeepsToOwnFrames emptyTask (fun _ _ => 0) emptyMemory userStartAddr :=
  ⟨by decide +kernel, (user_access_confined_iff rfl rfl .long userStartAddr).2 (.inl (BitVec.le_refl _))⟩

/-- A pointer below user space is used as it is, and reads the kernel. -/
theorem kernel_byte_reached :
    (getFsByte emptyTask (fun _ _ => 0) emptyMemory 0x80000000).map (fun r => r.1) = .ok [7] ∧
      ¬ Access.byte.KeepsToOwnFrames emptyTask (fun _ _ => 0) emptyMemory 0x80000000 := by
  refine ⟨rfl, ?_⟩
  intro keeps
  have made : fsAddress "" emptyTask (fun _ _ => 0) emptyMemory .byte 0x80000000 = .ok (0x80000000, emptyMemory) := rfl
  rcases keeps "" _ _ made 0 (by decide) with ⟨i, j, e, leaf, -⟩
  have absent : emptyMemory.leafOf ((emptyTask.structs emptyTask.current).pageDirTable, i, j) = none := by
    simp [Memory.leafOf, Memory.tableOf, emptyMemory, Pte.v]
  rw [absent] at leaf
  cases leaf

end K210Linux.Kernel
