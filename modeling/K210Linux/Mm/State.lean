import K210Linux.Mm.Entry

namespace K210Linux.Mm

def pageSize : Word := 4096
def lowMem : Word := 0x80100000
def pagingPages : Nat := 3840
def pageDirTableNum : Nat := 2048
def pageTableItemNum : Nat := 512
def userStartAddr : Word := 0xC0000000
def userEndAddr : Word := userStartAddr + 2048 * 512 * pageSize - 1
/-- The mark `USED` that `mem_init` leaves on frames outside the managed range. -/
def used : Byte := 100

def getPageDirId (x : Word) : Nat := ((x &&& 0x3FFFFFFF) >>> 21).toNat
def getPageDirSize (x : Word) : Nat := ((x + 0x200000 - 1) >>> 21).toNat
def getPageEntryId (x : Word) : Nat := ((x &&& 0x1FFFFF) >>> 12).toNat
def alignTest4KB (x : Word) : Bool := x &&& 0xFFF ≠ 0
def alignTest2MB (x : Word) : Bool := x &&& 0x1FFFFF ≠ 0

/-- `MAP_NR`: the index of an address in `mem_map`. -/
def mapNr (addr : Word) : Nat := ((addr - lowMem) >>> 12).toNat
/-- The physical address of the frame counted by `mem_map[i]`. -/
def frameAddr (i : Nat) : Word := (BitVec.ofNat 64 i <<< 12) + lowMem
/-- The physical page an address lies in. -/
def pageOf (addr : Word) : Nat := (addr >>> 12).toNat
/-- The physical page of the frame counted by `mem_map[i]`. -/
def framePage (i : Nat) : Nat := 0x80100 + i

/-- Memory as `mm/memory.c` sees it. Physical pages hold 512 words, so that one page can be
    read both as data and as a page table. Directories are kept apart, by their address. -/
structure Memory where
  memMap : Nat → Byte
  phys : Nat → Nat → Word
  dirs : Word → Nat → Word
  pageDirTable : Word
  pageRootTable : Nat → Word
  highMemory : Word

/-- How a function of the kernel can fail to return. -/
inductive Stop (σ : Type) where
  | panic (text : String)
  | oom (state : σ)

namespace Memory

def setEntry (m : Memory) (page nr : Nat) (e : Word) : Memory :=
  { m with phys := Function.update m.phys page (Function.update (m.phys page) nr e) }

def setDir (m : Memory) (dir : Word) (id : Nat) (e : Word) : Memory :=
  { m with dirs := Function.update m.dirs dir (Function.update (m.dirs dir) id e) }

def setCount (m : Memory) (i : Nat) (c : Byte) : Memory :=
  { m with memMap := Function.update m.memMap i c }

def clearPage (m : Memory) (page : Nat) : Memory :=
  { m with phys := Function.update m.phys page (fun _ => 0) }

end Memory

/-- The scan `while(--i)` of `get_free_page`, from below `i`. It never looks at frame 0. -/
def freeScan (memMap : Nat → Byte) : Nat → Nat
  | 0 => 0
  | i + 1 => if i = 0 then 0 else if memMap i = 0 then i else freeScan memMap i

def getFreePage (m : Memory) : Word × Memory :=
  let i := freeScan m.memMap pagingPages
  if i = 0 then (0, m)
  else (frameAddr i, (m.setCount i 1).clearPage (framePage i))

/-- The scan `for(j = i;j >= i - pagenum + 1;j--)` for a frame in use. -/
def busyFrame (memMap : Nat → Byte) : Nat → Nat → Option Nat
  | _, 0 => none
  | i, n + 1 => if memMap i ≠ 0 then some i else busyFrame memMap (i - 1) n

theorem busyFrame_bounds (memMap : Nat → Byte) (i n j : Nat) (room : n ≤ i)
    (found : busyFrame memMap i n = some j) : 0 < j ∧ j ≤ i ∧ i < j + n ∧ memMap j ≠ 0 := by
  induction n generalizing i with
  | zero => simp [busyFrame] at found
  | succ n ih =>
    simp only [busyFrame] at found
    split at found
    · rename_i busy
      cases found
      exact ⟨by omega, Nat.le_refl _, by omega, busy⟩
    · obtain ⟨positive, below, above, busy⟩ := ih (i - 1) (by omega) found
      exact ⟨positive, by omega, by omega, busy⟩

theorem busyFrame_none (memMap : Nat → Byte) (i n : Nat) (room : n ≤ i)
    (free : busyFrame memMap i n = none) : ∀ j, j ≤ i → i < j + n → memMap j = 0 := by
  induction n generalizing i with
  | zero => intro j _ _; omega
  | succ n ih =>
    simp only [busyFrame] at free
    split at free
    · cases free
    · rename_i zero
      intro j below above
      by_cases last : j = i
      · subst last
        exact not_not.mp zero
      · exact ih (i - 1) (by omega) free j (by omega) (by omega)

/-- The outer loop of `get_free_pages`: the lowest frame of a free run, 0 when there is none.
    With `pagenum = 0` the bound `pagenum - 1` wraps and the loop is not entered. -/
def freeRun (memMap : Nat → Byte) (pagenum i : Nat) : Nat :=
  if 0 < pagenum ∧ pagenum - 1 < i then
    match found : busyFrame memMap i pagenum with
    | some j => freeRun memMap pagenum (j - 1)
    | none => i - pagenum + 1
  else 0
termination_by i
decreasing_by
  have := busyFrame_bounds memMap i pagenum j (by omega) found
  omega

def getFreePages (m : Memory) (pagenum : Nat) : Word × Memory :=
  let i := freeRun m.memMap pagenum (pagingPages - 1)
  if i = 0 then (0, m)
  else (frameAddr i, { m with
    memMap := fun j => if i ≤ j ∧ j < i + pagenum then 1 else m.memMap j
    phys := fun p => if framePage i ≤ p ∧ p < framePage i + pagenum then fun _ => 0 else m.phys p })

def freePage (m : Memory) (addr : Word) : Except (Stop Memory) Memory :=
  if addr < lowMem then .ok m
  else if m.highMemory ≤ addr then .error (.panic "trying to free nonexistent page")
  else if m.memMap (mapNr addr) = 0 then .error (.panic "trying to free free page")
  else .ok (m.setCount (mapNr addr) (m.memMap (mapNr addr) - 1))

def freePages (m : Memory) (addr : Word) : Nat → Except (Stop Memory) Memory
  | 0 => .ok m
  | n + 1 => do
    let m ← freePage m addr
    freePages m (addr + pageSize) n

/-- `mem_init`: every frame is marked used, then the managed range is freed. -/
def memInit (m : Memory) (startMem endMem : Word) : Memory :=
  let first := mapNr startMem
  let count := ((endMem - startMem) >>> 12).toNat
  { m with
    highMemory := endMem
    memMap := fun i => if first ≤ i ∧ i < first + count then 0 else used }

/-- `set_page_dir` of `sched.c`. -/
def setPageDir (m : Memory) (dir : Word) : Memory :=
  { m with
    pageDirTable := dir
    pageRootTable := Function.update m.pageRootTable 3
      (pteCommonEnableUser (pteCommonEnableEntry (pteCommonAddrToPpn (m.pageRootTable 3) dir))) }

end K210Linux.Mm
