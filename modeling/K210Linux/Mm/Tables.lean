import K210Linux.Mm.State

namespace K210Linux.Mm

/-- The leaf entry written by `put_page` and `un_wp_page`. -/
def userLeaf (e page : Word) : Word :=
  pteCommonEnableEntry (pteCommonEnableUser
    (pteCommonSetAccessibility (pteCommonAddrToPpn e page) .all))

def freeTableEntry (m : Memory) (table nr : Nat) : Except (Stop Memory) Memory :=
  if Pte.v (m.phys table nr) then freePage m (pteCommonPpnToAddr (m.phys table nr)) else .ok m

/-- The inner loop of `free_page_tables`, over `left` entries from `nr` on. -/
def freeTableEntries (m : Memory) (table : Nat) : Nat → Nat → Except (Stop Memory) Memory
  | _, 0 => .ok m
  | nr, left + 1 => do
    let m ← freeTableEntry m table nr
    freeTableEntries (m.setEntry table nr 0) table (nr + 1) left

/-- The outer loop of `free_page_tables`, over `size` slots of the current directory. -/
def freeDirSlots (m : Memory) : Nat → Nat → Except (Stop Memory) Memory
  | _, 0 => .ok m
  | id, size + 1 =>
    if Pte.v (m.dirs m.pageDirTable id) then do
      let m ← freeTableEntries m (pageOf (pteCommonPpnToAddr (m.dirs m.pageDirTable id))) 0 pageTableItemNum
      let m ← freePage m (pteCommonPpnToAddr (m.dirs m.pageDirTable id))
      freeDirSlots (m.setDir m.pageDirTable id 0) (id + 1) size
    else freeDirSlots m (id + 1) size

/-- The parameter `dir` is overwritten by the source before its first use. -/
def freePageTables (m : Memory) (start _dir size : Word) : Except (Stop Memory) Memory :=
  if alignTest4KB start then .error (.panic "free_page_tables called with wrong alignment")
  else if start = 0 then .error (.panic "Trying to free up swapper memory space")
  else freeDirSlots m (getPageDirId start) (getPageDirSize size)

/-- The inner loop of `copy_page_tables`, over `left` entries from `nr` on. -/
def copyTableEntries (m : Memory) (fromTable toTable : Nat) : Nat → Nat → Memory
  | _, 0 => m
  | nr, left + 1 =>
    if Pte.v (m.phys fromTable nr) then
      let shared := pteCommonSetAccessibility (m.phys fromTable nr) .readexecute
      let m := m.setEntry toTable nr shared
      let pagebaseaddr := pteCommonPpnToAddr shared
      if lowMem < pagebaseaddr then
        let m := m.setEntry fromTable nr shared
        copyTableEntries (m.setCount (mapNr pagebaseaddr) (m.memMap (mapNr pagebaseaddr) + 1))
          fromTable toTable (nr + 1) left
      else copyTableEntries m fromTable toTable (nr + 1) left
    else copyTableEntries m fromTable toTable (nr + 1) left

/-- The outer loop of `copy_page_tables`. The result is the source's return value. -/
def copyDirSlots (m : Memory) (toDir : Word) : Nat → Nat → Nat → Except (Stop Memory) (Int × Memory)
  | _, _, 0 => .ok (0, m)
  | fromId, toId, size + 1 =>
    if Pte.v (m.dirs toDir toId) then .error (.panic "copy_page_tables: already exist")
    else if Pte.v (m.dirs m.pageDirTable fromId) then
      let fromTable := pageOf (pteCommonPpnToAddr (m.dirs m.pageDirTable fromId))
      let (page, m) := getFreePage m
      if page = 0 then .ok (-1, m)
      else
        let entry := pteCommonEnableEntry
          (pteCommonSetAccessibility (pteCommonAddrToPpn (m.dirs toDir toId) page) .pointer)
        let m := m.setDir toDir toId entry
        copyDirSlots (copyTableEntries m fromTable (pageOf page) 0 pageTableItemNum) toDir
          (fromId + 1) (toId + 1) size
    else copyDirSlots m toDir (fromId + 1) (toId + 1) size

def copyPageTables (m : Memory) (start dest toDir size : Word) : Except (Stop Memory) (Int × Memory) :=
  if toDir = 0 then .ok (0, m)
  else if alignTest2MB start || alignTest2MB dest then
    .error (.panic "copy_page_tables called with wrong alignment")
  else copyDirSlots m toDir (getPageDirId start) 0 (getPageDirSize size)

/-- The two `printk` complaints of the source do not change the outcome. -/
def putPage (m : Memory) (page address : Word) : Word × Memory :=
  let id := getPageDirId address
  let nr := getPageEntryId address
  let entry := m.dirs m.pageDirTable id
  if Pte.v entry then
    let table := pageOf (pteCommonPpnToAddr entry)
    (page, m.setEntry table nr (userLeaf (m.phys table nr) page))
  else
    let (tmp, m) := getFreePage m
    if tmp = 0 then (0, m)
    else
      let m := m.clearPage (pageOf tmp)
      let entry := pteCommonEnableEntry (pteCommonEnableUser
        (pteCommonSetAccessibility (pteCommonAddrToPpn (m.dirs m.pageDirTable id) tmp) .pointer))
      let m := m.setDir m.pageDirTable id entry
      (page, m.setEntry (pageOf tmp) nr (userLeaf (m.phys (pageOf tmp) nr) page))

/-- The loop of `copy_page`. Neither pointer is advanced by the source. -/
def copyWords (m : Memory) (source dest : Nat) : Nat → Memory
  | 0 => m
  | left + 1 => copyWords (m.setEntry dest 0 (m.phys source 0)) source dest left

def copyPage (m : Memory) (source dest : Word) : Memory := copyWords m (pageOf source) (pageOf dest) 512

/-- `un_wp_page` on the entry `nr` of the page table in page `table`. -/
def unWpPage (m : Memory) (table nr : Nat) : Except (Stop Memory) Memory :=
  let oldPage := pteCommonPpnToAddr (m.phys table nr)
  if lowMem ≤ oldPage ∧ m.memMap (mapNr oldPage) = 1 then
    .ok (m.setEntry table nr (pteCommonSetWriteable (m.phys table nr)))
  else
    let (newPage, m) := getFreePage m
    if newPage = 0 then .error (.oom m)
    else
      let m := if lowMem ≤ oldPage then m.setCount (mapNr oldPage) (m.memMap (mapNr oldPage) - 1) else m
      .ok (copyPage (m.setEntry table nr (userLeaf (m.phys table nr) newPage)) oldPage newPage)

def doWpPage (m : Memory) (address : Word) : Except (Stop Memory) Memory :=
  unWpPage m (pageOf (pteCommonPpnToAddr (m.dirs m.pageDirTable (getPageDirId address))))
    (getPageEntryId address)

def writeVerify (m : Memory) (address : Word) : Except (Stop Memory) Memory :=
  let dir := m.dirs m.pageDirTable (getPageDirId address)
  let table := pageOf (pteCommonPpnToAddr dir)
  let page := m.phys table (getPageEntryId address)
  if !Pte.v dir then .ok m
  else if Pte.v page && !Pte.w page then unWpPage m table (getPageEntryId address)
  else .ok m

def getEmptyPage (m : Memory) (address : Word) : Except (Stop Memory) Memory :=
  let (tmp, m) := getFreePage m
  if tmp = 0 then do
    let m ← freePage m tmp
    .error (.oom m)
  else
    let (put, m) := putPage m tmp address
    if put = 0 then do
      let m ← freePage m tmp
      .error (.oom m)
    else .ok m

end K210Linux.Mm
