import K210Linux.Kernel.Process

namespace K210Linux.Kernel

open K210Linux.Mm

/-- The value of an `int` as a loop bound: negative values count as 0. -/
def positivePart (size : BitVec 32) : Nat := if size.msb then 0 else size.toNat

/-- The loop of `verify_area`, over `n` pages from the page boundary `start` on. -/
def verifyPages (m : Memory) (start : Word) : Nat → Except (Stop Memory) Memory
  | 0 => .ok m
  | n + 1 => do
    let m ← writeVerify m start
    verifyPages m (start + 4096) n

/-- `verify_area`. The offset is added to the `int` parameter `size`, so the sum can be negative, and
    the loop runs once for each page that a positive `size` begins. -/
def verifyArea (m : Memory) (addr : Word) (size : BitVec 32) : Except (Stop Memory) Memory :=
  verifyPages m (addr &&& ~~~ (pageSize - 1))
    ((positivePart (size + (addr &&& (pageSize - 1)).setWidth 32) + 4095) / 4096)

/-- The page table in slot `id` of the directory that `try_to_share` shares to, a new one if need be. -/
def shareTable (m : Memory) (toDir : Word) (id : Nat) : Except (Stop Memory) Memory :=
  if Pte.v (m.dirs toDir id) then .ok m
  else
    let (page, m) := getFreePage m
    if page = 0 then .error (.oom m)
    else .ok (m.setDir toDir id (pteCommonEnableUser (pteCommonEnableEntry
      (pteCommonSetAccessibility (pteCommonAddrToPpn (m.dirs toDir id) page) .all))))

/-- The last part of `try_to_share`: both entries lose the W bit, and the counter goes up. The entry of
    the other task is not copied. -/
def shareEntry (m : Memory) (fromTable toTable nr : Nat) (physAddr : Word) :
    Except (Stop Memory) (Bool × Memory) :=
  if Pte.v (m.phys toTable nr) then .error (.panic "try_to_share: to_page already exists")
  else
    let m := m.setEntry fromTable nr (setField (m.phys fromTable nr) 2 false)
    let m := m.setEntry toTable nr (setField (m.phys toTable nr) 2 false)
    .ok (true, m.setCount (mapNr physAddr) (m.memMap (mapNr physAddr) + 1))

def tryToShare (k : Process) (m : Memory) (address p : Word) : Except (Stop Memory) (Bool × Memory) :=
  let id := getPageDirId address
  let nr := getPageEntryId address
  let fromDir := (k.structs p).pageDirTable
  let toDir := (k.structs k.current).pageDirTable
  let fromTable := pageOf (pteCommonPpnToAddr (m.dirs fromDir id))
  let fromPage := m.phys fromTable nr
  let physAddr := pteCommonPpnToAddr fromPage
  if !Pte.v (m.dirs fromDir id) then .ok (false, m)
  else if !Pte.v fromPage || Pte.d fromPage then .ok (false, m)
  else if m.highMemory ≤ physAddr ∨ physAddr < lowMem then .ok (false, m)
  else do
    let m ← shareTable m toDir id
    shareEntry m fromTable (pageOf (pteCommonPpnToAddr (m.dirs toDir id))) nr physAddr

/-- The loop of `share_page`, over the tasks below `n`. -/
def shareWith (k : Process) (m : Memory) (address : Word) : Nat → Except (Stop Memory) (Bool × Memory)
  | 0 => .ok (false, m)
  | n + 1 =>
    let p := k.task n
    if p = 0 ∨ k.current = p ∨ (k.structs p).executable ≠ (k.structs k.current).executable then
      shareWith k m address n
    else do
      let (shared, m) ← tryToShare k m address p
      if shared then .ok (true, m) else shareWith k m address n

def sharePage (k : Process) (m : Memory) (address : Word) : Except (Stop Memory) (Bool × Memory) :=
  match (k.structs k.current).executable with
  | none => .ok (false, m)
  | some inode => if k.iCount inode < 2 then .ok (false, m) else shareWith k m address nrTasks

def setPage (m : Memory) (page : Nat) (words : Nat → Word) : Memory :=
  { m with phys := Function.update m.phys page words }

/-- The words of a page with its last `n` bytes cleared. -/
def clearTail (words : Nat → Word) (n : Nat) : Nat → Word := fun i =>
  words i &&& BitVec.ofNat 64 (2 ^ (8 * (4096 - n - 8 * i)) - 1)

/-- `do_no_page`. The words that `bread_page` brings in for a page of the executable are given by
    `image`, by the offset from `start_code`. -/
def doNoPage (k : Process) (image : Word → Nat → Word) (m : Memory) (address : Word) :
    Except (Stop Memory) Memory := do
  let address := address &&& ~~~ (pageSize - 1)
  let task := k.structs k.current
  if task.executable = none ∨ task.endData ≤ address then getEmptyPage m address
  else
    let (shared, m) ← sharePage k m address
    if shared then .ok m
    else
      let (page, m) := getFreePage m
      if page = 0 then .error (.oom m)
      else
        let tail := positivePart ((address + 4096 - task.endData).setWidth 32)
        let m := setPage m (pageOf page) (clearTail (image (address - task.startCode)) tail)
        let (put, m) := putPage m page address
        if put ≠ 0 then .ok m
        else do
          let m ← freePage m page
          .error (.oom m)

/-- How the walk through the tables in `user_addr_to_kernel` ends. -/
inductive Walk where
  | noDir
  | noEntry
  | found (addr : Word)

def walk (m : Memory) (addr : Word) : Walk :=
  let dir := m.dirs m.pageDirTable (getPageDirId addr)
  let entry := m.phys (pageOf (pteCommonPpnToAddr dir)) (getPageEntryId addr)
  if !Pte.v dir then .noDir
  else if !Pte.v entry then .noEntry
  else .found (pteCommonPpnToAddr entry + (addr &&& 0xFFF))

/-- The part of `user_addr_to_kernel` for a page that is not there. -/
def faultIn (k : Process) (image : Word → Nat → Word) (m : Memory) (addr : Word) :
    Except (Stop Memory) (Word × Memory) := do
  let m ← doNoPage k image m addr
  match walk m addr with
  | .found a => .ok (a, m)
  | .noDir => .error (.panic "page dir is not enabled\r\n")
  | .noEntry => .error (.panic "page entry is not enabled\r\n")

def userAddrToKernel (k : Process) (image : Word → Nat → Word) (m : Memory) (addr : Word) :
    Except (Stop Memory) (Word × Memory) :=
  if addr < userStartAddr then .ok (addr, m)
  else if m.pageDirTable = 0 then .error (.panic "page_dir_table is null\r\n")
  else if userEndAddr < addr then .error (.panic "addr > USER_END_ADDR\r\n")
  else
    match walk m addr with
    | .found a => .ok (a, m)
    | _ => faultIn k image m addr

/-- One byte of a word replaced. -/
def setByte (w : Word) (i : Nat) (b : Byte) : Word :=
  (w &&& ~~~ ((0xFF : Word) <<< (8 * i))) ||| (b.setWidth 64 <<< (8 * i))

def storeByte (m : Memory) (addr : Word) (b : Byte) : Memory :=
  let page := pageOf addr
  let offset := (addr &&& 0xFFF).toNat
  m.setEntry page (offset / 8) (setByte (m.phys page (offset / 8)) (offset % 8) b)

def putFsByte (k : Process) (image : Word → Nat → Word) (m : Memory) (val : Byte) (addr : Word) :
    Except (Stop Memory) Memory := do
  let (addr, m) ← if k.fsIsKernel then .ok (addr, m) else userAddrToKernel k image m addr
  .ok (storeByte m addr val)

def storeBytes (m : Memory) (addr : Word) : List Byte → Memory
  | [] => m
  | b :: bytes => storeBytes (storeByte m addr b) (addr + 1) bytes

/-- The bytes of a 32-bit store. -/
def longBytes (val : BitVec 32) : List Byte :=
  [val.setWidth 8, (val >>> 8).setWidth 8, (val >>> 16).setWidth 8, (val >>> 24).setWidth 8]

/-- `put_fs_long`. On a misaligned address the store traps and the handler halts. -/
def putFsLong (k : Process) (image : Word → Nat → Word) (m : Memory) (val : BitVec 32) (addr : Word) :
    Except (Stop Memory) Memory := do
  let (addr, m) ← if k.fsIsKernel then .ok (addr, m) else userAddrToKernel k image m addr
  if addr &&& 3 ≠ 0 then .error (.panic "store/amo address misaligned")
  else .ok (storeBytes m addr (longBytes val))

/-- The loop that hands bytes to user memory, at `buf` and on. -/
def putFsBytes (k : Process) (image : Word → Nat → Word) (m : Memory) (buf : Word) :
    List Byte → Except (Stop Memory) Memory
  | [] => .ok m
  | b :: bytes => do
    let m ← putFsByte k image m b buf
    putFsBytes k image m (buf + 1) bytes

end K210Linux.Kernel
