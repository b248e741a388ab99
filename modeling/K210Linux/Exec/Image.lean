import K210Linux.Kernel.UserStore
import K210Linux.Fs.FileData

namespace K210Linux.Exec

open K210Linux.Mm K210Linux.Kernel K210Linux.Fs

/-- `struct exec` of `a.out.h`. -/
structure Header where
  magic : BitVec 32
  text : BitVec 32
  data : BitVec 32
  bss : BitVec 32
  syms : BitVec 32
  entry : BitVec 32
  trsize : BitVec 32
  drsize : BitVec 32

def longAt (block : Block) (i : Nat) : BitVec 32 :=
  block (4 * i + 3) ++ block (4 * i + 2) ++ block (4 * i + 1) ++ block (4 * i)

def headerOf (block : Block) : Header where
  magic := longAt block 0
  text := longAt block 1
  data := longAt block 2
  bss := longAt block 3
  syms := longAt block 4
  entry := longAt block 5
  trsize := longAt block 6
  drsize := longAt block 7

def zmagic : BitVec 32 := 0x10B

/-- `N_TXTOFF`, a `size_t`. -/
def nTxtoff (ex : Header) : Word := if ex.magic = zmagic then 1024 else 32

/-- The sizes that `do_execve` refuses. They are added in 32 bits. -/
def badHeader (ex : Header) (size : BitVec 32) : Bool :=
  ex.magic ≠ zmagic || ex.trsize ≠ 0 || ex.drsize ≠ 0 || 0x3000000 < ex.text + ex.data + ex.bss ||
    size.setWidth 64 < (ex.text + ex.data + ex.syms).setWidth 64 + nTxtoff ex

structure Credentials where
  euid : BitVec 16
  egid : BitVec 16

def mayExecute (inode : MInode) (cred : Credentials) : Bool :=
  let i := if cred.euid = inode.uid then inode.mode >>> 6
    else if cred.egid = inode.gid.setWidth 16 then inode.mode >>> 3 else inode.mode
  i &&& 1 ≠ 0 || (inode.mode &&& 0o111 ≠ 0 && cred.euid = 0)

inductive Opened where
  | failed (value : Int)
  | script
  | program (ex : Header)

/-- `do_execve` up to the point of no return, as far as it looks at the file. -/
def openProgram (fs : FileSystem) (ino : Nat) (cred : Credentials) : Opened :=
  let inode := fs.inode ino
  let block := fs.disk (inode.zone 0).toNat
  let ex := headerOf block
  if !isReg inode.mode then .failed (-eacces)
  else if !mayExecute inode cred then .failed (-enoexec)
  else if block 0 = 0x23 ∧ block 1 = 0x21 then .script
  else if badHeader ex inode.size then .failed (-enoexec)
  else if nTxtoff ex ≠ 1024 then .failed (-enoexec)
  else .program ex

/-- `end_data` as `do_execve` sets it. `end_code` is a sum of 32 bits. -/
def endData (ex : Header) : Word := ex.data.setWidth 64 + ((0xC0000000 : BitVec 32) + ex.text).setWidth 64

/-- What `do_execve` tells `do_no_page` about the program. -/
def startedTask (task : Task) (ino : Nat) (ex : Header) : Task :=
  { task with executable := some ino, startCode := 0xC0000000, endData := endData ex }

def startProgram (k : Process) (ino : Nat) (ex : Header) : Process :=
  k.setStruct k.current (startedTask (k.structs k.current) ino ex)

/-- The loop of `do_no_page` that looks up `n` blocks. The block number is an `int`. -/
def bmapFrom (fs : FileSystem) (ino : Nat) (block : BitVec 32) : Nat → Except String (List Nat)
  | 0 => .ok []
  | n + 1 => do
    let z ← if block.msb then .error "_bmap: block < 0" else bmap fs ino block.toNat
    let nr ← bmapFrom fs ino (block + 1) n
    .ok (z :: nr)

def blockWord (block : Block) (i : Nat) : Word :=
  block (8 * i + 7) ++ block (8 * i + 6) ++ block (8 * i + 5) ++ block (8 * i + 4) ++
    block (8 * i + 3) ++ block (8 * i + 2) ++ block (8 * i + 1) ++ block (8 * i)

/-- `bread_page`: a block that is missing leaves its part of the page as it is. -/
def breadPage (fs : FileSystem) (words : Nat → Word) (nr : List Nat) : Nat → Word := fun i =>
  let z := nr.getD (i / 128) 0
  if z = 0 then words i else blockWord (fs.disk z) (i % 128)

/-- The loop of `do_no_page` that clears `n` bytes below an address. -/
def clearDown (m : Memory) (tmp : Word) : Nat → Memory
  | 0 => m
  | n + 1 => clearDown (storeByte m (tmp - 1) 0) (tmp - 1) n

/-- `do_no_page` for a page of the executable that no task shares. -/
def loadPage (fs : FileSystem) (task : Task) (ino : Nat) (m : Memory) (address : Word) :
    Except (Stop Memory) Memory :=
  let (page, m) := getFreePage m
  if page = 0 then .error (.oom m)
  else do
    let tmp := address - task.startCode
    let nr ← (bmapFrom fs ino ((1 + tmp / 1024).setWidth 32) 4).mapError .panic
    let m := setPage m (pageOf page) (breadPage fs (m.phys (pageOf page)) nr)
    let i := (tmp + task.startCode + 4096 - task.endData).setWidth 32
    let m := clearDown m (page + 4096) (positivePart i)
    let (put, m) := putPage m page address
    if put ≠ 0 then .ok m
    else do
      let m ← freePage m page
      .error (.oom m)

/-- `do_no_page` with the blocks of the executable. -/
def doNoPage (k : Process) (fs : FileSystem) (m : Memory) (address : Word) : Except (Stop Memory) Memory :=
  let address := address &&& ~~~ (pageSize - 1)
  let task := k.structs k.current
  match task.executable with
  | none => getEmptyPage m address
  | some ino =>
    if task.endData ≤ address then getEmptyPage m address
    else do
      let (shared, m) ← sharePage k m address
      if shared then .ok m else loadPage fs task ino m address

end K210Linux.Exec
