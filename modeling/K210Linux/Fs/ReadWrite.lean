import K210Linux.Fs.FileCounts
import K210Linux.Fs.Links

/-! `sys_lseek`, `sys_read` and `sys_write`, and the whole of `sys_open`, on the files, the device and the tasks. -/

namespace K210Linux.Fs

open Outcome

def mayRead : BitVec 16 := 4

def isSeekable (dev : BitVec 16) : Bool := 1 ≤ dev >>> 8 ∧ dev >>> 8 ≤ 3

/-- A value that is stored in an `int`. -/
def toInt32 (value : Int) : Int := (BitVec.ofInt 32 value).toInt

/-- A value that is stored in an `off_t`. -/
def toOff (value : Int) : Int := (BitVec.ofInt 64 value).toInt

/-- The open files, the device, and who the tasks are. -/
structure Desk where
  files : Files
  fs : FileSystem
  caller : Nat → Caller

def File.appends (file : File) : Bool := file.flags &&& oAppend ≠ 0

/-- `sys_open`, behind the `dir_namei` that gave it the directory and the rest of the path. -/
def Desk.sysOpen (d : Desk) (t : FileTask) (stale : Nat → Block) (dir : BitVec 16) (name : List Byte) (flag : BitVec 32)
    (mode : BitVec 16) : Except String (Int × Desk) :=
  let caller := d.caller d.files.current
  if freeFd t 0 = none ∨ freeFile d.files = none then
    let reply := Fs.sysOpen d.files t (flag.setWidth 16) (.error 0)
    .ok (reply.value, { d with files := reply.files })
  else do
    let ((value, inr), m) ← openNamei ⟨d.fs, []⟩ stale caller dir name flag (mode &&& 0o777 &&& ~~~ caller.umask)
    if value < 0 then
      let reply := Fs.sysOpen d.files t (flag.setWidth 16) (.error value)
      .ok (reply.value, { d with files := reply.files, fs := m.fs })
    else
      match inr with
      | none => .error "unset pointer"
      | some inr =>
        let inode := m.fs.inode inr.toNat
        let reply := Fs.sysOpen d.files t (flag.setWidth 16) (.ok ⟨inr.toNat, inode.mode, inode.zone 0⟩)
        let m ← match reply.put with
          | none => .ok m
          | some ino => iput m stale caller.time ino
        .ok (reply.value, { d with files := reply.files, fs := m.fs })

/-- `file->f_pos = pos`, for a position that is none below 0. -/
def Desk.seek (d : Desk) (f : Nat) (pos : Int) : Int × Desk :=
  if pos < 0 then (-einval, d) else (pos, { d with files := d.files.setFile f { d.files.file f with pos := pos } })

def sysLseek (d : Desk) (t : FileTask) (fd : Nat) (offset : BitVec 64) (origin : Int) : Int × Desk :=
  if nrOpen ≤ fd then (-ebadf, d)
  else
    match t.filp fd with
    | none => (-ebadf, d)
    | some f =>
      match (d.files.file f).inode with
      | none => (-ebadf, d)
      | some ino =>
        let file := d.files.file f
        let inode := d.fs.inode ino
        if ¬ isSeekable inode.dev then (-ebadf, d)
        else if inode.pipe then (-espipe, d)
        else if origin = 0 then d.seek f offset.toInt
        else if origin = 1 then d.seek f (toOff (file.pos + offset.toInt))
        else if origin = 2 then d.seek f (toInt32 (inode.size.toNat + offset.toInt))
        else (-einval, d)

/-- The inodes that are no files on the device. -/
inductive Special
  | pipe
  | character
  | block

/-- What `sys_read` and `sys_write` do with their arguments: they return a value, follow a null pointer, or go on with
    the file `f` and its inode. -/
inductive Route
  | returns (value : Int)
  | fault
  | special (kind : Special) (f ino : Nat)
  | file (f ino : Nat) (count : Int)

/-- The count of `sys_read`, cut at the end of the file. -/
def readCount (size : BitVec 32) (pos count : Int) : Int :=
  if size.toNat < toOff (count + pos) then toInt32 (size.toNat - pos) else count

def readRoute (d : Desk) (t : FileTask) (fd : Nat) (count : Int) : Route :=
  if nrOpen ≤ fd ∨ count < 0 then .returns (-einval)
  else
    match t.filp fd with
    | none => .returns (-einval)
    | some f =>
      if count = 0 then .returns 0
      else
        match (d.files.file f).inode with
        | none => .fault
        | some ino =>
          let file := d.files.file f
          let inode := d.fs.inode ino
          if inode.pipe then if file.mode.getLsbD 0 then .special .pipe f ino else .returns (-eio)
          else if isChr inode.mode then .special .character f ino
          else if isBlk inode.mode then .special .block f ino
          else if isDir inode.mode ∨ isReg inode.mode then
            if readCount inode.size file.pos count ≤ 0 then .returns 0
            else .file f ino (readCount inode.size file.pos count)
          else .returns (-einval)

def writeRoute (d : Desk) (t : FileTask) (fd : Nat) (count : Int) : Route :=
  if nrOpen ≤ fd ∨ count < 0 then .returns (-einval)
  else
    match t.filp fd with
    | none => .returns (-einval)
    | some f =>
      if count = 0 then .returns 0
      else
        match (d.files.file f).inode with
        | none => .fault
        | some ino =>
          let inode := d.fs.inode ino
          if inode.pipe then if (d.files.file f).mode.getLsbD 1 then .special .pipe f ino else .returns (-eio)
          else if isChr inode.mode then .special .character f ino
          else if isBlk inode.mode then .special .block f ino
          else if isReg inode.mode then .file f ino count
          else .returns (-einval)

/-- What a transfer gives: the bytes for the user, the value, the position of the file and the device. -/
structure Transferred where
  bytes : List Byte
  value : Int
  pos : Int
  fs : FileSystem

/-- The number of a block is an `int`, so `bmap` sees positions modulo this. -/
def positions : Nat := 2 ^ 42

/-- `file_read` from any position. -/
def fileReadAt (fs : FileSystem) (ino : Nat) (file : File) (count : Int) (time : BitVec 32) : Except String Transferred :=
  let start := file.pos.toNat % positions
  if 2 ^ 41 ≤ start then .error "_bmap: block < 0"
  else do
    let (bytes, value, _, fs) ← fileRead fs ino ⟨file.appends, start⟩ count time
    .ok ⟨bytes, value, file.pos + value, fs⟩

/-- `file_write` to any position. At positions that `bmap` sees modulo 2^42 the size, of 32 bits, is set in each
    round of the loop. -/
def fileWriteAt (fs : FileSystem) (ino : Nat) (file : File) (buf : Nat → Byte) (count : Int) (time : BitVec 32) :
    Except String Transferred :=
  let pos := if file.appends then (fs.inode ino).size.toNat else file.pos.toNat
  if 2 ^ 41 ≤ pos % positions then .error "_bmap: block < 0"
  else do
    let (value, _, fs) ← fileWrite fs ino ⟨file.appends, file.pos.toNat % positions⟩ buf count time
    let fs := if positions ≤ pos ∧ 0 < value then
        fs.setInode ino { fs.inode ino with size := BitVec.ofInt 32 (pos + value), dirt := true } else fs
    .ok ⟨[], value, if file.appends then file.pos else file.pos + max value 0, fs⟩

/-- The end of a transfer through the file `f`. -/
def Desk.moved (d : Desk) (f : Nat) (done : Transferred) : List Byte × Int × Desk :=
  (done.bytes, done.value,
    { d with files := d.files.setFile f { d.files.file f with pos := toOff done.pos }, fs := done.fs })

section Calls

-- `read_pipe`, `write_pipe`, `rw_char`, `block_read` and `block_write`
variable (special : Desk → Special → Nat → Nat → Except String Transferred)

def sysRead (d : Desk) (t : FileTask) (fd : Nat) (count : Int) (time : BitVec 32) :
    Except String (List Byte × Int × Desk) :=
  match readRoute d t fd count with
  | .returns value => .ok ([], value, d)
  | .fault => .error "null pointer"
  | .special kind f ino => (special d kind f ino).map (d.moved f)
  | .file f ino count => (fileReadAt d.fs ino (d.files.file f) count time).map (d.moved f)

def sysWrite (d : Desk) (t : FileTask) (fd : Nat) (buf : Nat → Byte) (count : Int) (time : BitVec 32) :
    Except String (List Byte × Int × Desk) :=
  match writeRoute d t fd count with
  | .returns value => .ok ([], value, d)
  | .fault => .error "null pointer"
  | .special kind f ino => (special d kind f ino).map (d.moved f)
  | .file f ino count => (fileWriteAt d.fs ino (d.files.file f) buf count time).map (d.moved f)

/-- A step of some task. The calls on descriptors may change the device as well, and so may what happens elsewhere. -/
inductive DeskStep (d : Desk) : Desk → Prop
  | call {files : Files} (step : FileStep d.files files) (fs : FileSystem) :
      DeskStep d { d with files := files, fs := fs }
  | seek {t : FileTask} (here : d.files.task d.files.current = some t) (fd : Nat) (offset : BitVec 64) (origin : Int) :
      DeskStep d (sysLseek d t fd offset origin).2
  | read {t : FileTask} {bytes : List Byte} {value : Int} {d' : Desk} (here : d.files.task d.files.current = some t)
      (fd : Nat) (count : Int) (time : BitVec 32) (call : sysRead special d t fd count time = .ok (bytes, value, d')) :
      DeskStep d d'
  | write {t : FileTask} {bytes : List Byte} {value : Int} {d' : Desk} (here : d.files.task d.files.current = some t)
      (fd : Nat) (buf : Nat → Byte) (count : Int) (time : BitVec 32)
      (call : sysWrite special d t fd buf count time = .ok (bytes, value, d')) : DeskStep d d'
  | elsewhere (fs : FileSystem) (caller : Nat → Caller) : DeskStep d { d with fs := fs, caller := caller }

end Calls

section Entries

/-- The values of an `off_t`. -/
def IsOff (value : Int) : Prop := toOff value = value

theorem isOff_iff (value : Int) : IsOff value ↔ -2 ^ 63 ≤ value ∧ value < 2 ^ 63 := by
  unfold IsOff toOff
  rw [BitVec.toInt_ofInt, Int.bmod_def]
  split <;> omega

theorem isOff_toInt (value : BitVec 64) : IsOff value.toInt := by
  unfold IsOff toOff
  rw [BitVec.ofInt_toInt]

theorem isOff_toOff (value : Int) : IsOff (toOff value) := isOff_toInt _

theorem isOff_toInt32 (value : Int) : IsOff (toInt32 value) := by
  have lower := BitVec.le_toInt (BitVec.ofInt 32 value)
  have upper := BitVec.toInt_lt (x := BitVec.ofInt 32 value)
  rw [isOff_iff, toInt32]
  omega

/-- The entry of a file that is open: its inode and its access mode, and a position that stays an `off_t`. -/
structure SameEntry (s s' : Files) (f : Nat) : Prop where
  inode : (s'.file f).inode = (s.file f).inode
  access : (s'.file f).flags &&& 3 = (s.file f).flags &&& 3
  pos : IsOff (s.file f).pos → IsOff (s'.file f).pos

variable {s s' s₁ : Files} {t : FileTask} {f : Nat}

theorem SameEntry.of_eq (same : s'.file f = s.file f) : SameEntry s s' f := by
  constructor <;> rw [same]
  exact id

theorem SameEntry.trans (one : SameEntry s s₁ f) (two : SameEntry s₁ s' f) : SameEntry s s' f :=
  ⟨two.inode.trans one.inode, two.access.trans one.access, fun off => two.pos (one.pos off)⟩

theorem SameEntry.setFile (g : Nat) {file : File} (inode : file.inode = (s.file g).inode)
    (access : file.flags &&& 3 = (s.file g).flags &&& 3) (pos : IsOff (s.file g).pos → IsOff file.pos) :
    SameEntry s (s.setFile g file) f := by
  by_cases same : f = g
  · subst same
    constructor
    · simp only [Files.setFile, Function.update_self, inode]
    · simp only [Files.setFile, Function.update_self, access]
    · simpa only [Files.setFile, Function.update_self] using pos
  · exact SameEntry.of_eq (Function.update_of_ne same ..)

theorem SameEntry.setCount (s : Files) (g f : Nat) (count : BitVec 16) : SameEntry s (s.setCount g count) f :=
  SameEntry.setFile g rfl rfl id

theorem SameEntry.setTask (s : Files) (t : FileTask) (g f : Nat) (count : BitVec 16) :
    SameEntry s ((s.setTask t).setCount g count) f :=
  (SameEntry.of_eq rfl : SameEntry s (s.setTask t) f).trans (SameEntry.setCount (s.setTask t) g f count)

theorem dupfd_entry (s : Files) (t : FileTask) (fd arg f : Nat) : SameEntry s (dupfd s t fd arg).files f := by
  unfold dupfd
  split
  · exact SameEntry.of_eq rfl
  · split
    · exact SameEntry.of_eq rfl
    · split
      · exact SameEntry.of_eq rfl
      · split
        · exact SameEntry.of_eq rfl
        · exact SameEntry.setTask ..

theorem sysClose_entry {fd : Nat} {reply : Reply} (call : sysClose s t fd = some reply) (f : Nat) :
    SameEntry s reply.files f := by
  unfold sysClose at call
  split_ifs at call with outside
  · cases call
    exact SameEntry.of_eq rfl
  · dsimp only at call
    split at call
    · cases call
      exact SameEntry.of_eq rfl
    · split at call
      · cases call
      · cases call
        exact SameEntry.setTask ..

theorem closeEach_entry {closes : FileTask → Nat → Bool} {n : Nat} (loop : closeEach closes s n = some s') (f : Nat) :
    SameEntry s s' f := by
  induction n generalizing s' with
  | zero =>
    cases loop
    exact SameEntry.of_eq rfl
  | succ n ih =>
    unfold closeEach at loop
    rcases Option.bind_eq_some_iff.mp loop with ⟨s₁, before, rest⟩
    rcases Option.bind_eq_some_iff.mp rest with ⟨t, -, last⟩
    have kept := ih before
    split at last
    · rcases Option.map_eq_some_iff.mp last with ⟨reply, call, rfl⟩
      exact kept.trans (sysClose_entry call f)
    · cases last
      exact kept

theorem countChild_entry (s : Files) (filp : Nat → Option Nat) (n f : Nat) : SameEntry s (countChild s filp n) f := by
  induction n with
  | zero => exact SameEntry.of_eq rfl
  | succ n ih =>
    unfold countChild
    dsimp only
    split
    · exact ih.trans (SameEntry.setCount ..)
    · exact ih

theorem access_of_fcntl (flags arg : BitVec 16) :
    (flags &&& ~~~ (oAppend ||| oNonblock) ||| (arg &&& (oAppend ||| oNonblock))) &&& 3 = flags &&& 3 := by
  ext i bound
  simp only [oAppend, oNonblock, BitVec.getElem_and, BitVec.getElem_or, BitVec.getElem_not]
  interval_cases i <;> simp

theorem sysFcntl_entry (s : Files) (t : FileTask) (fd cmd : Nat) (arg : BitVec 64) (f : Nat) :
    SameEntry s (sysFcntl s t fd cmd arg).files f := by
  unfold sysFcntl
  split
  · exact SameEntry.of_eq rfl
  · split
    · exact SameEntry.of_eq rfl
    · split
      · exact dupfd_entry ..
      · exact SameEntry.of_eq rfl
      · split <;> exact SameEntry.of_eq rfl
      · exact SameEntry.of_eq rfl
      · exact SameEntry.setFile _ rfl (access_of_fcntl ..) id
      · exact SameEntry.of_eq rfl

theorem sysOpen_entry (t : FileTask) (flag : BitVec 16) (found : Except Int Opened) (opened : (s.file f).count ≠ 0) :
    SameEntry s (sysOpen s t flag found).files f := by
  unfold sysOpen
  split
  · exact SameEntry.of_eq rfl
  · dsimp only
    split
    · exact SameEntry.of_eq rfl
    · rename_i g unused
      have free : (s.file g).count = 0 := freeFile_spec unused
      have other : f ≠ g := by
        intro same
        rw [same] at opened
        exact opened free
      apply SameEntry.of_eq
      unfold openFile
      split
      · exact (Function.update_of_ne other ..).trans (Function.update_of_ne other ..)
      · dsimp only
        split
        · exact (Function.update_of_ne other ..).trans (Function.update_of_ne other ..)
        · refine (Function.update_of_ne other ..).trans ?_
          split <;> exact Function.update_of_ne other ..

theorem sysPipe_entry (t : FileTask) (inode : Option Nat) (opened : (s.file f).count ≠ 0) :
    SameEntry s (sysPipe s t inode).1.files f := by
  unfold sysPipe
  split
  · rename_i f₀ f₁ _ fd₀ fd₁ _ i files fds
    rcases two_of_filter files with ⟨-, -, -, unused₀, unused₁⟩
    simp only [decide_eq_true_eq] at unused₀ unused₁
    have other : ∀ g, (s.file g).count = 0 → f ≠ g := by
      intro g free same
      rw [same] at opened
      exact opened free
    exact SameEntry.of_eq ((Function.update_of_ne (other f₁ unused₁) ..).trans
      (Function.update_of_ne (other f₀ unused₀) ..))
  · exact SameEntry.of_eq rfl

/-- No call changes the entry of a file that is open. -/
theorem FileStep.entry (step : FileStep s s') (opened : (s.file f).count ≠ 0) : SameEntry s s' f := by
  cases step with
  | opened here running flag found => exact sysOpen_entry _ flag found opened
  | close here running fd call => exact sysClose_entry call f
  | dup here running fd => exact dupfd_entry ..
  | dup2 here running oldfd newfd call =>
    unfold sysDup2 at call
    rcases Option.bind_eq_some_iff.mp call with ⟨closed, close, rest⟩
    rcases Option.bind_eq_some_iff.mp rest with ⟨t, -, last⟩
    cases last
    exact (sysClose_entry close f).trans (dupfd_entry closed.files t oldfd newfd f)
  | fcntl here running fd cmd arg => exact sysFcntl_entry ..
  | pipe here running inode => exact sysPipe_entry _ inode opened
  | @fork t nr here running slot empty =>
    have child : SameEntry s { s with task := Function.update s.task nr (some { t with leader := false }) } f :=
      SameEntry.of_eq rfl
    exact child.trans (countChild_entry ..)
  | exec here running call =>
    unfold closeOnExec at call
    rcases Option.bind_eq_some_iff.mp call with ⟨s₁, loop, rest⟩
    rcases Option.bind_eq_some_iff.mp rest with ⟨t, -, last⟩
    cases last
    exact (closeEach_entry loop f).trans (SameEntry.of_eq rfl)
  | exit here running call =>
    unfold doExit at call
    rcases Option.bind_eq_some_iff.mp call with ⟨s₁, loop, rest⟩
    rcases Option.bind_eq_some_iff.mp rest with ⟨t, -, last⟩
    cases last
    exact (closeEach_entry loop f).trans (SameEntry.of_eq rfl)
  | switch present => exact SameEntry.of_eq rfl
  | release present exited => exact SameEntry.of_eq rfl

theorem seek_entry (d : Desk) (g : Nat) {pos : Int} (off : IsOff pos) (f : Nat) :
    SameEntry d.files (d.seek g pos).2.files f := by
  unfold Desk.seek
  split
  · exact SameEntry.of_eq rfl
  · exact SameEntry.setFile g rfl rfl fun _ => off

theorem sysLseek_entry (d : Desk) (t : FileTask) (fd : Nat) (offset : BitVec 64) (origin : Int) (f : Nat) :
    SameEntry d.files (sysLseek d t fd offset origin).2.files f := by
  unfold sysLseek
  split
  · exact SameEntry.of_eq rfl
  · split
    · exact SameEntry.of_eq rfl
    · split
      · exact SameEntry.of_eq rfl
      · dsimp only
        split_ifs
        · exact SameEntry.of_eq rfl
        · exact seek_entry d _ (isOff_toInt _) f
        · exact seek_entry d _ (isOff_toOff _) f
        · exact seek_entry d _ (isOff_toInt32 _) f
        · exact SameEntry.of_eq rfl
        · exact SameEntry.of_eq rfl

/-- A call that ends as a transfer through some file, or changes nothing. -/
theorem moved_entry {d d' : Desk} {bytes : List Byte} {value : Int} {g : Nat} {done : Except String Transferred}
    (call : done.map (d.moved g) = .ok (bytes, value, d')) (f : Nat) : SameEntry d.files d'.files f := by
  cases done with
  | error message => cases call
  | ok done =>
    cases call
    exact SameEntry.setFile g rfl rfl fun _ => isOff_toOff _

theorem DeskStep.entry {special : Desk → Special → Nat → Nat → Except String Transferred} {d d' : Desk}
    (step : DeskStep special d d') (opened : (d.files.file f).count ≠ 0) : SameEntry d.files d'.files f := by
  cases step with
  | call step fs => exact step.entry opened
  | seek here fd offset origin => exact sysLseek_entry ..
  | read here fd count time call =>
    unfold sysRead at call
    split at call
    · cases call
      exact SameEntry.of_eq rfl
    · cases call
    · exact moved_entry call f
    · exact moved_entry call f
  | write here fd buf count time call =>
    unfold sysWrite at call
    split at call
    · cases call
      exact SameEntry.of_eq rfl
    · cases call
    · exact moved_entry call f
    · exact moved_entry call f
  | elsewhere fs caller => exact SameEntry.of_eq rfl

/-- A step during which the file `f` stays open. -/
structure StaysOpen (special : Desk → Special → Nat → Nat → Except String Transferred) (f : Nat) (d d' : Desk) : Prop where
  step : DeskStep special d d'
  opened : (d'.files.file f).count ≠ 0

theorem run_entry {special : Desk → Special → Nat → Nat → Except String Transferred} {d d' : Desk}
    (run : Relation.ReflTransGen (StaysOpen special f) d d') (opened : (d.files.file f).count ≠ 0) :
    SameEntry d.files d'.files f ∧ (d'.files.file f).count ≠ 0 := by
  induction run with
  | refl => exact ⟨SameEntry.of_eq rfl, opened⟩
  | tail _ last ih => exact ⟨ih.1.trans (last.step.entry ih.2), last.opened⟩

end Entries

section Opening

variable {s : Files} {t : FileTask} {flag : BitVec 16}

/-- A descriptor that `sys_open` returns names a new entry. -/
theorem sysOpen_gives {found : Except Int Opened} (failed : ∀ e, found = .error e → e < 0)
    (got : 0 ≤ (sysOpen s t flag found).value) :
    ∃ (fd f : Nat) (o : Opened), (sysOpen s t flag found).value = (fd : Int) ∧ found = .ok o ∧
      (sysOpen s t flag found).files.target ((sysOpen s t flag found).files.current, fd) = some f ∧
      (sysOpen s t flag found).files.file f = ⟨o.mode, flag, 1, some o.inode, 0⟩ := by
  unfold sysOpen at got ⊢
  split at got
  · exact absurd got (by decide : ¬ (0 : Int) ≤ -einval)
  · rename_i fd free
    dsimp only at got ⊢
    split at got
    · exact absurd got (by decide : ¬ (0 : Int) ≤ -einval)
    · rename_i f unused
      unfold openFile at got ⊢
      split at got
      · rename_i e
        have negative := failed e rfl
        dsimp only at got
        omega
      · rename_i o
        dsimp only at got ⊢
        split at got
        · exact absurd got (by decide : ¬ (0 : Int) ≤ -eperm)
        · rename_i allowed
          rw [if_neg allowed]
          refine ⟨fd, f, o, rfl, rfl, ?_, Function.update_self ..⟩
          unfold Files.target Files.setFile
          dsimp only
          split
          · simp only [Files.setTask, Function.update_self, Option.bind_some, filp_setFilp]
          · simp only [Files.setCount, Files.setFile, Files.setTask, Function.update_self, Option.bind_some, filp_setFilp]

/-- What the calls rely on in a file that `sys_open` opened. -/
structure OpenedFile (d : Desk) (value : Int) (flag : BitVec 16) (f ino : Nat) : Prop where
  named : d.files.target (d.files.current, value.toNat) = some f
  inode : (d.files.file f).inode = some ino
  flags : (d.files.file f).flags = flag
  count : (d.files.file f).count = 1
  pos : (d.files.file f).pos = 0

theorem Desk.sysOpen_gives {d d₁ : Desk} {stale : Nat → Block} {dir : BitVec 16} {name : List Byte} {flag : BitVec 32}
    {mode : BitVec 16} {value : Int} (opens : d.sysOpen t stale dir name flag mode = .ok (value, d₁)) (got : 0 ≤ value) :
    ∃ f ino, OpenedFile d₁ value (flag.setWidth 16) f ino := by
  have gives : ∀ {found : Except Int Opened} {fs : FileSystem}, (∀ e, found = .error e → e < 0) →
      0 ≤ (Fs.sysOpen d.files t (flag.setWidth 16) found).value →
      ∃ f ino, OpenedFile { d with files := (Fs.sysOpen d.files t (flag.setWidth 16) found).files, fs := fs }
        (Fs.sysOpen d.files t (flag.setWidth 16) found).value (flag.setWidth 16) f ino := by
    intro found fs failed positive
    rcases Fs.sysOpen_gives failed positive with ⟨fd, f, o, same, -, named, entry⟩
    refine ⟨f, o.inode, ?_, congrArg File.inode entry, congrArg File.flags entry, congrArg File.count entry,
      congrArg File.pos entry⟩
    rw [same, Int.toNat_natCast]
    exact named
  unfold Desk.sysOpen at opens
  dsimp only at opens
  split at opens
  · rename_i none
    -- without a free descriptor or a free file the value is an error
    cases opens
    exfalso
    unfold Fs.sysOpen at got
    split at got
    · exact absurd got (by decide : ¬ (0 : Int) ≤ -einval)
    · rename_i fd free
      dsimp only at got
      split at got
      · exact absurd got (by decide : ¬ (0 : Int) ≤ -einval)
      · rename_i f unused
        rcases none with noFd | noFile
        · rw [noFd] at free
          cases free
        · have same : freeFile (d.files.setTask (t.keepOnExec fd)) = freeFile d.files := rfl
          rw [same, noFile] at unused
          cases unused
  · rcases of_bind opens with ⟨⟨⟨result, inr⟩, m⟩, -, rest⟩
    dsimp only at rest
    split at rest
    · rename_i failed
      cases rest
      refine gives ?_ got
      intro e same
      cases same
      exact failed
    · split at rest
      · cases rest
      · have noError : ∀ {o : Opened} e, (Except.ok o : Except Int Opened) = .error e → e < 0 := by
          intro o e same
          cases same
        split at rest
        · cases rest
          exact gives noError got
        · rcases of_bind rest with ⟨m', -, last⟩
          cases last
          exact gives noError got

end Opening

end K210Linux.Fs
