import K210Linux.Exec.ExecCall
import K210Linux.Fs.VolumeCounts

/-! `do_execve` with everything it takes on its way to the point of no return, and its exits in front of it. -/

namespace K210Linux.Exec

open K210Linux.Mm K210Linux.Kernel CStrings Outcome

/-- Only frames that were free have other contents. -/
structure Untouched (m m' : Memory) : Prop where
  dirs : m'.dirs = m.dirs
  pageDirTable : m'.pageDirTable = m.pageDirTable
  pageRootTable : m'.pageRootTable = m.pageRootTable
  phys : ∀ p, (∀ f ∈ freeFrames m, p ≠ framePage f) → m'.phys p = m.phys p

/-- The pages of the array were free, and nothing else was written. -/
structure Filling (m : Memory) (a : ArgPages) : Prop where
  taken : PagesTaken m a
  untouched : Untouched m a.memory

/-- The next byte goes to a frame that was free, or looks its page up first. -/
def InPage (m : Memory) (c : Cursor) : Prop := c.offset ≤ 0 ∨ c.offset < 4096 ∧ ∃ f ∈ freeFrames m, c.pag = frameAddr f

section Filling

variable {m : Memory} {a a' : ArgPages} {c : Cursor} {b : Byte} {f i : Nat}

theorem Untouched.refl (m : Memory) : Untouched m m := ⟨rfl, rfl, rfl, fun _ _ => rfl⟩

theorem Untouched.write {m' : Memory} (untouched : Untouched m m') (free : f ∈ freeFrames m) (words : Nat → Word) :
    Untouched m { m' with phys := Function.update m'.phys (framePage f) words } where
  dirs := untouched.dirs
  pageDirTable := untouched.pageDirTable
  pageRootTable := untouched.pageRootTable
  phys p outside := (Function.update_of_ne (outside f free) ..).trans (untouched.phys p outside)

theorem Untouched.counters {m' : Memory} (untouched : Untouched m m') (memMap : Nat → Byte) :
    Untouched m { m' with memMap } := ⟨untouched.dirs, untouched.pageDirTable, untouched.pageRootTable, untouched.phys⟩

theorem Filling.start (m : Memory) : Filling m ⟨m, fun _ => 0⟩ := ⟨(Pushed.start m).taken, .refl m⟩

theorem Filling.argPage (filling : Filling m a) (inside : i < maxArgPages) : Filling m (argPage a i).2 ∧
    ((argPage a i).1 ≠ 0 → ∃ f ∈ freeFrames m, (argPage a i).1 = frameAddr f) := by
  have report := argPage_report filling.taken inside
  have untouched : Untouched m (Exec.argPage a i).2.memory := by
    unfold Exec.argPage
    split
    · exact filling.untouched
    · rcases getFreePage_cases a.memory with ⟨full, -⟩ | ⟨f, positive, bound, free, found⟩
      · rw [full]
        exact filling.untouched
      · rw [found]
        have before : m.memMap f = 0 := by
          rw [filling.taken.count] at free
          split at free
          · exact absurd free (by decide)
          · exact free
        exact (filling.untouched.counters _).write (mem_freeFrames.mpr ⟨bound, Nat.ne_of_gt positive, before⟩) _
  generalize Exec.argPage a i = granted at report untouched ⊢
  cases report with
  | refused a' taken few => exact ⟨⟨taken, untouched⟩, fun nonzero => absurd rfl nonzero⟩
  | granted pag a' nonzero taken page kept =>
    have here : a'.page i = pag := by rw [page, Function.update_self]
    obtain ⟨f, free, addr⟩ := taken.frame i inside (here ▸ nonzero)
    exact ⟨⟨taken, untouched⟩, fun _ => ⟨f, free, here ▸ addr⟩⟩

/-- A byte goes to a frame that was free. -/
theorem Filling.store (filling : Filling m a) (free : f ∈ freeFrames m) {offset : Int} (low : 0 ≤ offset)
    (high : offset < 4096) : Filling m (a.store (frameAddr f + BitVec.ofInt 64 offset) b) := by
  obtain ⟨n, rfl⟩ := Int.eq_ofNat_of_zero_le low
  have bound := (mem_freeFrames.mp free).1
  have small : f < 3840 := bound
  have page : pageOf (frameAddr f + BitVec.ofInt 64 n) = framePage f := by
    have addr : (frameAddr f + BitVec.ofInt 64 n).toNat = 0x80100000 + 4096 * f + n := by
      rw [BitVec.ofInt_natCast, BitVec.toNat_add, toNat_frameAddr bound, BitVec.toNat_ofNat]
      omega
    rw [pageOf_toNat, addr, framePage]
    omega
  refine ⟨⟨filling.taken.frame, filling.taken.apart, filling.taken.count, filling.taken.high⟩, ?_⟩
  change Untouched m (storeByte a.memory _ b)
  unfold storeByte
  rw [page]
  exact filling.untouched.write free _

theorem pushByte_filling {result : Option Cursor} (filling : Filling m a) (ready : InPage m c)
    (run : pushByte b c a = .ok (result, a')) : Filling m a' ∧ ∀ c', result = some c' → InPage m c' := by
  unfold pushByte at run
  dsimp only at run
  split at run
  · split at run
    · cases run
    · rename_i index
      obtain ⟨filled, granted⟩ := filling.argPage (not_le.mp index)
      have below : (((c.p - 1) % pageSize).toNat : Int) < 4096 := by
        rw [toNat_mod_page]
        omega
      split at run
      · cases run
        exact ⟨filled, nofun⟩
      · rename_i nonzero
        obtain ⟨f, free, addr⟩ := granted nonzero
        cases run
        rw [addr]
        refine ⟨filled.store free (Int.natCast_nonneg _) below, ?_⟩
        rintro c' ⟨⟩
        exact .inr ⟨below, f, free, rfl⟩
  · rename_i inside
    rcases ready with first | ⟨high, f, free, addr⟩
    · omega
    · cases run
      rw [addr]
      refine ⟨filling.store free (by omega) (by omega), ?_⟩
      rintro c' ⟨⟩
      refine .inr ⟨?_, f, free, rfl⟩
      dsimp only
      omega

theorem pushBytes_filling {bytes : List Byte} {result : Option Cursor} (filling : Filling m a) (ready : InPage m c)
    (run : pushBytes c a bytes = .ok (result, a')) : Filling m a' ∧ ∀ c', result = some c' → InPage m c' := by
  induction bytes generalizing a c with
  | nil =>
    cases run
    refine ⟨filling, ?_⟩
    rintro c' ⟨⟩
    exact ready
  | cons b bytes ih =>
    obtain ⟨⟨next, a₁⟩, first, rest⟩ := of_bind run
    obtain ⟨filled, inPage⟩ := pushByte_filling filling ready first
    cases next with
    | none =>
      cases rest
      exact ⟨filled, nofun⟩
    | some c₁ => exact ih filled (inPage c₁ rfl) rest

theorem copyFrom_filling {source : Source} {n : Nat} {p : Word} (filling : Filling m a) (ready : InPage m c)
    (run : copyFrom source c a n = .ok (p, a')) : Filling m a' := by
  induction n generalizing a c with
  | zero =>
    cases run
    exact filling
  | succ n ih =>
    unfold copyFrom at run
    split at run
    · cases run
    · cases run
    · dsimp only at run
      split at run
      · cases run
        exact filling
      · obtain ⟨⟨next, a₁⟩, first, rest⟩ := of_bind run
        obtain ⟨filled, inPage⟩ := pushBytes_filling filling ready first
        cases next with
        | none =>
          cases rest
          exact filled
        | some c₁ => exact ih filled (inPage c₁ rfl) rest

/-- Whatever the strings are, only pages that are in the array then are taken and written. -/
theorem copyStrings_filling {source : Source} {argc : Int} {p p' : Word} (filling : Filling m a)
    (run : copyStrings argc source a p = .ok (p', a')) : Filling m a' := by
  unfold copyStrings at run
  split at run
  · cases run
    exact filling
  · exact copyFrom_filling filling (.inl (le_refl _)) run

theorem freeArgPages_frame {left : Nat} {m' : Memory} (freed : freeArgPages a i left = .ok m') :
    m' = { a.memory with memMap := m'.memMap } := by
  induction left generalizing a i with
  | zero =>
    cases freed
    rfl
  | succ left ih =>
    obtain ⟨m₁, page, rest⟩ := of_bind freed
    have one : m₁ = { a.memory with memMap := m₁.memMap } := by
      have given := Outcome.of_mapError page
      unfold freePage at given
      split at given
      · cases given
        rfl
      · split at given
        · cases given
        · split at given
          · cases given
          · cases given
            rfl
    rw [ih rest, one]

/-- At `exec_error1` every page goes back, and every counter is as before. -/
theorem Filling.given_back {m' : Memory} (filling : Filling m a)
    (below : ∀ f, f ∈ freeFrames m → frameAddr f < m.highMemory) (freed : freeArgPages a 0 maxArgPages = .ok m') :
    m'.memMap = m.memMap ∧ Untouched m m' := by
  obtain ⟨m'', run, counters⟩ := filling.taken.restored below
  rw [freed] at run
  cases run
  refine ⟨counters, ?_⟩
  rw [freeArgPages_frame freed]
  exact filling.untouched.counters _

end Filling

open K210Linux.Fs (Volume Balanced Borrowed Reading Users Moored MInode)
open K210Linux.Buffer (ramdisk bufferInit bufferInit_queues)

/-- The state as the kernel keeps it: the only device is the root device, which pipes are not on and the task's
    directories are, and free frames are below the end of memory. -/
structure ExecReady (s : ExecState) : Prop where
  linked : Buffer.Linked s.volume.drive
  devices : ∀ k, (s.volume.inode k).dev = 0 ∨ (s.volume.inode k).dev = ramdisk
  pipes : ∀ k, (s.volume.inode k).pipe = true → (s.volume.inode k).dev = 0
  moored : Moored s.volume
  placed : ∀ k, s.task.root = some k ∨ s.task.pwd = some k → (s.volume.inode k).count ≠ 0 ∧ (s.volume.inode k).dev = ramdisk
  frames : ∀ f, f ∈ freeFrames s.volume.memory → frameAddr f < s.volume.memory.highMemory

/-- Nothing is left of the call. -/
structure Restored (s s' : ExecState) : Prop where
  memMap : s'.volume.memory.memMap = s.volume.memory.memMap
  tables : Untouched s.volume.memory s'.volume.memory
  inodes : ∀ k, (s'.volume.inode k).count = (s.volume.inode k).count
  buffers : ∀ i, (s'.volume.drive.cache.head i).count = (s.volume.drive.cache.head i).count
  task : s'.task = s.task
  files : s'.files = s.files
  flag : s'.fsIsKernel = s.fsIsKernel

/-- On the way, with the pages, the inode and the buffer that the call has. -/
structure Midway (s s₁ : ExecState) (page : Nat → Word) (held bh : Option Nat) : Prop where
  volume : Borrowed { s.volume with memory := s₁.volume.memory } s₁.volume held bh
  filling : Filling s.volume.memory ⟨s₁.volume.memory, page⟩
  task : s₁.task = s.task
  files : s₁.files = s.files
  flag : s₁.fsIsKernel = s.fsIsKernel

/-- How a call of `do_execve` ends. -/
def Fate (s : ExecState) : ExecResult → Prop
  | .failed _ s' => Restored s s' ∧ ExecReady s'
  | .running entered => 0 ≤ entered.argc

section Exits

variable {s s₁ s₂ : ExecState} {page : Nat → Word} {g g' : Args} {held bh inode : Option Nat} {fuel ino : Nat}
  {c : ExecCall} {result : ExecResult} {value argc : Int}

theorem ExecReady.balanced (ready : ExecReady s) : Balanced s.volume s.volume none :=
  ⟨ready.linked, .refl _, ⟨fun _ => (add_zero _).symm, fun _ _ => rfl, ready.devices, ready.pipes, nofun, rfl, rfl⟩⟩

theorem ExecReady.start (ready : ExecReady s) : Midway s s (fun _ => 0) none none where
  volume := ready.balanced
  filling := .start _
  task := rfl
  files := rfl
  flag := rfl

theorem borrowed_memory {v v' : Volume} (borrowed : Borrowed v v' held bh) : v'.memory = v.memory := by
  cases bh with
  | none => exact (show Balanced v v' held from borrowed).users.memory
  | some i => exact (show Reading v v' held i from borrowed).users.memory

theorem Midway.onVolume {held' bh' : Option Nat} (mid : Midway s s₁ page held bh) {v : Volume}
    (borrowed : Borrowed { s.volume with memory := s₁.volume.memory } v held' bh') :
    Midway s (s₁.onVolume v) page held' bh' := by
  have memory := borrowed_memory borrowed
  dsimp only at memory
  refine ⟨?_, ?_, mid.task, mid.files, mid.flag⟩
  · change Borrowed { s.volume with memory := v.memory } v held' bh'
    rwa [memory]
  · change Filling s.volume.memory ⟨v.memory, page⟩
    rw [memory]
    exact mid.filling

theorem Midway.brelse {i : Nat} (mid : Midway s s₁ page held (some i)) (run : s₁.brelse i = .ok s₂) :
    Midway s s₂ page held none := by
  obtain ⟨v, released, rest⟩ := of_bind run
  cases rest
  have reading : Reading _ s₁.volume held i := mid.volume
  exact mid.onVolume (show Borrowed _ v held none from reading.brelse (Outcome.of_mapError released))

theorem Midway.iput (mid : Midway s s₁ page (some ino) none) (run : s₁.iput fuel c ino = .ok s₂) :
    Midway s s₂ page none none := by
  obtain ⟨v, put, rest⟩ := of_bind run
  cases rest
  have balanced : Balanced _ s₁.volume (some ino) := mid.volume
  exact mid.onVolume (show Borrowed _ v none none from balanced.iput (Outcome.of_mapError put))

/-- `namei` moves the volume alone. -/
theorem namei_volume {mem : Space} {path : Word} (run : s₁.namei fuel c mem path = .ok (inode, s₂)) :
    ∃ bytes v, s₂ = s₁.onVolume v ∧ s₁.volume.namei fuel (s₁.walker c.time) bytes = .ok (inode, v) := by
  unfold ExecState.namei at run
  split at run
  · cases run
  · obtain ⟨⟨found, v⟩, walked, rest⟩ := of_bind run
    cases rest
    exact ⟨_, v, rfl, Outcome.of_mapError walked⟩

theorem Midway.namei (ready : ExecReady s) (mid : Midway s s₁ page none none) {fs : Bool} {mem : Space} {path : Word}
    (run : { s₁ with fsIsKernel := fs }.namei fuel c mem path = .ok (inode, s₂)) :
    Midway s { s₂ with fsIsKernel := s₁.fsIsKernel } page inode none := by
  obtain ⟨bytes, v, rfl, walked⟩ := namei_volume run
  have balanced : Balanced _ s₁.volume none := mid.volume
  have placed : (s₁.walker c.time).Placed { s.volume with memory := s₁.volume.memory } := by
    intro k atStart
    refine (ready.placed k ?_).2
    rw [← mid.task]
    exact atStart
  exact mid.onVolume (show Borrowed _ v inode none from balanced.namei ready.moored placed walked)

theorem Midway.openFile {bh : Except Int Nat} (mid : Midway s s₁ page (some ino) none)
    (run : s₁.openFile fuel ino = .ok (bh, s₂)) : Midway s s₂ page (some ino) bh.toOption := by
  have balanced : Balanced _ s₁.volume (some ino) := mid.volume
  unfold ExecState.openFile at run
  dsimp only at run
  split at run
  · cases run
    exact mid
  · split at run
    · cases run
      exact mid
    · rw [balanced.users.here ino rfl] at run
      obtain ⟨⟨found, v⟩, read, rest⟩ := of_bind run
      have borrowed := balanced.bread (Outcome.of_mapError read)
      cases found with
      | none =>
        cases rest
        exact mid.onVolume borrowed
      | some i =>
        cases rest
        exact mid.onVolume borrowed

theorem Midway.copy (mid : Midway s s₁ g.page held none) {kmem : FromKmem} {m : Spaces} {argv : Word}
    (run : s₁.copy kmem m argc argv g = .ok (g', s₂)) : Midway s s₂ g'.page held none := by
  obtain ⟨⟨p, a, fs⟩, copied, rest⟩ := of_bind run
  cases rest
  have copied' := Outcome.of_mapError copied
  rw [copyStringsFs_eq] at copied'
  obtain ⟨⟨p', a'⟩, plain, same⟩ := of_map copied'
  cases same
  have balanced : Balanced _ s₁.volume held := mid.volume
  refine ⟨?_, copyStrings_filling mid.filling plain, mid.task, mid.files, mid.flag⟩
  have users := balanced.users
  exact ⟨balanced.linked, balanced.steady, ⟨users.count, users.used, users.devices, users.pipes, users.here, rfl, users.imount⟩⟩

/-- A volume that is as it was leaves the task ready for the next call. -/
theorem ExecReady.kept (ready : ExecReady s) {memory : Memory} (balanced : Balanced { s.volume with memory } s₁.volume none)
    (task : s₁.task = s.task) (memMap : s₁.volume.memory.memMap = s.volume.memory.memMap)
    (high : s₁.volume.memory.highMemory = s.volume.memory.highMemory) : ExecReady s₁ := by
  have users := balanced.users
  have stays {k : Nat} (inUse : (s.volume.inode k).count ≠ 0 ∧ (s.volume.inode k).dev = ramdisk) :
      (s₁.volume.inode k).count ≠ 0 ∧ (s₁.volume.inode k).dev = ramdisk := by
    rw [users.count k, if_neg nofun, add_zero]
    exact ⟨inUse.1, (users.used k inUse.1).trans inUse.2⟩
  refine ⟨balanced.linked, users.devices, users.pipes, ?_, ?_, ?_⟩
  · intro m mounted
    rw [users.imount] at mounted
    exact stays (ready.moored m mounted)
  · intro k atStart
    rw [task] at atStart
    exact stays (ready.placed k atStart)
  · intro f free
    rw [high]
    apply ready.frames f
    rw [mem_freeFrames] at free ⊢
    rwa [memMap] at free

/-- The exits in front of the point of no return give everything back. -/
theorem Midway.execError1 (ready : ExecReady s) (mid : Midway s s₁ g.page none none)
    (run : s₁.execError1 g value = .ok result) : Fate s result := by
  obtain ⟨m, freed, rest⟩ := of_bind run
  cases rest
  have given := Outcome.of_mapError freed
  obtain ⟨counters, untouched⟩ := mid.filling.given_back ready.frames given
  have balanced : Balanced _ s₁.volume none := mid.volume
  have users := balanced.users
  have freed' : Balanced { s.volume with memory := m } (s₁.onMemory m).volume none :=
    ⟨balanced.linked, balanced.steady, ⟨users.count, users.used, users.devices, users.pipes, users.here, rfl, users.imount⟩⟩
  have high : m.highMemory = s.volume.memory.highMemory := by
    rw [freeArgPages_frame given]
    exact mid.filling.taken.high
  exact ⟨⟨counters, untouched, fun k => (users.count k).trans (add_zero _), balanced.steady.count, mid.task, mid.files, mid.flag⟩,
    ready.kept freed' mid.task counters high⟩

theorem Midway.execError2 (ready : ExecReady s) (mid : Midway s s₁ g.page (some ino) none)
    (run : s₁.execError2 fuel c ino g value = .ok result) : Fate s result := by
  obtain ⟨s₃, put, rest⟩ := of_bind run
  exact (mid.iput put).execError1 ready rest

/-- A program that is entered gets the `argc` that was counted. -/
theorem commit_runs {ex : Header} {envc : Int} (run : s₁.commit fuel c ino ex argc envc g = .ok result)
    (counted : 0 ≤ argc) : Fate s result := by
  unfold ExecState.commit at run
  dsimp only at run
  obtain ⟨s₃, put, rest⟩ := of_bind run
  obtain ⟨s₄, closed, rest⟩ := of_bind rest
  cases rest
  exact counted

theorem Midway.runInterpreter (ready : ExecReady s) (mid : Midway s s₁ g.page (some ino) none) {envc : Int}
    (counted : 0 ≤ argc) (run : s₁.runInterpreter fuel c ino argc envc g = .ok result) : Fate s result := by
  obtain ⟨⟨bh, s₃⟩, opened, rest⟩ := of_bind run
  have one := mid.openFile opened
  cases bh with
  | error value => exact one.execError2 ready rest
  | ok i =>
    obtain ⟨s₄, released, rest⟩ := of_bind rest
    have two := one.brelse released
    split at rest
    · exact two.execError2 ready rest
    · exact commit_runs rest counted

theorem Midway.copyScript (mid : Midway s s₁ g.page held none) {script : Script} {block : Fs.Block} {envc argc' : Int}
    (counted : 0 ≤ argc) (run : s₁.copyScript c script block argc envc g = .ok (argc', g', s₂)) :
    Midway s s₂ g'.page held none ∧ 0 ≤ argc' := by
  obtain ⟨⟨g₁, s₃⟩, envs, rest⟩ := of_bind run
  obtain ⟨⟨g₂, s₄⟩, args, rest⟩ := of_bind rest
  obtain ⟨⟨g₃, s₅⟩, name, rest⟩ := of_bind rest
  have three := ((mid.copy envs).copy args).copy name
  obtain ⟨⟨argc₁, g₄, s₆⟩, arg, rest⟩ := of_bind rest
  obtain ⟨⟨g₅, s₇⟩, last, rest⟩ := of_bind rest
  cases rest
  unfold ExecState.copyArg at arg
  split at arg
  · cases arg
    exact ⟨three.copy last, by omega⟩
  · obtain ⟨⟨g₆, s₈⟩, one, rest⟩ := of_bind arg
    cases rest
    exact ⟨(three.copy one).copy last, by omega⟩

theorem Midway.interpret (ready : ExecReady s) (mid : Midway s s₁ g.page none none) {script : Script} {block : Fs.Block}
    {envc : Int} (counted : 0 ≤ argc) (run : s₁.interpret fuel c script block argc envc g = .ok result) :
    Fate s result := by
  obtain ⟨⟨argc', g₁, s₃⟩, copied, rest⟩ := of_bind run
  obtain ⟨one, counted'⟩ := mid.copyScript counted copied
  dsimp only at rest
  split at rest
  · exact one.execError1 ready rest
  · obtain ⟨⟨inode, s₄⟩, walked, rest⟩ := of_bind rest
    have two := one.namei ready walked
    cases inode with
    | none => exact two.execError1 ready rest
    | some ino' => exact two.runInterpreter ready counted' rest

theorem Midway.runProgram (ready : ExecReady s) (mid : Midway s s₁ g.page (some ino) none) {ex : Header} {envc : Int}
    (counted : 0 ≤ argc) (run : s₁.runProgram fuel c ino ex argc envc g = .ok result) : Fate s result := by
  unfold ExecState.runProgram at run
  split at run
  · exact mid.execError2 ready run
  · obtain ⟨⟨g₁, s₃⟩, envs, rest⟩ := of_bind run
    obtain ⟨⟨g₂, s₄⟩, args, rest⟩ := of_bind rest
    have two := (mid.copy envs).copy args
    dsimp only at rest
    split at rest
    · exact two.execError2 ready rest
    · exact commit_runs rest counted

theorem Midway.runFile (ready : ExecReady s) (mid : Midway s s₁ g.page (some ino) none) {envc : Int} (counted : 0 ≤ argc)
    (run : s₁.runFile fuel c ino argc envc g = .ok result) : Fate s result := by
  obtain ⟨⟨bh, s₃⟩, opened, rest⟩ := of_bind run
  have one := mid.openFile opened
  cases bh with
  | error value => exact one.execError2 ready rest
  | ok i =>
    dsimp only at rest
    split at rest
    · obtain ⟨s₄, released, rest⟩ := of_bind rest
      obtain ⟨s₅, put, rest⟩ := of_bind rest
      have two := (one.brelse released).iput put
      split at rest
      · exact two.execError1 ready rest
      · exact two.interpret ready counted rest
    · obtain ⟨s₄, released, rest⟩ := of_bind rest
      exact (one.brelse released).runProgram ready counted rest

theorem doExecve_fate (ready : ExecReady s) (run : s.doExecve fuel c = .ok result) : Fate s result := by
  obtain ⟨⟨inode, s₁⟩, walked, rest⟩ := of_bind run
  obtain ⟨bytes, v, rfl, found⟩ := namei_volume walked
  have placed : (s.walker c.time).Placed s.volume := fun k atStart => (ready.placed k atStart).2
  have balanced := ready.balanced.namei ready.moored placed found
  cases inode with
  | none =>
    cases rest
    have memory := balanced.users.memory
    have untouched : Untouched s.volume.memory v.memory := by
      rw [memory]
      exact .refl _
    have memMap : v.memory.memMap = s.volume.memory.memMap := by rw [memory]
    exact ⟨⟨memMap, untouched, fun k => (balanced.users.count k).trans (add_zero _), balanced.steady.count, rfl, rfl, rfl⟩,
      ready.kept (show Balanced _ (s.onVolume v).volume none from balanced) rfl memMap (congrArg Memory.highMemory memory)⟩
  | some ino =>
    dsimp only at rest
    split at rest
    · have one : Midway s (s.onVolume v) (fun _ => 0) (some ino) none := ready.start.onVolume balanced
      exact one.runFile ready (Int.natCast_nonneg _) rest
    · cases rest

/-- Where `do_execve` returns a negative value, nothing is left of the call. -/
theorem failed_exec_restores (fuel : Nat) (c : ExecCall) (ready : ExecReady s) (run : s.doExecve fuel c = .ok result)
    (negative : result.value < 0) : ∃ s', result = .failed result.value s' ∧ Restored s s' := by
  have fate := doExecve_fate ready run
  cases result with
  | failed value s' => exact ⟨s', rfl, fate.1⟩
  | running entered => exact absurd fate (not_le.mpr negative)

end Exits

/-- A script `s` whose interpreter `/x` does not exist. -/
def missingInterpreter : Fs.Block := fun i => ([0x23, 0x21, 0x2F, 0x78, 0x0A] : List Byte).getD i 0

/-- A ramdisk with its root directory and the script in the inode table, and a task that is there. -/
def inRoot : ExecState where
  volume := {
    device := {
      drive := {
        cache := bufferInit 4 (fun _ => 0) fun _ _ => 0
        disk := fun b => if b = 6 then Fs.setEntryName (Fs.setEntryInode (fun _ => 0) 0 2) 0 [0x73]
          else if b = 7 then missingInterpreter else fun _ => 0
        start := 0x8007D000
        length := 65536
        inode := fun k =>
          if k = 0 then { MInode.zero with
            mode := 0o040755, size := 16, nlinks := 2, zone := fun _ => 6, dev := ramdisk, num := 1, count := 4 }
          else if k = 1 then { MInode.zero with
            mode := 0o100755, size := 5, nlinks := 1, zone := fun _ => 7, dev := ramdisk, num := 2, count := 1 }
          else MInode.zero
        imapBlocks := 1
        zmapBlocks := 1 }
      sb := ⟨32, 64, 1, 1, 5, ramdisk, fun _ => none, fun _ => none⟩ }
    imount := some 0
    last := 0
    memory := bootMemory parentDir }
  task := ⟨some 0, some 0, none, 0, 0, 0, fun _ => 0⟩
  files := { file := fun _ => ⟨0, 0, 0, none, 0⟩, task := fun _ => none, current := 0, ttyPgrp := id }
  fsIsKernel := false

/-- A call with the path `/s`, which is the one argument too. -/
def execScript : ExecCall where
  filename := 0xC0000000
  argv := 0xC0000100
  envp := 0xC0000200
  user := fun a => if a = 0xC0000000 then 0x2F else if a = 0xC0000001 then 0x73 else if a = 0xC0000103 then 0xC0 else 0
  kernel := fun _ => 0
  filenameAt := 0x80001000
  iArgAt := 0x80001008
  iNameAt := 0x80001010
  buf := 0x80001018
  time := 0

theorem inRoot_unused {k : Nat} (noRoot : k ≠ 0) (noScript : k ≠ 1) : inRoot.volume.inode k = .zero :=
  (if_neg noRoot).trans (if_neg noScript)

theorem inRoot_ready : ExecReady inRoot where
  linked := ⟨_, _, bufferInit_queues (by decide) _ _⟩
  devices k := by
    by_cases isRoot : k = 0
    · subst isRoot
      exact .inr rfl
    · by_cases isScript : k = 1
      · subst isScript
        exact .inr rfl
      · rw [inRoot_unused isRoot isScript]
        exact .inl rfl
  pipes k isPipe := by
    by_cases isRoot : k = 0
    · subst isRoot
      cases isPipe
    · by_cases isScript : k = 1
      · subst isScript
        cases isPipe
      · rw [inRoot_unused isRoot isScript]
        rfl
  moored m mounted := by
    cases mounted
    decide
  placed k atStart := by
    rcases atStart with ⟨⟨⟩⟩ | ⟨⟨⟩⟩ <;> decide
  frames _ free := free_below (bootMemory_wf (Finset.mem_singleton_self parentDir)) free

/-- The interpreter was not found, after the strings of the call had been copied to the highest frame. -/
def failsLate : ExecResult → Bool
  | .failed value s => value = -enoent ∧ s.volume.memory.phys (framePage 1279) 510 ≠ 0
  | .running _ => false

/-- The frame with the strings is free again. -/
theorem missing_interpreter_restored :
    ∃ s', inRoot.doExecve 4 execScript = .ok (.failed (-enoent) s') ∧
      s'.volume.memory.phys (framePage 1279) 510 ≠ 0 ∧ Restored inRoot s' := by
  have test : (inRoot.doExecve 4 execScript).toOption.any failsLate = true := by decide +kernel
  cases run : inRoot.doExecve 4 execScript with
  | error fault =>
    rw [run] at test
    cases test
  | ok result =>
    rw [run] at test
    have late : failsLate result = true := test
    cases result with
    | running entered => cases late
    | failed value s' =>
      simp only [failsLate, decide_eq_true_eq] at late
      rcases late with ⟨rfl, written⟩
      obtain ⟨s'', same, restored⟩ := failed_exec_restores 4 execScript inRoot_ready run (show -enoent < 0 by decide)
      cases same
      exact ⟨s', rfl, written, restored⟩

end K210Linux.Exec
