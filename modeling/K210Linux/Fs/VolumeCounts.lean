import K210Linux.Fs.Volume
import K210Linux.Fs.LinkCounts

/-! What the calls on a volume do to the users of its inodes and of its buffers. -/

namespace K210Linux.Fs

open Outcome
open K210Linux.Buffer
open K210Linux.Buffer.Drive (nrInode scanEmpty findInode)
open K210Linux.Mm (freePage)

/-- Only flags of inodes that wait to be written change. -/
def OnlyDirtied (s s' : Drive) : Prop := ∀ j, s'.inode j = { s.inode j with dirt := (s'.inode j).dirt }

/-- Contents and flags of buffers may change. -/
structure Static (s s' : Drive) : Prop where
  nr : s'.cache.nrBuffers = s.cache.nrBuffers
  start : s'.start = s.start
  length : s'.length = s.length
  table : s'.imapBlocks = s.imapBlocks ∧ s'.zmapBlocks = s.zmapBlocks
  head : ∀ j, (s'.cache.head j).count = (s.cache.head j).count ∧ (s'.cache.head j).dev = (s.cache.head j).dev ∧
    (s'.cache.head j).blocknr = (s.cache.head j).blocknr
  inode : s'.inode = s.inode
  linked : Buffer.Linked s → Buffer.Linked s'

section Drives

variable {s s₁ s' : Drive} {i k fuel : Nat} {block : BitVec 64}

theorem OnlyDirtied.refl (s : Drive) : OnlyDirtied s s := fun _ => rfl

theorem OnlyDirtied.trans (one : OnlyDirtied s s₁) (two : OnlyDirtied s₁ s') : OnlyDirtied s s' := by
  intro j
  rw [two j, one j]

theorem moves_onlyDirtied {asks : BitVec 16 → BitVec 64 → Prop} {inodes : Prop} (moves : Moves asks inodes s s') :
    OnlyDirtied s s' := by
  induction moves with
  | refl => exact .refl s
  | tail _ move ih =>
    refine ih.trans ?_
    cases move with
    | request write i =>
      intro j
      rw [(llRwBlock_flushed _ write i).inode]
    | count i count => exact .refl _
    | assign i dev block cache => exact .refl _
    | inode i k data =>
      intro j
      simp only [Function.update_apply]
      split
      · rename_i here
        rw [here]
      · rfl

theorem Static.refl (s : Drive) : Static s s := ⟨rfl, rfl, rfl, ⟨rfl, rfl⟩, fun _ => ⟨rfl, rfl, rfl⟩, rfl, id⟩

theorem Static.steady (static : Static s s') : Steady s s' where
  nr := static.nr
  start := static.start
  length := static.length
  table := static.table
  count j := (static.head j).1
  held j _ := (static.head j).2
  used j used := by
    rw [(static.head j).2.1]
    exact used

theorem Static.acquired (static : Static s₁ s') (acquired : Acquired s s₁ i block) : Acquired s s' i block where
  nr := static.nr.trans acquired.nr
  start := static.start.trans acquired.start
  length := static.length.trans acquired.length
  table := ⟨static.table.1.trans acquired.table.1, static.table.2.trans acquired.table.2⟩
  inside := acquired.inside
  here := by
    rw [(static.head i).2.1, (static.head i).2.2]
    exact acquired.here
  one := (static.head i).1.trans acquired.one
  count j other := (static.head j).1.trans (acquired.count j other)
  held j used := by
    rw [(static.head j).2.1, (static.head j).2.2]
    exact acquired.held j used
  used j used := by
    rw [(static.head j).2.1]
    exact acquired.used j used

/-- A buffer that was counted once more and is released. -/
theorem brelse_static (head : BufferHead) (dev : head.dev = (s.cache.head i).dev)
    (blocknr : head.blocknr = (s.cache.head i).blocknr) (count : head.count = (s.cache.head i).count + 1)
    (released : (s.setHead i head).brelse i = .ok s') : Static s s' := by
  have here : (s.setHead i head).cache.head i = head := Function.update_self ..
  unfold Drive.brelse at released
  rw [here] at released
  split at released
  · cases released
  · cases released
    refine ⟨rfl, rfl, rfl, ⟨rfl, rfl⟩, ?_, rfl, ?_⟩
    · intro j
      simp only [Drive.setHead, Cache.setHead, Function.update_idem, Function.update_apply]
      split
      · rename_i same
        rw [same, count]
        exact ⟨BitVec.add_sub_cancel .., dev, blocknr⟩
      · exact ⟨rfl, rfl, rfl⟩
    · intro linked
      exact (linked.setHead dev blocknr).setHead (by rw [here]) (by rw [here])

theorem unmark_drive {d d' : Device} {z : Nat} (unmarked : d.unmark z = .ok d') : d'.drive = d.drive := by
  unfold Device.unmark at unmarked
  dsimp only at unmarked
  split at unmarked
  · cases unmarked
  · rcases of_bind unmarked with ⟨⟨clear, data⟩, -, rest⟩
    dsimp only at rest
    split at rest
    · cases rest
    · cases rest
      rfl

/-- `free_block` gives back the buffer that it looks up, also where others use it. -/
theorem freeBlock_static {d d' : Device} {z : Nat} (freed : d.freeBlock z = .ok d') : Static d.drive d'.drive := by
  unfold Device.freeBlock at freed
  split at freed
  · cases freed
  · split at freed
    · rw [unmark_drive freed]
      exact .refl _
    · rename_i i _
      have set (a b : BufferHead) : (d.drive.setHead i a).setHead i b = d.drive.setHead i b := by
        simp only [Drive.setHead, Cache.setHead, Function.update_idem]
      have here (a : BufferHead) : (d.drive.setHead i a).cache.head i = a := Function.update_self ..
      simp only [here, set] at freed
      split at freed
      · rcases of_bind freed with ⟨drive, released, rest⟩
        cases rest
        exact brelse_static { d.drive.cache.head i with count := (d.drive.cache.head i).count + 1 } rfl rfl rfl released
      · rcases of_bind freed with ⟨drive, released, rest⟩
        rw [unmark_drive rest]
        exact brelse_static { d.drive.cache.head i with
          count := (d.drive.cache.head i).count + 1, dirt := false, uptodate := false } rfl rfl rfl released

/-- What a call on the inodes keeps that writes some of them back. -/
structure WroteBack (s s' : Drive) : Prop where
  intact : Intact s s'
  dirtied : OnlyDirtied s s'

theorem WroteBack.refl (linked : Buffer.Linked s) : WroteBack s s := ⟨⟨linked, .refl s⟩, .refl s⟩

theorem WroteBack.trans (one : WroteBack s s₁) (two : WroteBack s₁ s') : WroteBack s s' :=
  ⟨one.intact.trans two.intact, one.dirtied.trans two.dirtied⟩

theorem writeInode_wroteBack (linked : Buffer.Linked s) (written : Drive.writeInode fuel k s = .ok s') : WroteBack s s' :=
  have moves : Moves (fun _ _ => True) True s s' := writeInode_moves linked written
  ⟨writeInode_intact linked written, moves_onlyDirtied moves⟩

theorem syncDev_wroteBack {dev : BitVec 16} (linked : Buffer.Linked s) (synced : Drive.syncDev fuel dev s = .ok s') : WroteBack s s' :=
  have moves : Moves (fun _ _ => True) True s s' := syncDev_moves fuel dev s s' linked synced
  ⟨syncDev_intact fuel dev s s' linked synced, moves_onlyDirtied moves⟩

theorem bread_dirtied {bh : Option Nat} (linked : Buffer.Linked s) (read : Drive.bread fuel ramdisk block s = .ok (bh, s')) :
    OnlyDirtied s s' :=
  have moves : Moves (fun _ _ => True) True s s' := (bread_moves (syncDev_moves fuel) linked (.inl trivial) read).1
  moves_onlyDirtied moves

theorem cleanInode_wroteBack {left : Nat} (linked : Buffer.Linked s) (cleaned : Drive.cleanInode k left s = .ok s') : WroteBack s s' := by
  induction left generalizing s with
  | zero => cases cleaned
  | succ left ih =>
    rw [Drive.cleanInode] at cleaned
    split at cleaned
    · rcases of_bind cleaned with ⟨s₁, written, rest⟩
      have one := writeInode_wroteBack linked written
      exact one.trans (ih one.intact.1 rest)
    · cases cleaned
      exact .refl linked

/-- The place that `get_empty_inode` takes has no user. -/
theorem emptyInode_takes {last last' : Nat} (linked : Buffer.Linked s)
    (got : Drive.getEmptyInode fuel last s = .ok (k, last', s')) :
    ∃ s₁, WroteBack s s₁ ∧ (s₁.inode k).count = 0 ∧ s' = s₁.setInode k { MInode.zero with count := 1 } := by
  induction fuel generalizing s last with
  | zero => cases got
  | succ fuel ih =>
    rw [Drive.getEmptyInode] at got
    split at got
    · cases got
    · rcases of_bind got with ⟨s₁, cleaned, rest⟩
      have one := cleanInode_wroteBack linked cleaned
      split at rest
      · rcases ih one.intact.1 rest with ⟨s₂, two, unused, taken⟩
        exact ⟨s₂, one.trans two, unused, taken⟩
      · rename_i unused
        cases rest
        exact ⟨s₁, one, not_not.1 unused, rfl⟩

/-- `read_inode` fills in the fields that are on the device. -/
theorem readInode_loads (linked : Buffer.Linked s) (read : Drive.readInode fuel k s = .ok s') :
    Intact s s' ∧ ∃ block n, s'.inode = Function.update s.inode k (loadInode block n (s.inode k)) := by
  unfold Drive.readInode at read
  dsimp only at read
  split at read
  · cases read
  · rename_i device
    rw [not_not.1 device] at read
    rcases of_bind read with ⟨⟨bh, s₁⟩, found, rest⟩
    have got := bread_acquires stuck_intact linked found
    cases bh with
    | none => cases rest
    | some i =>
      rcases got with ⟨linked₁, acquired⟩
      refine ⟨brelse_intact (linked₁.withInodes _) (acquired.withInodes _) rest, (s₁.cache.head i).data,
        ((s.inode k).num.toNat - 1) % 32, ?_⟩
      rw [brelse_inode rest, ← breadWith_inode found]
      rfl

/-- `iget` counts the inode once more, or gives an unused place its first user. -/
theorem iget_counts {last last' : Nat} {num : BitVec 16} (linked : Buffer.Linked s)
    (got : Drive.iget fuel last num s = .ok (k, last', s')) :
    Intact s s' ∧
      ∃ s₁, WroteBack s s₁ ∧
        ((∃ e, e ≠ k ∧ (s₁.inode e).count = 0 ∧ (s₁.inode k).dev = ramdisk ∧
            s'.inode = Function.update (Function.update s₁.inode k { s₁.inode k with count := (s₁.inode k).count + 1 }) e
              MInode.zero) ∨
          ((s₁.inode k).count = 0 ∧ ∃ inode : MInode, inode.count = 1 ∧ inode.dev = ramdisk ∧ inode.pipe = false ∧
            s'.inode = Function.update s₁.inode k inode)) := by
  rcases of_bind got with ⟨⟨e, last₁, s₂⟩, taken, rest⟩
  rcases emptyInode_takes linked taken with ⟨s₁, written, unused, rfl⟩
  have linked₂ : Buffer.Linked (s₁.setInode e { MInode.zero with count := 1 }) := written.intact.1.withInodes _
  have intact₂ : Intact s (s₁.setInode e { MInode.zero with count := 1 }) :=
    ⟨linked₂, written.intact.2.trans (.setInode s₁ e _)⟩
  dsimp only at rest
  split at rest
  · rename_i j located
    cases rest
    have found := findInode_some located
    have other : k ≠ e := by
      rintro rfl
      have device := found.1
      simp only [Drive.setInode, Function.update_self] at device
      exact ramdisk_ne device.symm
    refine ⟨⟨(linked₂.withInodes _).withInodes _, ?_⟩, s₁, written, .inl ⟨e, other.symm, unused, ?_, ?_⟩⟩
    · exact (intact₂.2.trans (.setInode _ k _)).trans (.setInode _ e _)
    · have device := found.1
      simp only [Drive.setInode, Function.update_of_ne other] at device
      exact device
    · simp only [Drive.setInode, Function.update_of_ne other]
      rw [Function.update_comm other.symm, Function.update_idem]
  · rcases of_bind rest with ⟨s₃, read, done⟩
    cases done
    rcases readInode_loads (linked₂.withInodes _) read with ⟨intact₃, block, n, inode⟩
    refine ⟨?_, s₁, written, .inr ⟨unused, loadInode block n { MInode.zero with count := 1, dev := ramdisk, num := num },
      rfl, rfl, rfl, ?_⟩⟩
    · exact ⟨intact₃.1, (intact₂.2.trans (.setInode _ k _)).trans intact₃.2⟩
    · rw [inode]
      simp only [Drive.setInode, Function.update_self, Function.update_idem]

end Drives

/-- The users of the inodes since `v`, with one more for the inode that is held. -/
structure Users (v v' : Volume) (held : Option Nat) : Prop where
  count : ∀ j, (v'.inode j).count = (v.inode j).count + if held = some j then 1 else 0
  used : ∀ j, (v.inode j).count ≠ 0 → (v'.inode j).dev = (v.inode j).dev
  devices : ∀ j, (v'.inode j).dev = 0 ∨ (v'.inode j).dev = ramdisk
  pipes : ∀ j, (v'.inode j).pipe = true → (v'.inode j).dev = 0
  here : ∀ k, held = some k → (v'.inode k).dev = ramdisk
  memory : v'.memory = v.memory
  imount : v'.imount = v.imount

/-- No buffer is held. -/
structure Balanced (v v' : Volume) (held : Option Nat) : Prop where
  linked : Buffer.Linked v'.drive
  steady : Steady v.drive v'.drive
  users : Users v v' held

/-- One buffer is held. -/
structure Reading (v v' : Volume) (held : Option Nat) (i : Nat) : Prop where
  linked : Buffer.Linked v'.drive
  acquired : ∃ block, Acquired v.drive v'.drive i block
  users : Users v v' held

/-- What a call leaves that returns a buffer, or none. -/
def Borrowed (v v' : Volume) (held : Option Nat) : Option Nat → Prop
  | some i => Reading v v' held i
  | none => Balanced v v' held

section Counts

variable {v v₁ v' : Volume} {held : Option Nat} {k fuel : Nat} {dev : BitVec 16} {time : BitVec 32}

theorem setInode_inode (v : Volume) (k : Nat) (inode : MInode) (j : Nat) :
    (v.setInode k inode).inode j = if j = k then inode else v.inode j := Function.update_apply ..

theorem Users.relabel (users : Users v v₁ held) (same : ∀ j, (v'.inode j).count = (v₁.inode j).count ∧
    (v'.inode j).dev = (v₁.inode j).dev ∧ (v'.inode j).pipe = (v₁.inode j).pipe) (memory : v'.memory = v₁.memory)
    (imount : v'.imount = v₁.imount) : Users v v' held where
  count j := (same j).1.trans (users.count j)
  used j used := (same j).2.1.trans (users.used j used)
  devices j := by
    rw [(same j).2.1]
    exact users.devices j
  pipes j isPipe := by
    rw [(same j).2.2] at isPipe
    rw [(same j).2.1]
    exact users.pipes j isPipe
  here k isHeld := (same k).2.1.trans (users.here k isHeld)
  memory := memory.trans users.memory
  imount := imount.trans users.imount

/-- Buffers and flags of inodes may change. -/
theorem Users.onDrive (users : Users v v₁ held) {drive : Drive} (dirtied : OnlyDirtied v₁.drive drive) :
    Users v (v₁.onDrive drive) held := by
  refine users.relabel (fun j => ?_) rfl rfl
  have same : (v₁.onDrive drive).inode j = { v₁.inode j with dirt := (drive.inode j).dirt } := dirtied j
  rw [same]
  exact ⟨rfl, rfl, rfl⟩

theorem Users.setInode (users : Users v v₁ held) {inode : MInode} (count : inode.count = (v₁.inode k).count)
    (dev : inode.dev = (v₁.inode k).dev) (pipe : inode.pipe = (v₁.inode k).pipe) :
    Users v (v₁.setInode k inode) held := by
  refine users.relabel (fun j => ?_) rfl rfl
  rw [setInode_inode]
  split
  · rename_i here
    rw [here]
    exact ⟨count, dev, pipe⟩
  · exact ⟨rfl, rfl, rfl⟩

/-- The reference is given back by a change of the inode alone. -/
theorem Users.drop (users : Users v v₁ (some k)) (inode : MInode) (same : v'.inode = (v₁.setInode k inode).inode)
    (count : inode.count = (v.inode k).count)
    (kept : inode.dev = (v₁.inode k).dev ∧ inode.pipe = (v₁.inode k).pipe ∨ inode = .zero ∧ (v.inode k).count = 0)
    (memory : v'.memory = v₁.memory) (imount : v'.imount = v₁.imount) : Users v v' none where
  count j := by
    rw [same, setInode_inode, if_neg (show ¬ none = some j from nofun), add_zero]
    split
    · rename_i here
      rw [here, count]
    · rename_i other
      rw [users.count, if_neg fun held => other (Option.some.inj held).symm, add_zero]
  used j used := by
    rw [same, setInode_inode]
    split
    · rename_i here
      subst here
      rcases kept with ⟨dev, -⟩ | ⟨-, unused⟩
      · rw [dev, users.used _ used]
      · exact absurd unused used
    · exact users.used j used
  devices j := by
    rw [same, setInode_inode]
    split
    · rcases kept with ⟨dev, -⟩ | ⟨rfl, -⟩
      · rw [dev]
        exact users.devices k
      · exact .inl rfl
    · exact users.devices j
  pipes j isPipe := by
    rw [same, setInode_inode] at isPipe ⊢
    split at isPipe
    · rename_i here
      rw [if_pos here]
      rcases kept with ⟨dev, pipe⟩ | ⟨rfl, -⟩
      · rw [dev]
        exact users.pipes k (pipe ▸ isPipe)
      · rfl
    · rename_i other
      rw [if_neg other]
      exact users.pipes j isPipe
  here := nofun
  memory := memory.trans users.memory
  imount := imount.trans users.imount

theorem Balanced.setInode (balanced : Balanced v v₁ held) {inode : MInode} (count : inode.count = (v₁.inode k).count)
    (dev : inode.dev = (v₁.inode k).dev) (pipe : inode.pipe = (v₁.inode k).pipe) :
    Balanced v (v₁.setInode k inode) held :=
  ⟨balanced.linked.withInodes _, balanced.steady.trans (.setInode _ k inode), balanced.users.setInode count dev pipe⟩

theorem Balanced.wroteBack (balanced : Balanced v v₁ held) {drive : Drive} (wrote : WroteBack v₁.drive drive) :
    Balanced v (v₁.onDrive drive) held :=
  ⟨wrote.intact.1, balanced.steady.trans wrote.intact.2, balanced.users.onDrive wrote.dirtied⟩

theorem Balanced.bread (balanced : Balanced v v₁ held) {block : Nat} {bh : Option Nat}
    (read : v₁.bread fuel ramdisk block = .ok (bh, v')) :
    Borrowed v v' held bh := by
  rcases of_bind read with ⟨⟨bh₁, drive⟩, got, rest⟩
  cases rest
  have users := balanced.users.onDrive (bread_dirtied balanced.linked got)
  have acquires := bread_acquires (syncDev_intact fuel) balanced.linked got
  cases bh with
  | none => exact ⟨acquires.1, balanced.steady.trans acquires.2, users⟩
  | some i => exact ⟨acquires.1, ⟨_, acquires.2.after balanced.steady⟩, users⟩

theorem Reading.brelse {i : Nat} (reading : Reading v v₁ held i) (released : v₁.brelse i = .ok v') : Balanced v v' held := by
  rcases of_bind released with ⟨drive, run, rest⟩
  cases rest
  rcases reading.acquired with ⟨block, acquired⟩
  have intact := brelse_intact reading.linked acquired run
  refine ⟨intact.1, intact.2, reading.users.onDrive fun j => ?_⟩
  rw [brelse_inode run]

/-- `free_block` touches no count. -/
theorem freeBlock_frame {block : Nat} (freed : v₁.freeBlock dev block = .ok v') :
    dev = ramdisk ∧ Static v₁.drive v'.drive ∧ v'.memory = v₁.memory ∧ v'.imount = v₁.imount := by
  unfold Volume.freeBlock at freed
  split at freed
  · cases freed
  · rename_i device
    rcases of_bind freed with ⟨d, run, rest⟩
    cases rest
    exact ⟨not_not.1 device, freeBlock_static run, rfl, rfl⟩

theorem Users.static (users : Users v v₁ held) (static : Static v₁.drive v'.drive) (memory : v'.memory = v₁.memory)
    (imount : v'.imount = v₁.imount) : Users v v' held := by
  refine users.relabel (fun j => ?_) memory imount
  have same : v'.inode j = v₁.inode j := congrFun static.inode j
  rw [same]
  exact ⟨rfl, rfl, rfl⟩

theorem Balanced.freeBlock (balanced : Balanced v v₁ held) {block : Nat} (freed : v₁.freeBlock dev block = .ok v') :
    Balanced v v' held := by
  rcases freeBlock_frame freed with ⟨-, static, memory, imount⟩
  exact ⟨static.linked balanced.linked, balanced.steady.trans static.steady, balanced.users.static static memory imount⟩

theorem Reading.freeBlock {i : Nat} (reading : Reading v v₁ held i) {block : Nat}
    (freed : v₁.freeBlock dev block = .ok v') : Reading v v' held i := by
  rcases freeBlock_frame freed with ⟨-, static, memory, imount⟩
  rcases reading.acquired with ⟨b, acquired⟩
  exact ⟨static.linked reading.linked, ⟨b, static.acquired acquired⟩, reading.users.static static memory imount⟩

theorem freeEntries_reading {i n left : Nat} (reading : Reading v v₁ held i)
    (freed : Volume.freeEntries dev i n left v₁ = .ok v') : Reading v v' held i := by
  induction left generalizing n v₁ with
  | zero =>
    cases freed
    exact reading
  | succ left ih =>
    unfold Volume.freeEntries at freed
    split at freed
    · exact ih reading freed
    · rcases of_bind freed with ⟨v₂, one, rest⟩
      exact ih (reading.freeBlock one) rest

theorem Balanced.freeInd (balanced : Balanced v v₁ held) {block : Nat} (freed : v₁.freeInd fuel ramdisk block = .ok v') :
    Balanced v v' held := by
  unfold Volume.freeInd at freed
  split at freed
  · cases freed
    exact balanced
  · rcases of_bind freed with ⟨⟨bh, v₂⟩, read, rest⟩
    have got := balanced.bread read
    cases bh with
    | none => exact Balanced.freeBlock got rest
    | some i =>
      rcases of_bind rest with ⟨v₃, entries, rest⟩
      rcases of_bind rest with ⟨v₄, released, rest⟩
      exact ((freeEntries_reading got entries).brelse released).freeBlock rest

theorem freeDirect_balanced {i left : Nat} (balanced : Balanced v v₁ held)
    (freed : Volume.freeDirect k i left v₁ = .ok v') : Balanced v v' held := by
  induction left generalizing i v₁ with
  | zero =>
    cases freed
    exact balanced
  | succ left ih =>
    unfold Volume.freeDirect at freed
    split at freed
    · exact ih balanced freed
    · rcases of_bind freed with ⟨v₂, one, rest⟩
      have zeroed : Balanced v (v₂.setInode k { v₂.inode k with zone := Function.update (v₂.inode k).zone i 0 }) held :=
        (balanced.freeBlock one).setInode rfl rfl rfl
      exact ih zeroed rest

/-- `truncate` of an inode that is held. -/
theorem Balanced.truncate (balanced : Balanced v v₁ (some k)) (truncated : v₁.truncate fuel k time = .ok v') :
    Balanced v v' (some k) := by
  unfold Volume.truncate at truncated
  split at truncated
  · cases truncated
    exact balanced
  · rcases of_bind truncated with ⟨v₂, direct, rest⟩
    have one := freeDirect_balanced balanced direct
    rw [one.users.here k rfl] at rest
    rcases of_bind rest with ⟨v₃, single, rest⟩
    have two := one.freeInd single
    rw [two.users.here k rfl] at rest
    rcases of_bind rest with ⟨v₄, double, rest⟩
    have three := two.freeInd double
    cases rest
    exact three.setInode rfl rfl rfl

theorem Balanced.release (balanced : Balanced v v₁ (some k)) (unused : (v.inode k).count = 0)
    (released : v₁.release fuel k time = .ok v') : Balanced v v' none := by
  rcases of_bind released with ⟨v₂, truncated, rest⟩
  have one := balanced.truncate truncated
  rcases of_bind rest with ⟨⟨inode, sb⟩, freed, rest⟩
  rcases freeInode_parts (of_mapError freed) with ⟨rfl, -⟩
  cases rest
  exact ⟨one.linked.withInodes _, one.steady.trans (.setInode _ k _),
    one.users.drop .zero rfl unused.symm (.inr ⟨rfl, unused⟩) rfl rfl⟩

theorem Balanced.uncount (balanced : Balanced v v₁ (some k)) :
    Balanced v (v₁.setInode k { v₁.inode k with count := (v₁.inode k).count - 1 }) none := by
  have before := balanced.users.count k
  rw [if_pos rfl] at before
  refine ⟨balanced.linked.withInodes _, balanced.steady.trans (.setInode _ k _), ?_⟩
  refine balanced.users.drop { v₁.inode k with count := (v₁.inode k).count - 1 } rfl ?_ (.inl ⟨rfl, rfl⟩) rfl rfl
  rw [before]
  exact BitVec.add_sub_cancel ..

theorem Balanced.dropLast {left : Nat} (balanced : Balanced v v₁ (some k)) (held : (v.inode k).count + 1 ≠ 0)
    (dropped : Volume.dropLast fuel k time left v₁ = .ok v') : Balanced v v' none := by
  induction left generalizing v₁ with
  | zero => cases dropped
  | succ left ih =>
    unfold Volume.dropLast at dropped
    dsimp only at dropped
    split at dropped
    · cases dropped
      exact balanced.uncount
    · rename_i single
      split at dropped
      · have before := balanced.users.count k
        rw [if_pos rfl] at before
        rw [before] at single
        refine balanced.release ?_ dropped
        -- one user at most, and the call holds the inode itself
        generalize (v.inode k).count = count at held single
        rw [BitVec.lt_def] at single
        have some : (count + 1).toNat ≠ 0 := fun zero => held (BitVec.eq_of_toNat_eq zero)
        have one : count + 1 = 1 := by
          apply BitVec.eq_of_toNat_eq
          change ¬ 1 < _ at single
          change _ = 1
          omega
        exact add_left_injective 1 one
      · split at dropped
        · rcases of_bind dropped with ⟨drive, written, rest⟩
          exact ih (balanced.wroteBack (writeInode_wroteBack balanced.linked written)) rest
        · cases dropped
          exact balanced.uncount

/-- `iput` of the inode that is held. -/
theorem Balanced.iput (balanced : Balanced v v₁ (some k)) (put : v₁.iput fuel k time = .ok v') : Balanced v v' none := by
  unfold Volume.iput at put
  dsimp only at put
  split at put
  · cases put
  · rename_i some
    have before := balanced.users.count k
    rw [if_pos rfl] at before
    split at put
    · rename_i isPipe
      have onRamdisk := balanced.users.here k rfl
      rw [balanced.users.pipes k isPipe] at onRamdisk
      exact absurd onRamdisk (by decide)
    · rcases of_bind put with ⟨v₂, synced, rest⟩
      have one : Balanced v v₂ (.some k) := by
        unfold Volume.syncBlk at synced
        split at synced
        · rcases of_bind synced with ⟨drive, run, done⟩
          cases done
          exact balanced.wroteBack (syncDev_wroteBack balanced.linked run)
        · cases synced
          exact balanced
      exact one.dropLast (before ▸ some) rest

/-- An inode of the root device gets one user more. -/
theorem Users.count_up (users : Users v v₁ none) (onRamdisk : (v₁.inode k).dev = ramdisk)
    (same : ∀ j, v'.inode j = if j = k then { v₁.inode k with count := (v₁.inode k).count + 1 } else v₁.inode j)
    (memory : v'.memory = v₁.memory) (imount : v'.imount = v₁.imount) : Users v v' (some k) := by
  have labels (j : Nat) : (v'.inode j).dev = (v₁.inode j).dev ∧ (v'.inode j).pipe = (v₁.inode j).pipe := by
    rw [same]
    split
    · rename_i here
      rw [here]
      exact ⟨rfl, rfl⟩
    · exact ⟨rfl, rfl⟩
  have before (j : Nat) : (v₁.inode j).count = (v.inode j).count := (users.count j).trans (add_zero _)
  refine ⟨?_, ?_, ?_, ?_, ?_, memory.trans users.memory, imount.trans users.imount⟩
  · intro j
    rw [same]
    by_cases here : j = k
    · rw [if_pos here, if_pos (congrArg some here.symm), here, before]
    · rw [if_neg here, if_neg fun held => here (Option.some.inj held).symm, before, add_zero]
  · intro j used
    rw [(labels j).1]
    exact users.used j used
  · intro j
    rw [(labels j).1]
    exact users.devices j
  · intro j isPipe
    rw [(labels j).2] at isPipe
    rw [(labels j).1]
    exact users.pipes j isPipe
  · intro j held
    rw [(labels j).1, ← Option.some.inj held]
    exact onRamdisk

/-- A place that nobody uses gets another inode. -/
theorem Users.fill (users : Users v v₁ none) (inode : MInode) (unused : (v₁.inode k).count = 0)
    (same : ∀ j, v'.inode j = if j = k then inode else v₁.inode j) (memory : v'.memory = v₁.memory)
    (imount : v'.imount = v₁.imount) (count : inode.count = if held = some k then 1 else 0)
    (only : ∀ j, held = some j → j = k) (device : inode.pipe = false ∧ inode.dev = ramdisk ∨ held = none ∧ inode = .zero) :
    Users v v' held := by
  have before (j : Nat) : (v₁.inode j).count = (v.inode j).count := (users.count j).trans (add_zero _)
  have unused₀ : (v.inode k).count = 0 := (before k).symm.trans unused
  refine ⟨?_, ?_, ?_, ?_, ?_, memory.trans users.memory, imount.trans users.imount⟩
  · intro j
    rw [same]
    by_cases here : j = k
    · rw [if_pos here, count, here, unused₀, zero_add]
    · rw [if_neg here, if_neg fun isHeld => here (only j isHeld), before, add_zero]
  · intro j used
    have other : j ≠ k := fun here => used (here ▸ unused₀)
    rw [same, if_neg other]
    exact users.used j used
  · intro j
    rw [same]
    split
    · rcases device with ⟨-, dev⟩ | ⟨-, rfl⟩
      · exact .inr dev
      · exact .inl rfl
    · exact users.devices j
  · intro j isPipe
    rw [same] at isPipe ⊢
    split at isPipe
    · rename_i here
      rw [if_pos here]
      rcases device with ⟨pipe, -⟩ | ⟨-, rfl⟩
      · rw [pipe] at isPipe
        cases isPipe
      · rfl
    · rename_i other
      rw [if_neg other]
      exact users.pipes j isPipe
  · intro j isHeld
    rw [same, if_pos (only j isHeld)]
    rcases device with ⟨-, dev⟩ | ⟨none, -⟩
    · exact dev
    · rw [none] at isHeld
      cases isHeld

theorem Balanced.hold (balanced : Balanced v v₁ none) (onRamdisk : (v₁.inode k).dev = ramdisk) :
    Balanced v (v₁.hold k) (some k) :=
  ⟨balanced.linked.withInodes _, balanced.steady.trans (.setInode _ k _),
    balanced.users.count_up onRamdisk (setInode_inode v₁ k _) rfl rfl⟩

theorem Balanced.iget (balanced : Balanced v v₁ none) {num : BitVec 16} (got : v₁.iget fuel dev num = .ok (k, v')) :
    Balanced v v' (some k) := by
  unfold Volume.iget at got
  split at got
  · cases got
  · rcases of_bind got with ⟨⟨j, last, drive⟩, run, rest⟩
    cases rest
    rcases iget_counts balanced.linked run with ⟨intact, s₁, wrote, cases⟩
    have one := balanced.wroteBack wrote
    refine ⟨intact.1, balanced.steady.trans intact.2, ?_⟩
    rcases cases with ⟨e, other, unused, onRamdisk, inodes⟩ | ⟨unused, inode, count, device, pipe, inodes⟩
    · have cleared : Users v ((v₁.onDrive s₁).setInode e .zero) none :=
        one.users.fill .zero unused (setInode_inode _ e _) rfl rfl rfl nofun (.inr ⟨rfl, rfl⟩)
      have here : ((v₁.onDrive s₁).setInode e .zero).inode k = s₁.inode k := by
        rw [setInode_inode, if_neg other.symm]
        rfl
      refine cleared.count_up (here ▸ onRamdisk) (fun j => ?_) rfl rfl
      rw [here, setInode_inode]
      change drive.inode j = _
      rw [inodes, Function.update_apply, Function.update_apply]
      by_cases atEmpty : j = e
      · rw [if_pos atEmpty, if_neg (atEmpty ▸ other), if_pos atEmpty]
      · rw [if_neg atEmpty, if_neg atEmpty]
        rfl
    · have table (j : Nat) : drive.inode j = if j = k then inode else s₁.inode j := by
        rw [inodes, Function.update_apply]
      refine one.users.fill inode unused table rfl rfl ?_ (fun j same => (Option.some.inj same).symm) (.inl ⟨pipe, device⟩)
      rw [if_pos rfl, count]

theorem Balanced.readEntry (balanced : Balanced v v₁ held) {block n z : Nat}
    (read : v₁.readEntry fuel ramdisk block n = .ok (z, v')) : Balanced v v' held := by
  rcases of_bind read with ⟨⟨bh, v₂⟩, got, rest⟩
  have borrowed := balanced.bread got
  cases bh with
  | none =>
    cases rest
    exact borrowed
  | some i =>
    rcases of_bind rest with ⟨v₃, released, rest⟩
    cases rest
    exact Reading.brelse borrowed released

theorem Balanced.bmap (balanced : Balanced v v₁ (some k)) {block z : Nat} (mapped : v₁.bmap fuel k block = .ok (z, v')) :
    Balanced v v' (some k) := by
  unfold Volume.bmap at mapped
  dsimp only at mapped
  rw [balanced.users.here k rfl] at mapped
  split at mapped
  · cases mapped
  · split at mapped
    · cases mapped
      exact balanced
    · split at mapped
      · split at mapped
        · cases mapped
          exact balanced
        · exact balanced.readEntry mapped
      · split at mapped
        · cases mapped
          exact balanced
        · rcases of_bind mapped with ⟨⟨i, v₂⟩, first, rest⟩
          have one := balanced.readEntry first
          dsimp only at rest
          split at rest
          · cases rest
            exact one
          · exact one.readEntry rest

/-- `find_entry` returns with the buffer of the entry, or with none. -/
theorem findLoop_borrows {entries left i j : Nat} {name : List Byte} {bh : Option Nat} {found : Option (Nat × Nat)}
    (borrowed : Borrowed v v₁ (some k) bh) (run : Volume.findLoop fuel k entries name left i j bh v₁ = .ok (found, v')) :
    Borrowed v v' (some k) (found.map Prod.fst) := by
  induction left generalizing i j bh v₁ with
  | zero => cases run
  | succ left ih =>
    cases bh with
    | none =>
      unfold Volume.findLoop at run
      split at run
      · cases run
        exact borrowed
      · cases run
    | some bh =>
      have reading : Reading v v₁ (some k) bh := borrowed
      unfold Volume.findLoop at run
      split at run
      · rcases of_bind run with ⟨v₂, released, rest⟩
        cases rest
        exact reading.brelse released
      · split at run
        · rcases of_bind run with ⟨v₂, released, rest⟩
          have one := reading.brelse released
          rcases of_bind rest with ⟨⟨z, v₃⟩, mapped, rest⟩
          have two := one.bmap mapped
          dsimp only at rest
          split at rest
          · exact ih (show Borrowed v v₃ (some k) none from two) rest
          · rw [two.users.here k rfl] at rest
            rcases of_bind rest with ⟨⟨bh', v₄⟩, read, rest⟩
            have three := two.bread read
            cases bh' with
            | none => exact ih (show Borrowed v v₄ (some k) none from three) rest
            | some b =>
              dsimp only at rest
              split at rest
              · cases rest
                exact three
              · exact ih (show Borrowed v v₄ (some k) (some b) from three) rest
        · split at run
          · cases run
            exact reading
          · exact ih (show Borrowed v v₁ (some k) (some bh) from reading) run

/-- The inode that the device is mounted on is in use. -/
def Moored (v : Volume) : Prop := ∀ m, v.imount = some m → (v.inode m).count ≠ 0 ∧ (v.inode m).dev = ramdisk

variable {w : Walker} {k' : Nat}

theorem Balanced.dotDot (balanced : Balanced v v₁ (some k)) (moored : Moored v) {name name' : List Byte}
    (run : v₁.dotDot fuel w k name = .ok (name', k', v')) : Balanced v v' (some k') := by
  unfold Volume.dotDot at run
  split at run
  · cases run
    exact balanced
  · split at run
    · cases run
      exact balanced
    · split at run
      · cases run
        exact balanced
      · split at run
        · cases run
          exact balanced
        · rename_i m mounted
          rcases of_bind run with ⟨v₂, put, rest⟩
          cases rest
          have one := balanced.iput put
          rw [balanced.users.imount] at mounted
          rcases moored k' mounted with ⟨used, device⟩
          exact one.hold ((one.users.used k' used).trans device)

theorem Balanced.findEntry (balanced : Balanced v v₁ (some k)) (moored : Moored v) {name : List Byte}
    {found : Option (Nat × Nat)} (run : v₁.findEntry fuel w k name = .ok (found, k', v')) :
    Borrowed v v' (some k') (found.map Prod.fst) := by
  unfold Volume.findEntry at run
  dsimp only at run
  split at run
  · cases run
    exact balanced
  · rcases of_bind run with ⟨⟨name', k₂, v₂⟩, dots, rest⟩
    have one := balanced.dotDot moored dots
    dsimp only at rest
    split at rest
    · cases rest
      exact one
    · rw [one.users.here k₂ rfl] at rest
      rcases of_bind rest with ⟨⟨bh, v₃⟩, read, rest⟩
      have two := one.bread read
      cases bh with
      | none =>
        cases rest
        exact two
      | some b =>
        rcases of_bind rest with ⟨⟨found', v₄⟩, looked, rest⟩
        cases rest
        exact findLoop_borrows two looked

theorem Balanced.putNone (balanced : Balanced v v₁ (some k)) {inode : Option Nat}
    (run : v₁.putNone fuel w k = .ok (inode, v')) : Balanced v v' inode := by
  rcases of_bind run with ⟨v₂, put, rest⟩
  cases rest
  exact balanced.iput put

theorem Reading.follow {bh j : Nat} (reading : Reading v v₁ (some k) bh)
    (run : v₁.follow fuel w k bh j = .ok (k', v')) : Balanced v v' (some k') := by
  rcases of_bind run with ⟨v₂, released, rest⟩
  rcases of_bind rest with ⟨v₃, put, rest⟩
  exact ((reading.brelse released).iput put).iget rest

theorem getDirFrom_balanced {left : Nat} {path : List Byte} {dir : Option Nat} (moored : Moored v)
    (balanced : Balanced v v₁ (some k)) (run : Volume.getDirFrom fuel w left k path v₁ = .ok (dir, v')) :
    Balanced v v' dir := by
  induction left generalizing k path v₁ with
  | zero => cases run
  | succ left ih =>
    unfold Volume.getDirFrom at run
    split at run
    · exact balanced.putNone run
    · split at run
      · cases run
        exact balanced
      · rcases of_bind run with ⟨⟨found, k₂, v₂⟩, looked, rest⟩
        have borrowed := balanced.findEntry moored looked
        cases found with
        | none => exact Balanced.putNone borrowed rest
        | some entry =>
          rcases of_bind rest with ⟨⟨k₃, v₃⟩, next, rest⟩
          exact ih (Reading.follow borrowed next) rest

/-- The directories that a walk starts in are on the root device. -/
def Walker.Placed (w : Walker) (v : Volume) : Prop :=
  ∀ k, w.root = some k ∨ w.pwd = some k → (v.inode k).dev = ramdisk

theorem Balanced.getDir {path : List Byte} {dir : Option Nat} (balanced : Balanced v v₁ none) (moored : Moored v)
    (placed : w.Placed v) (run : v₁.getDir fuel w path = .ok (dir, v')) : Balanced v v' dir := by
  -- the walk starts in an inode that is in use
  have start {k : Nat} (isStart : w.root = some k ∨ w.pwd = some k) (inUse : ¬ (v₁.inode k).count = 0) :
      Balanced v (v₁.hold k) (some k) := by
    rw [balanced.users.count, if_neg nofun, add_zero] at inUse
    exact balanced.hold ((balanced.users.used k inUse).trans (placed k isStart))
  unfold Volume.getDir at run
  split at run
  · rename_i root pwd atRoot atPwd
    split at run
    · cases run
    · rename_i rootUsed
      split at run
      · cases run
      · rename_i pwdUsed
        split at run
        · cases run
          exact balanced
        · split at run
          · exact getDirFrom_balanced moored (start (.inl atRoot) rootUsed) run
          · split at run
            · exact getDirFrom_balanced moored (start (.inr atPwd) pwdUsed) run
            · cases run
              exact balanced
  · cases run
  · cases run

/-- `namei` holds the inode that it returns, and nothing else. -/
theorem Balanced.namei {path : List Byte} {inode : Option Nat} (balanced : Balanced v v₁ none) (moored : Moored v)
    (placed : w.Placed v) (run : v₁.namei fuel w path = .ok (inode, v')) : Balanced v v' inode := by
  rcases of_bind run with ⟨⟨dir, v₂⟩, walked, rest⟩
  have one := balanced.getDir moored placed walked
  cases dir with
  | none =>
    cases rest
    exact one
  | some k =>
    dsimp only at rest
    split at rest
    · cases rest
      exact one
    · rcases of_bind rest with ⟨⟨found, k₂, v₃⟩, looked, rest⟩
      have borrowed := one.findEntry moored looked
      cases found with
      | none => exact Balanced.putNone borrowed rest
      | some entry =>
        rcases of_bind rest with ⟨⟨k₃, v₄⟩, next, rest⟩
        cases rest
        exact (Reading.follow borrowed next).setInode rfl rfl rfl

end Counts

end K210Linux.Fs
