import K210Linux.Buffer.BlockDev
import K210Linux.Buffer.InodeTable

namespace K210Linux.Buffer

open Outcome K210Linux.Lib
open K210Linux.Fs (Block Byte MInode)

/-- The drive, the references to its buffers, and `last_inode`. -/
structure System where
  session : Session
  last : Nat

/-- What the file system does with the buffers and the inodes. `forget` is what `free_block` does to the
    buffer of the block, `newInode` is `new_inode` once it has found a number, `change` is an assignment to
    fields of an inode in use, and `release`, `closePipe` and `clear` are the ends of `iput`. -/
inductive SystemEvent where
  | cache (e : CacheEvent)
  | forget (block : BitVec 64)
  | iget (fuel : Nat) (num : BitVec 16)
  | newInode (fuel : Nat) (num uid : BitVec 16) (gid : Byte) (time : BitVec 32)
  | getPipeInode (fuel : Nat) (page : BitVec 32)
  | change (k : Nat) (inode : MInode)
  | writeInode (fuel k : Nat)
  | release (k : Nat)
  | closePipe (k : Nat)
  | clear (k : Nat)

/-- The drive after a call that returned. -/
def System.onDrive (s : System) (result : Except Halt Drive) : Option System :=
  match result with
  | .ok drive => some { s with session := { s.session with drive } }
  | .error _ => none

/-- The fields of an inode that no file system call assigns to once it is in use. -/
def Drive.changeInode (s : Drive) (k : Nat) (inode : MInode) : Drive :=
  s.setInode k { inode with
    dev := (s.inode k).dev, num := (s.inode k).num, count := (s.inode k).count, lock := (s.inode k).lock
    pipe := (s.inode k).pipe, mount := (s.inode k).mount }

/-- What `free_block` does to the buffer of the block. -/
def Drive.forget (s : Drive) (block : BitVec 64) : Except Halt Drive :=
  match s.cache.findBuffer ramdisk block with
  | none => .ok s
  | some i =>
    let s := s.setHead i { s.cache.head i with count := (s.cache.head i).count + 1 }
    if 1 < (s.cache.head i).count then s.brelse i
    else (s.setHead i { s.cache.head i with dirt := false, uptodate := false }).brelse i

def System.step (e : SystemEvent) (s : System) : Option System :=
  let drive := s.session.drive
  match e with
  | .cache e => (s.session.step e).map fun session => { s with session }
  | .forget block => s.onDrive (drive.forget block)
  | .iget fuel num => do
    let (_, last, drive) ← (drive.iget fuel s.last num).toOption
    some { session := { s.session with drive }, last }
  | .newInode fuel num uid gid time => do
    let (k, last, drive) ← (drive.getEmptyInode fuel s.last).toOption
    let drive := drive.setInode k { drive.inode k with
      count := 1, nlinks := 1, dev := ramdisk, uid, gid, dirt := true, num, mtime := time, atime := time, ctime := time }
    some { session := { s.session with drive }, last }
  | .getPipeInode fuel page => do
    let (_, last, drive) ← (drive.getPipeInode fuel s.last page).toOption
    some { session := { s.session with drive }, last }
  | .change k inode => s.onDrive (.ok (drive.changeInode k inode))
  | .writeInode fuel k => s.onDrive (drive.writeInode fuel k)
  | .release k => s.onDrive (.ok (drive.setInode k { drive.inode k with count := (drive.inode k).count - 1 }))
  | .closePipe k =>
    s.onDrive (.ok (drive.setInode k { drive.inode k with count := 0, dirt := false, pipe := false }))
  | .clear k => s.onDrive (.ok (drive.setInode k MInode.zero))

/-- The calls on files, those on block special files of any device, and the assignment at the end of `read_super` to the
    first block of a bitmap, which does not set `b_dirt`. -/
inductive DeviceEvent where
  | file (e : SystemEvent)
  | blockRead (fuel : Nat) (dev : BitVec 16) (pos : BitVec 64) (count : Nat)
  | blockWrite (fuel : Nat) (dev : BitVec 16) (pos : BitVec 64) (buf : Nat → Byte) (count : Nat)
  | readSuper (i : Nat) (block : BitVec 64)

/-- `b_data[0] |= 1`. -/
def Drive.reserve (s : Drive) (i : Nat) : Drive :=
  let head := s.cache.head i
  s.setHead i { head with data := Function.update head.data 0 (head.data 0 ||| 1) }

/-- The block of `s_imap[0]` or of `s_zmap[0]`. -/
def Drive.MapBlock (s : Drive) (block : BitVec 64) : Prop :=
  (s.imapBlocks ≠ 0 ∧ block = 2) ∨ (s.zmapBlocks ≠ 0 ∧ block = 2 + s.imapBlocks.setWidth 64)

instance (s : Drive) (block : BitVec 64) : Decidable (s.MapBlock block) := inferInstanceAs (Decidable (_ ∨ _))

def DeviceEvent.step (e : DeviceEvent) (s : System) : Option System :=
  let drive := s.session.drive
  match e with
  | .file e => s.step e
  | .blockRead fuel dev pos count => s.onDrive ((drive.blockRead fuel dev pos count).map fun r => r.2.2.2)
  | .blockWrite fuel dev pos buf count => s.onDrive ((drive.blockWrite fuel dev pos buf count).map fun r => r.2.2)
  | .readSuper i block =>
    if s.session.held.contains (i, block) ∧ drive.Has i block ∧ (drive.cache.head i).uptodate ∧ drive.MapBlock block then
      s.onDrive (.ok (drive.reserve i))
    else none

/-- The blocks that an event asks for itself; `read_inode` and `write_inode` ask for those of the inodes. -/
def DeviceEvent.Asks (asks : BitVec 16 → BitVec 64 → Prop) : DeviceEvent → Prop
  | .file (.cache e) => ∀ block ∈ e.asks, asks ramdisk block
  | .file _ => True
  | .blockRead _ dev pos count | .blockWrite _ dev pos _ count =>
    AsksAhead asks dev ∧ AsksBlocks asks dev (Drive.blockOf pos) (pos.toNat % 1024) count
  | .readSuper .. => True

/-- What a single action does to the drive: a move, a store into a buffer that is valid or was asked for, an invalidation,
    the assignment of `read_super`, or a change of an inode that is on the ramdisk or on no device, as pipes are. -/
inductive Change (asks : BitVec 16 → BitVec 64 → Prop) (s : Drive) : Drive → Prop
  | move {s' : Drive} (move : Move asks True s s') : Change asks s s'
  | store (i : Nat) (data : Block) (uptodate : Bool)
      (used : (s.cache.head i).uptodate = true ∨ ∃ block, asks (s.cache.head i).dev block) :
      Change asks s (s.setHead i { s.cache.head i with data, dirt := true, uptodate })
  | drop (i : Nat) : Change asks s (s.setHead i { s.cache.head i with dirt := false, uptodate := false })
  | reserve (i : Nat) (block : BitVec 64) (has : s.Has i block) (map : s.MapBlock block) : Change asks s (s.reserve i)
  | inode (k : Nat) (inode : MInode) (mounted : inode.dev = 0 ∨ inode.dev = ramdisk ∧ inode.pipe = false) :
      Change asks s (s.setInode k inode)

abbrev Changes (asks : BitVec 16 → BitVec 64 → Prop) : Drive → Drive → Prop := Relation.ReflTransGen (Change asks)

/-- The only mounted device is the ramdisk, and pipes are on none. -/
structure Arranged (s : Drive) : Prop where
  linked : Linked s
  mounted : ∀ k, (s.inode k).dev = 0 ∨ (s.inode k).dev = ramdisk ∧ (s.inode k).pipe = false

variable {s s₁ s' : Drive} {i k : Nat} {dev : BitVec 16} {block : BitVec 64} {asks : BitVec 16 → BitVec 64 → Prop}

theorem Arranged.setHead (arranged : Arranged s) {head : BufferHead} (same : head.dev = (s.cache.head i).dev)
    (blocknr : head.blocknr = (s.cache.head i).blocknr) : Arranged (s.setHead i head) :=
  ⟨arranged.linked.setHead same blocknr, arranged.mounted⟩

theorem Arranged.setInode (arranged : Arranged s) (k : Nat) {inode : MInode}
    (mounted : inode.dev = 0 ∨ inode.dev = ramdisk ∧ inode.pipe = false) : Arranged (s.setInode k inode) := by
  refine ⟨arranged.linked, ?_⟩
  intro j
  simp only [Drive.setInode, Function.update_apply]
  split
  · exact mounted
  · exact arranged.mounted j

theorem Arranged.move {inodes : Prop} (arranged : Arranged s) (move : Move asks inodes s s') : Arranged s' := by
  refine ⟨arranged.linked.move move, ?_⟩
  intro j
  cases move with
  | request write i =>
    rw [(llRwBlock_flushed s write i).inode]
    exact arranged.mounted j
  | count i count => exact arranged.mounted j
  | assign i dev block cache => exact arranged.mounted j
  | inode i k data =>
    simp only [Function.update_apply]
    split
    · exact arranged.mounted k
    · exact arranged.mounted j

theorem Arranged.change (arranged : Arranged s) (change : Change asks s s') : Arranged s' := by
  cases change with
  | move move => exact arranged.move move
  | store i data uptodate used => exact arranged.setHead rfl rfl
  | drop i => exact arranged.setHead rfl rfl
  | reserve i block has map => exact arranged.setHead rfl rfl
  | inode k inode mounted => exact arranged.setInode k mounted

/-- A fact that every change keeps, as long as things are arranged. -/
theorem Changes.keeps {P : Drive → Prop} (kept : ∀ a b, Arranged a → P a → Change asks a b → P b) (arranged : Arranged s)
    (first : P s) (changes : Changes asks s s') : Arranged s' ∧ P s' := by
  induction changes with
  | refl => exact ⟨arranged, first⟩
  | tail _ change ih => exact ⟨ih.1.change change, kept _ _ ih.1 ih.2 change⟩

theorem Changes.arranged (arranged : Arranged s) (changes : Changes asks s s') : Arranged s' :=
  (changes.keeps (P := fun _ => True) (fun _ _ _ _ _ => trivial) arranged trivial).1

theorem Moves.changes {inodes : Prop} (moves : Moves asks inodes s s') : Changes asks s s' := by
  induction moves with
  | refl => exact .refl
  | tail _ move ih =>
    refine ih.tail (.move ?_)
    cases move with
    | request write i => exact .request _ write i
    | count i count => exact .count _ i count
    | assign i dev block cache inside asked clean unused missing assigned =>
      exact .assign _ i dev block cache inside asked clean unused missing assigned
    | inode i k data _ dirty here blocknr => exact .inode _ i k data trivial dirty here blocknr

section Calls

theorem brelse_changes (released : s.brelse i = .ok s') : Changes asks s s' := by
  have moves : Moves asks True s s' := brelse_moves released
  exact moves.changes

theorem writeInode_changes {fuel : Nat} (linked : Linked s) (written : Drive.writeInode fuel k s = .ok s') :
    Changes asks s s' := (writeInode_moves linked written).changes

theorem cleanInode_changes {fuel : Nat} (arranged : Arranged s) (cleaned : Drive.cleanInode k fuel s = .ok s') :
    Changes asks s s' := by
  induction fuel generalizing s with
  | zero => cases cleaned
  | succ fuel ih =>
    rw [Drive.cleanInode] at cleaned
    split at cleaned
    · rcases of_bind cleaned with ⟨s₁, written, rest⟩
      have one : Changes asks s s₁ := writeInode_changes arranged.linked written
      exact one.trans (ih (one.arranged arranged) rest)
    · cases cleaned
      exact .refl

/-- `get_empty_inode` leaves an inode without a device. -/
theorem getEmptyInode_changes {fuel last last' : Nat} (arranged : Arranged s)
    (got : Drive.getEmptyInode fuel last s = .ok (k, last', s')) :
    Changes asks s s' ∧ s'.inode k = { MInode.zero with count := 1 } := by
  induction fuel generalizing s last with
  | zero => cases got
  | succ fuel ih =>
    rw [Drive.getEmptyInode] at got
    split at got
    · cases got
    · rcases of_bind got with ⟨s₁, cleaned, rest⟩
      have one : Changes asks s s₁ := cleanInode_changes arranged cleaned
      split at rest
      · rcases ih (one.arranged arranged) rest with ⟨two, fresh⟩
        exact ⟨one.trans two, fresh⟩
      · cases rest
        refine ⟨one.tail (.inode _ _ (.inl rfl)), ?_⟩
        simp [Drive.setInode]

theorem readInode_changes {fuel : Nat} (arranged : Arranged s) (read : Drive.readInode fuel k s = .ok s') :
    Changes asks s s' := by
  unfold Drive.readInode at read
  simp only at read
  split at read
  · cases read
  · rename_i device
    rcases of_bind read with ⟨⟨bh, s₁⟩, found, rest⟩
    rw [not_not.1 device] at found
    have moves : Moves asks True s s₁ ∧ _ :=
      bread_moves stuck_moves arranged.linked (.inr ⟨rfl, k, not_not.1 device, rfl⟩) found
    cases bh with
    | none => cases rest
    | some i =>
      refine (moves.1.changes.tail ?_).trans (brelse_changes rest)
      exact .inode k _ (arranged.mounted k)

theorem iget_changes {fuel last last' : Nat} {num : BitVec 16} (arranged : Arranged s)
    (got : Drive.iget fuel last num s = .ok (k, last', s')) : Changes asks s s' := by
  rcases of_bind got with ⟨⟨empty, last₁, s₁⟩, taken, rest⟩
  have one : Changes asks s s₁ ∧ _ := getEmptyInode_changes arranged taken
  have arranged₁ := one.1.arranged arranged
  simp only at rest
  split at rest
  · rename_i j found
    cases rest
    have counted : Change asks s₁ (s₁.setInode k { s₁.inode k with count := (s₁.inode k).count + 1 }) :=
      .inode k _ (arranged₁.mounted k)
    exact (one.1.tail counted).tail (.inode empty MInode.zero (.inl rfl))
  · rcases of_bind rest with ⟨s₂, read, done⟩
    cases done
    have named : Change asks s₁ (s₁.setInode k { s₁.inode k with dev := ramdisk, num := num }) := by
      refine .inode k _ (.inr ⟨rfl, ?_⟩)
      rw [one.2]
      rfl
    exact (one.1.tail named).trans (readInode_changes (arranged₁.change named) read)

theorem forget_changes (done : s.forget block = .ok s') : Changes asks s s' := by
  unfold Drive.forget at done
  split at done
  · cases done
    exact .refl
  · rename_i i found
    have counted : Changes asks s (s.setHead i { s.cache.head i with count := (s.cache.head i).count + 1 }) :=
      .single (.move (.count s i _))
    simp only at done
    split at done
    · exact counted.trans (brelse_changes done)
    · exact (counted.tail (.drop i)).trans (brelse_changes done)

theorem act_changes {t : Session} {drive : Drive} {held : List (Nat × BitVec 64)} {e : CacheEvent}
    (arranged : Arranged t.drive) (asked : ∀ block ∈ e.asks, asks ramdisk block) (acted : t.act e = some (drive, held)) :
    Changes asks t.drive drive := by
  have synced (fuel : Nat) : SyncMoves (Drive.syncDev fuel) asks True := syncDev_moves fuel
  cases e with
  | bread fuel block =>
    simp only [Session.act] at acted
    split at acted
    · rename_i read
      cases acted
      exact (bread_moves (synced fuel) arranged.linked (.inl (asked block rfl)) read).1.changes
    · rename_i read
      cases acted
      exact (bread_moves (synced fuel) arranged.linked (.inl (asked block rfl)) read).1.changes
    · cases acted
  | overwrite fuel block data =>
    simp only [Session.act] at acted
    split at acted
    · rename_i i s₁ got
      cases acted
      rcases getblk_moves (synced fuel) arranged.linked (.inl (asked block rfl)) got with ⟨moves, -, here, -⟩
      refine moves.changes.tail (.store i data true (.inr ⟨block, ?_⟩))
      rw [here]
      exact asked block rfl
    · cases acted
  | store i block data =>
    simp only [Session.act] at acted
    split at acted
    · rename_i held
      cases acted
      exact .single (.store i data _ (.inl held.2))
    · cases acted
  | brelse i block =>
    simp only [Session.act] at acted
    split at acted
    · split at acted
      · rename_i released
        cases acted
        exact brelse_changes released
      · cases acted
    · cases acted
  | syncDev fuel =>
    simp only [Session.act] at acted
    split at acted
    · rename_i done
      cases acted
      exact (synced fuel _ _ _ arranged.linked done).changes
    · cases acted
  | sysSync fuel =>
    simp only [Session.act] at acted
    split at acted
    · rename_i done
      cases acted
      exact (sysSync_moves arranged.linked done).changes
    · cases acted

theorem of_onDrive {t t' : System} {result : Except Halt Drive} (done : t.onDrive result = some t') :
    ∃ drive, result = .ok drive ∧ t' = { t with session := { t.session with drive } } := by
  unfold System.onDrive at done
  split at done
  · cases done
    exact ⟨_, rfl, rfl⟩
  · cases done

theorem of_toOption {α : Type} {x : Except Halt α} {a : α} (done : x.toOption = some a) : x = .ok a := by
  cases x with
  | error e => cases done
  | ok b =>
    cases done
    rfl

theorem system_changes {t t' : System} {e : SystemEvent} (arranged : Arranged t.session.drive)
    (asked : (DeviceEvent.file e).Asks asks) (stepped : System.step e t = some t') :
    Changes asks t.session.drive t'.session.drive := by
  cases e with
  | cache e =>
    rcases Option.map_eq_some_iff.1 stepped with ⟨session, inSession, rfl⟩
    rcases Option.map_eq_some_iff.1 inSession with ⟨⟨drive, held⟩, acted, rfl⟩
    exact act_changes arranged asked acted
  | forget block =>
    rcases of_onDrive stepped with ⟨drive, done, rfl⟩
    exact forget_changes done
  | iget fuel num =>
    rcases Option.bind_eq_some_iff.1 stepped with ⟨⟨k, last, drive⟩, got, rest⟩
    cases rest
    exact iget_changes arranged (of_toOption got)
  | newInode fuel num uid gid time =>
    rcases Option.bind_eq_some_iff.1 stepped with ⟨⟨k, last, drive⟩, got, rest⟩
    cases rest
    have taken : Changes asks _ drive ∧ _ := getEmptyInode_changes arranged (of_toOption got)
    refine taken.1.tail (.inode k _ (.inr ⟨rfl, ?_⟩))
    rw [taken.2]
    rfl
  | getPipeInode fuel page =>
    rcases Option.bind_eq_some_iff.1 stepped with ⟨⟨result, last, drive⟩, got, rest⟩
    cases rest
    rcases of_bind (of_toOption got) with ⟨⟨k, last₁, s₁⟩, taken, rest⟩
    have empty : Changes asks _ s₁ ∧ _ := getEmptyInode_changes arranged taken
    have none : (s₁.inode k).dev = 0 := by rw [empty.2, MInode.zero]
    simp only at rest
    split at rest
    · cases rest
      exact empty.1.tail (.inode k _ (.inl none))
    · cases rest
      exact empty.1.tail (.inode k _ (.inl none))
  | change k inode =>
    cases stepped
    exact .single (.inode k _ (arranged.mounted k))
  | writeInode fuel k =>
    rcases of_onDrive stepped with ⟨drive, done, rfl⟩
    exact writeInode_changes arranged.linked done
  | release k =>
    cases stepped
    exact .single (.inode k _ (arranged.mounted k))
  | closePipe k =>
    cases stepped
    exact .single (.inode k _ ((arranged.mounted k).imp_right fun onDisk => ⟨onDisk.1, rfl⟩))
  | clear k =>
    cases stepped
    exact .single (.inode k _ (.inl rfl))

theorem blockRead_changes {fuel count : Nat} {pos : BitVec 64} {result : List Byte × Int × BitVec 64 × Drive}
    (arranged : Arranged s) (askedAhead : AsksAhead asks dev)
    (asked : AsksBlocks asks dev (Drive.blockOf pos) (pos.toNat % 1024) count)
    (read : s.blockRead fuel dev pos count = .ok result) : Changes asks s result.2.2.2 := by
  rcases of_bind read with ⟨⟨bytes, failed, s₁⟩, done, last⟩
  cases last
  exact (readBlocks_moves askedAhead asked (Nat.mod_lt _ (by decide)) arranged.linked done).changes

theorem blockWrite_changes {fuel count : Nat} {pos : BitVec 64} {buf : Nat → Byte} {result : Int × BitVec 64 × Drive}
    (arranged : Arranged s) (askedAhead : AsksAhead asks dev)
    (asked : AsksBlocks asks dev (Drive.blockOf pos) (pos.toNat % 1024) count)
    (written : s.blockWrite fuel dev pos buf count = .ok result) : Changes asks s result.2.2 := by
  rcases of_bind written with ⟨⟨n, failed, s₁⟩, done, last⟩
  cases last
  have whole (covers : coversBlock (pos.toNat % 1024) count) : ∃ block, asks dev block := by
    unfold coversBlock at covers
    exact ⟨_, asked.first (by omega)⟩
  refine writeBlocks_keeps asks (P := Changes asks s) ?_ ?_ ?_ askedAhead asked (Nat.mod_lt _ (by decide)) whole .refl done
  · exact fun a b before moves => before.trans moves.changes
  · exact fun a before => (before.arranged arranged).linked
  · intro a i data before _ reason
    refine before.tail (.store i data _ ?_)
    refine reason.imp_right ?_
    rintro ⟨some, here⟩
    rw [here]
    exact some

end Calls

/-- What a step does to the drive. -/
theorem step_changes {t t' : System} {e : DeviceEvent} (arranged : Arranged t.session.drive) (asked : e.Asks asks)
    (stepped : e.step t = some t') : Changes asks t.session.drive t'.session.drive := by
  cases e with
  | file e => exact system_changes arranged asked stepped
  | blockRead fuel dev pos count =>
    rcases of_onDrive stepped with ⟨drive, done, rfl⟩
    rcases of_map done with ⟨result, read, rfl⟩
    exact blockRead_changes arranged asked.1 asked.2 read
  | blockWrite fuel dev pos buf count =>
    rcases of_onDrive stepped with ⟨drive, done, rfl⟩
    rcases of_map done with ⟨result, written, rfl⟩
    exact blockWrite_changes arranged asked.1 asked.2 written
  | readSuper i block =>
    simp only [DeviceEvent.step] at stepped
    split at stepped
    · rename_i allowed
      cases stepped
      exact .single (.reserve i block allowed.2.1 allowed.2.2.2)
    · cases stepped

/-- The system after `buffer_init`, with an empty inode table. -/
def System.fresh (n : Nat) (blocknr : Nat → BitVec 64) (data : Nat → Block) (image : Nat → Block)
    (start length : BitVec 64) (imapBlocks zmapBlocks : BitVec 16) : System where
  session := .fresh n blocknr data image start length imapBlocks zmapBlocks
  last := 0

theorem fresh_arranged {n : Nat} (room : 0 < n) (blocknr : Nat → BitVec 64) (data image : Nat → Block)
    (start length : BitVec 64) (imapBlocks zmapBlocks : BitVec 16) :
    Arranged (System.fresh n blocknr data image start length imapBlocks zmapBlocks).session.drive :=
  ⟨⟨_, _, bufferInit_queues room blocknr data⟩, fun _ => .inl rfl⟩

end K210Linux.Buffer
