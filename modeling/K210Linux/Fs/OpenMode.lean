import K210Linux.Fs.FileData
import K210Linux.Fs.ReadWrite
import K210Linux.Fs.LinkHistory

/-! Calls of `sys_read` and `sys_write` through a descriptor that was opened for the other one. -/

namespace K210Linux.Fs

open Outcome

variable {fs fs' fs₀ : FileSystem} {ino : Nat} {time : BitVec 32}

/-- Some place of a file got a zone. -/
def GotZone (fs fs' : FileSystem) (ino : Nat) : Prop :=
  ∃ q : Ref, q.Valid ∧ q.ino = ino ∧ fs.zoneOf q = 0 ∧ fs'.zoneOf q ≠ 0

theorem GotZone.extends {fs₁ : FileSystem} (got : GotZone fs fs₁ ino) (grown : Extends fs₁ fs') : GotZone fs fs' ino := by
  rcases got with ⟨q, valid, here, missing, present⟩
  refine ⟨q, valid, here, missing, ?_⟩
  rw [grown.kept q valid present]
  exact present

section Room

/-! A zone is free for the missing block. -/

variable {z : Nat} (wf : fs.Wf) (new : newBlock fs = .ok (z, fs₀)) (room : z ≠ 0)

include wf new room

theorem inodeZone_takes {slot : Nat} (valid : Ref.Valid ⟨ino, slot, []⟩) (missing : fs.zoneOf ⟨ino, slot, []⟩ = 0)
    (time : BitVec 32) : ∃ fs', inodeZone fs ino slot true time = .ok (z, fs') ∧ Extends fs fs' ∧
      fs'.zoneOf ⟨ino, slot, []⟩ = z ∧ GotZone fs fs' ino := by
  have absent : ((fs.inode ino).zone slot).toNat = 0 := missing
  have taken : ∃ fs', inodeZone fs ino slot true time = .ok (z, fs') := by
    unfold inodeZone
    simp only [absent, and_self, if_true, bind_ok new, if_neg room]
    exact ⟨_, rfl⟩
  rcases taken with ⟨fs', run⟩
  rcases inodeZone_create wf valid run with ⟨grown, here, -⟩
  exact ⟨fs', run, grown, here, ⟨ino, slot, []⟩, valid, rfl, missing, by rwa [here]⟩

theorem blockEntry_takes {slot k : Nat} {path : List Nat} (valid : Ref.Valid ⟨ino, slot, k :: path⟩)
    (parent : fs.zoneOf ⟨ino, slot, path⟩ ≠ 0) (missing : fs.zoneOf ⟨ino, slot, k :: path⟩ = 0) :
    ∃ fs', blockEntry fs (fs.zoneOf ⟨ino, slot, path⟩) k true = .ok (z, fs') ∧ Extends fs fs' ∧
      fs'.zoneOf ⟨ino, slot, k :: path⟩ = z ∧ GotZone fs fs' ino := by
  have absent : entryAt (fs.disk (fs.zoneOf ⟨ino, slot, path⟩)) k = 0 := by
    rw [zoneOf_cons, if_neg parent] at missing
    exact missing
  have taken : ∃ fs', blockEntry fs (fs.zoneOf ⟨ino, slot, path⟩) k true = .ok (z, fs') := by
    unfold blockEntry
    simp only [absent, and_self, if_true, bind_ok new, if_neg room]
    exact ⟨_, rfl⟩
  rcases taken with ⟨fs', run⟩
  rcases blockEntry_create wf valid parent run with ⟨grown, here, -⟩
  exact ⟨fs', run, grown, here, ⟨ino, slot, k :: path⟩, valid, rfl, missing, by rwa [here]⟩

end Room

/-- The entry of an index block, after the block itself was put in place. -/
theorem blockEntry_after {fs₁ : FileSystem} {slot k z : Nat} {path : List Nat} (grown : Extends fs fs₁)
    (valid : Ref.Valid ⟨ino, slot, k :: path⟩) (got : GotZone fs fs₁ ino) (some : fs₁.zoneOf ⟨ino, slot, path⟩ ≠ 0)
    (run : blockEntry fs₁ (fs₁.zoneOf ⟨ino, slot, path⟩) k true = .ok (z, fs')) :
    fs'.zoneOf ⟨ino, slot, k :: path⟩ = z ∧ Extends fs fs' ∧ GotZone fs fs' ino := by
  rcases blockEntry_create grown.wf valid some run with ⟨more, here, -⟩
  exact ⟨here, grown.trans more, got.extends more⟩

/-- With a free zone `create_block` puts one somewhere into a file that misses the block, also where it cannot put in
    all of them. -/
theorem createBlock_takes (wf : fs.Wf) {block z z' : Nat} (bound : block < bigBlock)
    (missing : fs.zoneOf (blockRef ino block) = 0) (new : newBlock fs = .ok (z, fs₀)) (room : z ≠ 0)
    (run : createBlock fs ino block time = .ok (z', fs')) : GotZone fs fs' ino := by
  have leaf := blockRef_leaf ino bound
  have inRange : ¬ 7 + 512 + 512 * 512 ≤ block := not_le.mpr bound
  unfold createBlock bmapWith at run
  unfold blockRef at leaf missing
  rw [if_neg inRange] at run
  split_ifs at leaf missing run with direct single
  · rcases inodeZone_takes wf new room leaf.toValid missing time with ⟨fs₁, taken, -, -, got⟩
    rw [run] at taken
    cases taken
    exact got
  · by_cases index : fs.zoneOf ⟨ino, 7, []⟩ = 0
    · rcases inodeZone_takes wf new room leaf.toValid.parent index time with ⟨fs₁, taken, grown, here, got⟩
      rw [bind_ok taken] at run
      simp only [room, if_false] at run
      rw [← here] at run
      exact (blockEntry_after grown leaf.toValid got (by rwa [here]) run).2.2
    · rcases blockEntry_takes wf new room leaf.toValid index missing with ⟨fs₁, taken, -, -, got⟩
      rw [bind_ok (inodeZone_present index time)] at run
      simp only [index, if_false] at run
      rw [run] at taken
      cases taken
      exact got
  · by_cases index : fs.zoneOf ⟨ino, 8, []⟩ = 0
    · rcases inodeZone_takes wf new room leaf.toValid.parent.parent index time with ⟨fs₁, taken, grown, here, got⟩
      rw [bind_ok taken] at run
      simp only [room, if_false] at run
      rw [← here] at run
      rcases of_bind run with ⟨⟨i, fs₂⟩, second, rest⟩
      rcases blockEntry_after grown leaf.toValid.parent got (by rwa [here]) second with ⟨here₂, grown₂, got₂⟩
      by_cases last : i = 0
      · simp only [last, if_true] at rest
        cases rest
        exact got₂
      · simp only [last, if_false] at rest
        rw [← here₂] at rest
        exact (blockEntry_after grown₂ leaf.toValid got₂ (by rwa [here₂]) rest).2.2
    · rw [bind_ok (inodeZone_present index time)] at run
      simp only [index, if_false] at run
      by_cases second : fs.zoneOf ⟨ino, 8, [(block - 7 - 512) / 512]⟩ = 0
      · rcases blockEntry_takes wf new room leaf.toValid.parent index second with ⟨fs₁, taken, grown, here, got⟩
        rw [bind_ok taken] at run
        simp only [room, if_false] at run
        rw [← here] at run
        exact (blockEntry_after grown leaf.toValid got (by rwa [here]) run).2.2
      · rw [bind_ok (blockEntry_present index second)] at run
        simp only [second, if_false] at run
        rcases blockEntry_takes wf new room leaf.toValid second missing with ⟨fs₁, taken, -, -, got⟩
        rw [run] at taken
        cases taken
        exact got

section Full

/-! No zone is free for the missing block. -/

variable (full : newBlock fs = .ok (0, fs₀))

include full

theorem newBlock_full : fs₀.inode = fs.inode ∧ ∀ b, b ≠ 0 → fs₀.disk b = fs.disk b := by
  have took := newBlock_taking fs
  rw [full] at took
  cases took with
  | full none => exact ⟨rfl, fun _ _ => rfl⟩
  | behind marked outside => exact ⟨rfl, fun _ _ => rfl⟩
  | taken marked zone inside => exact ⟨rfl, fun b other => FileSystem.setBlock_of_ne _ _ other⟩

theorem inodeZone_full {slot : Nat} (missing : fs.zoneOf ⟨ino, slot, []⟩ = 0) (time : BitVec 32) :
    inodeZone fs ino slot true time = .ok (0, fs₀) := by
  have absent : ((fs.inode ino).zone slot).toNat = 0 := missing
  unfold inodeZone
  simp only [absent, and_self, if_true, bind_ok full]

theorem blockEntry_full {slot k : Nat} {path : List Nat} (parent : fs.zoneOf ⟨ino, slot, path⟩ ≠ 0)
    (missing : fs.zoneOf ⟨ino, slot, k :: path⟩ = 0) :
    blockEntry fs (fs.zoneOf ⟨ino, slot, path⟩) k true = .ok (0, fs₀) := by
  have absent : entryAt (fs.disk (fs.zoneOf ⟨ino, slot, path⟩)) k = 0 := by
    rw [zoneOf_cons, if_neg parent] at missing
    exact missing
  unfold blockEntry
  simp only [absent, and_self, if_true, bind_ok full]

theorem createBlock_full {block : Nat} (bound : block < bigBlock) (missing : fs.zoneOf (blockRef ino block) = 0)
    (time : BitVec 32) : createBlock fs ino block time = .ok (0, fs₀) := by
  have inRange : ¬ 7 + 512 + 512 * 512 ≤ block := not_le.mpr bound
  unfold createBlock bmapWith
  unfold blockRef at missing
  rw [if_neg inRange]
  split_ifs at missing ⊢ with direct single
  · exact inodeZone_full full missing time
  · by_cases index : fs.zoneOf ⟨ino, 7, []⟩ = 0
    · rw [bind_ok (inodeZone_full full index time)]
      rfl
    · rw [bind_ok (inodeZone_present index time)]
      simp only [index, if_false]
      exact blockEntry_full full index missing
  · by_cases index : fs.zoneOf ⟨ino, 8, []⟩ = 0
    · rw [bind_ok (inodeZone_full full index time)]
      rfl
    · rw [bind_ok (inodeZone_present index time)]
      simp only [index, if_false]
      by_cases second : fs.zoneOf ⟨ino, 8, [(block - 7 - 512) / 512]⟩ = 0
      · rw [bind_ok (blockEntry_full full index second)]
        rfl
      · rw [bind_ok (blockEntry_present index second)]
        simp only [second, if_false]
        exact blockEntry_full full second missing

end Full

/-- The zones and the contents of a file are as before. -/
structure SameData (fs fs' : FileSystem) (ino : Nat) : Prop where
  zones : ∀ q : Ref, q.Valid → q.ino = ino → fs'.zoneOf q = fs.zoneOf q
  bytes : ∀ k, content fs' ino k = content fs ino k

structure SameFile (fs fs' : FileSystem) (ino : Nat) : Prop extends SameData fs fs' ino where
  size : (fs'.inode ino).size = (fs.inode ino).size

theorem SameFile.refl (fs : FileSystem) (ino : Nat) : SameFile fs fs ino := ⟨⟨fun _ _ _ => rfl, fun _ => rfl⟩, rfl⟩

theorem SameTree.sameData (same : SameTree fs fs') (ino : Nat) : SameData fs fs' ino where
  zones q _ _ := same.zoneOf q
  bytes _ := content_congr fun _ => same.dataAt ..

theorem SameData.trans {fs₁ : FileSystem} (one : SameData fs fs₁ ino) (two : SameData fs₁ fs' ino) :
    SameData fs fs' ino where
  zones q valid here := (two.zones q valid here).trans (one.zones q valid here)
  bytes k := (two.bytes k).trans (one.bytes k)

theorem SameData.symm (same : SameData fs fs' ino) : SameData fs' fs ino where
  zones q valid here := (same.zones q valid here).symm
  bytes k := (same.bytes k).symm

/-- A full device stays as it is. -/
theorem newBlock_full_same (full : newBlock fs = .ok (0, fs₀)) (ino : Nat) : SameFile fs fs₀ ino := by
  rcases newBlock_full full with ⟨inode, disk⟩
  have zones : ∀ q, fs₀.zoneOf q = fs.zoneOf q := by
    intro q
    exact FileSystem.zoneOf_congr (fun ino slot => by rw [inode]) disk q
  refine ⟨⟨fun q _ _ => zones q, ?_⟩, by rw [inode]⟩
  intro k
  apply content_congr
  intro _
  unfold byteOf FileSystem.dataAt
  rw [zones]
  split
  · rfl
  · rename_i present
    rw [disk _ present]

/-- The first that `create_block` does for a missing block is to look for a zone. -/
theorem createBlock_new (wf : fs.Wf) {block z : Nat} (bound : block < bigBlock)
    (missing : fs.zoneOf (blockRef ino block) = 0) (run : createBlock fs ino block time = .ok (z, fs')) :
    ∃ z₀ fs₀, newBlock fs = .ok (z₀, fs₀) := by
  have aligned := (createBlock_allots wf ino bound time).returns_iff.mpr ⟨z, fs', run⟩
  have self : blockRef ino block ∈ absent fs (blockRef ino block).way := mem_absent.mpr ⟨Ref.mem_way_self _, missing⟩
  rcases (alignedFor_succ wf.first 0).mp (aligned.mono (Finset.card_pos.mpr ⟨_, self⟩)) with ⟨z₀, fs₀, new, -⟩
  exact ⟨z₀, fs₀, new⟩

/-- The first round of the loop of `file_write` decides whether anything is written. -/
theorem writeLoop_first {pos count z i pos' : Nat} {buf : Nat → Byte} (wf : fs.Wf) (some : 0 < count) {fs₁ : FileSystem}
    (run : createBlock fs ino (pos / blockSize) time = .ok (z, fs₁))
    (loop : writeLoop fs ino pos 0 count buf time (count + 1) = .ok (i, pos', fs')) :
    (z = 0 → i = 0 ∧ pos' = pos ∧ fs' = fs₁) ∧ (z ≠ 0 → 0 < i ∧ pos' = pos + i ∧ Wrote fs fs' ino pos i buf 0) := by
  have inRange := createBlock_bound run
  rcases createBlock_spec wf inRange run with ⟨grown, here, -, -⟩
  unfold writeLoop at loop
  rw [if_neg (by omega), bind_ok run] at loop
  constructor
  · intro full
    simp only [full, if_true] at loop
    cases loop
    exact ⟨rfl, rfl, rfl⟩
  · intro room
    simp only [room, if_false] at loop
    have present : fs₁.zoneOf (blockRef ino (pos / blockSize)) ≠ 0 := by rwa [here]
    have offset : pos % blockSize < blockSize := Nat.mod_lt _ (by decide)
    generalize chunk : min (blockSize - pos % blockSize) (count - 0) = c at loop
    have one := Wrote.block (c := c) buf 0 grown inRange present (by omega) (by omega)
    rw [here] at one
    rcases writeLoop_spec one.wf (by omega : 0 + c ≤ count) loop with ⟨n, rfl, rfl, -, wrote⟩
    have all := one.append wrote
    rw [Nat.zero_add]
    exact ⟨by omega, Nat.add_assoc .., all⟩

/-- After its loop `file_write` only sets times. -/
theorem fileWrite_loop {file : OpenFile} {buf : Nat → Byte} {count pos i pos' : Nat} {fs₁ : FileSystem}
    (start : pos = if file.append then (fs.inode ino).size.toNat else file.pos)
    (loop : writeLoop fs ino pos 0 count buf time (count + 1) = .ok (i, pos', fs₁)) :
    ∃ inode, fileWrite fs ino file buf count time = .ok (if i = 0 then -1 else (i : Int),
        if file.append then file else { file with pos := pos' }, fs₁.setInode ino inode) ∧
      inode.zone = (fs₁.inode ino).zone ∧ inode.size = (fs₁.inode ino).size := by
  unfold fileWrite
  rw [Int.toNat_natCast, ← start, bind_ok loop]
  dsimp only
  split
  · exact ⟨_, rfl, rfl, rfl⟩
  · exact ⟨_, rfl, rfl, rfl⟩

/-- `file_write` at a block that is missing, with no zone free, writes nothing. -/
theorem fileWrite_full (full : newBlock fs = .ok (0, fs₀)) {file file' : OpenFile} {buf : Nat → Byte} {count pos : Nat}
    {value : Int} (start : pos = if file.append then (fs.inode ino).size.toNat else file.pos) (some : 0 < count)
    (missing : fs.zoneOf (blockRef ino (pos / blockSize)) = 0)
    (run : fileWrite fs ino file buf count time = .ok (value, file', fs')) : value = -1 ∧ SameFile fs fs' ino := by
  by_cases inRange : pos / blockSize < bigBlock
  · have loop : writeLoop fs ino pos 0 count buf time (count + 1) = .ok (0, pos, fs₀) := by
      unfold writeLoop
      rw [if_neg (by omega), bind_ok (createBlock_full full inRange missing time)]
      rfl
    rcases fileWrite_loop start loop with ⟨inode, written, zone, size⟩
    rw [run] at written
    cases written
    have same := newBlock_full_same full ino
    refine ⟨rfl, same.toSameData.trans ((SameTree.setInode zone).sameData ino), ?_⟩
    simp only [FileSystem.setInode, Function.update_self]
    rw [size, same.size]
  · have stops : createBlock fs ino (pos / blockSize) time = .error "_bmap: block > big" := if_pos (not_lt.mp inRange)
    have loop : writeLoop fs ino pos 0 count buf time (count + 1) = .error "_bmap: block > big" := by
      unfold writeLoop
      rw [if_neg (by omega), stops]
      rfl
    unfold fileWrite at run
    rw [Int.toNat_natCast, ← start] at run
    dsimp only at run
    rw [loop] at run
    cases run

/-- In every other case some bytes make a `file_write` that returns change the file. -/
theorem fileWrite_changes (wf : fs.Wf) {ino : Nat} {file : OpenFile} {count : Nat} (some : 0 < count) {time : BitVec 32}
    {pos : Nat} (start : pos = if file.append then (fs.inode ino).size.toNat else file.pos)
    (bound : pos + count ≤ bigBlock * blockSize) (aligned : AlignedFor fs.sb (missingZones fs ino pos count))
    (room : ¬ (fs.zoneOf (blockRef ino (pos / blockSize)) = 0 ∧ ∃ fs₀, newBlock fs = .ok (0, fs₀))) :
    ∃ buf value file' fs', fileWrite fs ino file buf count time = .ok (value, file', fs') ∧ ¬ SameData fs fs' ino := by
  have inRange : pos / blockSize < bigBlock := by
    rw [Nat.div_lt_iff_lt_mul (by decide)]
    omega
  unfold missingZones at aligned
  rw [if_neg (by omega)] at aligned
  have returns : ∀ buf, ∃ i pos' fs', writeLoop fs ino pos 0 count buf time (count + 1) = .ok (i, pos', fs') := by
    intro buf
    rcases (writeLoop_returns_iff _ wf some (Nat.lt_succ_self count) buf time).mpr ⟨aligned, .inl bound⟩ with ⟨⟨i, pos', fs'⟩, loop⟩
    exact ⟨i, pos', fs', loop⟩
  rw [transferPlaces_eq some bound,
    createBlock_aligned wf (Nat.lt_succ_of_le (Nat.div_le_div_right (by omega))) (by
      rw [Nat.succ_le_iff, Nat.div_lt_iff_lt_mul (by decide)]
      omega) time] at aligned
  rcases aligned with ⟨z, fs₁, run, -⟩
  have created := createBlock_spec wf inRange run
  by_cases none : z = 0
  · subst none
    have missing : fs.zoneOf (blockRef ino (pos / blockSize)) = 0 := by
      by_contra present
      have kept := created.present present
      rw [kept] at created
      exact present created.here
    rcases createBlock_new wf inRange missing run with ⟨z₀, fs₀, new⟩
    have free : z₀ ≠ 0 := by
      intro full
      subst full
      exact room ⟨missing, fs₀, new⟩
    have got := createBlock_takes wf inRange missing new free run
    rcases returns fun _ => 0 with ⟨i, pos', fs', loop⟩
    rcases (writeLoop_first wf some run loop).1 rfl with ⟨rfl, rfl, rfl⟩
    rcases fileWrite_loop start loop with ⟨inode, written, zone, -⟩
    refine ⟨_, _, _, _, written, ?_⟩
    intro same
    rcases got with ⟨q, valid, here, before, after⟩
    have zones := same.zones q valid here
    rw [(SameTree.setInode zone).zoneOf, before] at zones
    exact after zones
  · -- a byte other than the one there shows the difference
    let buf : Nat → Byte := fun _ => byteOf fs ino pos + 1
    rcases returns buf with ⟨n, pos', fs₂, loop⟩
    rcases (writeLoop_first wf some run loop).2 none with ⟨positive, rfl, wrote⟩
    rcases fileWrite_loop start loop with ⟨inode, written, zone, size⟩
    refine ⟨buf, _, _, _, written, ?_⟩
    intro same
    have after := wrote.touched zone size
    have contents := same.bytes pos
    rw [content_eq _ ino inRange, content_eq fs ino inRange, after.bytes ino pos inRange, if_pos (by omega)] at contents
    have differs : byteOf fs ino pos + 1 = byteOf fs ino pos := Except.ok.inj contents
    bv_omega

section Descriptor

variable {special : Desk → Special → Nat → Nat → Except String Transferred} {d : Desk} {u : FileTask} {fd f : Nat}

/-- The block position at which `file_write` starts. -/
def writeStart (fs : FileSystem) (file : File) (ino : Nat) : Nat :=
  (if file.appends then (fs.inode ino).size.toNat else file.pos.toNat) % positions

/-- The block at the position is missing, and no zone is free for it. -/
def NoRoom (fs : FileSystem) (file : File) (ino : Nat) : Prop :=
  fs.zoneOf (blockRef ino (writeStart fs file ino / blockSize)) = 0 ∧ ∃ fs₀, newBlock fs = .ok (0, fs₀)

/-- The position is at the end of the file or behind it, by not so much that the difference is positive as an `int`. -/
def PastEnd (fs : FileSystem) (file : File) (ino : Nat) : Prop :=
  (fs.inode ino).size.toNat ≤ file.pos ∧ (file.pos - (fs.inode ino).size.toNat) % 2 ^ 32 ≤ 2 ^ 31

/-- Whatever the bytes are, `sys_write` leaves the file as it is. -/
def WritesNothing (special : Desk → Special → Nat → Nat → Except String Transferred) (d : Desk) (u : FileTask)
    (fd : Nat) (count : BitVec 32) (time : BitVec 32) (ino : Nat) : Prop :=
  ∀ buf bytes value d', sysWrite special d u fd buf count.toInt time = .ok (bytes, value, d') → SameFile d.fs d'.fs ino

/-- `sys_read` gives no bytes to the user. -/
def ReadsNothing (special : Desk → Special → Nat → Nat → Except String Transferred) (d : Desk) (u : FileTask)
    (fd : Nat) (count : BitVec 32) (time : BitVec 32) : Prop :=
  ∀ bytes value d', sysRead special d u fd count.toInt time = .ok (bytes, value, d') → bytes = []

/-- A descriptor of a regular file. -/
structure Regular (d : Desk) (u : FileTask) (fd f ino : Nat) : Prop where
  bound : fd < nrOpen
  slot : u.filp fd = some f
  inode : (d.files.file f).inode = some ino
  reg : isReg (d.fs.inode ino).mode = true
  noPipe : (d.fs.inode ino).pipe = false

theorem Regular.kinds (regular : Regular d u fd f ino) :
    isChr (d.fs.inode ino).mode = false ∧ isBlk (d.fs.inode ino).mode = false := by
  have mode : (d.fs.inode ino).mode &&& 0o170000 = 0o100000 := of_decide_eq_true regular.reg
  unfold isChr isBlk
  rw [mode]
  decide

theorem Regular.writeRoute_eq {count : Int} (regular : Regular d u fd f ino) (positive : 0 < count) :
    writeRoute d u fd count = .file f ino count := by
  rcases regular.kinds with ⟨chr, blk⟩
  have bound := regular.bound
  unfold writeRoute
  rw [if_neg (by omega), regular.slot]
  dsimp only
  rw [if_neg (by omega), regular.inode]
  dsimp only
  rw [regular.noPipe, chr, blk, regular.reg]
  rfl

theorem Regular.readRoute_eq {count : Int} (regular : Regular d u fd f ino) (positive : 0 < count) :
    readRoute d u fd count = if readCount (d.fs.inode ino).size (d.files.file f).pos count ≤ 0 then .returns 0
      else .file f ino (readCount (d.fs.inode ino).size (d.files.file f).pos count) := by
  rcases regular.kinds with ⟨chr, blk⟩
  have bound := regular.bound
  unfold readRoute
  rw [if_neg (by omega), regular.slot]
  dsimp only
  rw [if_neg (by omega), regular.inode]
  dsimp only
  rw [regular.noPipe, chr, blk, regular.reg]
  simp

theorem sysWrite_none {count : Int} (none : count ≤ 0) {buf : Nat → Byte} {bytes : List Byte}
    {value : Int} {d' : Desk} (run : sysWrite special d u fd buf count time = .ok (bytes, value, d')) : d' = d := by
  have route : ∃ value, writeRoute d u fd count = .returns value := by
    unfold writeRoute
    split
    · exact ⟨_, rfl⟩
    · rename_i valid
      split
      · exact ⟨_, rfl⟩
      · exact ⟨0, if_pos (by omega)⟩
  rcases route with ⟨value', route⟩
  unfold sysWrite at run
  rw [route] at run
  cases run
  rfl

/-- A step of `sys_write` on a regular file is one of `file_write`. -/
theorem Regular.sysWrite_eq {count : Int} (regular : Regular d u fd f ino) (positive : 0 < count) (buf : Nat → Byte) :
    sysWrite special d u fd buf count time = (fileWriteAt d.fs ino (d.files.file f) buf count time).map (d.moved f) := by
  unfold sysWrite
  rw [regular.writeRoute_eq positive]

theorem writeStart_eq (fs : FileSystem) (file : File) (ino : Nat) : writeStart fs file ino =
    if file.appends then (fs.inode ino).size.toNat else file.pos.toNat % positions := by
  have size := (fs.inode ino).size.isLt
  unfold writeStart
  split
  · rw [positions]
    omega
  · rfl

section WriteAt

variable {file : File} {file' : OpenFile} {buf : Nat → Byte} {count value : Int}

/-- `file_write` as the model of its loop has it, up to the size. -/
theorem fileWriteAt_ok (inRange : ¬ 2 ^ 41 ≤ writeStart fs file ino)
    (written : fileWrite fs ino ⟨file.appends, file.pos.toNat % positions⟩ buf count time = .ok (value, file', fs')) :
    ∃ done, fileWriteAt fs ino file buf count time = .ok done ∧ SameTree fs' done.fs ∧ (value ≤ 0 → done.fs = fs') ∧
      done.value = value ∧ done.pos = if file.appends then file.pos else file.pos + max value 0 := by
  unfold writeStart at inRange
  unfold fileWriteAt
  generalize (if file.appends then (fs.inode ino).size.toNat else file.pos.toNat) = pos at *
  dsimp only
  rw [if_neg inRange, bind_ok written]
  refine ⟨_, rfl, ?_, ?_, rfl, rfl⟩
  · dsimp only
    by_cases large : positions ≤ pos ∧ 0 < value
    · rw [if_pos large]
      exact SameTree.setInode rfl
    · rw [if_neg large]
      exact ⟨rfl, rfl, fun _ _ => rfl⟩
  · intro nothing
    exact if_neg (by omega)

theorem of_fileWriteAt {done : Transferred} (transfer : fileWriteAt fs ino file buf count time = .ok done) :
    ¬ 2 ^ 41 ≤ writeStart fs file ino ∧ ∃ value file' fs',
      fileWrite fs ino ⟨file.appends, file.pos.toNat % positions⟩ buf count time = .ok (value, file', fs') := by
  unfold writeStart
  unfold fileWriteAt at transfer
  generalize (if file.appends then (fs.inode ino).size.toNat else file.pos.toNat) = pos at *
  dsimp only at transfer
  by_cases wrapped : 2 ^ 41 ≤ pos % positions
  · rw [if_pos wrapped] at transfer
    cases transfer
  · rw [if_neg wrapped] at transfer
    rcases of_bind transfer with ⟨⟨value, file', fs'⟩, written, -⟩
    exact ⟨wrapped, value, file', fs', written⟩

end WriteAt

/-- A write that meets the condition leaves the file alone. -/
theorem Regular.writesNothing (regular : Regular d u fd f ino) {count : BitVec 32}
    (condition : count.toInt ≤ 0 ∨ NoRoom d.fs (d.files.file f) ino) (time : BitVec 32) :
    WritesNothing special d u fd count time ino := by
  intro buf bytes value d' run
  by_cases none : count.toInt ≤ 0
  · rw [sysWrite_none none run]
    exact SameFile.refl ..
  · rcases condition with zero | ⟨missing, fs₀, full⟩
    · exact absurd zero none
    · rw [regular.sysWrite_eq (not_le.mp none)] at run
      rcases of_map run with ⟨done, transfer, same⟩
      cases same
      rcases of_fileWriteAt transfer with ⟨inRange, value', file', fs', written⟩
      rcases fileWriteAt_ok inRange written with ⟨done', transfer', -, unsized, -, -⟩
      obtain rfl := Except.ok.inj (transfer.symm.trans transfer')
      rw [← Int.toNat_of_nonneg (Int.le_of_lt (not_le.mp none))] at written
      rcases fileWrite_full full (writeStart_eq ..) (by omega) missing written with ⟨failed, unchanged⟩
      change SameFile d.fs done.fs ino
      rw [unsized (by omega)]
      exact unchanged

/-- Some bytes of any other write that returns change the file. -/
theorem Regular.writesNothing_iff (regular : Regular d u fd f ino) (wf : d.fs.Wf) {count : BitVec 32}
    (inside : writeStart d.fs (d.files.file f) ino + count.toInt ≤ bigBlock * blockSize) :
    WritesNothing special d u fd count time ino ↔ count.toInt ≤ 0 ∨ NoRoom d.fs (d.files.file f) ino ∨
      ¬ AlignedFor d.fs.sb (missingZones d.fs ino (writeStart d.fs (d.files.file f) ino) count.toInt.toNat) := by
  have bound : (writeStart d.fs (d.files.file f) ino + count.toInt - 1) / 1024 < 7 + 512 + 512 * 512 := by
    rw [bigBlock, blockSize] at inside
    omega
  constructor
  · intro nothing
    by_contra neither
    rcases not_or.mp neither with ⟨some, other⟩
    rcases not_or.mp other with ⟨room, returns⟩
    have amount : count.toInt = (count.toInt.toNat : Int) := (Int.toNat_of_nonneg (by omega)).symm
    let positioned : OpenFile := ⟨(d.files.file f).appends, (d.files.file f).pos.toNat % positions⟩
    have position : writeStart d.fs (d.files.file f) ino =
        if positioned.append then (d.fs.inode ino).size.toNat else positioned.pos := writeStart_eq ..
    rcases fileWrite_changes wf (by omega : 0 < count.toInt.toNat) position (by omega) (not_not.mp returns) room with
      ⟨buf, value, file', fs', written, differs⟩
    rw [← amount] at written
    have start : ¬ 2 ^ 41 ≤ writeStart d.fs (d.files.file f) ino := by
      rw [bigBlock, blockSize] at inside
      omega
    rcases fileWriteAt_ok start written with ⟨done, transfer, tree, -, -, -⟩
    have run : sysWrite special d u fd buf count.toInt time = .ok (d.moved f done) := by
      rw [regular.sysWrite_eq (not_le.mp some), transfer]
      rfl
    have same : SameFile d.fs done.fs ino := nothing _ _ _ _ run
    exact differs (same.toSameData.trans (tree.sameData ino).symm)
  · rintro (none | full | halts)
    · exact regular.writesNothing (.inl none) time
    · exact regular.writesNothing (.inr full) time
    · intro buf bytes value d' run
      by_cases none : count.toInt ≤ 0
      · exact regular.writesNothing (.inl none) time buf bytes value d' run
      · rw [regular.sysWrite_eq (not_le.mp none)] at run
        rcases of_map run with ⟨done, transfer, -⟩
        rcases of_fileWriteAt transfer with ⟨-, value', file', fs', written⟩
        exact absurd ((fileWrite_returns_iff wf (writeStart_eq ..) bound).mp ⟨_, written⟩) halts

theorem toInt32_neg_iff (k : Int) : toInt32 (-k) ≤ 0 ↔ k % 2 ^ 32 ≤ 2 ^ 31 := by
  unfold toInt32
  rw [BitVec.toInt_ofInt, Int.bmod_def]
  split <;> omega

/-- The sum of a count and a position in `sys_read`, which may leave the range of an `off_t`. -/
theorem lt_toOff_iff (size : BitVec 32) {pos : Int} (off : IsOff pos) {count : BitVec 32} (positive : 0 < count.toInt) :
    (size.toNat : Int) < toOff (count.toInt + pos) ↔ size.toNat < count.toInt + pos ∧ count.toInt + pos < 2 ^ 63 := by
  have int := BitVec.toInt_lt (x := count)
  rw [isOff_iff] at off
  unfold toOff
  rw [BitVec.toInt_ofInt, Int.bmod_def]
  split <;> omega

/-- What is left of a count at the end of the file. -/
theorem readCount_iff (size : BitVec 32) {pos : Int} (off : IsOff pos) {count : BitVec 32} (positive : 0 < count.toInt) :
    readCount size pos count.toInt ≤ 0 ↔
      (size.toNat ≤ pos ∧ (pos - size.toNat) % 2 ^ 32 ≤ 2 ^ 31) ∧ count.toInt + pos < 2 ^ 63 := by
  have int := BitVec.toInt_lt (x := count)
  unfold readCount
  by_cases reaches : (size.toNat : Int) < toOff (count.toInt + pos)
  · rw [if_pos reaches]
    rcases (lt_toOff_iff size off positive).mp reaches with ⟨large, inRange⟩
    by_cases behind : (size.toNat : Int) ≤ pos
    · rw [← neg_sub, toInt32_neg_iff]
      exact ⟨fun le => ⟨⟨behind, le⟩, inRange⟩, fun all => all.1.2⟩
    · have left : toInt32 (size.toNat - pos) = size.toNat - pos := by
        unfold toInt32
        rw [BitVec.toInt_ofInt, Int.bmod_def]
        split <;> omega
      rw [left]
      omega
  · rw [if_neg reaches]
    rw [lt_toOff_iff size off positive] at reaches
    omega

theorem sysRead_none {count : Int} (none : count ≤ 0) {bytes : List Byte} {value : Int} {d' : Desk}
    (run : sysRead special d u fd count time = .ok (bytes, value, d')) : bytes = [] ∧ d' = d := by
  have route : ∃ value, readRoute d u fd count = .returns value := by
    unfold readRoute
    split
    · exact ⟨_, rfl⟩
    · rename_i valid
      split
      · exact ⟨_, rfl⟩
      · exact ⟨0, if_pos (by omega)⟩
  rcases route with ⟨value', route⟩
  unfold sysRead at run
  rw [route] at run
  cases run
  exact ⟨rfl, rfl⟩

theorem Regular.readsNothing (regular : Regular d u fd f ino) (off : IsOff (d.files.file f).pos) {count : BitVec 32}
    (condition : count.toInt ≤ 0 ∨ PastEnd d.fs (d.files.file f) ino) (time : BitVec 32) :
    ReadsNothing special d u fd count time := by
  intro bytes value d' run
  by_cases none : count.toInt ≤ 0
  · exact (sysRead_none none run).1
  · rcases condition with zero | past
    · exact absurd zero none
    · have cut := readCount_iff (d.fs.inode ino).size off (not_le.mp none)
      unfold sysRead at run
      rw [regular.readRoute_eq (not_le.mp none)] at run
      by_cases inRange : count.toInt + (d.files.file f).pos < 2 ^ 63
      · rw [if_pos (cut.mpr ⟨past, inRange⟩)] at run
        cases run
        rfl
      · -- the sum is below 0, and `file_read` comes to a block whose number is below 0
        rw [if_neg fun le => inRange (cut.mp le).2] at run
        rcases of_map run with ⟨done, transfer, -⟩
        have int := BitVec.toInt_lt (x := count)
        have wrapped : 2 ^ 41 ≤ (d.files.file f).pos.toNat % positions := by
          rw [isOff_iff] at off
          rw [positions]
          omega
        unfold fileReadAt at transfer
        dsimp only at transfer
        rw [if_pos wrapped] at transfer
        cases transfer

theorem Regular.past_of_readsNothing (regular : Regular d u fd f ino) (off : IsOff (d.files.file f).pos) {count : BitVec 32}
    (inside : (d.files.file f).pos.toNat % positions +
      readCount (d.fs.inode ino).size (d.files.file f).pos count.toInt ≤ bigBlock * blockSize)
    (nothing : ReadsNothing special d u fd count time) :
    count.toInt ≤ 0 ∨ PastEnd d.fs (d.files.file f) ino := by
  by_contra neither
  rcases not_or.mp neither with ⟨some, notPast⟩
  have positive : ¬ readCount (d.fs.inode ino).size (d.files.file f).pos count.toInt ≤ 0 := by
    rw [readCount_iff _ off (not_le.mp some)]
    exact fun both => notPast both.1
  generalize amount : readCount (d.fs.inode ino).size (d.files.file f).pos count.toInt = n at inside positive
  have cast : n = (n.toNat : Int) := (Int.toNat_of_nonneg (by omega)).symm
  have start : ¬ 2 ^ 41 ≤ (d.files.file f).pos.toNat % positions := by
    rw [bigBlock, blockSize] at inside
    omega
  have bound : ((d.files.file f).pos.toNat % positions + n.toNat - 1) / 1024 < 7 + 512 + 512 * 512 := by
    rw [bigBlock, blockSize] at inside
    omega
  have read := fileRead_spec d.fs ino ⟨(d.files.file f).appends, (d.files.file f).pos.toNat % positions⟩ n.toNat time bound
  rw [← cast] at read
  have transfer : ∃ done, fileReadAt d.fs ino (d.files.file f) n time = .ok done ∧ done.bytes.length = n.toNat := by
    unfold fileReadAt
    dsimp only
    rw [if_neg start, bind_ok read]
    refine ⟨_, rfl, ?_⟩
    dsimp only
    rw [List.length_map, List.length_range]
  rcases transfer with ⟨done, transfer, length⟩
  have run : sysRead special d u fd count.toInt time = .ok (d.moved f done) := by
    unfold sysRead
    rw [regular.readRoute_eq (not_le.mp some), amount, if_neg positive]
    dsimp only
    rw [transfer]
    rfl
  have empty : done.bytes = [] := nothing _ _ _ run
  rw [empty, List.length_nil] at length
  omega

end Descriptor

section Enforced

/-- The current task is not the superuser, and lacks a permission on the file. -/
structure Denied (d : Desk) (ino : Nat) (mask : BitVec 16) : Prop where
  user : (d.caller d.files.current).euid ≠ 0
  lacks : permission (d.fs.inode ino) (d.caller d.files.current) mask = false

/-- `sys_read` and `sys_write` ask neither for the mode that a file was opened with, which its entry keeps, nor for the
    permission of the caller: what a task may not read or write is kept from it only where nothing can be transferred. -/
theorem transfers_of_denied_iff (special : Desk → Special → Nat → Nat → Except String Transferred) {d₀ d₁ : Desk}
    {t : FileTask} {stale : Nat → Block} {dir : BitVec 16} {name : List Byte} {flag : BitVec 32} {mode : BitVec 16} {value : Int} (here : d₀.files.task d₀.files.current = some t)
    (opens : d₀.sysOpen t stale dir name flag mode = .ok (value, d₁)) (got : 0 ≤ value) :
    ∃ f ino, OpenedFile d₁ value (flag.setWidth 16) f ino ∧
      ∀ d, Relation.ReflTransGen (StaysOpen special f) d₁ d →
        (d.files.file f).flags &&& 3 = flag.setWidth 16 &&& 3 ∧
        ∀ u fd, d.files.task d.files.current = some u → fd < nrOpen → u.filp fd = some f →
          isReg (d.fs.inode ino).mode = true → (d.fs.inode ino).pipe = false →
          (flag &&& oAccMode = 0 → Denied d ino mayWrite → ∀ count time,
            (count.toInt ≤ 0 ∨ NoRoom d.fs (d.files.file f) ino → WritesNothing special d u fd count time ino) ∧
            (d.fs.Wf → writeStart d.fs (d.files.file f) ino + count.toInt ≤ bigBlock * blockSize →
              (WritesNothing special d u fd count time ino ↔ count.toInt ≤ 0 ∨ NoRoom d.fs (d.files.file f) ino ∨
                ¬ AlignedFor d.fs.sb (missingZones d.fs ino (writeStart d.fs (d.files.file f) ino) count.toInt.toNat)))) ∧
          (flag &&& oAccMode = oWrOnly → Denied d ino mayRead → ∀ count time,
            (count.toInt ≤ 0 ∨ PastEnd d.fs (d.files.file f) ino → ReadsNothing special d u fd count time) ∧
            ((d.files.file f).pos.toNat % positions +
                readCount (d.fs.inode ino).size (d.files.file f).pos count.toInt ≤ bigBlock * blockSize →
              ReadsNothing special d u fd count time → count.toInt ≤ 0 ∨ PastEnd d.fs (d.files.file f) ino)) := by
  rcases Desk.sysOpen_gives opens got with ⟨f, ino, opened⟩
  refine ⟨f, ino, opened, ?_⟩
  intro d run
  have positive : (d₁.files.file f).count ≠ 0 := by
    rw [opened.count]
    decide
  rcases run_entry run positive with ⟨entry, -⟩
  have off : IsOff (d.files.file f).pos := entry.pos (by rw [opened.pos]; rfl)
  refine ⟨by rw [entry.access, opened.flags], ?_⟩
  intro u fd _ bound slot reg noPipe
  have regular : Regular d u fd f ino := ⟨bound, slot, by rw [entry.inode, opened.inode], reg, noPipe⟩
  constructor
  · intro _ _ count time
    exact ⟨fun condition => regular.writesNothing condition time, fun wf inside => regular.writesNothing_iff wf inside⟩
  · intro _ _ count time
    exact ⟨fun condition => regular.readsNothing off condition time, fun inside => regular.past_of_readsNothing off inside⟩

/-- User 5 and a file that belongs to user 0, with mode 644. -/
def userDesk : Desk where
  files := bootFiles
  fs := crowded
  caller := fun _ => ⟨5, 5, 0, 1, 0⟩

def noSpecial : Desk → Special → Nat → Nat → Except String Transferred := fun _ _ _ _ => .error "no such inode"

/-- The file `B` of directory 2, opened for reading. -/
def opensB (d : Desk) : Except String (Int × Desk) := d.sysOpen bootTask (fun _ _ => 0) 2 [66] 0 0

def userOpens : Except String (Int × Desk) := opensB userDesk

/-- What the calls of user 5 need of a desk: `fd` is a copy of the descriptor on inode 9. -/
def userHolds (d : Desk) (u : FileTask) (fd : Nat) : Bool :=
  u.filp fd = some 0 ∧ (d.files.file 0).inode = some 9 ∧ (d.files.file 0).count ≠ 0 ∧ isReg (d.fs.inode 9).mode ∧
    (d.fs.inode 9).pipe = false ∧ (d.caller d.files.current).euid ≠ 0 ∧
    permission (d.fs.inode 9) (d.caller d.files.current) mayWrite = false

/-- User 5 has descriptor 0 on inode 9. -/
def holdsB (r : Int × Desk) : Bool :=
  r.1 = 0 ∧ r.2.files.target (r.2.files.current, 0) = some 0 ∧
    (r.2.files.task r.2.files.current).any fun u => userHolds r.2 u 0

theorem opensB_ok {d : Desk} (passed : (opensB d).toOption.any holdsB = true) : ∃ d₁ u, opensB d = .ok (0, d₁) ∧
    d₁.files.task d₁.files.current = some u ∧ d₁.files.target (d₁.files.current, 0) = some 0 ∧ userHolds d₁ u 0 := by
  cases run : opensB d with
  | error e =>
    rw [run] at passed
    cases passed
  | ok result =>
    rw [run] at passed
    have facts : holdsB result = true := passed
    simp only [holdsB, decide_eq_true_eq, Option.any_eq_true] at facts
    rcases facts with ⟨zero, target, u, here, holds⟩
    exact ⟨result.2, u, congrArg Except.ok (Prod.ext zero rfl), here, target, holds⟩

theorem userOpens_ok : ∃ d₁ u, userOpens = .ok (0, d₁) ∧ d₁.files.task d₁.files.current = some u ∧
    d₁.files.target (d₁.files.current, 0) = some 0 ∧ userHolds d₁ u 0 := opensB_ok (by decide +kernel)

/-- All zones of the device are in use. -/
def fullDesk : Desk :=
  { userDesk with fs := { crowded with sb := { crowded.sb with
      zmap := fun i => if i = 0 then some ⟨fun _ => 0xFF, false⟩ else none } } }

/-- There is no block at the start of the file on inode 9, and no zone for one. -/
def noRoomB (d : Desk) : Bool :=
  d.fs.zoneOf (blockRef 9 (writeStart d.fs (d.files.file 0) 9 / blockSize)) = 0 ∧
    ((newBlock d.fs).map Prod.fst).toOption = some 0

/-- On a full device user 5 cannot write the first byte of the file either. -/
theorem user_writes_no_bytes : ∃ d₁ u, opensB fullDesk = .ok (0, d₁) ∧ userHolds d₁ u 0 ∧
    WritesNothing noSpecial d₁ u 0 1 0 9 := by
  rcases opensB_ok (by decide +kernel : (opensB fullDesk).toOption.any holdsB = true) with ⟨d₁, u, opens, here, target, holds⟩
  rcases transfers_of_denied_iff noSpecial rfl opens (le_refl 0) with ⟨f, ino, opened, runs⟩
  have file : f = 0 := Option.some.inj (opened.named.symm.trans target)
  subst file
  have facts := holds
  unfold userHolds at facts
  simp only [decide_eq_true_eq] at facts
  rcases facts with ⟨slot, inode, -, reg, noPipe, user, lacks⟩
  have nine : ino = 9 := Option.some.inj (opened.inode.symm.trans inode)
  subst nine
  have noRoom : NoRoom d₁.fs (d₁.files.file 0) 9 := by
    have passed : (opensB fullDesk).toOption.any (fun r => noRoomB r.2) = true := by decide +kernel
    rw [opens] at passed
    have empty : noRoomB d₁ = true := passed
    simp only [noRoomB, decide_eq_true_eq] at empty
    refine ⟨empty.1, ?_⟩
    cases new : newBlock d₁.fs with
    | error e =>
      rw [new] at empty
      cases empty.2
    | ok r =>
      rw [new] at empty
      exact ⟨r.2, congrArg Except.ok (Prod.ext (Option.some.inj empty.2) rfl)⟩
  have calls := (runs d₁ .refl).2 u 0 here (by decide) slot reg noPipe
  exact ⟨d₁, u, opens, holds, (calls.1 rfl ⟨user, lacks⟩ 1 0).1 (.inr noRoom)⟩

/-- The desk and the task after `sys_dup(0)`. -/
def userDups (d : Desk) (u : FileTask) : Desk := { d with files := (sysDup d.files u 0).files }

/-- Descriptor 1 names the file too, and the byte that is written through it is there afterwards. -/
def userWrites (d : Desk) : Bool :=
  (d.files.file 0).count = 2 ∧ (d.files.task d.files.current).any fun v => userHolds d v 1 ∧
    (sysWrite noSpecial d v 1 (fun _ => 7) 1 0).toOption.any fun r =>
      (content d.fs 9 0).toOption = some 0 ∧ (content r.2.2.fs 9 0).toOption = some 7

/-- The task of user 5 runs, and the byte goes into the file. -/
def dupWrites (d : Desk) : Bool :=
  (d.files.task d.files.current).any fun u => u.exited = false ∧ userWrites (userDups d u)

/-- User 5 opens the file for reading, duplicates the descriptor and writes a byte through the copy. -/
theorem user_writes_through_dup : ∃ d₁ d₂ d₃ u v bytes value, userOpens = .ok (0, d₁) ∧
    d₁.files.task d₁.files.current = some u ∧ d₂ = userDups d₁ u ∧ StaysOpen noSpecial 0 d₁ d₂ ∧
    d₂.files.task d₂.files.current = some v ∧ userHolds d₂ v 1 ∧
    sysWrite noSpecial d₂ v 1 (fun _ => 7) 1 0 = .ok (bytes, value, d₃) ∧ ¬ SameFile d₂.fs d₃.fs 9 := by
  have passed : userOpens.toOption.any (fun r => dupWrites r.2) = true := by decide +kernel
  rcases userOpens_ok with ⟨d₁, u, opens, here, -, -⟩
  rw [opens] at passed
  have facts : dupWrites d₁ = true := passed
  simp only [dupWrites, here, Option.any_some, decide_eq_true_eq] at facts
  rcases facts with ⟨running, writes⟩
  unfold userWrites at writes
  simp only [decide_eq_true_eq, Option.any_eq_true] at writes
  rcases writes with ⟨count, v, here₂, holds, ⟨bytes, value, d₃⟩, written, before, after⟩
  have dup : DeskStep noSpecial d₁ (userDups d₁ u) := .call (.dup here running 0) d₁.fs
  refine ⟨d₁, userDups d₁ u, d₃, u, v, bytes, value, opens, here, rfl, ⟨dup, ?_⟩, here₂, holds, ?_, ?_⟩
  · rw [count]
    decide
  · cases run : sysWrite noSpecial (userDups d₁ u) v 1 (fun _ => 7) 1 0 with
    | error e =>
      rw [run] at written
      cases written
    | ok r =>
      rw [run] at written
      exact congrArg Except.ok (Option.some.inj written)
  · intro same
    rw [same.bytes 0, before] at after
    cases after

end Enforced

end K210Linux.Fs
