import K210Linux.Fs.ZoneRoom

namespace K210Linux.Fs

open Outcome

variable {fs fs₁ fs' : FileSystem} {ino : Nat} {buf : Nat → Byte}

/-- Byte `k` of a file: `bmap` names its block, and a hole is read as 0. -/
def content (fs : FileSystem) (ino k : Nat) : Except String Byte :=
  (bmap fs ino (k / blockSize)).map fun z => if z = 0 then 0 else fs.disk z (k % blockSize)

def byteOf (fs : FileSystem) (ino k : Nat) : Byte := fs.dataAt (blockRef ino (k / blockSize)) (k % blockSize)

theorem content_eq (fs : FileSystem) (ino : Nat) {k : Nat} (bound : k / blockSize < bigBlock) :
    content fs ino k = .ok (byteOf fs ino k) := by
  unfold content
  rw [bmap_eq fs ino bound]
  rfl

theorem content_congr {k : Nat} (same : k / blockSize < bigBlock → byteOf fs' ino k = byteOf fs ino k) :
    content fs' ino k = content fs ino k := by
  by_cases bound : k / blockSize < bigBlock
  · rw [content_eq fs' ino bound, content_eq fs ino bound, same bound]
  · unfold content
    rw [bmap_big fs' ino (not_lt.mp bound), bmap_big fs ino (not_lt.mp bound)]
    rfl

section Data

variable {r : Ref} {block : Block}

/-- New data in a block leave the zones where they are. -/
theorem zoneOf_setData (wf : fs.Wf) (leaf : r.Leaf) (present : fs.zoneOf r ≠ 0) (q : Ref) (valid : q.Valid) :
    (fs.setBlock (fs.zoneOf r) block).zoneOf q = fs.zoneOf q := by
  rcases q with ⟨ino, slot, path⟩
  induction path with
  | nil => rfl
  | cons k path ih =>
    rw [zoneOf_cons, zoneOf_cons, ih valid.parent]
    by_cases none : fs.zoneOf ⟨ino, slot, path⟩ = 0
    · rw [if_pos none, if_pos none]
    · have held : Ref.HeldIn fs ⟨ino, slot, k :: path⟩ (fs.zoneOf ⟨ino, slot, path⟩) := ⟨k, path, rfl, rfl⟩
      have apart := held.not_data wf valid leaf present
      rw [if_neg none, if_neg none, FileSystem.setBlock_of_ne _ _ apart.symm]

theorem FileSystem.Wf.setData (wf : fs.Wf) (leaf : r.Leaf) (present : fs.zoneOf r ≠ 0) :
    (fs.setBlock (fs.zoneOf r) block).Wf where
  first := wf.first
  once q q' valid valid' := by
    rw [zoneOf_setData wf leaf present q valid, zoneOf_setData wf leaf present q' valid']
    exact wf.once q q' valid valid'
  used q valid := by
    rw [zoneOf_setData wf leaf present q valid]
    exact wf.used q valid

theorem dataAt_setData (wf : fs.Wf) (leaf : r.Leaf) (present : fs.zoneOf r ≠ 0) (q : Ref) (valid : q.Valid)
    (i : Nat) : (fs.setBlock (fs.zoneOf r) block).dataAt q i = if q = r then block i else fs.dataAt q i := by
  unfold FileSystem.dataAt
  rw [zoneOf_setData wf leaf present q valid]
  by_cases same : q = r
  · rw [if_pos same, same, if_neg present, FileSystem.setBlock_self]
  · rw [if_neg same]
    by_cases none : fs.zoneOf q = 0
    · rw [if_pos none, if_pos none]
    · have apart : fs.zoneOf q ≠ fs.zoneOf r := fun equal =>
        same (wf.once q r valid leaf.toValid equal none)
      rw [if_neg none, if_neg none, FileSystem.setBlock_of_ne _ _ apart]

end Data

section Attributes

/-- The inodes differ in no zone. -/
structure SameTree (fs fs' : FileSystem) : Prop where
  sb : fs'.sb = fs.sb
  disk : fs'.disk = fs.disk
  slots : ∀ ino slot, (fs'.inode ino).zone slot = (fs.inode ino).zone slot

theorem SameTree.setInode {inode : MInode} (zone : inode.zone = (fs.inode ino).zone) :
    SameTree fs (fs.setInode ino inode) where
  sb := rfl
  disk := rfl
  slots ino' slot := by
    by_cases same : ino' = ino
    · subst same
      simp only [FileSystem.setInode, Function.update_self, zone]
    · simp only [FileSystem.setInode, Function.update_of_ne same]

theorem SameTree.zoneOf (same : SameTree fs fs') (r : Ref) : fs'.zoneOf r = fs.zoneOf r :=
  FileSystem.zoneOf_congr same.slots (fun b _ => congrFun same.disk b) r

theorem SameTree.wf (same : SameTree fs fs') (wf : fs.Wf) : fs'.Wf := by
  constructor
  · rw [same.sb]
    exact wf.first
  · intro q q' valid valid'
    rw [same.zoneOf, same.zoneOf]
    exact wf.once q q' valid valid'
  · intro q valid
    rw [same.zoneOf, same.sb]
    exact wf.used q valid

theorem SameTree.dataAt (same : SameTree fs fs') (r : Ref) (i : Nat) : fs'.dataAt r i = fs.dataAt r i := by
  unfold FileSystem.dataAt
  rw [same.zoneOf, same.disk]

end Attributes

/-- The bytes from `pos` on were replaced by `c` bytes of the buffer. -/
structure Wrote (fs fs' : FileSystem) (ino pos c : Nat) (buf : Nat → Byte) (first : Nat) : Prop where
  wf : fs'.Wf
  bytes : ∀ ino' k, k / blockSize < bigBlock → byteOf fs' ino' k =
    if ino' = ino ∧ pos ≤ k ∧ k < pos + c then buf (first + (k - pos)) else byteOf fs ino' k
  size : (fs'.inode ino).size.toNat =
    if c = 0 then (fs.inode ino).size.toNat else max (fs.inode ino).size.toNat (pos + c)

theorem Wrote.none (grown : Extends fs fs') (ino pos : Nat) (buf : Nat → Byte) (first : Nat) :
    Wrote fs fs' ino pos 0 buf first where
  wf := grown.wf
  bytes ino' k bound := by
    rw [if_neg (by omega)]
    exact grown.data _ (blockRef_leaf ino' bound) _ (Nat.mod_lt _ (by decide))
  size := by rw [if_pos rfl, grown.size]

theorem Wrote.append {pos c d first : Nat} (one : Wrote fs fs₁ ino pos c buf first)
    (two : Wrote fs₁ fs' ino (pos + c) d buf (first + c)) : Wrote fs fs' ino pos (c + d) buf first where
  wf := two.wf
  bytes ino' k bound := by
    rw [two.bytes ino' k bound, one.bytes ino' k bound]
    by_cases late : ino' = ino ∧ pos + c ≤ k ∧ k < pos + c + d
    · rw [if_pos late, if_pos (by omega)]
      congr 1
      omega
    · rw [if_neg late]
      by_cases early : ino' = ino ∧ pos ≤ k ∧ k < pos + c
      · rw [if_pos early, if_pos (by omega)]
      · rw [if_neg early, if_neg (by omega)]
  size := by
    rw [two.size, one.size]
    split_ifs <;> omega

theorem Wrote.touched {pos c first : Nat} {inode : MInode} (wrote : Wrote fs fs' ino pos c buf first)
    (zone : inode.zone = (fs'.inode ino).zone) (size : inode.size = (fs'.inode ino).size) :
    Wrote fs (fs'.setInode ino inode) ino pos c buf first := by
  have tree := SameTree.setInode zone
  constructor
  · exact tree.wf wrote.wf
  · intro ino' k bound
    rw [← wrote.bytes ino' k bound]
    exact tree.dataAt ..
  · rw [← wrote.size, ← size]
    simp only [FileSystem.setInode, Function.update_self]

/-- One round of the loop: the zone of the block is there, and its bytes are stored. -/
theorem Wrote.block {pos c : Nat} (buf : Nat → Byte) (first : Nat) (grown : Extends fs fs₁) (bound : pos / blockSize < bigBlock)
    (present : fs₁.zoneOf (blockRef ino (pos / blockSize)) ≠ 0) (some : 0 < c)
    (fits : pos % blockSize + c ≤ blockSize) :
    let sized := if (fs₁.inode ino).size.toNat < pos + c then
      fs₁.setInode ino { fs₁.inode ino with size := BitVec.ofNat 32 (pos + c), dirt := true } else fs₁
    Wrote fs (sized.setBlock (fs₁.zoneOf (blockRef ino (pos / blockSize)))
      (storeUser (sized.disk (fs₁.zoneOf (blockRef ino (pos / blockSize)))) (pos % blockSize) c buf first))
      ino pos c buf first := by
  intro sized
  have leaf := blockRef_leaf ino bound
  have positions : pos + c < 2 ^ 32 := by
    have := Nat.div_add_mod pos blockSize
    rw [bigBlock] at bound
    rw [blockSize] at *
    omega
  have tree : SameTree fs₁ sized := by
    unfold sized
    split
    · exact SameTree.setInode rfl
    · exact ⟨rfl, rfl, fun _ _ => rfl⟩
  have wf := tree.wf grown.wf
  rw [← tree.zoneOf] at present ⊢
  constructor
  · exact wf.setData leaf present
  · intro ino' k inRange
    have leaf' := blockRef_leaf ino' inRange
    unfold byteOf
    rw [dataAt_setData wf leaf present _ leaf'.toValid, tree.dataAt,
      grown.data _ leaf' _ (Nat.mod_lt _ (by decide))]
    by_cases same : blockRef ino' (k / blockSize) = blockRef ino (pos / blockSize)
    · rcases blockRef_inj same with ⟨inoEq, blockEq⟩
      have old : sized.disk (sized.zoneOf (blockRef ino (pos / blockSize))) (k % blockSize) =
          fs.dataAt (blockRef ino' (k / blockSize)) (k % blockSize) := by
        rw [← grown.data _ leaf' _ (Nat.mod_lt _ (by decide)), ← tree.dataAt, FileSystem.dataAt, same, if_neg present]
      have kSplit := Nat.div_add_mod k blockSize
      have posSplit := Nat.div_add_mod pos blockSize
      rw [if_pos same, storeUser, old]
      rw [blockEq] at kSplit
      have iff : (pos % blockSize ≤ k % blockSize ∧ k % blockSize < pos % blockSize + c) ↔
          ino' = ino ∧ pos ≤ k ∧ k < pos + c := by
        omega
      simp only [iff]
      split
      · congr 1
        omega
      · rfl
    · rw [if_neg same, if_neg]
      intro inside
      rcases inside with ⟨inoEq, after, before⟩
      apply same
      have sameBlock : k / blockSize = pos / blockSize := by
        have kSplit := Nat.div_add_mod k blockSize
        have posSplit := Nat.div_add_mod pos blockSize
        rw [blockSize] at *
        omega
      rw [inoEq, sameBlock]
  · rw [if_neg (by omega), ← grown.size ino]
    change (sized.inode ino).size.toNat = _
    unfold sized
    split
    · simp only [FileSystem.setInode, Function.update_self, BitVec.toNat_ofNat]
      omega
    · omega

/-- A round of the loop of `file_write` behind `create_block` stores bytes in no index block. -/
theorem storeRound_zones (ino : Nat) (grown : Extends fs fs₁) {block : Nat} (bound : block < bigBlock)
    (present : fs₁.zoneOf (blockRef ino block) ≠ 0) (fits : Bool) (size : BitVec 32) (data : Block → Block) :
    let sized := if fits then fs₁.setInode ino { fs₁.inode ino with size := size, dirt := true } else fs₁
    let stored := sized.setBlock (fs₁.zoneOf (blockRef ino block)) (data (sized.disk (fs₁.zoneOf (blockRef ino block))))
    stored.sb = fs₁.sb ∧ ∀ q : Ref, q.Valid → stored.zoneOf q = fs₁.zoneOf q := by
  intro sized stored
  have tree : SameTree fs₁ sized := by
    unfold sized
    split
    · exact SameTree.setInode rfl
    · exact ⟨rfl, rfl, fun _ _ => rfl⟩
  refine ⟨tree.sb, ?_⟩
  intro q valid
  unfold stored
  rw [← tree.zoneOf] at present
  rw [← tree.zoneOf, zoneOf_setData (tree.wf grown.wf) (blockRef_leaf ino bound) present q valid]
  exact tree.zoneOf q

/-- Behind the block at a position the next one begins, if more than it is left. -/
theorem next_block {pos left c : Nat} (bound : pos / blockSize < bigBlock) (large : bigBlock * blockSize < pos + left)
    (chunk : c = min (blockSize - pos % blockSize) left) :
    0 < c ∧ c < left ∧ pos % blockSize + c ≤ blockSize ∧ (pos + c) / blockSize = pos / blockSize + 1 := by
  have split := Nat.div_add_mod pos blockSize
  rw [bigBlock] at *
  rw [blockSize] at *
  omega

theorem createBlock_bound {block z : Nat} {time : BitVec 32} (run : createBlock fs ino block time = .ok (z, fs')) :
    block < bigBlock := by
  by_contra large
  have stops : createBlock fs ino block time = .error "_bmap: block > big" := if_pos (not_lt.mp large)
  rw [stops] at run
  cases run

theorem writeLoop_spec {pos i count fuel i' pos' : Nat} {time : BitVec 32} (wf : fs.Wf) (written : i ≤ count)
    (run : writeLoop fs ino pos i count buf time fuel = .ok (i', pos', fs')) :
    ∃ n, i' = i + n ∧ pos' = pos + n ∧ i + n ≤ count ∧ Wrote fs fs' ino pos n buf i := by
  induction fuel generalizing fs pos i with
  | zero => cases run
  | succ fuel ih =>
    unfold writeLoop at run
    by_cases finished : count ≤ i
    · rw [if_pos finished] at run
      cases run
      exact ⟨0, rfl, rfl, written, Wrote.none (Extends.refl wf) ..⟩
    · rw [if_neg finished] at run
      rcases of_bind run with ⟨⟨z, fs₁⟩, created, rest⟩
      have inRange := createBlock_bound created
      rcases createBlock_spec wf inRange created with ⟨grown, here, -, -⟩
      subst here
      by_cases full : fs₁.zoneOf (blockRef ino (pos / blockSize)) = 0
      · -- the device is full
        simp only [full, if_true] at rest
        cases rest
        exact ⟨0, rfl, rfl, written, Wrote.none grown ..⟩
      · simp only [full, if_false] at rest
        have offset : pos % blockSize < blockSize := Nat.mod_lt _ (by decide)
        generalize chunk : min (blockSize - pos % blockSize) (count - i) = c at rest
        have one := Wrote.block (c := c) buf i grown inRange full (by omega) (by omega)
        rcases ih one.wf (by omega : i + c ≤ count) rest with ⟨n, rfl, rfl, short, more⟩
        exact ⟨c + n, by omega, by omega, by omega, one.append more⟩

/-- The places of the blocks of a transfer, as far as a file has so many. -/
def transferPlaces (ino pos count : Nat) : Finset Ref :=
  placesIn ino (pos / blockSize) (min ((pos + count - 1) / blockSize + 1) bigBlock)

/-- The zones that a write has to take. -/
def missingZones (fs : FileSystem) (ino pos count : Nat) : Nat :=
  if count = 0 then 0 else (absent fs (transferPlaces ino pos count)).card

theorem writeLoop_finished {pos i count fuel : Nat} {time : BitVec 32} (finished : count ≤ i) (some : 0 < fuel) :
    writeLoop fs ino pos i count buf time fuel = .ok (i, pos, fs) := by
  cases fuel with
  | zero => cases some
  | succ fuel =>
    unfold writeLoop
    rw [if_pos finished]

/-- Where the block at a position lies in a transfer. -/
theorem transfer_block {pos left c : Nat} (some : 0 < left) (chunk : c = min (blockSize - pos % blockSize) left) :
    0 < c ∧ pos % blockSize + c ≤ blockSize ∧ pos / blockSize < (pos + left - 1) / blockSize + 1 ∧
      (c = left → (pos + left - 1) / blockSize = pos / blockSize) ∧
      (c ≠ left → c < left ∧ (pos + c) / blockSize = pos / blockSize + 1) := by
  have split := Nat.div_add_mod pos blockSize
  rw [blockSize] at *
  omega

/-- The loop of `file_write` returns where it meets no bit of the bitmap that is not aligned, and does not come to the
    limit of a file. -/
theorem writeLoop_returns_iff {i count fuel : Nat} (pos : Nat) (wf : fs.Wf) (some : i < count) (enough : count - i < fuel)
    (buf : Nat → Byte) (time : BitVec 32) : (∃ r, writeLoop fs ino pos i count buf time fuel = .ok r) ↔
      AlignedFor fs.sb (absent fs (transferPlaces ino pos (count - i))).card ∧
        (pos + (count - i) ≤ bigBlock * blockSize ∨ ¬ Lasts fs ino (pos / blockSize)) := by
  induction fuel generalizing fs pos i with
  | zero => omega
  | succ fuel ih =>
    unfold writeLoop
    rw [if_neg (by omega)]
    obtain ⟨c, chunk⟩ : ∃ c, min (blockSize - pos % blockSize) (count - i) = c := ⟨_, rfl⟩
    rcases transfer_block (by omega : 0 < count - i) chunk.symm with ⟨positive, fits, before, last, next⟩
    by_cases bound : pos / blockSize < bigBlock
    · unfold transferPlaces
      rw [createBlock_aligned wf (lt_min before bound) (Nat.min_le_right ..) time]
      cases run : createBlock fs ino (pos / blockSize) time with
      | error message =>
        refine iff_of_false ?_ ?_
        · rintro ⟨r, lost⟩
          cases lost
        · rintro ⟨⟨z, fs₁, lost, -⟩, -⟩
          cases lost
      | ok result =>
        rcases result with ⟨z, fs₁⟩
        rcases createBlock_fills wf bound run with ⟨here, reached⟩
        have rest (k : FileSystem → Nat) : (∃ z' fs', (Except.ok (z, fs₁) : Except String _) = .ok (z', fs') ∧
            (z' ≠ 0 → AlignedFor fs'.sb (k fs'))) ↔ (z ≠ 0 → AlignedFor fs₁.sb (k fs₁)) := by
          constructor
          · rintro ⟨z', fs', same, aligned⟩
            cases same
            exact aligned
          · exact fun aligned => ⟨z, fs₁, rfl, aligned⟩
        rw [bind_ok rfl, rest fun fs₁ => (absent fs₁ (placesIn ino (pos / blockSize + 1)
          (min ((pos + (count - i) - 1) / blockSize + 1) bigBlock))).card]
        subst here
        by_cases none : fs₁.zoneOf (blockRef ino (pos / blockSize)) = 0
        · -- there is no room for the block
          simp only [none, if_true]
          exact iff_of_true ⟨_, rfl⟩ ⟨fun absurd' => absurd rfl absurd', .inr (reached.not_lasts bound none)⟩
        · simp only [none, if_false, chunk]
          have wrote := Wrote.block (c := c) buf i reached.grown bound none positive fits
          rcases storeRound_zones ino reached.grown bound none
            (decide ((fs₁.inode ino).size.toNat < pos + c)) (BitVec.ofNat 32 (pos + c))
            (fun block => storeUser block (pos % blockSize) c buf i) with ⟨sb, zones⟩
          simp only [decide_eq_true_eq] at sb zones
          by_cases ends : c = count - i
          · -- the last block of the transfer
            have lastBlock := last ends
            rw [writeLoop_finished (by omega) (by omega)]
            refine iff_of_true ⟨_, rfl⟩ ⟨fun _ => ?_, .inl ?_⟩
            · rw [placesIn_self ino ((Nat.min_le_left ..).trans (by rw [lastBlock]))]
              exact alignedFor_zero _
            · have split := Nat.div_add_mod pos blockSize
              rw [← ends]
              rw [bigBlock] at bound ⊢
              rw [blockSize] at *
              omega
          · rcases next ends with ⟨short, following⟩
            have more := ih (pos + c) wrote.wf (by omega : i + c < count) (by omega)
            have total : pos + c + (count - (i + c)) = pos + (count - i) := by omega
            unfold transferPlaces at more
            rw [more, sb, following, absent_congr (Nat.min_le_right ..) zones, Lasts.congr sb zones,
              ← reached.lasts_iff bound none, total]
            exact and_congr_left' ⟨fun aligned _ => aligned, fun aligned => aligned none⟩
    · have stops : createBlock fs ino (pos / blockSize) time = .error "_bmap: block > big" := if_pos (not_lt.mp bound)
      rw [stops]
      refine iff_of_false ?_ ?_
      · rintro ⟨r, lost⟩
        cases lost
      · rintro ⟨-, inside | ends⟩
        · have split := Nat.div_add_mod pos blockSize
          rw [bigBlock] at bound inside
          rw [blockSize] at *
          omega
        · exact ends (lasts_of_big fs ino (not_lt.mp bound))

theorem readLoop_spec {pos left fuel : Nat} (enough : left < fuel) (bound : pos + left ≤ bigBlock * blockSize) :
    readLoop fs ino pos left fuel = .ok ((List.range left).map fun i => byteOf fs ino (pos + i)) := by
  induction fuel generalizing pos left with
  | zero => omega
  | succ fuel ih =>
    unfold readLoop
    by_cases finished : left = 0
    · rw [if_pos finished, finished]
      rfl
    · have inRange : pos / blockSize < bigBlock := by
        rw [Nat.div_lt_iff_lt_mul (by decide)]
        omega
      have offset : pos % blockSize < blockSize := Nat.mod_lt _ (by decide)
      rw [if_neg finished, bind_ok (bmap_eq fs ino inRange)]
      dsimp only
      generalize chunk : min (blockSize - pos % blockSize) left = c
      have parts : left = c + (left - c) := by omega
      rw [bind_ok (ih (by omega) (by omega))]
      conv_rhs => rw [parts]
      rw [List.range_add, List.map_append, List.map_map]
      congr 2
      · apply List.map_congr_left
        intro i isIn
        have small : i < c := List.mem_range.mp isIn
        have sameBlock : (pos + i) / blockSize = pos / blockSize ∧
            (pos + i) % blockSize = pos % blockSize + i := by
          have := Nat.div_add_mod pos blockSize
          rw [blockSize] at *
          omega
        rw [byteOf, sameBlock.1, sameBlock.2]
        rfl
      · apply List.map_congr_left
        intro i _
        rw [Function.comp_apply, Nat.add_assoc]

/-- Up to the largest position a file has a place for each block of a transfer. -/
theorem transferPlaces_eq {pos count : Nat} (some : 0 < count) (inside : pos + count ≤ bigBlock * blockSize) :
    transferPlaces ino pos count = placesIn ino (pos / blockSize) ((pos + count - 1) / blockSize + 1) := by
  have below : (pos + count - 1) / blockSize + 1 ≤ bigBlock := by
    rw [Nat.succ_le_iff, Nat.div_lt_iff_lt_mul (by decide)]
    omega
  rw [transferPlaces, Nat.min_eq_left below]

section Write

variable {file : OpenFile} {count : Int} {time : BitVec 32} {pos : Nat}

theorem fileWrite_spec (wf : fs.Wf) (start : pos = if file.append then (fs.inode ino).size.toNat else file.pos)
    {value : Int} {file' : OpenFile} (run : fileWrite fs ino file buf count time = .ok (value, file', fs')) :
    ∃ n : Nat, value = (if n = 0 then -1 else (n : Int)) ∧ file' = (if file.append then file else { file with pos := pos + n }) ∧
      n ≤ count.toNat ∧ Wrote fs fs' ino pos n buf 0 := by
  unfold fileWrite at run
  rw [← start] at run
  rcases of_bind run with ⟨⟨i, pos', fs₁⟩, loop, rest⟩
  rcases writeLoop_spec wf (Nat.zero_le _) loop with ⟨n, rfl, rfl, short, wrote⟩
  rw [Nat.zero_add] at short
  refine ⟨n, ?_⟩
  by_cases append : file.append
  · simp only [append, if_true, Nat.zero_add, Except.ok.injEq, Prod.mk.injEq] at rest
    rcases rest with ⟨rfl, rfl, rfl⟩
    exact ⟨rfl, (if_pos append).symm, short, wrote.touched rfl rfl⟩
  · simp only [append, Bool.false_eq_true, if_false, Nat.zero_add, Except.ok.injEq, Prod.mk.injEq] at rest
    rcases rest with ⟨rfl, rfl, rfl⟩
    refine ⟨rfl, ?_, short, wrote.touched rfl rfl⟩
    rw [if_neg append]
    simp only [append]

theorem fileWrite_returns_loop (start : pos = if file.append then (fs.inode ino).size.toNat else file.pos) :
    (∃ r, fileWrite fs ino file buf count time = .ok r) ↔
      ∃ r, writeLoop fs ino pos 0 count.toNat buf time (count.toNat + 1) = .ok r := by
  unfold fileWrite
  rw [← start]
  constructor
  · rintro ⟨r, run⟩
    rcases of_bind run with ⟨stored, loop, -⟩
    exact ⟨stored, loop⟩
  · rintro ⟨stored, loop⟩
    rw [bind_ok loop]
    by_cases append : file.append
    · exact ⟨_, if_pos append⟩
    · exact ⟨_, if_neg append⟩

/-- `file_write` returns where it meets no bit of the bitmap that is not aligned. -/
theorem fileWrite_returns_iff (wf : fs.Wf) (start : pos = if file.append then (fs.inode ino).size.toNat else file.pos)
    (bound : (pos + count - 1) / 1024 < 7 + 512 + 512 * 512) :
    (∃ r, fileWrite fs ino file buf count time = .ok r) ↔ AlignedFor fs.sb (missingZones fs ino pos count.toNat) := by
  rw [fileWrite_returns_loop start]
  unfold missingZones
  split
  · rename_i none
    rw [none]
    exact iff_of_true ⟨_, rfl⟩ (alignedFor_zero _)
  · have inside : pos + count.toNat ≤ bigBlock * blockSize := by
      rw [bigBlock, blockSize]
      omega
    rw [writeLoop_returns_iff _ wf (by omega) (by omega), Nat.sub_zero]
    exact and_iff_left (.inl inside)

end Write

theorem fileRead_spec (fs : FileSystem) (ino : Nat) (file : OpenFile) (count : Nat) (time : BitVec 32)
    (bound : (file.pos + count - 1) / 1024 < 7 + 512 + 512 * 512) :
    fileRead fs ino file count time = .ok ((List.range count).map fun i => byteOf fs ino (file.pos + i), count,
      { file with pos := file.pos + count },
      if count = 0 then fs else fs.setInode ino { fs.inode ino with atime := time }) := by
  unfold fileRead
  by_cases none : count = 0
  · rw [if_pos (by omega), if_pos none, none]
    rfl
  · have run : readLoop fs ino file.pos count (count + 1) = _ :=
      readLoop_spec (Nat.lt_succ_self _) (by rw [bigBlock, blockSize]; omega)
    rw [if_neg (by omega), if_neg none, Int.toNat_natCast, bind_ok run]

/-- Files are arrays of bytes with holes that read as 0. -/
theorem files_are_byte_arrays (wf : fs.Wf) (ino : Nat) (file : OpenFile) (time : BitVec 32) :
    (∀ (buf : Nat → Byte) (count : Int) (pos : Nat),
      pos = (if file.append then (fs.inode ino).size.toNat else file.pos) →
      (pos + count - 1) / 1024 < 7 + 512 + 512 * 512 →
      (∀ value file' fs', fileWrite fs ino file buf count time = .ok (value, file', fs') → fs'.Wf ∧
        ∀ n : Nat, value = n → 0 < n →
          (∀ i, i < n → content fs' ino (pos + i) = .ok (buf i)) ∧
          (∀ ino' k, ¬ (ino' = ino ∧ pos ≤ k ∧ k < pos + n) → content fs' ino' k = content fs ino' k) ∧
          (fs'.inode ino).size.toNat = max (fs.inode ino).size.toNat (pos + n) ∧
          file'.pos = if file.append then file.pos else pos + n) ∧
      ((∃ r, fileWrite fs ino file buf count time = .ok r) ↔ AlignedFor fs.sb (missingZones fs ino pos count.toNat))) ∧
    (∀ count : Nat, (file.pos + count - 1) / 1024 < 7 + 512 + 512 * 512 →
      ∃ bytes file' fs', fileRead fs ino file count time = .ok (bytes, count, file', fs') ∧
        bytes.map .ok = (List.range count).map (fun i => content fs ino (file.pos + i)) ∧
        file'.pos = file.pos + count) := by
  constructor
  · intro buf count pos start bound
    refine ⟨?_, fileWrite_returns_iff wf start bound⟩
    intro value file' fs' run
    rcases fileWrite_spec wf start run with ⟨n, returned, rfl, short, wrote⟩
    refine ⟨wrote.wf, ?_⟩
    intro n' value some
    have same : n' = n := by
      split at returned <;> omega
    subst same
    refine ⟨?_, ?_, ?_, ?_⟩
    · intro i inside
      have inRange : (pos + i) / blockSize < bigBlock := by
        rw [blockSize, bigBlock]
        omega
      rw [content_eq fs' ino inRange, wrote.bytes ino _ inRange, if_pos (by omega)]
      congr 2
      omega
    · intro ino' k outside
      apply content_congr
      intro inRange
      rw [wrote.bytes ino' k inRange, if_neg outside]
    · rw [wrote.size, if_neg (by omega)]
    · split <;> rfl
  · intro count bound
    refine ⟨_, _, _, fileRead_spec fs ino file count time bound, ?_, rfl⟩
    rw [List.map_map]
    apply List.map_congr_left
    intro i isIn
    have small : i < count := List.mem_range.mp isIn
    rw [content_eq fs ino (by rw [blockSize, bigBlock]; omega)]
    rfl

/-- 3000 bytes from 6120 on lie in the blocks 5 to 8, the last two of them behind an index block. -/
theorem blankDevice_file : ∃ file' fs',
    fileWrite blankDevice 1 ⟨false, 6120⟩ (fun i => BitVec.ofNat 8 i) 3000 0 = .ok (3000, file', fs') ∧
      (fs'.inode 1).size.toNat = 9120 ∧ content fs' 1 9119 = .ok (BitVec.ofNat 8 2999) := by
  have returned : (fileWrite blankDevice 1 ⟨false, 6120⟩ (fun i => BitVec.ofNat 8 i) 3000 0).map Prod.fst = .ok 3000 := by
    decide +kernel
  rcases of_map returned with ⟨⟨value, file', fs'⟩, run, rfl⟩
  have facts := ((files_are_byte_arrays blankDevice_wf 1 ⟨false, 6120⟩ 0).1 (fun i => BitVec.ofNat 8 i) 3000 6120 rfl
    (by decide)).1 _ _ _ run
  rcases facts.2 3000 rfl (by decide) with ⟨stored, -, size, -⟩
  exact ⟨file', fs', run, size, stored 2999 (by decide)⟩

end K210Linux.Fs
