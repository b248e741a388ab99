import K210Linux.Buffer.Queues
import Mathlib

namespace K210Linux.Buffer

open K210Linux.Fs (Byte Block)

/-- What `buffer_init` writes into a `buffer_head`; a pointer is an address, and 0 is `NULL`. -/
structure HeadRecord where
  data : BitVec 64
  dev : BitVec 16
  uptodate : Byte
  dirt : Byte
  count : Byte
  lock : Byte
  wait : BitVec 64
  prev : BitVec 64
  next : BitVec 64
  prevFree : BitVec 64
  nextFree : BitVec 64

/-- `NR_BUFFERS`, the headers by their address, `free_list` and `hash_table`. -/
structure HeaderPool where
  nrBuffers : BitVec 32
  head : BitVec 64 → HeadRecord
  freeList : BitVec 64
  hashTable : Nat → BitVec 64

namespace HeaderPool

/-- `sizeof(struct buffer_head)`, and what a buffer takes with its block. -/
def headSize : BitVec 64 := 64
def blockSize : BitVec 64 := 1024

/-- A turn of the loop of `buffer_init`. -/
def setUp (p : HeaderPool) (h b : BitVec 64) : HeaderPool where
  nrBuffers := p.nrBuffers + 1
  head := Function.update p.head h {
    data := b, dev := 0, uptodate := 0, dirt := 0, count := 0, lock := 0, wait := 0, prev := 0, next := 0
    prevFree := h - headSize, nextFree := h + headSize }
  freeList := p.freeList
  hashTable := p.hashTable

/-- The loop, with `h` and `b` before its test. -/
def initLoop : Nat → BitVec 64 → BitVec 64 → HeaderPool → Option (BitVec 64 × HeaderPool)
  | 0, _, _, _ => none
  | fuel + 1, h, b, p =>
    if h + headSize ≤ b - blockSize then initLoop fuel (h + headSize) (b - blockSize) (p.setUp h (b - blockSize))
    else some (h, p)

def setPrevFree (p : HeaderPool) (h prevFree : BitVec 64) : HeaderPool :=
  { p with head := Function.update p.head h { p.head h with prevFree } }

def setNextFree (p : HeaderPool) (h nextFree : BitVec 64) : HeaderPool :=
  { p with head := Function.update p.head h { p.head h with nextFree } }

/-- `buffer_init` after its loop. -/
def close (start h : BitVec 64) (p : HeaderPool) : HeaderPool :=
  let h := h - headSize
  let p := { p with freeList := start }
  let p := p.setPrevFree p.freeList h
  let p := p.setNextFree h p.freeList
  { p with hashTable := fun i => if i < nrHash then 0 else p.hashTable i }

/-- `buffer_init`, with `start_buffer` and the turns that the loop may take. -/
def bufferInit (fuel : Nat) (start bufferEnd : BitVec 64) (p : HeaderPool) : Option HeaderPool :=
  (initLoop fuel start bufferEnd p).map fun done => close start done.1 done.2

/-- Header `i` from an address on, and block `i` below an address. -/
def headAt (start : BitVec 64) (i : Nat) : BitVec 64 := start + BitVec.ofNat 64 (64 * i)
def blockAt (bufferEnd : BitVec 64) (i : Nat) : BitVec 64 := bufferEnd - BitVec.ofNat 64 (1024 * (i + 1))

/-- The bytes of a header, and of the block that it points to. -/
def headBytes (start : BitVec 64) (i : Nat) : Set Nat :=
  Set.Ico (headAt start i).toNat ((headAt start i).toNat + 64)

def dataBytes (p : HeaderPool) (start : BitVec 64) (i : Nat) : Set Nat :=
  Set.Ico (p.head (headAt start i)).data.toNat ((p.head (headAt start i)).data.toNat + 1024)

/-- The pool has `n` headers and blocks in the region, and a free list of all of them in the order of their
    addresses. -/
structure Layout (start bufferEnd : BitVec 64) (n : Nat) (p : HeaderPool) : Prop where
  count : p.nrBuffers = BitVec.ofNat 32 n
  heads : ∀ i < n, headBytes start i ⊆ Set.Ico start.toNat bufferEnd.toNat
  blocks : ∀ i < n, p.dataBytes start i ⊆ Set.Ico start.toNat bufferEnd.toNat
  headsApart : ∀ i < n, ∀ j < n, i ≠ j → Disjoint (headBytes start i) (headBytes start j)
  blocksApart : ∀ i < n, ∀ j < n, i ≠ j → Disjoint (p.dataBytes start i) (p.dataBytes start j)
  apart : ∀ i < n, ∀ j < n, Disjoint (headBytes start i) (p.dataBytes start j)
  first : p.freeList = headAt start 0
  next : ∀ i < n, (p.head (headAt start i)).nextFree = headAt start ((i + 1) % n)
  prev : ∀ i < n, (p.head (headAt start ((i + 1) % n))).prevFree = headAt start i

/-- A region that takes `n` buffers and no more, and is not so close to address 0 that the block behind the last
    one would be below it. -/
structure Region (start bufferEnd : BitVec 64) (n : Nat) : Prop where
  some : 0 < n
  fits : start.toNat + 1088 * n ≤ bufferEnd.toNat
  most : bufferEnd.toNat < start.toNat + 1088 * (n + 1)
  above : 1024 * (n + 1) ≤ bufferEnd.toNat

/-- The pool after `k` turns. -/
def rounds (start bufferEnd : BitVec 64) (p : HeaderPool) : Nat → HeaderPool
  | 0 => p
  | k + 1 => (rounds start bufferEnd p k).setUp (headAt start k) (blockAt bufferEnd k)

variable {start bufferEnd : BitVec 64} {p : HeaderPool} {n i j k : Nat}

theorem headAt_succ (start : BitVec 64) (k : Nat) : headAt start k + headSize = headAt start (k + 1) := by
  apply BitVec.eq_of_toNat_eq
  simp only [headAt, headSize, BitVec.ofNat_eq_ofNat, BitVec.toNat_add, BitVec.toNat_ofNat]
  omega

theorem blockAt_succ (bufferEnd : BitVec 64) (k : Nat) :
    blockAt bufferEnd k - blockSize = blockAt bufferEnd (k + 1) := by
  apply BitVec.eq_of_toNat_eq
  simp only [blockAt, blockSize, BitVec.ofNat_eq_ofNat, BitVec.toNat_sub, BitVec.toNat_ofNat]
  omega

theorem headAt_toNat (region : Region start bufferEnd n) (inside : i ≤ n) :
    (headAt start i).toNat = start.toNat + 64 * i := by
  have bound := bufferEnd.isLt
  have fits := region.fits
  simp only [headAt, BitVec.toNat_add, BitVec.toNat_ofNat]
  omega

theorem headAt_last (region : Region start bufferEnd n) :
    (headAt start (n + 1)).toNat = start.toNat + 64 * (n + 1) := by
  have bound := bufferEnd.isLt
  have fits := region.fits
  have some := region.some
  simp only [headAt, BitVec.toNat_add, BitVec.toNat_ofNat]
  omega

theorem blockAt_toNat (region : Region start bufferEnd n) (inside : i ≤ n) :
    (blockAt bufferEnd i).toNat = bufferEnd.toNat - 1024 * (i + 1) := by
  have bound := bufferEnd.isLt
  have above := region.above
  simp only [blockAt, BitVec.toNat_sub, BitVec.toNat_ofNat]
  omega

theorem headAt_ne (region : Region start bufferEnd n) (inside : i ≤ n) (within : j ≤ n) (differs : i ≠ j) :
    headAt start i ≠ headAt start j := by
  intro same
  have same := congrArg BitVec.toNat same
  rw [headAt_toNat region inside, headAt_toNat region within] at same
  omega

/-- The test of the loop after `k` turns. -/
theorem meets_iff (region : Region start bufferEnd n) (inside : k ≤ n) :
    headAt start k + headSize ≤ blockAt bufferEnd k ↔ k < n := by
  have head : (headAt start (k + 1)).toNat = start.toNat + 64 * (k + 1) := by
    rcases Nat.lt_or_eq_of_le inside with before | rfl
    · exact headAt_toNat region before
    · exact headAt_last region
  have fits := region.fits
  have most := region.most
  have above := region.above
  rw [headAt_succ, BitVec.le_def, head, blockAt_toNat region inside]
  have gap : 1024 * (k + 1) ≤ bufferEnd.toNat := by omega
  omega

/-- The loop takes the turns that are left, by induction on how many these are. -/
theorem initLoop_rounds (region : Region start bufferEnd n) (p : HeaderPool) (more left : Nat) {k : Nat} {b : BitVec 64}
    (turns : k + left = n) (top : b - blockSize = blockAt bufferEnd k) :
    initLoop (left + 1 + more) (headAt start k) b (rounds start bufferEnd p k) =
      some (headAt start n, rounds start bufferEnd p n) := by
  induction left generalizing k b with
  | zero =>
    have done : ¬(headAt start k + headSize ≤ blockAt bufferEnd k) := by
      rw [meets_iff region (by omega)]
      omega
    obtain rfl : k = n := by omega
    rw [show 0 + 1 + more = more + 1 by omega, initLoop, top, if_neg done]
  | succ left ih =>
    have goes : headAt start k + headSize ≤ blockAt bufferEnd k := (meets_iff region (by omega)).mpr (by omega)
    rw [show left + 1 + 1 + more = (left + 1 + more) + 1 by omega, initLoop, top, if_pos goes, headAt_succ]
    exact ih (k := k + 1) (by omega) (blockAt_succ bufferEnd k)

theorem initLoop_more {fuel : Nat} {h b : BitVec 64} {done : BitVec 64 × HeaderPool} (more : Nat)
    (run : initLoop fuel h b p = some done) : initLoop (fuel + more) h b p = some done := by
  induction fuel generalizing h b p with
  | zero => cases run
  | succ fuel ih =>
    rw [show fuel + 1 + more = (fuel + more) + 1 by omega]
    simp only [initLoop] at run ⊢
    split
    case isTrue goes =>
      rw [if_pos goes] at run
      exact ih run
    case isFalse stops =>
      rw [if_neg stops] at run
      exact run

theorem rounds_nrBuffers (start bufferEnd : BitVec 64) (p : HeaderPool) (k : Nat) :
    (rounds start bufferEnd p k).nrBuffers = p.nrBuffers + BitVec.ofNat 32 k := by
  induction k with
  | zero => simp [rounds]
  | succ k ih => simp [rounds, setUp, ih, BitVec.ofNat_add, BitVec.add_assoc]

/-- What a turn wrote into its header is there after the later ones. -/
theorem rounds_head (region : Region start bufferEnd n) (p : HeaderPool) (inside : k ≤ n) (before : i < k) :
    (rounds start bufferEnd p k).head (headAt start i) = {
      data := blockAt bufferEnd i, dev := 0, uptodate := 0, dirt := 0, count := 0, lock := 0, wait := 0, prev := 0
      next := 0, prevFree := headAt start i - headSize, nextFree := headAt start (i + 1) } := by
  induction k with
  | zero => cases before
  | succ k ih =>
    simp only [rounds, setUp]
    by_cases last : i = k
    · subst last
      rw [Function.update_self, headAt_succ]
    · rw [Function.update_of_ne (headAt_ne region (by omega) (by omega) last), ih (by omega) (by omega)]

@[simp] theorem close_nrBuffers (start h : BitVec 64) (p : HeaderPool) :
    (close start h p).nrBuffers = p.nrBuffers := rfl

@[simp] theorem close_freeList (start h : BitVec 64) (p : HeaderPool) : (close start h p).freeList = start := rfl

@[simp] theorem setPrevFree_data (p : HeaderPool) (h f a : BitVec 64) :
    ((p.setPrevFree h f).head a).data = (p.head a).data := by
  by_cases same : a = h <;> simp [setPrevFree, Function.update, same]

@[simp] theorem setNextFree_data (p : HeaderPool) (h f a : BitVec 64) :
    ((p.setNextFree h f).head a).data = (p.head a).data := by
  by_cases same : a = h <;> simp [setNextFree, Function.update, same]

@[simp] theorem setPrevFree_nextFree (p : HeaderPool) (h f a : BitVec 64) :
    ((p.setPrevFree h f).head a).nextFree = (p.head a).nextFree := by
  by_cases same : a = h <;> simp [setPrevFree, Function.update, same]

@[simp] theorem setNextFree_prevFree (p : HeaderPool) (h f a : BitVec 64) :
    ((p.setNextFree h f).head a).prevFree = (p.head a).prevFree := by
  by_cases same : a = h <;> simp [setNextFree, Function.update, same]

@[simp] theorem close_data (start h a : BitVec 64) (p : HeaderPool) :
    ((close start h p).head a).data = (p.head a).data := by
  simp [close]

theorem close_nextFree (start h a : BitVec 64) (p : HeaderPool) :
    ((close start h p).head a).nextFree = if a = h - headSize then start else (p.head a).nextFree := by
  by_cases last : a = h - headSize
  · simp [close, setNextFree, setPrevFree, last]
  · simp only [close, if_neg last, setNextFree, Function.update_of_ne last, setPrevFree_nextFree]

theorem close_prevFree (start h a : BitVec 64) (p : HeaderPool) :
    ((close start h p).head a).prevFree = if a = start then h - headSize else (p.head a).prevFree := by
  by_cases first : a = start
  · simp [close, setPrevFree, first]
  · simp only [close, if_neg first, setNextFree_prevFree, setPrevFree, Function.update_of_ne first]

theorem headAt_zero (start : BitVec 64) : headAt start 0 = start := by
  simp [headAt]

theorem headAt_pred (start : BitVec 64) (k : Nat) : headAt start (k + 1) - headSize = headAt start k := by
  rw [← headAt_succ, BitVec.add_sub_cancel]

theorem headBytes_eq (region : Region start bufferEnd n) (inside : i < n) :
    headBytes start i = Set.Ico (start.toNat + 64 * i) (start.toNat + 64 * i + 64) := by
  rw [headBytes, headAt_toNat region (Nat.le_of_lt inside)]

/-- The pool after `buffer_init`. -/
def filled (start bufferEnd : BitVec 64) (p : HeaderPool) (n : Nat) : HeaderPool :=
  close start (headAt start n) (rounds start bufferEnd p n)

theorem bufferInit_filled (region : Region start bufferEnd n) (p : HeaderPool) {fuel : Nat} (enough : n < fuel) :
    bufferInit fuel start bufferEnd p = some (filled start bufferEnd p n) := by
  obtain ⟨more, rfl⟩ := Nat.exists_eq_add_of_le (show n + 1 ≤ fuel from enough)
  have top : bufferEnd - blockSize = blockAt bufferEnd 0 := rfl
  have run := initLoop_rounds region p more n (Nat.zero_add n) top
  rw [headAt_zero] at run
  rw [bufferInit, show initLoop (n + 1 + more) start bufferEnd p = _ from run]
  rfl

theorem dataBytes_eq (region : Region start bufferEnd n) (p : HeaderPool) (inside : i < n) :
    (filled start bufferEnd p n).dataBytes start i =
      Set.Ico (bufferEnd.toNat - 1024 * (i + 1)) (bufferEnd.toNat - 1024 * (i + 1) + 1024) := by
  have data : ((filled start bufferEnd p n).head (headAt start i)).data = blockAt bufferEnd i := by
    rw [filled, close_data, rounds_head region p (Nat.le_refl n) inside]
  rw [dataBytes, data, blockAt_toNat region (Nat.le_of_lt inside)]

theorem filled_nextFree (region : Region start bufferEnd n) (p : HeaderPool) (inside : i < n) :
    ((filled start bufferEnd p n).head (headAt start i)).nextFree = headAt start ((i + 1) % n) := by
  obtain ⟨m, rfl⟩ := Nat.exists_eq_succ_of_ne_zero (Nat.ne_of_gt region.some)
  rw [filled, close_nextFree, headAt_pred]
  rcases Nat.lt_or_eq_of_le (Nat.le_of_lt_succ inside) with before | rfl
  · rw [if_neg (headAt_ne region (by omega) (by omega) (by omega)), rounds_head region p (Nat.le_refl _) inside]
    rw [Nat.mod_eq_of_lt (by omega)]
  · rw [if_pos rfl, Nat.mod_self, headAt_zero]

theorem filled_prevFree (region : Region start bufferEnd n) (p : HeaderPool) (inside : i < n) :
    ((filled start bufferEnd p n).head (headAt start ((i + 1) % n))).prevFree = headAt start i := by
  obtain ⟨m, rfl⟩ := Nat.exists_eq_succ_of_ne_zero (Nat.ne_of_gt region.some)
  rw [filled, close_prevFree, headAt_pred]
  rcases Nat.lt_or_eq_of_le (Nat.le_of_lt_succ inside) with before | rfl
  · have later : headAt start (i + 1) ≠ start := by
      have later := headAt_ne region (i := i + 1) (j := 0) (by omega) (by omega) (by omega)
      rwa [headAt_zero] at later
    rw [Nat.mod_eq_of_lt (by omega), if_neg later, rounds_head region p (Nat.le_refl _) (by omega)]
    exact headAt_pred start i
  · rw [Nat.mod_self, headAt_zero, if_pos rfl]

/-- The headers end where the block of the last one starts, or before it. -/
theorem filled_layout (region : Region start bufferEnd n) (p : HeaderPool) (fresh : p.nrBuffers = 0) :
    Layout start bufferEnd n (filled start bufferEnd p n) where
  count := by
    rw [filled, close_nrBuffers, rounds_nrBuffers, fresh]
    exact BitVec.zero_add _
  heads := by
    intro i inside
    have fits := region.fits
    rw [headBytes_eq region inside]
    apply Set.Ico_subset_Ico <;> omega
  blocks := by
    intro i inside
    have fits := region.fits
    rw [dataBytes_eq region p inside]
    apply Set.Ico_subset_Ico <;> omega
  headsApart := by
    intro i inside j within differs
    rw [headBytes_eq region inside, headBytes_eq region within, Set.Ico_disjoint_Ico]
    omega
  blocksApart := by
    intro i inside j within differs
    have fits := region.fits
    rw [dataBytes_eq region p inside, dataBytes_eq region p within, Set.Ico_disjoint_Ico]
    omega
  apart := by
    intro i inside j within
    have fits := region.fits
    rw [headBytes_eq region inside, dataBytes_eq region p within, Set.Ico_disjoint_Ico]
    omega
  first := by
    rw [filled, close_freeList, headAt_zero]
  next := fun _ inside => filled_nextFree region p inside
  prev := fun _ inside => filled_prevFree region p inside

/-- A region of at least a header and a block takes as many buffers as fit into it, if their blocks and one more
    have room above address 0. -/
theorem region_of_room (room : start.toNat + 1088 ≤ bufferEnd.toNat)
    (above : 1024 * ((bufferEnd.toNat - start.toNat) / 1088 + 1) ≤ bufferEnd.toNat) :
    Region start bufferEnd ((bufferEnd.toNat - start.toNat) / 1088) where
  some := by omega
  fits := by omega
  most := by omega
  above := above

theorem isGreatest_div (space : Nat) : IsGreatest {n | n * (64 + 1024) ≤ space} (space / 1088) := by
  constructor
  · show space / 1088 * (64 + 1024) ≤ space
    omega
  · intro n fits
    have fits : n * (64 + 1024) ≤ space := fits
    omega

theorem buffer_init_layout {start bufferEnd : BitVec 64} (room : start.toNat + (64 + 1024) ≤ bufferEnd.toNat)
    (above : 1024 * ((bufferEnd.toNat - start.toNat) / (64 + 1024) + 1) ≤ bufferEnd.toNat) {p : HeaderPool}
    (fresh : p.nrBuffers = 0) :
    ∃ n, IsGreatest {n | n * (64 + 1024) ≤ bufferEnd.toNat - start.toNat} n ∧
      ∃ p', (∀ fuel, n < fuel → bufferInit fuel start bufferEnd p = some p') ∧ Layout start bufferEnd n p' := by
  have region := region_of_room room above
  refine ⟨_, isGreatest_div _, filled start bufferEnd p _, ?_, filled_layout region p fresh⟩
  intro fuel enough
  exact bufferInit_filled region p enough

/-- The memory before `buffer_init`, all of it 0. -/
def untouched : HeaderPool where
  nrBuffers := 0
  head := fun _ => {
    data := 0, dev := 0, uptodate := 0, dirt := 0, count := 0, lock := 0, wait := 0, prev := 0, next := 0
    prevFree := 0, nextFree := 0 }
  freeList := 0
  hashTable := fun _ => 0

theorem linked_region_filled :
    ∃ n, IsGreatest {n | n * (64 + 1024) ≤ (0x8007D000 + 100 * 1024 : BitVec 64).toNat -
        (0x8007D000 : BitVec 64).toNat} n ∧
      ∃ p', (∀ fuel, n < fuel → bufferInit fuel 0x8007D000 (0x8007D000 + 100 * 1024) untouched = some p') ∧
        Layout 0x8007D000 (0x8007D000 + 100 * 1024) n p' :=
  buffer_init_layout (by decide) (by decide) rfl

/-- Behind a region of one buffer at address 0, the loop goes on with a block at the other end of the memory. -/
theorem bottom_region : Region 128 (-960) 16954728008924219 where
  some := by decide
  fits := by decide
  most := by decide
  above := by decide

theorem bottom_run (more : Nat) :
    initLoop (16954728008924219 + 1 + more + 2) 0 1088 untouched =
      some (headAt 128 16954728008924219,
        rounds 128 (-960) ((untouched.setUp 0 64).setUp 64 (-960)) 16954728008924219) := by
  have top : (-960 : BitVec 64) - blockSize = blockAt (-960) 0 := rfl
  have run := initLoop_rounds bottom_region ((untouched.setUp 0 64).setUp 64 (-960)) more _ (Nat.zero_add _) top
  rw [headAt_zero] at run
  exact run

theorem bottom_region_overrun :
    ¬∃ n, IsGreatest {n | n * (64 + 1024) ≤ (1088 : BitVec 64).toNat - (0 : BitVec 64).toNat} n ∧
      ∃ p', (∃ fuel, bufferInit fuel 0 1088 untouched = some p') ∧ Layout 0 1088 n p' := by
  rintro ⟨n, greatest, p', ⟨fuel, returns⟩, layout⟩
  have one : n = 1 := greatest.unique (isGreatest_div 1088)
  obtain ⟨done, run, rfl⟩ := Option.map_eq_some_iff.mp returns
  have long := initLoop_more (16954728008924219 + 1 + 2) run
  rw [show fuel + (16954728008924219 + 1 + 2) = 16954728008924219 + 1 + fuel + 2 by omega, bottom_run] at long
  have count := layout.count
  rw [← Option.some.inj long, one, close_nrBuffers, rounds_nrBuffers] at count
  revert count
  decide

end HeaderPool

end K210Linux.Buffer
