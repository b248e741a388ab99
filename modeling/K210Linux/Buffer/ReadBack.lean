import K210Linux.Buffer.Delivery

/-! Reading from the ramdisk what `block_write` wrote to it. -/

namespace K210Linux.Buffer

open Outcome K210Linux.Lib
open K210Linux.Fs (Block Byte storeUser)

variable {s s₁ s₂ s' : Drive} {i j k : Nat} {block : BitVec 32} {offset left : Nat}

/-- The ramdisk lies in memory, and its block numbers are positive `int`s. -/
structure Sized (s : Drive) : Prop where
  memory : s.start.toNat + s.length.toNat < 2 ^ 64
  numbers : s.length.toNat ≤ 2 ^ 41

theorem Since.sized (since : Since s s') (sized : Sized s) : Sized s' := by
  refine ⟨?_, ?_⟩
  · rw [since.size.1, since.size.2]
    exact sized.memory
  · rw [since.size.2]
    exact sized.numbers

section Bytes

/-- A request gets `v` for the byte at `a`. -/
def DeliversByte (s : Drive) (a : Nat) (v : Byte) : Prop :=
  ∃ b, Delivers s (BitVec.ofNat 64 (a / 1024)) b ∧ b (a % 1024) = v

def window (byte : Nat → Byte) (a n : Nat) : List Byte := (List.range n).map fun k => byte (a + k)

theorem window_add (byte : Nat → Byte) (a n m : Nat) : window byte a (n + m) = window byte a n ++ window byte (a + n) m := by
  simp only [window, List.range_add, List.map_append, List.map_map, Function.comp_def, Nat.add_assoc]

/-- What lies between `a` and `a + n` lies on whole blocks of the device. -/
def Within (s : Drive) (a n : Nat) : Prop := a + n ≤ 1024 * (s.length.toNat / 1024)

instance (s : Drive) (a n : Nat) : Decidable (Within s a n) := inferInstanceAs (Decidable (_ ≤ _))

theorem Since.within (since : Since s s') {a n : Nat} : Within s' a n ↔ Within s a n := by
  rw [Within, Within, since.size.2]

/-- What the number of a block inside the ramdisk is good for. -/
structure Numbers (s : Drive) (block : BitVec 32) : Prop where
  word : block.signExtend 64 = BitVec.ofNat 64 block.toNat
  served : s.serves (block.signExtend 64) = true
  next : (block + 1).toNat = block.toNat + 1

theorem Within.number (within : Within s (1024 * block.toNat + offset) left) (sized : Sized s) (some : left ≠ 0) :
    Numbers s block := by
  have numbers := sized.numbers
  rw [Within] at within
  have below : block.toNat < 2 ^ 31 := by omega
  have word : block.signExtend 64 = BitVec.ofNat 64 block.toNat := by
    apply BitVec.eq_of_toNat_eq
    rw [BitVec.signExtend_eq_setWidth_of_msb_false (BitVec.msb_eq_false_iff_two_mul_lt.2 (by omega))]
    rw [BitVec.toNat_setWidth, BitVec.toNat_ofNat]
  refine ⟨word, ?_, ?_⟩
  · rw [word]
    apply serves_inside sized.memory
    rw [Inside]
    omega
  · rw [BitVec.toNat_add]
    change (block.toNat + 1) % 2 ^ 32 = _
    omega

theorem Within.next (within : Within s (1024 * block.toNat + offset) left) (sized : Sized s) (some : left ≠ 0)
    (low : offset < 1024) : Within s (1024 * (block + 1).toNat + 0) (left - min (1024 - offset) left) := by
  rw [(within.number sized some).next]
  rw [Within] at within ⊢
  omega

/-- The bytes at the addresses of a block are those of its buffer. -/
theorem DeliversByte.data {a : Nat} {v : Byte} (delivers : DeliversByte s a v)
    (has : s.Has i (BitVec.ofNat 64 (a / 1024))) (valid : (s.cache.head i).uptodate = true) :
    (s.cache.head i).data (a % 1024) = v := by
  rcases delivers with ⟨b, delivers, value⟩
  rw [← value]
  exact delivers.buffer i has (.inl valid) _ (Nat.mod_lt _ (by decide))

theorem isInt_word {a : Nat} (sized : Sized s) (inside : a < 1024 * (s.length.toNat / 1024)) :
    IsInt (BitVec.ofNat 64 (a / 1024)) ∧ s.serves (BitVec.ofNat 64 (a / 1024)) = true := by
  have numbers := sized.numbers
  have small : a / 1024 < 2 ^ 31 := by omega
  have within : Within s (1024 * (BitVec.ofNat 32 (a / 1024)).toNat + a % 1024) 1 := by
    rw [Within, BitVec.toNat_ofNat]
    omega
  have number := within.number sized (by decide)
  have same : (BitVec.ofNat 32 (a / 1024)).toNat = a / 1024 := by
    rw [BitVec.toNat_ofNat]
    omega
  have word := number.word
  have served := number.served
  rw [same] at word
  rw [word] at served
  rw [← word]
  refine ⟨isInt_signExtend _, ?_⟩
  rw [word]
  exact served

theorem DeliversByte.moves {a : Nat} {v : Byte} (fit : Fit s) (sized : Sized s)
    (inside : a < 1024 * (s.length.toNat / 1024)) (delivers : DeliversByte s a v)
    (unwritten : Unwritten (BitVec.ofNat 64 (a / 1024)) s s') (moves : Moves RamdiskInt True s s') : DeliversByte s' a v := by
  rcases delivers with ⟨b, delivers, value⟩
  rcases isInt_word sized inside with ⟨int, served⟩
  exact ⟨b, delivers.moves fit int served unwritten moves, value⟩

end Bytes

section Reads

/-- The loop of `block_read` gets the bytes that requests get. -/
theorem readBlocks_delivers {fuel turns : Nat} {bytes : List Byte} {failed : Bool} {byte : Nat → Byte} (fit : Fit s)
    (sized : Sized s) (low : offset < 1024) (within : Within s (1024 * block.toNat + offset) left) (enough : left ≤ turns)
    (unwritten : ∀ a, 1024 * block.toNat + offset ≤ a → a < 1024 * block.toNat + offset + left →
      Unwritten (BitVec.ofNat 64 (a / 1024)) s s')
    (delivers : ∀ a, 1024 * block.toNat + offset ≤ a → a < 1024 * block.toNat + offset + left → DeliversByte s a (byte a))
    (done : Drive.readBlocks fuel ramdisk turns block offset left s = .ok (bytes, failed, s')) :
    bytes = window byte (1024 * block.toNat + offset) left ∧ failed = false := by
  induction turns generalizing block offset left s bytes failed with
  | zero =>
    obtain rfl : left = 0 := by omega
    cases done
    exact ⟨rfl, rfl⟩
  | succ turns ih =>
    rw [Drive.readBlocks] at done
    split at done
    · rename_i none
      subst none
      cases done
      exact ⟨rfl, rfl⟩
    · rename_i some
      have number := within.number sized some
      rcases of_bind done with ⟨⟨bh, s₁⟩, read, rest⟩
      rcases breada_valid fit number.served read with ⟨moves, i, rfl, valid, has⟩
      simp only at rest
      rcases of_bind rest with ⟨s₂, released, later⟩
      rcases of_bind later with ⟨⟨bytes₁, failed₁, s₃⟩, again, last⟩
      cases last
      have used := (of_brelse released).1
      have moves₂ : Moves RamdiskInt True s s₂ := moves.trans (brelse_moves released)
      have release : Moves RamdiskInt True s₁ s₂ := brelse_moves released
      have onward := (readBlocks_moves asksAhead_ramdisk (asksBlocks_ramdisk _ _ _) (by decide)
        (fit.moves moves₂).linked again).since
      -- the rest of the loop
      have range (a : Nat) (first : 1024 * (block + 1).toNat + 0 ≤ a)
          (last : a < 1024 * (block + 1).toNat + 0 + (left - min (1024 - offset) left)) :
          1024 * block.toNat + offset ≤ a ∧ a < 1024 * block.toNat + offset + left := by
        rw [number.next] at first last
        omega
      have inside (a : Nat) (last : a < 1024 * block.toNat + offset + left) : a < 1024 * (s.length.toNat / 1024) := by
        rw [Within] at within
        omega
      have tail := ih (fit.moves moves₂) (moves₂.since.sized sized) (by decide)
        (moves₂.since.within.2 (within.next sized some low)) (by omega)
        (fun a first last => (unwritten a (range a first last).1 (range a first last).2).last moves₂.since)
        (fun a first last => (delivers a (range a first last).1 (range a first last).2).moves fit sized
          (inside a (range a first last).2) ((unwritten a (range a first last).1 (range a first last).2).first onward) moves₂)
        again
      refine ⟨?_, tail.2⟩
      have here (n : Nat) (small : n < min (1024 - offset) left) :
          (s₁.cache.head i).data (offset + n) = byte (1024 * block.toNat + offset + n) := by
        have quotient : (1024 * block.toNat + offset + n) / 1024 = block.toNat := by omega
        have remainder : (1024 * block.toNat + offset + n) % 1024 = offset + n := by omega
        have before := delivers (1024 * block.toNat + offset + n) (by omega) (by omega)
        have waits := (unwritten (1024 * block.toNat + offset + n) (by omega) (by omega)).first (release.since.trans onward)
        have after := before.moves fit sized (inside _ (by omega)) waits moves
        have data := after.data (i := i) (by rw [quotient, ← number.word]; exact has used) valid
        rwa [remainder] at data
      have chunk : ((List.range (min (1024 - offset) left)).map fun k => (s₁.cache.head i).data (offset + k)) =
          window byte (1024 * block.toNat + offset) (min (1024 - offset) left) := by
        apply List.map_congr_left
        intro n member
        exact here n (List.mem_range.1 member)
      rw [chunk, tail.1]
      have whole : left = min (1024 - offset) left + (left - min (1024 - offset) left) := by omega
      conv_rhs => rw [whole]
      rw [window_add]
      congr 1
      by_cases more : left - min (1024 - offset) left = 0
      · rw [more]
        rfl
      · have next : 1024 * block.toNat + offset + min (1024 - offset) left = 1024 * (block + 1).toNat + 0 := by
          rw [number.next]
          omega
        rw [next]

/-- The calls of `block_read` for some ranges one after the other, with the bytes and the value that each returns. -/
def Drive.readAll (fuel : Nat) : List (BitVec 64 × Nat) → Drive → Except Halt (List (List Byte × Int) × Drive)
  | [], s => .ok ([], s)
  | (pos, count) :: ranges, s => do
    let (bytes, n, _, s) ← s.blockRead fuel ramdisk pos count
    let (rest, s) ← readAll fuel ranges s
    .ok ((bytes, n) :: rest, s)

/-- The bytes from `pos` on. -/
def InRange (range : BitVec 64 × Nat) (a : Nat) : Prop := range.1.toNat ≤ a ∧ a < range.1.toNat + range.2

theorem blockOf_within {pos : BitVec 64} {count : Nat} (within : Within s pos.toNat count) (sized : Sized s) :
    1024 * (Drive.blockOf pos).toNat + pos.toNat % 1024 = pos.toNat := by
  have numbers := sized.numbers
  rw [Within] at within
  have number : (Drive.blockOf pos).toNat = pos.toNat / 1024 := by
    rw [Drive.blockOf, BitVec.toNat_setWidth, BitVec.toNat_ushiftRight, Nat.shiftRight_eq_div_pow]
    omega
  rw [number]
  omega

theorem blockRead_moves {fuel count : Nat} {pos : BitVec 64} {result : List Byte × Int × BitVec 64 × Drive} (fit : Fit s)
    (read : s.blockRead fuel ramdisk pos count = .ok result) : Moves RamdiskInt True s result.2.2.2 := by
  rcases of_bind read with ⟨⟨bytes, failed, s₁⟩, done, last⟩
  cases last
  exact readBlocks_moves asksAhead_ramdisk (asksBlocks_ramdisk _ _ _) (Nat.mod_lt _ (by decide)) fit.linked done

theorem blockRead_delivers {fuel count : Nat} {pos : BitVec 64} {result : List Byte × Int × BitVec 64 × Drive}
    {byte : Nat → Byte} (fit : Fit s) (sized : Sized s) (within : Within s pos.toNat count)
    (unwritten : ∀ a, InRange (pos, count) a → Unwritten (BitVec.ofNat 64 (a / 1024)) s result.2.2.2)
    (delivers : ∀ a, InRange (pos, count) a → DeliversByte s a (byte a))
    (read : s.blockRead fuel ramdisk pos count = .ok result) :
    result.1 = window byte pos.toNat count ∧ result.2.1 = (count : Int) := by
  rcases of_bind read with ⟨⟨bytes, failed, s₁⟩, done, last⟩
  cases last
  by_cases none : count = 0
  · subst none
    cases done
    exact ⟨rfl, rfl⟩
  · have start := blockOf_within within sized
    have inRange (a : Nat) (first : 1024 * (Drive.blockOf pos).toNat + pos.toNat % 1024 ≤ a)
        (last : a < 1024 * (Drive.blockOf pos).toNat + pos.toNat % 1024 + count) : InRange (pos, count) a := by
      rw [start] at first last
      exact ⟨first, last⟩
    have both := readBlocks_delivers fit sized (Nat.mod_lt _ (by decide)) (by rw [start]; exact within) (le_refl _)
      (fun a first last => unwritten a (inRange a first last)) (fun a first last => delivers a (inRange a first last)) done
    rw [start] at both
    refine ⟨both.1, ?_⟩
    simp only [both.1, both.2, Drive.transferred, window, List.length_map, List.length_range, Bool.false_eq_true, false_and, if_false]

theorem readAll_moves {fuel : Nat} {ranges : List (BitVec 64 × Nat)} {results : List (List Byte × Int)} (fit : Fit s)
    (read : s.readAll fuel ranges = .ok (results, s')) : Moves RamdiskInt True s s' := by
  induction ranges generalizing s results with
  | nil =>
    cases read
    exact .refl
  | cons range ranges ih =>
    rcases of_bind read with ⟨⟨bytes, n, pos, s₁⟩, one, rest⟩
    rcases of_bind rest with ⟨⟨results₁, s₂⟩, later, last⟩
    cases last
    have moves := blockRead_moves fit one
    exact moves.trans (ih (fit.moves moves) later)

/-- Reads that return get the bytes that requests get. -/
theorem readAll_delivers {fuel : Nat} {ranges : List (BitVec 64 × Nat)} {results : List (List Byte × Int)} {byte : Nat → Byte}
    (fit : Fit s) (sized : Sized s) (within : ∀ range ∈ ranges, Within s range.1.toNat range.2)
    (unwritten : ∀ range ∈ ranges, ∀ a, InRange range a → Unwritten (BitVec.ofNat 64 (a / 1024)) s s')
    (delivers : ∀ range ∈ ranges, ∀ a, InRange range a → DeliversByte s a (byte a))
    (read : s.readAll fuel ranges = .ok (results, s')) :
    results = ranges.map fun range => (window byte range.1.toNat range.2, (range.2 : Int)) := by
  induction ranges generalizing s results with
  | nil =>
    cases read
    rfl
  | cons range ranges ih =>
    rcases of_bind read with ⟨⟨bytes, n, pos, s₁⟩, one, rest⟩
    rcases of_bind rest with ⟨⟨results₁, s₂⟩, later, last⟩
    cases last
    have moves := blockRead_moves fit one
    have fit₁ := fit.moves moves
    have onward := (readAll_moves fit₁ later).since
    have head := blockRead_delivers fit sized (within range (List.mem_cons_self ..))
      (fun a inside => (unwritten range (List.mem_cons_self ..) a inside).first onward)
      (delivers range (List.mem_cons_self ..)) one
    have tail := ih fit₁ (moves.since.sized sized)
      (fun other member => moves.since.within.2 (within other (List.mem_cons_of_mem _ member)))
      (fun other member a inside => (unwritten other (List.mem_cons_of_mem _ member) a inside).last moves.since)
      (fun other member a inside => (delivers other (List.mem_cons_of_mem _ member) a inside).moves fit sized
        (by have bound := within other (List.mem_cons_of_mem _ member); rw [Within] at bound; have := inside.2; omega)
        ((unwritten other (List.mem_cons_of_mem _ member) a inside).first onward) moves)
      later
    simp only at head
    rw [List.map_cons, head.1, head.2, tail]

end Reads

section Writes

/-- The block is in the cache and up to date. -/
def FreshIn (s : Drive) (block : BitVec 32) : Prop :=
  ∃ i < s.cache.nrBuffers, s.Has i (block.signExtend 64) ∧ (s.cache.head i).uptodate = true

instance (s : Drive) (block : BitVec 32) : Decidable (FreshIn s block) := inferInstanceAs (Decidable (∃ i < _, _))

/-- Where the loop of `block_write` comes to a whole block, the block is in the cache and up to date, or the ramdisk holds
    the same bytes already. -/
def WholeKept (fuel : Nat) (buf : Nat → Byte) : Nat → BitVec 32 → Nat → Nat → Nat → Drive → Prop
  | 0, _, _, _, _, _ => True
  | turns + 1, block, offset, written, left, s =>
    let chars := min (1024 - offset) left
    (chars = 1024 → FreshIn s block ∨ Same (s.disk (place (block.signExtend 64))) fun o => buf (written + o)) ∧
      ∀ n s', s.writeBlocks fuel ramdisk buf 1 block offset written left = .ok (n, false, s') →
        WholeKept fuel buf turns (block + 1) 0 (written + chars) (left - chars) s'

theorem getblk_cached {fuel : Nat} {x : BitVec 64} (linked : Linked s) (has : s.Has j x)
    (got : s.getblk fuel ramdisk x = .ok (i, s')) :
    i = j ∧ s' = s.setHead j { s.cache.head j with count := (s.cache.head j).count + 1 } := by
  unfold Drive.getblk at got
  cases fuel with
  | zero => cases got
  | succ fuel =>
    rw [Drive.getblkWith, findBuffer_held linked has.1 has.2] at got
    cases got
    exact ⟨rfl, rfl⟩

/-- The buffer of a turn of the loop, and what it has to be for the bytes to stay. -/
theorem writeTarget_ready {fuel chars written : Nat} {buf : Nat → Byte} {result : Option Nat} (fit : Fit s)
    (served : s.serves (block.signExtend 64) = true)
    (kept : chars = 1024 → FreshIn s block ∨ Same (s.disk (place (block.signExtend 64))) fun o => buf (written + o))
    (target : s.writeTarget fuel ramdisk block chars = .ok (result, s')) :
    Moves RamdiskInt True s s' ∧ ∃ i, result = some i ∧ ((s'.cache.head i).count ≠ 0 → s'.Has i (block.signExtend 64)) ∧
      (chars ≠ 1024 → (s'.cache.head i).uptodate = true) ∧
      (chars = 1024 → Unwritten (block.signExtend 64) s s' → (s'.cache.head i).uptodate = true ∨
        Same (s'.disk (place (block.signExtend 64))) fun o => buf (written + o)) := by
  unfold Drive.writeTarget at target
  split at target
  · rename_i full
    rcases of_bind target with ⟨⟨i, s₁⟩, got, last⟩
    cases last
    have asked : RamdiskInt ramdisk (block.signExtend 64) := ⟨rfl, isInt_signExtend block⟩
    rcases getblk_moves (syncDev_moves fuel) fit.linked (.inl asked) got with ⟨moves, here⟩
    refine ⟨moves, i, rfl, fun _ => here, fun part => absurd full part, ?_⟩
    intro _ unwritten
    rcases kept full with ⟨j, -, has, fresh⟩ | same
    · rcases getblk_cached fit.linked has got with ⟨rfl, rfl⟩
      left
      simpa only [Drive.setHead, Cache.setHead, Function.update_self] using fresh
    · by_cases cached : ∃ j, s.Has j (block.signExtend 64)
      · rcases cached with ⟨j, has⟩
        rcases getblk_cached fit.linked has got with ⟨rfl, rfl⟩
        exact .inr same
      · have before : Delivers s (block.signExtend 64) fun o => buf (written + o) :=
          ⟨fun j has => absurd ⟨j, has⟩ cached, fun _ => same⟩
        have after := before.moves fit (isInt_signExtend block) served unwritten moves
        cases valid : (s'.cache.head i).uptodate with
        | true => exact .inl rfl
        | false => exact .inr (after.onDisk (fit.moves moves).linked here (.inl valid))
  · rename_i part
    rcases breada_valid fit served target with ⟨moves, i, rfl, valid, has⟩
    exact ⟨moves, i, rfl, has, fun _ => valid, fun full => absurd full part⟩

theorem Delivers.stored {x : BitVec 64} {data : Block} (linked : Linked s) (has : s.Has i x)
    (ready : (s.cache.head i).uptodate = true ∨ Same (s.disk (place x)) data) :
    Delivers (s.setHead i { s.cache.head i with data, dirt := true }) x data := by
  constructor
  · intro j hasJ _
    rw [linked.same ((has_setHead { s.cache.head i with data, dirt := true } rfl rfl).1 hasJ) has]
    simp only [Drive.setHead, Cache.setHead, Function.update_self]
    exact fun _ _ => rfl
  · intro all
    have clean := all i ((has_setHead { s.cache.head i with data, dirt := true } rfl rfl).2 has)
    simp only [Drive.setHead, Cache.setHead, Function.update_self, Bool.true_eq_false, or_false] at clean
    refine ready.resolve_left ?_
    rw [clean]
    decide

/-- The bytes from `first` on are replaced by those of `new`, and the others are as before, where no inode is written. -/
def Puts (s s' : Drive) (first n : Nat) (new : Nat → Byte) : Prop :=
  ∀ a < 1024 * (s.length.toNat / 1024), Unwritten (BitVec.ofNat 64 (a / 1024)) s s' →
    (first ≤ a ∧ a < first + n → DeliversByte s' a (new (a - first))) ∧
      ∀ v, ¬ (first ≤ a ∧ a < first + n) → DeliversByte s a v → DeliversByte s' a v

theorem Puts.none (s : Drive) (first : Nat) (new : Nat → Byte) : Puts s s first 0 new := by
  intro a _ _
  refine ⟨?_, fun _ _ delivers => delivers⟩
  intro inside
  omega

theorem Puts.append {first second n m : Nat} {new : Nat → Byte} (one : Puts s s₁ first n new)
    (two : Puts s₁ s' second m fun d => new (n + d)) (later : m ≠ 0 → second = first + n) (before : Since s s₁)
    (after : Since s₁ s') : Puts s s' first (n + m) new := by
  intro a below unwritten
  have below₁ : a < 1024 * (s₁.length.toNat / 1024) := by
    rw [before.size.2]
    exact below
  rcases one a below (unwritten.first after) with ⟨inOne, outOne⟩
  rcases two a below₁ (unwritten.last before) with ⟨inTwo, outTwo⟩
  constructor
  · intro inside
    by_cases early : a < first + n
    · exact outTwo _ (by omega) (inOne ⟨inside.1, early⟩)
    · have some : m ≠ 0 := by omega
      have delivers := inTwo (by rw [later some]; omega)
      have same : n + (a - second) = a - first := by
        rw [later some]
        omega
      simp only [same] at delivers
      exact delivers
  · intro v outside delivers
    refine outTwo v ?_ (outOne v (by omega) delivers)
    intro inside
    have some : m ≠ 0 := by omega
    rw [later some] at inside
    omega

/-- A turn of the loop of `block_write`. -/
theorem turn_puts {fuel written : Nat} {buf : Nat → Byte} {result : Option Nat} (fit : Fit s) (sized : Sized s)
    (number : Numbers s block) (low : offset < 1024)
    (kept : min (1024 - offset) left = 1024 →
      FreshIn s block ∨ Same (s.disk (place (block.signExtend 64))) fun o => buf (written + o))
    (target : s.writeTarget fuel ramdisk block (min (1024 - offset) left) = .ok (result, s₁)) :
    ∃ i, result = some i ∧ ∀ s₂,
      (s₁.setHead i { s₁.cache.head i with
        data := storeUser (s₁.cache.head i).data offset (min (1024 - offset) left) buf written, dirt := true }).brelse i = .ok s₂ →
      Fit s₂ ∧ Since s s₂ ∧
        Puts s s₂ (1024 * block.toNat + offset) (min (1024 - offset) left) fun d => buf (written + d) := by
  rcases writeTarget_ready fit number.served kept target with ⟨moves, i, rfl, has, part, full⟩
  refine ⟨i, rfl, ?_⟩
  intro s₂ released
  rcases of_brelse released with ⟨counted, rfl⟩
  let data := storeUser (s₁.cache.head i).data offset (min (1024 - offset) left) buf written
  let dirtied := s₁.setHead i { s₁.cache.head i with data, dirt := true }
  let count := (dirtied.cache.head i).count - 1
  have fit₁ := fit.moves moves
  have counted : (s₁.cache.head i).count ≠ 0 := by
    simpa only [Drive.setHead, Cache.setHead, Function.update_self] using counted
  have mine := has counted
  have asked : RamdiskInt (s₁.cache.head i).dev (block.signExtend 64) := ⟨mine.2.1, isInt_signExtend block⟩
  have stored : Change RamdiskInt s₁ dirtied := .store i data _ (.inr ⟨_, asked⟩)
  have release : Change RamdiskInt dirtied (dirtied.setHead i { dirtied.cache.head i with count }) := .move (.count dirtied i count)
  have onward : Since s₁ (dirtied.setHead i { dirtied.cache.head i with count }) := ⟨⟨rfl, rfl⟩, fun _ => rfl, fun _ => id⟩
  refine ⟨fit₁.changes ((Relation.ReflTransGen.single stored).tail release), moves.since.trans onward, ?_⟩
  intro a below unwritten
  have waits := unwritten.first onward
  have kept {x : BitVec 64} {b : Block} (delivers : Delivers dirtied x b) :
      Delivers (dirtied.setHead i { dirtied.cache.head i with count }) x b :=
    delivers.setHead rfl rfl (fun has => delivers.buffer i has)
      (fun has => delivers.onDisk (fit₁.changes (.single stored)).linked has)
  have quotient := Nat.div_add_mod a 1024
  have remainder := Nat.mod_lt a (show 0 < 1024 by decide)
  by_cases here : a / 1024 = block.toNat
  · have word : BitVec.ofNat 64 (a / 1024) = block.signExtend 64 := by rw [here, number.word]
    have delivers : Delivers dirtied (block.signExtend 64) data := by
      refine .stored fit₁.linked mine ?_
      by_cases whole : min (1024 - offset) left = 1024
      · refine (full whole (by rw [← word]; exact waits)).imp_right ?_
        intro same o small
        have inside : offset ≤ o ∧ o < offset + min (1024 - offset) left := by omega
        have start : offset = 0 := by omega
        rw [same o small]
        change _ = storeUser _ offset _ buf written o
        rw [storeUser, if_pos inside, start, Nat.sub_zero]
      · exact .inl (part whole)
    refine ⟨?_, ?_⟩
    · intro inside
      refine ⟨data, ?_, ?_⟩
      · rw [word]
        exact kept delivers
      · change storeUser _ offset _ buf written _ = _
        rw [storeUser, if_pos (by omega)]
        congr 2
        omega
    · intro v outside before
      refine ⟨data, ?_, ?_⟩
      · rw [word]
        exact kept delivers
      · have value := (before.moves fit sized below waits moves).data (i := i) (by rw [word]; exact mine) (part (by omega))
        change storeUser _ offset _ buf written _ = _
        rw [storeUser, if_neg (by omega)]
        exact value
  · have apart : BitVec.ofNat 64 (a / 1024) ≠ block.signExtend 64 := by
      rw [number.word]
      intro same
      have numbers := sized.numbers
      have small := block.isLt
      have equal := congrArg BitVec.toNat same
      rw [BitVec.toNat_ofNat, BitVec.toNat_ofNat] at equal
      omega
    refine ⟨?_, ?_⟩
    · intro inside
      omega
    · intro v outside before
      rcases before.moves fit sized below waits moves with ⟨b, delivers, value⟩
      have other : ¬ s₁.Has i (BitVec.ofNat 64 (a / 1024)) := fun hasA => apart (hasA.2.2.symm.trans mine.2.2)
      exact ⟨b, kept (delivers.setHead rfl rfl (fun has => absurd has other) (fun has => absurd has other)), value⟩

/-- The loop of `block_write` puts the bytes of the buffer on the device. -/
theorem writeBlocks_puts {fuel turns written n : Nat} {buf : Nat → Byte} {failed : Bool} (fit : Fit s) (sized : Sized s)
    (low : offset < 1024) (within : Within s (1024 * block.toNat + offset) left) (enough : left ≤ turns)
    (kept : WholeKept fuel buf turns block offset written left s)
    (done : Drive.writeBlocks fuel ramdisk buf turns block offset written left s = .ok (n, failed, s')) :
    n = written + left ∧ failed = false ∧ Fit s' ∧ Since s s' ∧
      Puts s s' (1024 * block.toNat + offset) left fun d => buf (written + d) := by
  induction turns generalizing block offset left written s with
  | zero =>
    obtain rfl : left = 0 := by omega
    cases done
    exact ⟨rfl, rfl, fit, .refl _, .none _ _ _⟩
  | succ turns ih =>
    rw [Drive.writeBlocks] at done
    split at done
    · rename_i none
      subst none
      cases done
      exact ⟨rfl, rfl, fit, .refl _, .none _ _ _⟩
    · rename_i some
      have number := within.number sized some
      rcases of_bind done with ⟨⟨result, s₁⟩, target, rest⟩
      rcases turn_puts fit sized number low kept.1 target with ⟨i, rfl, turn⟩
      simp only at rest
      rcases of_bind rest with ⟨s₂, released, later⟩
      rcases turn s₂ released with ⟨fit₂, since₂, puts₂⟩
      have once : s.writeBlocks fuel ramdisk buf 1 block offset written left =
          .ok (written + min (1024 - offset) left, false, s₂) := by
        rw [Drive.writeBlocks, if_neg some, bind_ok target]
        exact bind_ok released
      rcases ih fit₂ (since₂.sized sized) (by decide) (since₂.within.2 (within.next sized some low)) (by omega)
        (kept.2 _ s₂ once) later with ⟨total, ok, fit', since', puts'⟩
      refine ⟨by omega, ok, fit', since₂.trans since', ?_⟩
      have assoc : (fun d => buf (written + min (1024 - offset) left + d)) =
          fun d => buf (written + (min (1024 - offset) left + d)) := by
        funext d
        rw [Nat.add_assoc]
      rw [assoc] at puts'
      have both := puts₂.append puts' (fun more => by rw [number.next]; omega) since₂ since'
      have length : min (1024 - offset) left + (left - min (1024 - offset) left) = left := by omega
      rwa [length] at both

theorem blockWrite_puts {fuel count : Nat} {pos : BitVec 64} {buf : Nat → Byte} {result : Int × BitVec 64 × Drive}
    (fit : Fit s) (sized : Sized s) (within : Within s pos.toNat count)
    (kept : WholeKept fuel buf count (Drive.blockOf pos) (pos.toNat % 1024) 0 count s)
    (written : s.blockWrite fuel ramdisk pos buf count = .ok result) :
    result.1 = (count : Int) ∧ Fit result.2.2 ∧ Since s result.2.2 ∧ Puts s result.2.2 pos.toNat count buf := by
  rcases of_bind written with ⟨⟨n, failed, s₁⟩, done, last⟩
  cases last
  by_cases none : count = 0
  · subst none
    cases done
    exact ⟨rfl, fit, .refl _, .none _ _ _⟩
  · have start := blockOf_within within sized
    rcases writeBlocks_puts fit sized (Nat.mod_lt _ (by decide)) (by rw [start]; exact within) (le_refl _) kept done with
      ⟨rfl, rfl, fit', since, puts⟩
    rw [start] at puts
    simp only [Nat.zero_add] at puts
    refine ⟨?_, fit', since, puts⟩
    simp [Drive.transferred]

end Writes

end K210Linux.Buffer
