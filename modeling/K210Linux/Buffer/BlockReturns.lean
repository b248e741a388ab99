import K210Linux.Buffer.CalmCalls

/-! What `block_read` gets of a `block_write`, in every state and over enough clean buffers. -/

namespace K210Linux.Buffer

open Outcome K210Linux.Lib
open K210Linux.Fs (Block Byte storeUser)

variable {s s₁ s' : Drive} {i n m : Nat} {x : BitVec 64} {asked : BitVec 64 → Prop} {block : BitVec 32} {offset left : Nat}

/-- No count of users at its limit, and two clean unused buffers more than `n`. -/
structure Ample (s : Drive) (n : Nat) : Prop where
  linked : Linked s
  unlocked : ∀ i, (s.cache.head i).lock = false
  counts : ∀ i, (s.cache.head i).count ≠ 255
  sized : Sized s
  idle : n + 2 ≤ s.idle.card

theorem Calm.since (calm : Calm asked s s') : Since s s' := by
  rcases calm.drive with ⟨cache, rfl⟩
  exact ⟨⟨rfl, rfl⟩, fun _ => rfl, fun _ => id⟩

theorem Calm.unwritten (calm : Calm asked s s') (x : BitVec 64) : Unwritten x s s' := by
  intro k _
  rw [calm.geometry.2.1]
  exact id

theorem Ample.calm (ample : Ample s n) (calm : Calm asked s s') (room : m + 2 ≤ s'.idle.card) : Ample s' m := by
  refine ⟨calm.linked, ?_, ?_, calm.since.sized ample.sized, room⟩
  · intro i
    rw [calm.lock]
    exact ample.unlocked i
  · intro i
    rw [calm.count]
    exact ample.counts i

theorem Ample.visited (ample : Ample s 0) (visited : Visited asked s s') : Ample s' 0 :=
  ample.calm visited.toCalm (ample.idle.trans (Finset.card_le_card visited.idle))

theorem brelse_used (used : (s.cache.head i).count ≠ 0) :
    s.brelse i = .ok (s.setHead i { s.cache.head i with count := (s.cache.head i).count - 1 }) := by
  rw [Drive.brelse, if_neg used]

theorem Loaded.used (loaded : Loaded asked s s₁ i x) (ample : Ample s n) : (s₁.cache.head i).count ≠ 0 := by
  rw [loaded.one]
  intro wrapped
  apply ample.counts i
  bv_omega

section Reads

theorem readBlocks_returns (ample : Ample s 0) (low : offset < 1024) (within : Within s (1024 * block.toNat + offset) left)
    (fuel turns : Nat) : ∃ result, s.readBlocks (fuel + 2) ramdisk turns block offset left = .ok result ∧
      Visited (fun _ => True) s result.2.2 := by
  induction turns generalizing block offset left s with
  | zero => exact ⟨_, rfl, .refl _ ample.linked⟩
  | succ turns ih =>
    rw [Drive.readBlocks]
    split
    · exact ⟨_, rfl, .refl _ ample.linked⟩
    · rename_i some
      have number := within.number ample.sized some
      have loads := breada_loaded (fun _ => True) [block + 1, block + 2] ample.linked ample.unlocked
        ample.counts ample.idle number.served (fun _ _ => trivial) fuel
      rcases loads with ⟨i, s₁, read, loaded, -, clean, same, -⟩
      rw [bind_ok read]
      simp only
      rw [bind_ok (brelse_used (loaded.used ample))]
      have visited := loaded.visited trivial clean same
      rcases ih (ample.visited visited) (by decide) (visited.since.within.2 (within.next ample.sized some low)) with
        ⟨result, again, visited'⟩
      rw [bind_ok again]
      exact ⟨_, rfl, visited.trans visited'⟩

theorem blockRead_returns {pos : BitVec 64} {count : Nat} (ample : Ample s 0) (within : Within s pos.toNat count) (fuel : Nat) :
    ∃ result, s.blockRead (fuel + 2) ramdisk pos count = .ok result ∧ Visited (fun _ => True) s result.2.2.2 := by
  have start := blockOf_within within ample.sized
  rcases readBlocks_returns ample (Nat.mod_lt pos.toNat (by decide)) (by rw [start]; exact within) fuel count with
    ⟨result, done, visited⟩
  unfold Drive.blockRead
  rw [bind_ok done]
  exact ⟨_, rfl, visited⟩

theorem readAll_returns {ranges : List (BitVec 64 × Nat)} (ample : Ample s 0)
    (within : ∀ range ∈ ranges, Within s range.1.toNat range.2) (fuel : Nat) :
    ∃ results s', s.readAll (fuel + 2) ranges = .ok (results, s') ∧ Visited (fun _ => True) s s' := by
  induction ranges generalizing s with
  | nil => exact ⟨_, _, rfl, .refl _ ample.linked⟩
  | cons range ranges ih =>
    rcases blockRead_returns ample (within range (List.mem_cons_self ..)) fuel with ⟨result, one, visited⟩
    rcases ih (ample.visited visited) (fun other member =>
      visited.since.within.2 (within other (List.mem_cons_of_mem _ member))) with ⟨results, s', rest, visited'⟩
    rw [Drive.readAll, bind_ok one]
    simp only
    rw [bind_ok rest]
    exact ⟨_, _, rfl, visited.trans visited'⟩

theorem readBlocks_none (fuel turns : Nat) (block : BitVec 32) (offset : Nat) (s : Drive) :
    s.readBlocks fuel ramdisk turns block offset 0 = .ok ([], false, s) := by
  cases turns with
  | zero => rfl
  | succ turns => rw [Drive.readBlocks, if_pos rfl]

/-- A block in a buffer that is not up to date is read from the ramdisk. -/
theorem readBlocks_stale (ample : Ample s 0) (within : Within s (1024 * block.toNat + 0) 1024)
    (has : s.Has i (block.signExtend 64)) (stale : (s.cache.head i).uptodate = false) (fuel turns : Nat) :
    ∃ s', s.readBlocks (fuel + 2) ramdisk (turns + 1) block 0 1024 =
      .ok ((List.range 1024).map (s.disk (place (block.signExtend 64))), false, s') := by
  have number := within.number ample.sized (by decide)
  have loads := breada_loaded (fun _ => True) [block + 1, block + 2] ample.linked ample.unlocked
    ample.counts ample.idle number.served (fun _ _ => trivial) fuel
  rcases loads with ⟨j, s₁, read, loaded, -, -, -, data⟩
  have data := data fun hasJ => ample.linked.same has hasJ ▸ stale
  rw [Drive.readBlocks, if_neg (by decide), bind_ok read]
  simp only
  rw [bind_ok (brelse_used (loaded.used ample)), Nat.sub_zero, Nat.min_self, Nat.sub_self, readBlocks_none]
  simp only [bind, Except.bind, List.append_nil, data, Nat.zero_add]
  exact ⟨_, rfl⟩

end Reads

section Writes

theorem writeTarget_loaded (asked : BitVec 64 → Prop) (ample : Ample s n) (served : s.serves (block.signExtend 64) = true)
    (named : ∀ n ∈ [block + 1, block + 2], asked (n.signExtend 64)) (fuel chars : Nat) :
    ∃ i s₁, s.writeTarget (fuel + 2) ramdisk block chars = .ok (some i, s₁) ∧ Loaded asked s s₁ i (block.signExtend 64) ∧
      (chars = 1024 → ¬ FreshIn s block → (s₁.cache.head i).uptodate = false) := by
  have room := ample.idle
  unfold Drive.writeTarget
  split
  · have some : s.idle.Nonempty := Finset.card_pos.1 (by omega)
    rcases getblk_loaded ample.linked ample.unlocked (.inr some) asked fuel with ⟨i, s₁, got, loaded, cached, taken⟩
    rw [bind_ok got]
    refine ⟨i, s₁, rfl, loaded, ?_⟩
    intro _ missing
    by_cases has : s.Has i (block.signExtend 64)
    · rw [cached has]
      by_contra fresh
      exact missing ⟨i, has.1, has, by simpa using fresh⟩
    · exact (taken has).1
  · rename_i part
    have loads := breada_loaded asked _ ample.linked ample.unlocked ample.counts (by omega) served named fuel
    rcases loads with ⟨i, s₁, read, loaded, -⟩
    exact ⟨i, s₁, read, loaded, fun full => absurd full part⟩

/-- The buffer is given back dirty. -/
theorem Loaded.stored (loaded : Loaded asked s s₁ i x) (ample : Ample s n) (named : asked x) (data : Block) :
    ∃ s₂, (s₁.setHead i { s₁.cache.head i with data, dirt := true }).brelse i = .ok s₂ ∧ Calm asked s s₂ ∧
      s.idle.card ≤ s₂.idle.card + 1 ∧ s₂.Has i x ∧ (s₂.cache.head i).dirt = true ∧
      (s₂.cache.head i).uptodate = (s₁.cache.head i).uptodate := by
  have dirtied : Loaded asked s (s₁.setHead i { s₁.cache.head i with data, dirt := true }) i x :=
    loaded.setHead rfl rfl rfl rfl
  refine ⟨_, brelse_used (dirtied.used ample), dirtied.calm named, ?_, ?_, ?_, ?_⟩
  · have erased := Finset.pred_card_le_card_erase (s := s.idle) (a := i)
    refine Nat.le_add_of_sub_le (erased.trans (Finset.card_le_card ?_))
    intro j member
    have other := (Finset.mem_erase.1 member).1
    have before := mem_idle.1 (loaded.idle member)
    rw [mem_idle]
    simpa only [Drive.setHead, Cache.setHead, Function.update_of_ne other] using before
  · refine (has_setHead _ ?_ ?_).2 dirtied.here <;> rfl
  · simp only [Drive.setHead, Cache.setHead, Function.update_self]
  · simp only [Drive.setHead, Cache.setHead, Function.update_self]

theorem wholeKept_none (fuel : Nat) (buf : Nat → Byte) (turns : Nat) (block : BitVec 32) (offset written : Nat) (s : Drive) :
    WholeKept fuel buf turns block offset written 0 s := by
  induction turns generalizing block offset written s with
  | zero => trivial
  | succ turns ih =>
    refine ⟨?_, ?_⟩
    · rw [Nat.min_zero]
      intro full
      cases full
    · intro _ s' _
      rw [Nat.min_zero]
      exact ih _ _ _ s'

/-- Block `number` of the range is in a buffer that is not up to date, and the ramdisk does not hold its new bytes. -/
def Lost (s : Drive) (first : Nat) (new : Nat → Byte) (number : Nat) : Prop :=
  (∃ i, s.Has i (BitVec.ofNat 64 number) ∧ (s.cache.head i).uptodate = false) ∧
    ∃ o < 1024, s.disk (place (BitVec.ofNat 64 number)) o ≠ new (1024 * number + o - first)

/-- The loop of `block_write` returns while there are clean buffers for its blocks, and loses a whole block that is not up
    to date. -/
theorem writeBlocks_returns {turns : Nat} (ample : Ample s ((offset + left + 1023) / 1024)) (low : offset < 1024)
    (within : Within s (1024 * block.toNat + offset) left) (enough : left ≤ turns) (buf : Nat → Byte) (written fuel : Nat) :
    ∃ s', s.writeBlocks (fuel + 2) ramdisk buf turns block offset written left = .ok (written + left, false, s') ∧
      Calm (fun y => block.toNat ≤ y.toNat) s s' ∧ s.idle.card ≤ s'.idle.card + (offset + left + 1023) / 1024 ∧
      (¬ WholeKept (fuel + 2) buf turns block offset written left s →
        ∃ number, 1024 * block.toNat + offset ≤ 1024 * number ∧
          1024 * number + 1024 ≤ 1024 * block.toNat + offset + left ∧
          Lost s' (1024 * block.toNat + offset) (fun d => buf (written + d)) number) := by
  induction turns generalizing block offset left written s with
  | zero =>
    obtain rfl : left = 0 := by omega
    exact ⟨s, rfl, .refl _ ample.linked, by omega, fun lost => absurd trivial lost⟩
  | succ turns ih =>
    by_cases none : left = 0
    · subst none
      refine ⟨s, ?_, .refl _ ample.linked, by omega, fun lost => absurd (wholeKept_none ..) lost⟩
      rw [Drive.writeBlocks, if_pos rfl]
      rfl
    have number := within.number ample.sized none
    have atBlock : (block.signExtend 64).toNat = block.toNat := by
      have small := block.isLt
      rw [number.word, BitVec.toNat_ofNat]
      omega
    have later (n : BitVec 32) (above : block.toNat ≤ n.toNat) : block.toNat ≤ (n.signExtend 64).toNat := by
      rw [BitVec.toNat_signExtend, BitVec.toNat_setWidth]
      omega
    have below : block.toNat + 2 < 2 ^ 32 := by
      have numbers := ample.sized.numbers
      rw [Within] at within
      omega
    have named : ∀ n ∈ [block + 1, block + 2], block.toNat ≤ (n.signExtend 64).toNat := by
      intro n member
      refine later n ?_
      simp only [List.mem_cons, List.not_mem_nil, or_false] at member
      rcases member with rfl | rfl <;> rw [BitVec.toNat_add]
      · change _ ≤ (block.toNat + 1) % 2 ^ 32
        omega
      · change _ ≤ (block.toNat + 2) % 2 ^ 32
        omega
    have target := writeTarget_loaded (fun y => block.toNat ≤ y.toNat) ample number.served named fuel
      (min (1024 - offset) left)
    rcases target with ⟨i, s₁, got, loaded, stale⟩
    rcases loaded.stored ample (by rw [atBlock]) (storeUser (s₁.cache.head i).data offset (min (1024 - offset) left) buf written)
      with ⟨s₂, released, calm, room, has, dirt, same⟩
    have turn (more : Nat) : s.writeBlocks (fuel + 2) ramdisk buf (more + 1) block offset written left =
        s₂.writeBlocks (fuel + 2) ramdisk buf more (block + 1) 0 (written + min (1024 - offset) left)
          (left - min (1024 - offset) left) := by
      rw [Drive.writeBlocks, if_neg none, bind_ok got]
      exact bind_ok released
    have fewer : (0 + (left - min (1024 - offset) left) + 1023) / 1024 + 1 ≤ (offset + left + 1023) / 1024 := by omega
    have ample₂ : Ample s₂ ((0 + (left - min (1024 - offset) left) + 1023) / 1024) :=
      ample.calm calm (by have idle := ample.idle; omega)
    rcases ih ample₂ (by decide) (calm.since.within.2 (within.next ample.sized none low)) (by omega)
      (written + min (1024 - offset) left) with ⟨s', rest, calm', room', lost⟩
    have onward : Calm (fun y => block.toNat ≤ y.toNat) s₂ s' := calm'.mono fun y above => by
      rw [number.next] at above
      omega
    have total : written + min (1024 - offset) left + (left - min (1024 - offset) left) = written + left := by omega
    refine ⟨s', ?_, calm.trans onward, by omega, ?_⟩
    · rw [turn turns, rest, total]
    · intro unkept
      by_cases first : min (1024 - offset) left = 1024 →
          FreshIn s block ∨ Same (s.disk (place (block.signExtend 64))) fun o => buf (written + o)
      · -- the loss is in the rest of the range
        have unkept' : ¬ WholeKept (fuel + 2) buf turns (block + 1) 0 (written + min (1024 - offset) left)
            (left - min (1024 - offset) left) s₂ := by
          intro kept
          refine unkept ⟨first, ?_⟩
          intro n t once
          rw [turn 0] at once
          cases once
          exact kept
        rcases lost unkept' with ⟨X, above, inside, stays, o, small, differs⟩
        rw [number.next] at above inside differs
        refine ⟨X, by omega, by omega, stays, o, small, ?_⟩
        have index : written + min (1024 - offset) left + (1024 * X + o - (1024 * (block.toNat + 1) + 0)) =
            written + (1024 * X + o - (1024 * block.toNat + offset)) := by omega
        simp only [index] at differs
        exact differs
      · simp only [Classical.not_imp, not_or] at first
        rcases first with ⟨full, missing, differ⟩
        have start : offset = 0 := by omega
        have kept := calm'.kept i dirt (by rw [has.2.2, atBlock, number.next]; omega)
        refine ⟨block.toNat, by omega, by omega, ⟨i, ?_, ?_⟩, ?_⟩
        · rw [← number.word, Drive.Has, kept, calm'.nr]
          exact has
        · rw [kept, same]
          exact stale full missing
        · unfold Same at differ
          simp only [not_forall] at differ
          rcases differ with ⟨o, small, differ⟩
          refine ⟨o, small, ?_⟩
          rw [onward.geometry.1, calm.geometry.1, ← number.word, start]
          have index : 1024 * block.toNat + o - (1024 * block.toNat + 0) = o := by omega
          rw [index]
          exact differ

theorem blockWrite_returns {pos : BitVec 64} {count : Nat} (ample : Ample s ((pos.toNat % 1024 + count + 1023) / 1024))
    (within : Within s pos.toNat count) (buf : Nat → Byte) (fuel : Nat) :
    ∃ pos' s', s.blockWrite (fuel + 2) ramdisk pos buf count = .ok ((count : Int), pos', s') ∧ Calm (fun _ => True) s s' ∧
      2 ≤ s'.idle.card ∧
      (¬ WholeKept (fuel + 2) buf count (Drive.blockOf pos) (pos.toNat % 1024) 0 count s →
        ∃ number, pos.toNat ≤ 1024 * number ∧ 1024 * number + 1024 ≤ pos.toNat + count ∧ Lost s' pos.toNat buf number) := by
  have start := blockOf_within within ample.sized
  rcases writeBlocks_returns ample (Nat.mod_lt pos.toNat (by decide)) (by rw [start]; exact within) (le_refl count) buf 0 fuel with
    ⟨s', done, calm, room, lost⟩
  simp only [start, Nat.zero_add] at done lost
  have left : 2 ≤ s'.idle.card := by
    have idle := ample.idle
    omega
  refine ⟨pos + BitVec.ofNat 64 count, s', ?_, calm.mono fun _ _ => trivial, left, lost⟩
  unfold Drive.blockWrite
  rw [bind_ok done]
  simp only [Drive.transferred, Bool.false_eq_true, false_and, if_false]

end Writes

instance (range : BitVec 64 × Nat) (a : Nat) : Decidable (InRange range a) := inferInstanceAs (Decidable (_ ∧ _))

/-- The bytes with those of the range replaced by the ones of `buf`. -/
def replaced (byte : Nat → Byte) (pos : BitVec 64) (count : Nat) (buf : Nat → Byte) (a : Nat) : Byte :=
  if InRange (pos, count) a then buf (a - pos.toNat) else byte a

/-- However the reads are split, those that return in `t` get the bytes of `buf` in the range, and elsewhere the bytes that
    requests get in `s`, where no inode was written to their blocks in between. -/
def ReadsBack (s t : Drive) (pos : BitVec 64) (count : Nat) (buf : Nat → Byte) : Prop :=
  ∀ fuel ranges results u byte, (∀ range ∈ ranges, Within s range.1.toNat range.2) →
    t.readAll fuel ranges = .ok (results, u) →
    (∀ range ∈ ranges, ∀ a, InRange range a → Unwritten (BitVec.ofNat 64 (a / 1024)) s u ∧
      (InRange (pos, count) a ∨ DeliversByte s a (byte a))) →
    results = ranges.map fun range => (window (replaced byte pos count buf) range.1.toNat range.2, (range.2 : Int))

theorem Puts.readsBack {t : Drive} {pos : BitVec 64} {count : Nat} {buf : Nat → Byte} (fit : Fit t) (sized : Sized s)
    (since : Since s t) (puts : Puts s t pos.toNat count buf) : ReadsBack s t pos count buf := by
  intro fuel ranges results u byte within read known
  have onward := (readAll_moves fit read).since
  refine readAll_delivers fit (since.sized sized) (fun range member => since.within.2 (within range member)) ?_ ?_ read
  · exact fun range member a inside => (known range member a inside).1.last since
  · intro range member a inside
    have bound := within range member
    rw [Within] at bound
    rcases known range member a inside with ⟨unwritten, source⟩
    rcases puts a (by have := inside.2; omega) (unwritten.first onward) with ⟨new, old⟩
    unfold replaced
    split
    · rename_i here
      exact new here
    · rename_i outside
      exact old _ outside (source.resolve_left outside)

/-- The written range reads back, if the calls of `block_read` return. -/
theorem lost_reads {t : Drive} {pos : BitVec 64} {count number : Nat} {buf : Nat → Byte} (ample : Ample t 0)
    (within : Within t pos.toNat count) (first : pos.toNat ≤ 1024 * number) (last : 1024 * number + 1024 ≤ pos.toNat + count)
    (lost : Lost t pos.toNat buf number) (fuel : Nat) :
    ∃ ranges : List (BitVec 64 × Nat),
      (∀ range ∈ ranges, pos.toNat ≤ range.1.toNat ∧ range.1.toNat + range.2 ≤ pos.toNat + count) ∧
      ¬ ∃ u, t.readAll (fuel + 2) ranges =
        .ok (ranges.map fun range => (window (fun a => buf (a - pos.toNat)) range.1.toNat range.2, (range.2 : Int)), u) := by
  have numbers := ample.sized.numbers
  rw [Within] at within
  let start : BitVec 64 := BitVec.ofNat 64 (1024 * number)
  have atStart : start.toNat = 1024 * number := by
    rw [BitVec.toNat_ofNat]
    omega
  have inside : Within t start.toNat 1024 := by
    rw [Within, atStart]
    omega
  have block := blockOf_within inside ample.sized
  have aligned : start.toNat % 1024 = 0 := by
    rw [atStart]
    omega
  have atBlock : (Drive.blockOf start).toNat = number := by omega
  rcases lost with ⟨⟨i, has, stale⟩, o, small, differs⟩
  have inBlock : Within t (1024 * (Drive.blockOf start).toNat + 0) 1024 := by
    rw [aligned] at block
    rw [block]
    exact inside
  have word := (inBlock.number ample.sized (by decide)).word
  rw [atBlock] at word
  rcases readBlocks_stale ample inBlock (by rw [word]; exact has) stale fuel 1023 with ⟨s', read⟩
  refine ⟨[(start, 1024)], ?_, ?_⟩
  · intro range member
    obtain rfl := List.mem_singleton.1 member
    rw [atStart]
    exact ⟨first, last⟩
  · rintro ⟨u, right⟩
    have equal : (List.range 1024).map (t.disk (place ((Drive.blockOf start).signExtend 64))) =
        window (fun a => buf (a - pos.toNat)) start.toNat 1024 := by
      generalize (List.range 1024).map (t.disk (place ((Drive.blockOf start).signExtend 64))) = found at read ⊢
      generalize window (fun a => buf (a - pos.toNat)) = written at right ⊢
      rw [Drive.readAll, Drive.blockRead, aligned, read] at right
      exact (Prod.mk.inj (List.cons.inj (Prod.mk.inj (Except.ok.inj right)).1).1).1
    have atByte := congrArg (fun bytes => bytes[o]?) equal
    simp only [window, List.getElem?_map, List.getElem?_range small, Option.map_some, Option.some.injEq] at atByte
    rw [word, atStart] at atByte
    exact differs atByte

/-- A transfer that covers no whole block does not come to one. -/
theorem wholeKept_of_part {fuel turns : Nat} {buf : Nat → Byte} {written : Nat} (low : offset < 1024)
    (parts : ¬ coversBlock offset left) : WholeKept fuel buf turns block offset written left s := by
  unfold coversBlock at parts
  induction turns generalizing block offset written left s with
  | zero => trivial
  | succ turns ih =>
    refine ⟨?_, ?_⟩
    · intro full
      omega
    · intro n s' _
      exact ih (by decide) (by omega)

/-- The system with six empty buffers over a ramdisk of eight blocks. -/
def sixBuffers : System := .fresh 6 (fun _ => 0) (fun _ _ => 0) (fun b _ => BitVec.ofNat 8 b) 0x8007D000 8192 1 1

end K210Linux.Buffer
