import K210Linux.Fs.Zones
import K210Linux.Buffer.Moves

namespace K210Linux.Buffer

open Outcome
open K210Linux.Fs (Block Byte storeUser)

namespace Drive

/-- The loop of `breada` over the further blocks, which ends at a negative number. -/
def readAhead (fuel : Nat) (dev : BitVec 16) : List (BitVec 32) → Drive → Except Halt Drive
  | [], s => .ok s
  | first :: rest, s =>
    if first.msb then .ok s
    else do
      let (tmp, s) ← s.getblk fuel dev (first.signExtend 64)
      let s := if (s.cache.head tmp).uptodate then s else s.llRwBlock false tmp
      let s := s.setHead tmp { s.cache.head tmp with count := (s.cache.head tmp).count - 1 }
      readAhead fuel dev rest s

/-- `breada`, with its further arguments up to the last one, -1. -/
def breada (fuel : Nat) (dev : BitVec 16) (first : BitVec 32) (ahead : List (BitVec 32)) (s : Drive) :
    Except Halt (Option Nat × Drive) := do
  let (bh, s) ← s.getblk fuel dev (first.signExtend 64)
  let s := if (s.cache.head bh).uptodate then s else s.llRwBlock false bh
  let s ← readAhead fuel dev ahead s
  if (s.cache.head bh).uptodate then .ok (some bh, s)
  else
    let s ← s.brelse bh
    .ok (none, s)

/-- The buffer that a turn of the loop of `block_write` works on. -/
def writeTarget (fuel : Nat) (dev : BitVec 16) (block : BitVec 32) (chars : Nat) (s : Drive) :
    Except Halt (Option Nat × Drive) :=
  if chars = 1024 then do
    let (bh, s) ← s.getblk fuel dev (block.signExtend 64)
    .ok (some bh, s)
  else s.breada fuel dev block [block + 1, block + 2]

/-- The loop of `block_write`, with the bytes from `buf` on, of which `written` are done and `left` are not. It returns
    `written` and whether a block could not be read. -/
def writeBlocks (fuel : Nat) (dev : BitVec 16) (buf : Nat → Byte) :
    Nat → BitVec 32 → Nat → Nat → Nat → Drive → Except Halt (Nat × Bool × Drive)
  | 0, _, _, written, _, s => .ok (written, false, s)
  | turns + 1, block, offset, written, left, s =>
    if left = 0 then .ok (written, false, s)
    else do
      let chars := min (1024 - offset) left
      let (bh, s) ← writeTarget fuel dev block chars s
      match bh with
      | none => .ok (written, true, s)
      | some i =>
        let head := s.cache.head i
        let s := s.setHead i { head with data := storeUser head.data offset chars buf written, dirt := true }
        let s ← s.brelse i
        writeBlocks fuel dev buf turns (block + 1) 0 (written + chars) (left - chars) s

/-- The loop of `block_read`, with the bytes for the user. -/
def readBlocks (fuel : Nat) (dev : BitVec 16) :
    Nat → BitVec 32 → Nat → Nat → Drive → Except Halt (List Byte × Bool × Drive)
  | 0, _, _, _, s => .ok ([], false, s)
  | turns + 1, block, offset, left, s =>
    if left = 0 then .ok ([], false, s)
    else do
      let chars := min (1024 - offset) left
      let (bh, s) ← s.breada fuel dev block [block + 1, block + 2]
      match bh with
      | none => .ok ([], true, s)
      | some i =>
        let bytes := (List.range chars).map fun k => (s.cache.head i).data (offset + k)
        let s ← s.brelse i
        let (rest, failed, s) ← readBlocks fuel dev turns (block + 1) 0 (left - chars) s
        .ok (bytes ++ rest, failed, s)

/-- What `block_read` and `block_write` return for `n` bytes. -/
def transferred (n : Nat) (failed : Bool) : Int := if failed ∧ n = 0 then -5 else n

/-- The `int` that `*pos >> BLOCK_SIZE_BITS` is stored in. -/
def blockOf (pos : BitVec 64) : BitVec 32 := (pos >>> 10).setWidth 32

/-- `block_write`, with the returned value and the new position. Every turn of the loop writes a byte, so there are no
    more than `count`. -/
def blockWrite (fuel : Nat) (dev : BitVec 16) (pos : BitVec 64) (buf : Nat → Byte) (count : Nat) (s : Drive) :
    Except Halt (Int × BitVec 64 × Drive) := do
  let (written, failed, s) ← writeBlocks fuel dev buf count (blockOf pos) (pos.toNat % 1024) 0 count s
  .ok (transferred written failed, pos + BitVec.ofNat 64 written, s)

/-- `block_read`, with the bytes for the user, the returned value and the new position. -/
def blockRead (fuel : Nat) (dev : BitVec 16) (pos : BitVec 64) (count : Nat) (s : Drive) :
    Except Halt (List Byte × Int × BitVec 64 × Drive) := do
  let (bytes, failed, s) ← readBlocks fuel dev count (blockOf pos) (pos.toNat % 1024) count s
  .ok (bytes, transferred bytes.length failed, pos + BitVec.ofNat 64 bytes.length, s)

end Drive

variable {s s' : Drive} {i : Nat} {dev : BitVec 16} {asks : BitVec 16 → BitVec 64 → Prop}

/-- Read ahead only goes to blocks with a number that is not negative. -/
def AsksAhead (asks : BitVec 16 → BitVec 64 → Prop) (dev : BitVec 16) : Prop :=
  ∀ n : BitVec 32, n.msb = false → asks dev (n.signExtend 64)

theorem load_moves {inodes : Prop} (s : Drive) (i : Nat) :
    Moves asks inodes s (if (s.cache.head i).uptodate then s else s.llRwBlock false i) := by
  split
  · exact .refl
  · exact .single (.request s false i)

theorem readAhead_moves {fuel : Nat} {ahead : List (BitVec 32)} (asked : AsksAhead asks dev) (linked : Linked s)
    (done : Drive.readAhead fuel dev ahead s = .ok s') : Moves asks True s s' := by
  induction ahead generalizing s with
  | nil =>
    cases done
    exact .refl
  | cons first rest ih =>
    rw [Drive.readAhead] at done
    split at done
    · cases done
      exact .refl
    · rename_i positive
      rcases of_bind done with ⟨⟨tmp, s₁⟩, got, later⟩
      rcases getblk_moves (syncDev_moves fuel) linked (.inl (asked first (by simpa using positive))) got with ⟨one, -⟩
      have loaded := one.trans (load_moves s₁ tmp)
      have counted (count : BitVec 8) := loaded.tail (.count _ tmp count)
      exact (counted _).trans (ih (linked.moves (counted _)) later)

/-- `breada` returns a buffer that is up to date, if any. -/
theorem breada_moves {fuel : Nat} {first : BitVec 32} {ahead : List (BitVec 32)} {result : Option Nat}
    (askedAhead : AsksAhead asks dev) (asked : asks dev (first.signExtend 64)) (linked : Linked s)
    (read : s.breada fuel dev first ahead = .ok (result, s')) :
    Moves asks True s s' ∧ ∀ i, result = some i → i < s'.cache.nrBuffers ∧ (s'.cache.head i).uptodate = true := by
  rcases of_bind read with ⟨⟨bh, s₁⟩, got, rest⟩
  rcases of_bind rest with ⟨s₂, done, last⟩
  rcases getblk_moves (syncDev_moves fuel) linked (.inl asked) got with ⟨one, inside, -⟩
  have two := one.trans (load_moves s₁ bh)
  have ahead := readAhead_moves askedAhead (linked.moves two) done
  have three := two.trans ahead
  split at last
  · rename_i fresh
    cases last
    refine ⟨three, ?_⟩
    rintro j ⟨⟩
    have later : Moves asks True s₁ s' := (load_moves s₁ bh).trans ahead
    rw [later.nr]
    exact ⟨inside, fresh⟩
  · rcases of_bind last with ⟨s₃, released, final⟩
    cases final
    exact ⟨three.trans (brelse_moves released), nofun⟩

/-- Whether a transfer of `left` bytes from `offset` on covers a whole block. -/
def coversBlock (offset left : Nat) : Prop := (1024 - offset) % 1024 + 1024 ≤ left

instance (offset left : Nat) : Decidable (coversBlock offset left) := inferInstanceAs (Decidable (_ ≤ _))

/-- The blocks of a transfer of `left` bytes from `offset` on are asked for. -/
def AsksBlocks (asks : BitVec 16 → BitVec 64 → Prop) (dev : BitVec 16) (block : BitVec 32) (offset left : Nat) : Prop :=
  ∀ j, 1024 * j < offset + left → asks dev ((block + BitVec.ofNat 32 j).signExtend 64)

theorem AsksBlocks.first {block : BitVec 32} {offset left : Nat} (asked : AsksBlocks asks dev block offset left)
    (some : left ≠ 0) : asks dev (block.signExtend 64) := by
  have here := asked 0 (by omega)
  rwa [BitVec.add_zero] at here

theorem AsksBlocks.next {block : BitVec 32} {offset left : Nat} (asked : AsksBlocks asks dev block offset left)
    (small : offset < 1024) : AsksBlocks asks dev (block + 1) 0 (left - min (1024 - offset) left) := by
  intro j below
  have within : 1024 * (j + 1) < offset + left := by omega
  have same : block + 1 + BitVec.ofNat 32 j = block + BitVec.ofNat 32 (j + 1) := by
    rw [BitVec.ofNat_add, BitVec.add_comm (BitVec.ofNat 32 j), ← BitVec.add_assoc]
    rfl
  rw [same]
  exact asked (j + 1) within

/-- What the moves and the stores of `block_write` keep. -/
theorem writeBlocks_keeps {P : Drive → Prop} {whole : Prop} {fuel : Nat} {buf : Nat → Byte} {turns : Nat}
    {block : BitVec 32} {offset written left n : Nat} {failed : Bool} (asks : BitVec 16 → BitVec 64 → Prop)
    (kept : ∀ a b, P a → Moves asks True a b → P b) (linked : ∀ a, P a → Linked a)
    (stored : ∀ a i data, P a → i < a.cache.nrBuffers →
      (a.cache.head i).uptodate = true ∨ (whole ∧ (a.cache.head i).dev = dev) →
      P (a.setHead i { a.cache.head i with data := data, dirt := true }))
    (askedAhead : AsksAhead asks dev) (asked : AsksBlocks asks dev block offset left) (small : offset < 1024)
    (covers : coversBlock offset left → whole) (first : P s)
    (done : Drive.writeBlocks fuel dev buf turns block offset written left s = .ok (n, failed, s')) : P s' := by
  induction turns generalizing block offset written left s with
  | zero =>
    cases done
    exact first
  | succ turns ih =>
    rw [Drive.writeBlocks] at done
    split at done
    · cases done
      exact first
    · rename_i some
      rcases of_bind done with ⟨⟨bh, s₁⟩, target, rest⟩
      have got : P s₁ ∧ ∀ i, bh = .some i → i < s₁.cache.nrBuffers ∧
          ((s₁.cache.head i).uptodate = true ∨ (whole ∧ (s₁.cache.head i).dev = dev)) := by
        unfold Drive.writeTarget at target
        split at target
        · rename_i full
          rcases of_bind target with ⟨⟨j, s₂⟩, got, last⟩
          cases last
          rcases getblk_moves (syncDev_moves fuel) (linked s first) (.inl (asked.first some)) got with
            ⟨moves, inside, here, -⟩
          refine ⟨kept _ _ first moves, ?_⟩
          rintro i ⟨⟩
          refine ⟨inside, .inr ⟨covers ?_, here⟩⟩
          unfold coversBlock
          omega
        · rcases breada_moves askedAhead (asked.first some) (linked s first) target with ⟨moves, result⟩
          refine ⟨kept _ _ first moves, ?_⟩
          intro i same
          exact ⟨(result i same).1, .inl (result i same).2⟩
      cases bh with
      | none =>
        cases rest
        exact got.1
      | some i =>
        rcases of_bind rest with ⟨s₂, released, later⟩
        rcases got.2 i rfl with ⟨inside, reason⟩
        have dirty (data : Block) := stored s₁ i data got.1 inside reason
        have covers' : coversBlock 0 (left - min (1024 - offset) left) → whole := by
          intro more
          apply covers
          unfold coversBlock at more ⊢
          omega
        exact ih (asked.next small) (by decide) covers' (kept _ _ (dirty _) (brelse_moves released)) later

theorem readBlocks_moves {fuel turns : Nat} {block : BitVec 32} {offset left : Nat} {bytes : List Byte} {failed : Bool}
    (askedAhead : AsksAhead asks dev) (asked : AsksBlocks asks dev block offset left) (small : offset < 1024)
    (linked : Linked s) (done : Drive.readBlocks fuel dev turns block offset left s = .ok (bytes, failed, s')) :
    Moves asks True s s' := by
  induction turns generalizing block offset left s bytes failed with
  | zero =>
    cases done
    exact .refl
  | succ turns ih =>
    rw [Drive.readBlocks] at done
    split at done
    · cases done
      exact .refl
    · rename_i some
      rcases of_bind done with ⟨⟨bh, s₁⟩, read, rest⟩
      have moves := (breada_moves askedAhead (asked.first some) linked read).1
      cases bh with
      | none =>
        cases rest
        exact moves
      | some i =>
        rcases of_bind rest with ⟨s₂, released, later⟩
        rcases of_bind later with ⟨⟨bytes₁, failed₁, s₃⟩, again, last⟩
        cases last
        have two := moves.trans (brelse_moves released)
        exact two.trans (ih (asked.next small) (by decide) (linked.moves two) again)

end K210Linux.Buffer
