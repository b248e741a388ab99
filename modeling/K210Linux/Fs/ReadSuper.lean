import K210Linux.Lib.Outcome
import K210Linux.Buffer.InodeTable

/-! `read_super` on any block 1, whatever `bread` returns. -/

namespace K210Linux.Fs

open Outcome
open K210Linux.Buffer (word)

def nrSuper : Nat := 8
def superMagic : BitVec 16 := 0x137F

/-- The buffer of a block of a device. -/
abbrev MapBuffer := BitVec 16 × Nat

structure DSuperBlock where
  ninodes : BitVec 16
  nzones : BitVec 16
  imapBlocks : BitVec 16
  zmapBlocks : BitVec 16
  firstdatazone : BitVec 16
  logZoneSize : BitVec 16
  maxSize : BitVec 32
  magic : BitVec 16

/-- The `struct d_super_block` at the start of a block. -/
def loadSuper (block : Block) : DSuperBlock where
  ninodes := word block 0
  nzones := word block 2
  imapBlocks := word block 4
  zmapBlocks := word block 6
  firstdatazone := word block 8
  logZoneSize := word block 10
  maxSize := word block 14 ++ word block 12
  magic := word block 16

/-- `struct super_block`; the inodes are entries of the inode table. -/
structure SuperSlot extends DSuperBlock where
  imap : Nat → Option MapBuffer
  zmap : Nat → Option MapBuffer
  dev : BitVec 16
  isup : Option Nat
  imount : Option Nat
  time : BitVec 32
  lock : Bool
  rdOnly : Bool
  dirt : Bool

/-- The table `super_block`, and the buffers with their `b_count` and `b_data`. -/
structure Supers where
  slot : Nat → SuperSlot
  count : MapBuffer → Nat
  data : MapBuffer → Block

inductive SuperFault where
  | outside
  | missing
  | panic (message : String)
  | asleep
deriving DecidableEq

/-- Which calls of `bread` succeed: the one for block 1, and those in the two loops. -/
structure Reads where
  superBlock : Bool
  imap : Nat → Bool
  zmap : Nat → Bool

namespace Supers

variable (t : Supers)

def setSlot (j : Nat) (s : SuperSlot) : Supers := { t with slot := Function.update t.slot j s }

def bread (succeeds : Bool) (bh : MapBuffer) : Option MapBuffer × Supers :=
  if succeeds then (some bh, { t with count := Function.update t.count bh (t.count bh + 1) }) else (none, t)

def brelse : Option MapBuffer → Except SuperFault Supers
  | none => .ok t
  | some bh =>
    if t.count bh = 0 then .error (.panic "Trying to free free buffer")
    else .ok { t with count := Function.update t.count bh (t.count bh - 1) }

/-- `b_data[0] |= 1` in a buffer that may be missing. -/
def markFirst : Option MapBuffer → Except SuperFault Supers
  | none => .error .missing
  | some bh => .ok { t with data := Function.update t.data bh (Function.update (t.data bh) 0 (t.data bh 0 ||| 1)) }

def getSuper (dev : BitVec 16) : Except SuperFault (Option Nat) :=
  if dev = 0 then .ok none
  else
    match (List.range nrSuper).find? fun j => (t.slot j).dev = dev with
    | none => .ok none
    | some j => if (t.slot j).lock then .error .asleep else .ok (some j)

end Supers

/-- A loop that reads a map: `left` blocks from entry `i` on, with the running block number. -/
def readMap (succeeds : Nat → Bool) (dev : BitVec 16) (i block : Nat) (map : Nat → Option MapBuffer) (t : Supers) :
    Nat → Except SuperFault (Nat × (Nat → Option MapBuffer) × Supers)
  | 0 => .ok (block, map, t)
  | left + 1 =>
    let (bh, t) := t.bread (succeeds i) (dev, block)
    if mapSlots ≤ i then .error .outside
    else
      let map := Function.update map i bh
      match bh with
      | some _ => readMap succeeds dev (i + 1) (block + 1) map t left
      | none => .ok (block, map, t)

/-- `brelse` of the entries of a map from `i` on. -/
def releaseMap (map : Nat → Option MapBuffer) (i : Nat) (t : Supers) : Nat → Except SuperFault Supers
  | 0 => .ok t
  | left + 1 => do
    let t ← t.brelse (map i)
    releaseMap map (i + 1) t left

/-- `read_super` behind the two loops, for the super block in slot `j`. -/
def finishMaps (block : Nat) (imap zmap : Nat → Option MapBuffer) (j : Nat) (s : SuperSlot) (t : Supers) :
    Except SuperFault (Option Nat × Supers) := do
  if block ≠ 2 + s.imapBlocks.toNat + s.zmapBlocks.toNat then
    let t ← releaseMap imap 0 t mapSlots
    let t ← releaseMap zmap 0 t mapSlots
    .ok (none, t.setSlot j { s with imap, zmap, dev := 0, lock := false })
  else
    let t ← t.markFirst (imap 0)
    let t ← t.markFirst (zmap 0)
    .ok (some j, t.setSlot j { s with imap, zmap, lock := false })

def fillMaps (reads : Reads) (dev : BitVec 16) (j : Nat) (s : SuperSlot) (t : Supers) :
    Except SuperFault (Option Nat × Supers) := do
  let (block, imap, t) ← readMap reads.imap dev 0 2 (fun _ => none) t s.imapBlocks.toNat
  let (block, zmap, t) ← readMap reads.zmap dev 0 block (fun _ => none) t s.zmapBlocks.toNat
  finishMaps block imap zmap j s t

/-- What `read_super` does with slot `j`, whose fields were set and which is locked. -/
def fillSuper (reads : Reads) (dev : BitVec 16) (j : Nat) (s : SuperSlot) (t : Supers) :
    Except SuperFault (Option Nat × Supers) := do
  let (bh, t) := t.bread reads.superBlock (dev, 1)
  match bh with
  | none => .ok (none, t.setSlot j { s with dev := 0, lock := false })
  | some bh =>
    let s := { s with toDSuperBlock := loadSuper (t.data bh) }
    let t ← t.brelse (some bh)
    if s.magic ≠ superMagic then .ok (none, t.setSlot j { s with dev := 0, lock := false })
    else fillMaps reads dev j s t

def readSuper (reads : Reads) (dev : BitVec 16) (t : Supers) : Except SuperFault (Option Nat × Supers) := do
  if dev = 0 then .ok (none, t)
  else
    match ← t.getSuper dev with
    | some j => .ok (some j, t)
    | none =>
      match (List.range nrSuper).find? fun j => (t.slot j).dev = 0 with
      | none => .ok (none, t)
      | some j =>
        let s := { t.slot j with dev := dev, isup := none, imount := none, time := 0, rdOnly := false, dirt := false }
        if s.lock then .error .asleep else fillSuper reads dev j { s with lock := true } t

/-- How many entries of a map from `i` on are a buffer. -/
def heldFrom (map : Nat → Option MapBuffer) (bh : MapBuffer) (i : Nat) : Nat → Nat
  | 0 => 0
  | left + 1 => (if map i = some bh then 1 else 0) + heldFrom map bh (i + 1) left

def held (map : Nat → Option MapBuffer) (bh : MapBuffer) : Nat := heldFrom map bh 0 mapSlots

section Maps

variable {map map' : Nat → Option MapBuffer} {bh : MapBuffer} {t t' : Supers} {dev : BitVec 16} {i block left : Nat}

theorem heldFrom_update {b : MapBuffer} {k : Nat} (free : map k = none) :
    heldFrom (Function.update map k (some b)) bh i left =
      heldFrom map bh i left + if i ≤ k ∧ k < i + left ∧ bh = b then 1 else 0 := by
  induction left generalizing i with
  | zero =>
    rw [heldFrom, heldFrom, if_neg (by omega)]
  | succ left ih =>
    rw [heldFrom, heldFrom, ih]
    by_cases here : i = k
    · subst here
      rw [Function.update_self, free, if_neg (show ¬ (i + 1 ≤ i ∧ _) by omega), if_neg (show ¬ none = some bh by simp)]
      by_cases same : bh = b
      · rw [if_pos (by rw [same]), if_pos ⟨le_refl i, by omega, same⟩]
        omega
      · rw [if_neg (fun eq => same (Option.some.inj eq).symm), if_neg (fun all => same all.2.2)]
        omega
    · rw [Function.update_of_ne here]
      have same : (i + 1 ≤ k ∧ k < i + 1 + left ∧ bh = b) ↔ (i ≤ k ∧ k < i + (left + 1) ∧ bh = b) := by
        constructor
        · exact fun all => ⟨by omega, by omega, all.2.2⟩
        · exact fun all => ⟨by omega, by omega, all.2.2⟩
      rw [if_congr same rfl rfl]
      omega

theorem held_none : held (fun _ => none) bh = 0 := rfl

/-- What the loop that reads a map leaves: `n` buffers of successive blocks. -/
structure MapRead (succeeds : Nat → Bool) (dev : BitVec 16) (i block left n : Nat) (map map' : Nat → Option MapBuffer)
    (t t' : Supers) : Prop where
  most : n ≤ left
  inside : i + n ≤ mapSlots
  succeeded : ∀ k, i ≤ k → k < i + n → succeeds k = true
  failed : n < left → i + n < mapSlots ∧ succeeds (i + n) = false
  entries : map' = fun k => if i ≤ k ∧ k < i + n then some (dev, block + (k - i)) else map k
  slot : t'.slot = t.slot
  data : t'.data = t.data
  count : ∀ bh, t'.count bh + held map bh = t.count bh + held map' bh

theorem readMap_spec {succeeds : Nat → Bool} (start : i ≤ mapSlots) (empty : ∀ k, i ≤ k → map k = none) :
    (readMap succeeds dev i block map t left = .error .outside ∧ mapSlots < i + left ∧
      ∀ k, i ≤ k → k < mapSlots → succeeds k = true) ∨
    ∃ n map' t', readMap succeeds dev i block map t left = .ok (block + n, map', t') ∧
      MapRead succeeds dev i block left n map map' t t' := by
  induction left generalizing i block map t with
  | zero =>
    refine .inr ⟨0, map, t, rfl, ⟨le_refl 0, start, by omega, by omega, ?_, rfl, rfl, fun _ => rfl⟩⟩
    funext k
    rw [if_neg (by omega)]
  | succ left ih =>
    unfold readMap
    by_cases full : mapSlots ≤ i
    · refine .inl ⟨if_pos full, by omega, by omega⟩
    · cases ok : succeeds i with
      | false =>
        have stop : Function.update map i none = map := by
          rw [Function.update_eq_self_iff]
          exact (empty i (le_refl i)).symm
        refine .inr ⟨0, map, t, ?_, ⟨Nat.zero_le _, start, by omega, fun _ => ⟨by omega, ok⟩, ?_, rfl, rfl, fun _ => rfl⟩⟩
        · simp only [Supers.bread]
          rw [if_neg full, if_neg (by decide)]
          simp only [stop, Nat.add_zero]
        · funext k
          rw [if_neg (by omega)]
      | true =>
        let t₁ : Supers := { t with count := Function.update t.count (dev, block) (t.count (dev, block) + 1) }
        let map₁ := Function.update map i (some (dev, block))
        have first : (if mapSlots ≤ i then .error .outside
            else readMap succeeds dev (i + 1) (block + 1) map₁ t₁ left) = readMap succeeds dev (i + 1) (block + 1) map₁ t₁ left :=
          if_neg full
        have empty₁ (k : Nat) (after : i + 1 ≤ k) : map₁ k = none := by
          simp only [map₁]
          rw [Function.update_of_ne (by omega)]
          exact empty k (by omega)
        simp only [Supers.bread, if_pos]
        rw [first]
        rcases ih (t := t₁) (show i + 1 ≤ mapSlots by omega) empty₁ with ⟨fault, many, all⟩ | ⟨n, map', t', done, read⟩
        · refine .inl ⟨fault, by omega, ?_⟩
          intro k from_i below
          by_cases here : k = i
          · rw [here]
            exact ok
          · exact all k (by omega) below
        · have most := read.most
          have inside := read.inside
          refine .inr ⟨n + 1, map', t', ?_, ⟨by omega, by omega, ?_, ?_, ?_, read.slot, read.data, ?_⟩⟩
          · rw [done, Nat.add_assoc, Nat.add_comm 1 n]
          · intro k from_i below
            by_cases here : k = i
            · rw [here]
              exact ok
            · exact read.succeeded k (by omega) (by omega)
          · intro less
            rw [← Nat.add_assoc, Nat.add_right_comm]
            exact read.failed (by omega)
          · rw [read.entries]
            funext k
            by_cases here : k = i
            · subst here
              rw [if_neg (by omega), if_pos (by omega), Nat.sub_self]
              exact Function.update_self ..
            · by_cases later : i + 1 ≤ k ∧ k < i + 1 + n
              · rw [if_pos later, if_pos (by omega), show block + 1 + (k - (i + 1)) = block + (k - i) by omega]
              · rw [if_neg later, if_neg (by omega)]
                exact Function.update_of_ne here ..
          · intro bh
            have counted := read.count bh
            have more : held map₁ bh = held map bh + if 0 ≤ i ∧ i < 0 + mapSlots ∧ bh = (dev, block) then 1 else 0 :=
              heldFrom_update (empty i (le_refl i))
            have taken : t₁.count bh = t.count bh + if bh = (dev, block) then 1 else 0 := by
              simp only [t₁, Function.update_apply]
              split
              · rename_i same
                rw [same]
              · rfl
            by_cases same : bh = (dev, block)
            · rw [if_pos ⟨Nat.zero_le i, by omega, same⟩] at more
              rw [if_pos same] at taken
              omega
            · rw [if_neg (fun all => same all.2.2)] at more
              rw [if_neg same] at taken
              omega

/-- The entries that are given back are no longer counted. -/
theorem releaseMap_spec {base : MapBuffer → Nat} (counted : ∀ bh, t.count bh = base bh + heldFrom map bh i left) :
    ∃ t', releaseMap map i t left = .ok t' ∧ t'.slot = t.slot ∧ t'.data = t.data ∧ t'.count = base := by
  induction left generalizing i t with
  | zero => exact ⟨t, rfl, rfl, rfl, funext counted⟩
  | succ left ih =>
    unfold releaseMap
    cases entry : map i with
    | none =>
      have rest (bh : MapBuffer) : t.count bh = base bh + heldFrom map bh (i + 1) left := by
        have here := counted bh
        rw [heldFrom, entry, if_neg (by simp)] at here
        omega
      rcases ih rest with ⟨t', done, same⟩
      exact ⟨t', done, same⟩
    | some b =>
      let t₁ : Supers := { t with count := Function.update t.count b (t.count b - 1) }
      have used : t.count b ≠ 0 := by
        have here := counted b
        rw [heldFrom, entry, if_pos rfl] at here
        omega
      have released : t.brelse (some b) = .ok t₁ := if_neg used
      have rest (bh : MapBuffer) : t₁.count bh = base bh + heldFrom map bh (i + 1) left := by
        have here := counted bh
        rw [heldFrom, entry] at here
        simp only [t₁, Function.update_apply]
        by_cases same : bh = b
        · rw [if_pos same]
          rw [same, if_pos rfl] at here
          rw [same]
          omega
        · rw [if_neg same]
          rw [if_neg (fun eq => same (Option.some.inj eq).symm)] at here
          omega
      rcases ih rest with ⟨t', done, same⟩
      rw [released]
      exact ⟨t', done, same⟩

end Maps

/-- `read_super` returned `NULL`. -/
structure Refused (t t' : Supers) : Prop where
  dev : ∀ i, (t'.slot i).dev = (t.slot i).dev
  unlocked : ∀ i, i < nrSuper → (t'.slot i).lock = false
  others : ∀ i, (t.slot i).dev ≠ 0 → t'.slot i = t.slot i
  count : t'.count = t.count

/-- The maps have the buffers of the blocks from block 2 on, and nothing else. -/
structure HoldsMaps (s : SuperSlot) : Prop where
  small : s.imapBlocks.toNat ≤ mapSlots ∧ s.zmapBlocks.toNat ≤ mapSlots
  imap : ∀ i, i < mapSlots → s.imap i = if i < s.imapBlocks.toNat then some (s.dev, 2 + i) else none
  zmap : ∀ i, i < mapSlots →
    s.zmap i = if i < s.zmapBlocks.toNat then some (s.dev, 2 + s.imapBlocks.toNat + i) else none

/-- `read_super` returned slot `j`, which it filled unless the device had it before. -/
structure Granted (t t' : Supers) (dev : BitVec 16) (j : Nat) : Prop where
  inside : j < nrSuper
  dev : (t'.slot j).dev = dev
  unlocked : (t'.slot j).lock = false
  maps : HoldsMaps (t'.slot j)
  others : ∀ i, i ≠ j → t'.slot i = t.slot i
  before : (t.slot j).dev ≠ 0 → t' = t
  count : (t.slot j).dev = 0 → ∀ bh, t'.count bh = t.count bh + held (t'.slot j).imap bh + held (t'.slot j).zmap bh

def ReadSafely (t : Supers) (dev : BitVec 16) : Except SuperFault (Option Nat × Supers) → Prop
  | .error _ => False
  | .ok (none, t') => Refused t t'
  | .ok (some j, t') => Granted t t' dev j

/-- What the table keeps between the calls. -/
def SupersKept (t : Supers) : Prop :=
  ∀ i, i < nrSuper → (t.slot i).lock = false ∧ ((t.slot i).dev ≠ 0 → HoldsMaps (t.slot i))

/-- The maps fit in the arrays as far as they are read, and both have a block when all of them is read. -/
structure MapsFit (reads : Reads) (d : DSuperBlock) : Prop where
  imap : ¬ (mapSlots < d.imapBlocks.toNat ∧ ∀ k, k < mapSlots → reads.imap k = true)
  zmap : ¬ (mapSlots < d.zmapBlocks.toNat ∧ ∀ k, k < mapSlots → reads.zmap k = true)
  first : (∀ k, k < d.imapBlocks.toNat → reads.imap k = true) → (∀ k, k < d.zmapBlocks.toNat → reads.zmap k = true) →
    d.imapBlocks ≠ 0 ∧ d.zmapBlocks ≠ 0

section Fill

variable {t t' : Supers} {dev : BitVec 16} {reads : Reads} {j : Nat} {s : SuperSlot}

/-- The slot is given up. -/
theorem Refused.setSlot (kept : SupersKept t) (free : (t.slot j).dev = 0) (unchanged : t'.slot = t.slot)
    (count : t'.count = t.count) (s : SuperSlot) : Refused t (t'.setSlot j { s with dev := 0, lock := false }) where
  dev i := by
    simp only [Supers.setSlot, Function.update_apply, unchanged]
    split
    · rename_i here
      rw [here, free]
    · rfl
  unlocked i inside := by
    simp only [Supers.setSlot, Function.update_apply, unchanged]
    split
    · rfl
    · exact (kept i inside).1
  others i used := by
    have other : i ≠ j := fun here => used (here ▸ free)
    simp only [Supers.setSlot, Function.update_of_ne other, unchanged]
  count := count

theorem bread_brelse (t : Supers) (bh : MapBuffer) :
    ({ t with count := Function.update t.count bh (t.count bh + 1) } : Supers).brelse (some bh) = .ok t := by
  unfold Supers.brelse
  simp only [Function.update_self, Function.update_idem, Nat.add_sub_cancel, Function.update_eq_self]
  rw [if_neg (by omega)]

/-- The two loops either store outside of their arrays, or leave `n` and `m` buffers. -/
theorem fillMaps_cases (reads : Reads) (dev : BitVec 16) (j : Nat) (s : SuperSlot) (t : Supers) :
    (fillMaps reads dev j s t = .error .outside ∧ ¬ MapsFit reads s.toDSuperBlock) ∨
    ∃ n m imap zmap t₁ t₂, MapRead reads.imap dev 0 2 s.imapBlocks.toNat n (fun _ => none) imap t t₁ ∧
      MapRead reads.zmap dev 0 (2 + n) s.zmapBlocks.toNat m (fun _ => none) zmap t₁ t₂ ∧
      fillMaps reads dev j s t = finishMaps (2 + n + m) imap zmap j s t₂ := by
  have none₀ (k : Nat) (_ : 0 ≤ k) : (fun _ => none : Nat → Option MapBuffer) k = none := rfl
  unfold fillMaps
  rcases readMap_spec (Nat.zero_le mapSlots) none₀ with ⟨fault, many, all⟩ | ⟨n, imap, t₁, first, read₁⟩
  · rw [fault]
    exact .inl ⟨rfl, fun fit => fit.imap ⟨by omega, fun k below => all k (Nat.zero_le k) below⟩⟩
  rw [first]
  simp only [bind, Except.bind]
  rcases readMap_spec (Nat.zero_le mapSlots) none₀ with ⟨fault, many, all⟩ | ⟨m, zmap, t₂, second, read₂⟩
  · rw [fault]
    exact .inl ⟨rfl, fun fit => fit.zmap ⟨by omega, fun k below => all k (Nat.zero_le k) below⟩⟩
  rw [second]
  exact .inr ⟨n, m, imap, zmap, t₁, t₂, read₁, read₂, rfl⟩

/-- A map that was read without a store outside its array, up to a failure or to its end. -/
theorem MapRead.fits {succeeds : Nat → Bool} {block left n : Nat} {map : Nat → Option MapBuffer} {t t' : Supers}
    (read : MapRead succeeds dev 0 block left n (fun _ => none) map t t') :
    ¬ (mapSlots < left ∧ ∀ k, k < mapSlots → succeeds k = true) := by
  rintro ⟨many, all⟩
  have inside := read.inside
  have failed := read.failed (by omega)
  rw [all _ failed.1] at failed
  cases failed.2

/-- Everything was read. -/
theorem MapRead.all {succeeds : Nat → Bool} {block left n : Nat} {map : Nat → Option MapBuffer} {t t' : Supers}
    (read : MapRead succeeds dev 0 block left n (fun _ => none) map t t') :
    n = left ↔ ∀ k, k < left → succeeds k = true := by
  constructor
  · rintro rfl k below
    exact read.succeeded k (Nat.zero_le k) (by omega)
  · intro all
    have most := read.most
    by_contra fewer
    have failed := read.failed (by omega)
    rw [all _ (by omega)] at failed
    cases failed.2

/-- With all blocks read the first entries are there if the maps have blocks at all. -/
theorem MapRead.entry {succeeds : Nat → Bool} {block left n : Nat} {map : Nat → Option MapBuffer} {t t' : Supers}
    (read : MapRead succeeds dev 0 block left n (fun _ => none) map t t') (k : Nat) :
    map k = if k < n then some (dev, block + k) else none := by
  rw [read.entries]
  simp only [Nat.zero_le, true_and, Nat.zero_add, Nat.sub_zero]

/-- Both maps were read to their ends. -/
theorem finishMaps_complete {imap zmap : Nat → Option MapBuffer} {t₁ t₂ : Supers}
    (inside : j < nrSuper) (free : (t.slot j).dev = 0) (mine : s.dev = dev)
    (read₁ : MapRead reads.imap dev 0 2 s.imapBlocks.toNat s.imapBlocks.toNat (fun _ => none) imap t t₁)
    (read₂ : MapRead reads.zmap dev 0 (2 + s.imapBlocks.toNat) s.zmapBlocks.toNat s.zmapBlocks.toNat (fun _ => none) zmap t₁ t₂)
    (slots : t₂.slot = t.slot) (counted : ∀ bh, t₂.count bh = t.count bh + held imap bh + held zmap bh) :
    ReadSafely t dev (finishMaps (2 + s.imapBlocks.toNat + s.zmapBlocks.toNat) imap zmap j s t₂) ↔
      s.imapBlocks ≠ 0 ∧ s.zmapBlocks ≠ 0 := by
  have positive {n : BitVec 16} (some : n ≠ 0) : 0 < n.toNat :=
    Nat.pos_of_ne_zero fun zero => some (BitVec.eq_of_toNat_eq zero)
  have zero {n : BitVec 16} (none : n = 0) : ¬ 0 < n.toNat := by
    rw [none]
    decide
  unfold finishMaps
  rw [if_neg (not_not.2 rfl), read₁.entry 0, read₂.entry 0]
  by_cases none₁ : s.imapBlocks = 0
  · rw [if_neg (zero none₁)]
    exact ⟨False.elim, fun both => both.1 none₁⟩
  rw [if_pos (positive none₁)]
  by_cases none₂ : s.zmapBlocks = 0
  · rw [if_neg (zero none₂)]
    exact ⟨False.elim, fun both => both.2 none₂⟩
  rw [if_pos (positive none₂)]
  refine ⟨fun _ => ⟨none₁, none₂⟩, fun _ => ?_⟩
  have fit : s.imapBlocks.toNat ≤ mapSlots ∧ s.zmapBlocks.toNat ≤ mapSlots := by
    have inside₁ := read₁.inside
    have inside₂ := read₂.inside
    omega
  have here (data : MapBuffer → Block) : (({ t₂ with data := data } : Supers).setSlot j
      { s with imap, zmap, lock := false }).slot j = { s with imap, zmap, lock := false } := Function.update_self ..
  have granted (data : MapBuffer → Block) :
      Granted t (({ t₂ with data := data } : Supers).setSlot j { s with imap, zmap, lock := false }) dev j := by
    refine ⟨inside, ?_, ?_, ⟨?_, ?_, ?_⟩, ?_, ?_, ?_⟩
    · rw [here]
      exact mine
    · rw [here]
    · rw [here]
      exact fit
    · intro i _
      rw [here, mine]
      exact read₁.entry i
    · intro i _
      rw [here, mine]
      exact read₂.entry i
    · intro i other
      simp only [Supers.setSlot, Function.update_of_ne other, slots]
    · exact fun used => absurd free used
    · intro _ bh
      rw [here]
      exact counted bh
  exact granted _

theorem fillMaps_safe_iff (reads : Reads) (kept : SupersKept t) (inside : j < nrSuper) (free : (t.slot j).dev = 0)
    (mine : s.dev = dev) :
    ReadSafely t dev (fillMaps reads dev j s t) ↔ MapsFit reads s.toDSuperBlock := by
  rcases fillMaps_cases reads dev j s t with ⟨fault, misfit⟩ | ⟨n, m, imap, zmap, t₁, t₂, read₁, read₂, rest⟩
  · rw [fault]
    exact ⟨False.elim, fun fit => misfit fit⟩
  rw [rest]
  have most₁ := read₁.most
  have most₂ := read₂.most
  have slots : t₂.slot = t.slot := read₂.slot.trans read₁.slot
  have counted (bh : MapBuffer) : t₂.count bh = t.count bh + held imap bh + held zmap bh := by
    have one := read₁.count bh
    have two := read₂.count bh
    rw [held_none] at one two
    omega
  by_cases complete : 2 + n + m = 2 + s.imapBlocks.toNat + s.zmapBlocks.toNat
  · have all₁ : n = s.imapBlocks.toNat := by omega
    have all₂ : m = s.zmapBlocks.toNat := by omega
    subst all₁ all₂
    rw [finishMaps_complete inside free mine read₁ read₂ slots counted]
    exact ⟨fun some => ⟨read₁.fits, read₂.fits, fun _ _ => some⟩, fun fit => fit.first (read₁.all.1 rfl) (read₂.all.1 rfl)⟩
  · have notAll : ¬ ((∀ k, k < s.imapBlocks.toNat → reads.imap k = true) ∧ ∀ k, k < s.zmapBlocks.toNat → reads.zmap k = true) := by
      rw [← read₁.all, ← read₂.all]
      omega
    have fit : MapsFit reads s.toDSuperBlock :=
      ⟨read₁.fits, read₂.fits, fun all₁ all₂ => absurd ⟨all₁, all₂⟩ notAll⟩
    have first (bh : MapBuffer) : t₂.count bh = t.count bh + held zmap bh + heldFrom imap bh 0 mapSlots := by
      rw [counted bh, held]
      omega
    rcases releaseMap_spec first with ⟨t₃, done₃, slots₃, -, count₃⟩
    rcases releaseMap_spec (fun bh => congrFun count₃ bh) with ⟨t₄, done₄, slots₄, -, count₄⟩
    unfold finishMaps
    rw [if_pos complete, bind_ok done₃, bind_ok done₄]
    have refused := Refused.setSlot kept free (slots₄.trans (slots₃.trans slots)) count₄ { s with imap, zmap }
    exact ⟨fun _ => fit, fun _ => refused⟩

theorem fillSuper_safe_iff (reads : Reads) (kept : SupersKept t) (inside : j < nrSuper) (free : (t.slot j).dev = 0) (mine : s.dev = dev) :
    ReadSafely t dev (fillSuper reads dev j s t) ↔
      (reads.superBlock = true → (loadSuper (t.data (dev, 1))).magic = superMagic → MapsFit reads (loadSuper (t.data (dev, 1)))) := by
  unfold fillSuper
  cases read : reads.superBlock with
  | false =>
    have refused := Refused.setSlot kept free rfl rfl s
    exact ⟨fun _ => nofun, fun _ => refused⟩
  | true =>
    simp only [Supers.bread, if_true]
    rw [bind_ok (bread_brelse t (dev, 1))]
    by_cases magic : (loadSuper (t.data (dev, 1))).magic = superMagic
    · rw [if_neg (not_not.2 magic)]
      let loaded : SuperSlot := { s with toDSuperBlock := loadSuper (t.data (dev, 1)) }
      have maps := fillMaps_safe_iff reads kept inside free (show loaded.dev = dev from mine)
      exact ⟨fun safe _ _ => maps.1 safe, fun fit => maps.2 (fit trivial magic)⟩
    · rw [if_pos magic]
      have refused := Refused.setSlot kept free rfl rfl { s with toDSuperBlock := loadSuper (t.data (dev, 1)) }
      exact ⟨fun _ _ right => absurd right magic, fun _ => refused⟩

end Fill

/-- Block 1 of a device that needs a slot. -/
def SuperFits (reads : Reads) (dev : BitVec 16) (t : Supers) : Prop :=
  dev ≠ 0 → (∀ j, j < nrSuper → (t.slot j).dev ≠ dev) → (∃ j, j < nrSuper ∧ (t.slot j).dev = 0) →
    reads.superBlock = true → (loadSuper (t.data (dev, 1))).magic = superMagic → MapsFit reads (loadSuper (t.data (dev, 1)))

theorem find_slot {p : Nat → Prop} [DecidablePred p] :
    match (List.range nrSuper).find? fun j => decide (p j) with
    | some j => j < nrSuper ∧ p j
    | none => ∀ j, j < nrSuper → ¬ p j := by
  split
  · rename_i j found
    have here := List.find?_some found
    simp only [decide_eq_true_eq] at here
    exact ⟨List.mem_range.1 (List.mem_of_find?_eq_some found), here⟩
  · rename_i missing
    intro j inside here
    have other := List.find?_eq_none.1 missing j (List.mem_range.2 inside)
    exact other (decide_eq_true here)

/-- `read_super` is safe exactly when the maps of a new device fit in the arrays as far as they can be read, and each of
    them has a first block when all blocks can be read. -/
theorem read_super_safe_iff {t : Supers} (kept : SupersKept t) (reads : Reads) (dev : BitVec 16) :
    ReadSafely t dev (readSuper reads dev t) ↔ SuperFits reads dev t := by
  have unchanged : Refused t t := ⟨fun _ => rfl, fun i inside => (kept i inside).1, fun _ _ => rfl, rfl⟩
  unfold readSuper
  by_cases device : dev = 0
  · rw [if_pos device]
    exact ⟨fun _ other => absurd device other, fun _ => unchanged⟩
  rw [if_neg device]
  unfold Supers.getSuper
  rw [if_neg device]
  have known := find_slot (p := fun j => (t.slot j).dev = dev)
  cases found : (List.range nrSuper).find? fun j => (t.slot j).dev = dev with
  | some j =>
    rw [found] at known
    simp only [(kept j known.1).1]
    have used : (t.slot j).dev ≠ 0 := known.2 ▸ device
    have granted : Granted t t dev j :=
      ⟨known.1, known.2, (kept j known.1).1, (kept j known.1).2 used, fun _ _ => rfl, fun _ => rfl, fun free => absurd free used⟩
    exact ⟨fun _ _ fresh => absurd known.2 (fresh j known.1), fun _ => granted⟩
  | none =>
    rw [found] at known
    have room := find_slot (p := fun j => (t.slot j).dev = 0)
    cases free : (List.range nrSuper).find? fun j => (t.slot j).dev = 0 with
    | none =>
      rw [free] at room
      refine ⟨?_, fun _ => unchanged⟩
      rintro _ _ _ ⟨j, inside, here⟩
      exact absurd here (room j inside)
    | some j =>
      rw [free] at room
      simp only [bind, Except.bind, (kept j room.1).1]
      rw [if_neg (by decide)]
      let claimed : SuperSlot := { t.slot j with
        dev := dev, isup := none, imount := none, time := 0, rdOnly := false, dirt := false, lock := true }
      have filled := fillSuper_safe_iff reads kept room.1 room.2 (show claimed.dev = dev from rfl)
      exact ⟨fun safe _ _ _ => filled.1 safe, fun fit => filled.2 (fit device known ⟨j, room⟩)⟩

/-- An empty table, over a device whose super block gives the sizes of the two maps. -/
def newSupers (imapBlocks zmapBlocks : Byte) : Supers where
  slot _ := ⟨⟨0, 0, 0, 0, 0, 0, 0, 0⟩, fun _ => none, fun _ => none, 0, none, none, 0, false, false, false⟩
  count _ := 0
  data _ k := if k = 4 then imapBlocks else if k = 6 then zmapBlocks else if k = 16 then 0x7F else if k = 17 then 0x13 else 0

theorem newSupers_kept (imapBlocks zmapBlocks : Byte) : SupersKept (newSupers imapBlocks zmapBlocks) :=
  fun _ _ => ⟨rfl, fun used => absurd rfl used⟩

/-- Everything can be read. -/
def allReads : Reads := ⟨true, fun _ => true, fun _ => true⟩

theorem small_maps_are_read : ReadSafely (newSupers 3 2) 0x0201 (readSuper allReads 0x0201 (newSupers 3 2)) := by
  rw [read_super_safe_iff (newSupers_kept 3 2)]
  intro _ _ _ _ _
  refine ⟨?_, ?_, ?_⟩
  · exact fun many => absurd many.1 (by decide)
  · exact fun many => absurd many.1 (by decide)
  · exact fun _ _ => by decide

/-- A ninth block of the inode map is stored behind `s_imap`, and an empty map is used through a null pointer. -/
theorem large_or_empty_map_faults :
    ¬ ReadSafely (newSupers 9 1) 0x0201 (readSuper allReads 0x0201 (newSupers 9 1)) ∧
    ¬ ReadSafely (newSupers 0 1) 0x0201 (readSuper allReads 0x0201 (newSupers 0 1)) := by
  have nine : readSuper allReads 0x0201 (newSupers 9 1) = .error .outside := by rfl
  have none : readSuper allReads 0x0201 (newSupers 0 1) = .error .missing := by rfl
  rw [nine, none]
  exact ⟨id, id⟩

end K210Linux.Fs
