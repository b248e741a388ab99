import Mathlib

/-! Bytes, little-endian words, strings that end in a zero, and vectors of pointers to them, in a flat memory. -/

namespace CStrings

abbrev Octet := BitVec 8
abbrev Address := BitVec 64
abbrev Space := Address → Octet

/-- The address `n` bytes further. -/
def offset (a : Address) (n : Nat) : Address := a + BitVec.ofNat 64 n

@[simp] theorem offset_zero (a : Address) : offset a 0 = a := BitVec.add_zero a

theorem offset_offset (a : Address) (i j : Nat) : offset (offset a i) j = offset a (i + j) := by
  rw [offset, offset, offset, BitVec.add_assoc, ← BitVec.ofNat_add]

theorem offset_succ (a : Address) (i : Nat) : offset a (i + 1) = offset (a + 1) i := by
  rw [show a + 1 = offset a 1 from rfl, offset_offset, Nat.add_comm]

theorem toNat_offset {a : Address} {n : Nat} (room : a.toNat + n < 2 ^ 64) : (offset a n).toNat = a.toNat + n := by
  rw [offset, BitVec.toNat_add, BitVec.toNat_ofNat]
  omega

theorem offset_sub (a : Address) {n : Nat} (small : n < 2 ^ 64) : (offset a n - a).toNat = n := by
  rw [offset, BitVec.toNat_sub, BitVec.toNat_add, BitVec.toNat_ofNat]
  omega

section Bytes

/-- The bytes from `a` on are those of the list. -/
def BytesAt (mem : Space) (a : Address) (bytes : List Octet) : Prop :=
  ∀ i (inside : i < bytes.length), mem (offset a i) = bytes[i]

variable {mem mem' : Space} {a : Address}

theorem bytesAt_nil : BytesAt mem a [] := fun _ inside => absurd inside (Nat.not_lt_zero _)

theorem bytesAt_cons {b : Octet} {bytes : List Octet} :
    BytesAt mem a (b :: bytes) ↔ mem a = b ∧ BytesAt mem (a + 1) bytes := by
  constructor
  · intro all
    refine ⟨?_, fun i inside => ?_⟩
    · have first := all 0 (Nat.succ_pos _)
      rwa [offset_zero] at first
    · have next := all (i + 1) (Nat.succ_lt_succ inside)
      rwa [offset_succ] at next
  · rintro ⟨first, rest⟩ i inside
    cases i with
    | zero => rw [offset_zero, first, List.getElem_cons_zero]
    | succ i =>
      rw [offset_succ, rest i (Nat.lt_of_succ_lt_succ inside)]
      rfl

theorem bytesAt_append {first second : List Octet} :
    BytesAt mem a (first ++ second) ↔ BytesAt mem a first ∧ BytesAt mem (offset a first.length) second := by
  induction first generalizing a with
  | nil => simp [bytesAt_nil]
  | cons b first ih =>
    rw [List.cons_append, bytesAt_cons, bytesAt_cons, ih, and_assoc, List.length_cons, offset_succ]

theorem bytesAt_replicate {b c : Octet} {n : Nat} (same : ∀ i, i < n → mem (offset a i) = b)
    (last : mem (offset a n) = c) : BytesAt mem a (List.replicate n b ++ [c]) := by
  apply bytesAt_append.mpr
  rw [List.length_replicate]
  constructor
  · intro i inside
    rw [List.length_replicate] at inside
    rw [same i inside, List.getElem_replicate]
  · exact bytesAt_cons.mpr ⟨last, bytesAt_nil⟩

theorem BytesAt.congr {bytes : List Octet} (at_a : BytesAt mem a bytes)
    (same : ∀ i, i < bytes.length → mem' (offset a i) = mem (offset a i)) : BytesAt mem' a bytes :=
  fun i inside => (same i inside).trans (at_a i inside)

end Bytes

section Words

def load64 (mem : Space) (a : Address) : Address :=
  mem (offset a 7) ++ mem (offset a 6) ++ mem (offset a 5) ++ mem (offset a 4) ++
    mem (offset a 3) ++ mem (offset a 2) ++ mem (offset a 1) ++ mem a

def byteOf (v : Address) (i : Nat) : Octet := (v >>> (8 * i)).setWidth 8

def store64 (mem : Space) (a v : Address) : Space := fun x =>
  if (x - a).toNat < 8 then byteOf v (x - a).toNat else mem x

variable {mem mem' : Space} {a v : Address}

theorem bytes_of_word (v : Address) : (byteOf v 7 ++ byteOf v 6 ++ byteOf v 5 ++ byteOf v 4 ++
    byteOf v 3 ++ byteOf v 2 ++ byteOf v 1 ++ byteOf v 0 : Address) = v := by
  apply BitVec.eq_of_getLsbD_eq
  intro i _
  simp only [BitVec.getLsbD_append, byteOf, BitVec.getLsbD_setWidth, BitVec.getLsbD_ushiftRight]
  grind

theorem load64_store64 : load64 (store64 mem a v) a = v := by
  have byte : ∀ i, i < 8 → store64 mem a v (offset a i) = byteOf v i := by
    intro i small
    rw [store64, offset_sub a (by omega), if_pos small]
  have first := byte 0 (by decide)
  rw [offset_zero] at first
  rw [load64, byte 7 (by decide), byte 6 (by decide), byte 5 (by decide), byte 4 (by decide), byte 3 (by decide),
    byte 2 (by decide), byte 1 (by decide), first]
  exact bytes_of_word v

theorem load64_congr (same : ∀ i, i < 8 → mem' (offset a i) = mem (offset a i)) : load64 mem' a = load64 mem a := by
  have first := same 0 (by decide)
  rw [offset_zero] at first
  rw [load64, load64, same 7 (by decide), same 6 (by decide), same 5 (by decide), same 4 (by decide),
    same 3 (by decide), same 2 (by decide), same 1 (by decide), first]

theorem store64_other {x : Address} (room : a.toNat + 8 ≤ 2 ^ 64) (outside : x.toNat < a.toNat ∨ a.toNat + 8 ≤ x.toNat) :
    store64 mem a v x = mem x := by
  rw [store64, if_neg]
  rw [BitVec.toNat_sub]
  have bound := x.isLt
  omega

end Words

section Strings

/-- The bytes from `a` up to a zero, `none` when the first `fuel` of them have none. -/
def readString (mem : Space) (a : Address) : Nat → Option (List Octet)
  | 0 => none
  | fuel + 1 => if mem a = 0 then some [] else (readString mem (a + 1) fuel).map (mem a :: ·)

variable {mem : Space} {a : Address} {s : List Octet} {fuel : Nat}

theorem readString_eq (bytes : BytesAt mem a (s ++ [0])) (nonzero : ∀ b ∈ s, b ≠ 0) (short : s.length < fuel) :
    readString mem a fuel = some s := by
  induction s generalizing a fuel with
  | nil =>
    obtain ⟨fuel, rfl⟩ := Nat.exists_eq_succ_of_ne_zero (by omega : fuel ≠ 0)
    rw [readString, if_pos (bytesAt_cons.mp bytes).1]
  | cons b s ih =>
    obtain ⟨fuel, rfl⟩ := Nat.exists_eq_succ_of_ne_zero (by omega : fuel ≠ 0)
    obtain ⟨first, rest⟩ := bytesAt_cons.mp bytes
    have some := nonzero b List.mem_cons_self
    rw [List.length_cons] at short
    rw [readString, first, if_neg some, ih rest (fun c member => nonzero c (List.mem_cons_of_mem _ member)) (by omega)]
    rfl

/-- A string that was read is there, with its zero. -/
theorem readString_bytes (read : readString mem a fuel = some s) : BytesAt mem a (s ++ [0]) := by
  induction fuel generalizing a s with
  | zero => cases read
  | succ fuel ih =>
    rw [readString] at read
    split at read
    · rename_i zero
      cases read
      exact bytesAt_cons.mpr ⟨zero, bytesAt_nil⟩
    · obtain ⟨rest, found, rfl⟩ := Option.map_eq_some_iff.mp read
      exact bytesAt_cons.mpr ⟨rfl, ih found⟩

/-- The bytes of some strings, each with its zero. -/
def terminated (strs : List (List Octet)) : List Octet := strs.flatMap (· ++ [0])

@[simp] theorem terminated_nil : terminated [] = [] := rfl

theorem terminated_cons (s : List Octet) (strs : List (List Octet)) :
    terminated (s :: strs) = (s ++ [0]) ++ terminated strs := List.flatMap_cons

theorem terminated_append (first second : List (List Octet)) :
    terminated (first ++ second) = terminated first ++ terminated second := List.flatMap_append

theorem length_terminated_cons (s : List Octet) (strs : List (List Octet)) :
    (terminated (s :: strs)).length = s.length + 1 + (terminated strs).length := by
  rw [terminated_cons, List.length_append, List.length_append, List.length_singleton]

theorem terminated_take_succ (strs : List (List Octet)) {i : Nat} (inside : i < strs.length) :
    terminated (strs.take (i + 1)) = terminated (strs.take i) ++ (strs[i] ++ [0]) := by
  rw [List.take_succ_eq_append_getElem inside, terminated_append, terminated_cons, terminated_nil, List.append_nil]

/-- Where string `i` stands among strings that follow each other. -/
theorem BytesAt.string {strs : List (List Octet)} (bytes : BytesAt mem a (terminated strs)) {i : Nat}
    (inside : i < strs.length) : BytesAt mem (offset a (terminated (strs.take i)).length) (strs[i] ++ [0]) := by
  have split : strs = strs.take (i + 1) ++ strs.drop (i + 1) := (List.take_append_drop _ _).symm
  rw [split, terminated_append, terminated_take_succ strs inside] at bytes
  exact (bytesAt_append.mp (bytesAt_append.mp bytes).1).2

theorem length_terminated_take_le (strs : List (List Octet)) {i : Nat} (inside : i < strs.length) :
    (terminated (strs.take i)).length + strs[i].length + 1 ≤ (terminated strs).length := by
  have split : strs = strs.take (i + 1) ++ strs.drop (i + 1) := (List.take_append_drop _ _).symm
  have length : (terminated strs).length = (terminated (strs.take (i + 1) ++ strs.drop (i + 1))).length :=
    congrArg (fun l => (terminated l).length) split
  rw [terminated_append, terminated_take_succ strs inside] at length
  simp only [List.length_append, List.length_singleton] at length
  omega

/-- Every string has its zero. -/
theorem length_le_terminated (strs : List (List Octet)) : strs.length ≤ (terminated strs).length := by
  induction strs with
  | nil => exact Nat.le_refl _
  | cons s strs ih =>
    rw [length_terminated_cons, List.length_cons]
    omega

end Strings

section Vectors

/-- The address of a vector's pointer `i`. -/
def slot (a : Address) (i : Nat) : Address := offset a (8 * i)

@[simp] theorem slot_zero (a : Address) : slot a 0 = a := offset_zero a

theorem slot_succ (a : Address) (i : Nat) : slot a (i + 1) = slot (a + 8) i := by
  rw [slot, slot, show a + 8 = offset a 8 from rfl, offset_offset, Nat.mul_add, Nat.mul_one, Nat.add_comm]

/-- The pointers from `a` on lead to the strings, and a null pointer follows them. -/
structure VectorAt (mem : Space) (a : Address) (strs : List (List Octet)) : Prop where
  valid : ∀ i, i < strs.length → load64 mem (slot a i) ≠ 0
  string : ∀ i (inside : i < strs.length), BytesAt mem (load64 mem (slot a i)) (strs[i] ++ [0])
  last : load64 mem (slot a strs.length) = 0

/-- How many pointers stand before the null pointer. -/
def countPointers (mem : Space) (a : Address) : Nat → Option Nat
  | 0 => none
  | fuel + 1 => if load64 mem a = 0 then some 0 else (countPointers mem (a + 8) fuel).map (· + 1)

variable {mem : Space} {a : Address} {strs : List (List Octet)} {fuel : Nat}

theorem VectorAt.tail {s : List Octet} (vector : VectorAt mem a (s :: strs)) : VectorAt mem (a + 8) strs where
  valid i inside := by
    rw [← slot_succ]
    exact vector.valid (i + 1) (Nat.succ_lt_succ inside)
  string i inside := by
    rw [← slot_succ]
    exact vector.string (i + 1) (Nat.succ_lt_succ inside)
  last := by
    rw [← slot_succ]
    exact vector.last

theorem VectorAt.count (vector : VectorAt mem a strs) (short : strs.length < fuel) :
    countPointers mem a fuel = some strs.length := by
  induction strs generalizing a fuel with
  | nil =>
    obtain ⟨fuel, rfl⟩ := Nat.exists_eq_succ_of_ne_zero (by omega : fuel ≠ 0)
    have last := vector.last
    rw [List.length_nil, slot_zero] at last
    rw [countPointers, if_pos last]
    rfl
  | cons s strs ih =>
    obtain ⟨fuel, rfl⟩ := Nat.exists_eq_succ_of_ne_zero (by omega : fuel ≠ 0)
    have first := vector.valid 0 (Nat.succ_pos _)
    rw [slot_zero] at first
    rw [List.length_cons] at short
    rw [countPointers, if_neg first, ih vector.tail (by omega)]
    rfl

end Vectors

end CStrings
