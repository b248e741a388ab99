import K210Linux.Lib.Ring

namespace K210Linux.Chr

open K210Linux.Lib

abbrev Byte := BitVec 8

/-- `TTY_BUF_SIZE`. -/
def ttyBufSize : Nat := 1024

/-- `struct tty_queue`, without its list of sleepers. `head` and `tail` are unsigned ints. -/
structure TtyQueue where
  data : BitVec 32
  head : Nat
  tail : Nat
  buf : Nat → Byte

/-- `INC`. -/
def inc (a : Nat) : Nat := (a + 1) % ttyBufSize

/-- The low bits of a difference of unsigned ints, `& (TTY_BUF_SIZE - 1)`. -/
def low (a : Int) : Nat := (a % ttyBufSize).toNat

/-- `DEC`. -/
def dec (a : Nat) : Nat := low (a - 1)

theorem low_lt (a : Int) : low a < ttyBufSize := by
  simp only [low, ttyBufSize]
  omega

namespace TtyQueue

/-- `EMPTY`. -/
def empty (q : TtyQueue) : Bool := q.head == q.tail

/-- `LEFT`. -/
def left (q : TtyQueue) : Nat := low (q.tail - q.head - 1)

/-- `LAST`. -/
def last (q : TtyQueue) : Byte := q.buf (dec q.head)

/-- `FULL`. -/
def full (q : TtyQueue) : Bool := q.left == 0

/-- `CHARS`. -/
def chars (q : TtyQueue) : Nat := low (q.head - q.tail)

/-- `GETCH`: the byte, and the queue without it. -/
def getch (q : TtyQueue) : Byte × TtyQueue := (q.buf q.tail, { q with tail := inc q.tail })

/-- `PUTCH`. -/
def putch (c : Byte) (q : TtyQueue) : TtyQueue :=
  { q with buf := overwrite q.buf q.head [c], head := inc q.head }

/-- `DEC` of the head: the last byte is dropped. -/
def unput (q : TtyQueue) : TtyQueue := { q with head := dec q.head }

/-- The bytes that a reader of the queue would get. -/
def contents (q : TtyQueue) : List Byte := ring ttyBufSize q.buf q.tail q.chars

/-- Both indices point into the buffer. -/
structure Ranged (q : TtyQueue) : Prop where
  head : q.head < ttyBufSize
  tail : q.tail < ttyBufSize

variable {q : TtyQueue} {c : Byte}

@[simp] theorem length_contents : q.contents.length = q.chars := length_ring ..

@[simp] theorem empty_eq_true : q.empty = true ↔ q.head = q.tail := by
  simp [empty]

theorem chars_add_left (ranged : q.Ranged) : q.chars + q.left = 1023 := by
  have head := ranged.head
  have tail := ranged.tail
  simp only [chars, left, low, ttyBufSize] at *
  omega

theorem chars_eq_zero (ranged : q.Ranged) : q.chars = 0 ↔ q.head = q.tail := by
  have head := ranged.head
  have tail := ranged.tail
  simp only [chars, low, ttyBufSize] at *
  omega

theorem empty_iff_contents (ranged : q.Ranged) : q.empty = true ↔ q.contents = [] := by
  rw [empty_eq_true, ← chars_eq_zero ranged, ← List.length_eq_zero_iff, length_contents]

theorem head_eq (ranged : q.Ranged) : (q.tail + q.chars) % ttyBufSize = q.head := by
  have head := ranged.head
  have tail := ranged.tail
  simp only [chars, low, ttyBufSize] at *
  omega

theorem Ranged.putch (ranged : q.Ranged) (c : Byte) : (q.putch c).Ranged :=
  ⟨Nat.mod_lt _ (by decide), ranged.tail⟩

theorem Ranged.getch (ranged : q.Ranged) : q.getch.2.Ranged := ⟨ranged.head, Nat.mod_lt _ (by decide)⟩

theorem Ranged.unput (ranged : q.Ranged) : q.unput.Ranged := ⟨low_lt _, ranged.tail⟩

theorem chars_putch (ranged : q.Ranged) (room : 0 < q.left) : (q.putch c).chars = q.chars + 1 := by
  have head := ranged.head
  have tail := ranged.tail
  simp only [chars, left, low, putch, inc, ttyBufSize] at *
  omega

theorem chars_getch (ranged : q.Ranged) (some : q.head ≠ q.tail) : q.chars = 1 + q.getch.2.chars := by
  have head := ranged.head
  have tail := ranged.tail
  simp only [chars, low, getch, inc, ttyBufSize] at *
  omega

theorem chars_unput (ranged : q.Ranged) (some : q.head ≠ q.tail) : q.chars = q.unput.chars + 1 := by
  have head := ranged.head
  have tail := ranged.tail
  simp only [chars, low, unput, dec, ttyBufSize] at *
  omega

theorem contents_putch (ranged : q.Ranged) (room : 0 < q.left) :
    (q.putch c).contents = q.contents ++ [c] := by
  have sum := chars_add_left ranged
  rw [contents, chars_putch ranged room, ring_append]
  have atHead : ((q.putch c).tail + q.chars) % ttyBufSize = q.head := head_eq ranged
  rw [atHead]
  congr 1
  · have kept : ring ttyBufSize (overwrite q.buf ((q.tail + q.chars) % ttyBufSize) [c]) q.tail q.chars =
        ring ttyBufSize q.buf q.tail q.chars :=
      ring_overwrite ranged.tail (by simp [ttyBufSize]; omega)
    rw [head_eq ranged] at kept
    exact kept
  · have head := ranged.head
    simp [ring, putch, overwrite, Nat.mod_eq_of_lt head]

theorem contents_getch (ranged : q.Ranged) (some : q.head ≠ q.tail) :
    q.contents = q.getch.1 :: q.getch.2.contents := by
  rw [contents, chars_getch ranged some, ring_append]
  have first : ring ttyBufSize q.buf q.tail 1 = [q.getch.1] := by
    simp [ring, getch, Nat.mod_eq_of_lt ranged.tail]
  rw [first]
  rfl

theorem contents_unput (ranged : q.Ranged) (some : q.head ≠ q.tail) :
    q.contents = q.unput.contents ++ [q.last] := by
  rw [contents, chars_unput ranged some, ring_append]
  congr 1
  have atLast : (q.tail + q.unput.chars) % ttyBufSize = dec q.head := head_eq (q := q.unput) ranged.unput
  have inside : dec q.head < ttyBufSize := low_lt _
  rw [atLast]
  simp [ring, last, Nat.mod_eq_of_lt inside]

end TtyQueue

end K210Linux.Chr
