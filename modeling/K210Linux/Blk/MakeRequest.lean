import K210Linux.Blk.RequestQueue

namespace K210Linux.Blk

/-- The commands of `fs.h`. -/
def READ : Int := 0
def WRITE : Int := 1
def READA : Int := 2
def WRITEA : Int := 3

/-- The fields of `struct request` that `make_request` sets besides those the queue goes by. -/
structure Slot extends Request where
  errors : Int
  nrSectors : BitVec 64
  buffer : BitVec 64
  waiting : Option Nat

/-- The fields of `buffer_head` that `make_request` uses. -/
structure Head where
  dev : BitVec 16
  blocknr : BitVec 64
  data : BitVec 64
  uptodate : Bool
  dirt : Bool
  lock : Bool

/-- `request` and the buffers. The cells of `request` are those from 0 to 31; a cell outside is the memory
    that a pointer past an end of the table goes to. -/
structure Requests where
  request : Int → Slot
  head : Nat → Head

/-- The list that `make_request` sleeps on: `bh -> b_wait` in `lock_buffer`, or `wait_for_request`. -/
inductive WaitList where
  | buffer
  | request
deriving DecidableEq

/-- How a call of `make_request` goes on: it is over, it panicked, it sleeps, or it calls `add_request`. -/
inductive Outcome where
  | returned (s : Requests)
  | panic
  | asleep (on : WaitList) (s : Requests)
  | add (req : Int) (s : Requests)

namespace Requests

variable (s : Requests)

def setLock (bh : Nat) (lock : Bool) : Requests :=
  { s with head := Function.update s.head bh { s.head bh with lock } }

/-- `unlock_buffer`, without the wake-up. -/
def unlockBuffer (bh : Nat) : Requests := s.setLock bh false

/-- What the slot holds when `make_request` calls `add_request`. -/
def filled (rw : Int) (bh : Nat) : Slot where
  dev := (s.head bh).dev.toNat
  cmd := rw
  errors := 0
  sector := (s.head bh).blocknr <<< 1
  nrSectors := 2
  buffer := (s.head bh).data
  waiting := none
  bh := some bh
  next := none

/-- The end of `make_request`. -/
def fill (req : Int) (rw : Int) (bh : Nat) : Outcome :=
  .add req { s with request := Function.update s.request req (s.filled rw bh) }

/-- Where the loop of `make_request` stops: at a free request, or inside the loop with `req < request`. -/
inductive Search where
  | stopped (req : Int)
  | below
deriving DecidableEq

/-- The loop of `make_request`, with `req` the given number of cells above `request`. -/
def search : Nat → Search
  | 0 => .stopped (-1)
  | req + 1 =>
    if (s.request req).dev < 0 then .stopped req
    else if (req : Int) < 0 then .below
    else search req

/-- Above the requests that a command may use. -/
def limit (rw : Int) : Nat := if rw = READ then nrRequest else nrRequest * 2 / 3

/-- `make_request` from its label `repeat` on. -/
def tryRequest (rwAhead : Bool) (rw : Int) (bh : Nat) : Outcome :=
  match s.search (limit rw) with
  | .stopped req => s.fill req rw bh
  | .below => if rwAhead then .returned (s.unlockBuffer bh) else .asleep .request s

/-- `make_request` after `lock_buffer`. -/
def lockedRequest (rwAhead : Bool) (rw : Int) (bh : Nat) : Outcome :=
  if (rw = WRITE ∧ (s.head bh).dirt = false) ∨ (rw = READ ∧ (s.head bh).uptodate = true) then
    .returned (s.unlockBuffer bh)
  else s.tryRequest rwAhead rw bh

/-- Whether a command is a read-ahead or a write-ahead. -/
def rwAhead (rw : Int) : Bool := rw = READA || rw = WRITEA

/-- The command that is left of it. -/
def direction (rw : Int) : Int := if rwAhead rw then if rw = READA then READ else WRITE else rw

def makeRequest (rw : Int) (bh : Nat) : Outcome :=
  if rwAhead rw && (s.head bh).lock then .returned s
  else if direction rw ≠ READ ∧ direction rw ≠ WRITE then .panic
  else if (s.head bh).lock then .asleep .buffer s
  else (s.setLock bh true).lockedRequest (rwAhead rw) (direction rw) bh

/-- A free request that the command may use: a read any one, a write none of the last third. -/
def Free (rw req : Int) : Prop :=
  0 ≤ req ∧ (req ≤ if direction rw = READ then 31 else 20) ∧ (s.request req).dev < 0

/-- A buffer that the command does I/O for. -/
def NeedsTransfer (rw : Int) (bh : Nat) : Prop :=
  (direction rw = READ → (s.head bh).uptodate = false) ∧ (direction rw = WRITE → (s.head bh).dirt = true)

/-- What a call owes: it fills a free slot and leaves the others alone, or none is free, no slot changes, and
    the call gives up with the buffer unlocked or sleeps. -/
def Allocates (rw : Int) (bh : Nat) : Prop :=
  (∃ req s', s.makeRequest rw bh = .add req s' ∧ s.Free rw req ∧ s'.request req = s.filled (direction rw) bh ∧
    ∀ other, other ≠ req → s'.request other = s.request other) ∨
  ((¬ ∃ req, s.Free rw req) ∧ ∃ s', s'.request = s.request ∧
    if rwAhead rw then s.makeRequest rw bh = .returned s' ∧ (s'.head bh).lock = false
    else s.makeRequest rw bh = .asleep .request s')

variable {s} {rw : Int} {bh : Nat}

@[simp] theorem request_setLock (s : Requests) (bh : Nat) (lock : Bool) : (s.setLock bh lock).request = s.request := rfl

@[simp] theorem filled_setLock (s : Requests) (bh : Nat) (lock : Bool) (rw : Int) :
    (s.setLock bh lock).filled rw bh = s.filled rw bh := by
  simp [filled, setLock]

/-- The test inside the loop never holds, so the loop ends at a free request or one below the table. -/
theorem search_cases (n : Nat) :
    (∃ req : Int, s.search n = .stopped req ∧ 0 ≤ req ∧ req < n ∧ (s.request req).dev < 0) ∨
    (s.search n = .stopped (-1) ∧ ∀ req : Int, 0 ≤ req → req < n → 0 ≤ (s.request req).dev) := by
  induction n with
  | zero =>
    right
    refine ⟨rfl, ?_⟩
    intro req low high
    omega
  | succ n ih =>
    unfold search
    by_cases free : (s.request n).dev < 0
    · left
      rw [if_pos free]
      exact ⟨n, rfl, by omega, by omega, free⟩
    · rw [if_neg free, if_neg (show ¬ (n : Int) < 0 by omega)]
      rcases ih with ⟨req, stopped, low, high, isFree⟩ | ⟨stopped, busy⟩
      · exact .inl ⟨req, stopped, low, by omega, isFree⟩
      · right
        refine ⟨stopped, ?_⟩
        intro req low high
        by_cases top : req = n
        · rw [top]
          omega
        · exact busy req low (by omega)

theorem lt_limit (rw req : Int) : req < limit rw ↔ req ≤ if rw = READ then 31 else 20 := by
  unfold limit nrRequest
  split <;> omega

theorem direction_cases (command : rw = READ ∨ rw = WRITE ∨ rw = READA ∨ rw = WRITEA) :
    direction rw = READ ∨ direction rw = WRITE := by
  rcases command with rfl | rfl | rfl | rfl <;> decide

/-- A command on an unlocked buffer that needs I/O comes to the search for a request. -/
theorem makeRequest_searches (command : rw = READ ∨ rw = WRITE ∨ rw = READA ∨ rw = WRITEA)
    (unlocked : (s.head bh).lock = false) (needs : s.NeedsTransfer rw bh) :
    s.makeRequest rw bh = (s.setLock bh true).tryRequest (rwAhead rw) (direction rw) bh := by
  have known := direction_cases command
  have goesOn : ¬ (direction rw ≠ READ ∧ direction rw ≠ WRITE) := by
    intro both
    exact known.elim both.1 both.2
  unfold makeRequest lockedRequest
  rw [unlocked, Bool.and_false, if_neg (by decide), if_neg goesOn, if_neg (by decide)]
  apply if_neg
  simp only [setLock, Function.update_self]
  rintro (⟨isWrite, clean⟩ | ⟨isRead, fresh⟩)
  · rw [needs.2 isWrite] at clean
    cases clean
  · rw [needs.1 isRead] at fresh
    cases fresh

/-- With no free request the slot that is filled is the one below the table. -/
theorem makeRequest_cases (command : rw = READ ∨ rw = WRITE ∨ rw = READA ∨ rw = WRITEA)
    (unlocked : (s.head bh).lock = false) (needs : s.NeedsTransfer rw bh) :
    ∃ req, s.makeRequest rw bh = (s.setLock bh true).fill req (direction rw) bh ∧
      (s.Free rw req ∨ req = -1 ∧ ¬ ∃ free, s.Free rw free) := by
  rw [makeRequest_searches command unlocked needs]
  unfold tryRequest
  rcases search_cases (s := s.setLock bh true) (limit (direction rw)) with
    ⟨req, stopped, low, high, isFree⟩ | ⟨stopped, busy⟩
  · rw [stopped]
    exact ⟨req, rfl, .inl ⟨low, (lt_limit _ req).1 high, isFree⟩⟩
  · rw [stopped]
    refine ⟨-1, rfl, .inr ⟨rfl, ?_⟩⟩
    rintro ⟨req, low, high, isFree⟩
    have taken := busy req low ((lt_limit _ req).2 high)
    rw [request_setLock] at taken
    omega

/-- `make_request` allocates a request as it should exactly when one that the command may use is free. -/
theorem make_request_allocates_iff (s : Requests) (rw : Int) (bh : Nat)
    (command : rw = READ ∨ rw = WRITE ∨ rw = READA ∨ rw = WRITEA) (unlocked : (s.head bh).lock = false)
    (needs : s.NeedsTransfer rw bh) : s.Allocates rw bh ↔ ∃ req, s.Free rw req := by
  rcases makeRequest_cases command unlocked needs with ⟨req, run, filled⟩
  constructor
  · rintro (⟨slot, _, _, isFree, _⟩ | ⟨_, s', _, stops⟩)
    · exact ⟨slot, isFree⟩
    · split at stops
      · rw [run] at stops
        cases stops.1
      · rw [run] at stops
        cases stops
  · intro free
    left
    have isFree := filled.resolve_right fun both => both.2 free
    refine ⟨req, _, run, isFree, ?_, ?_⟩
    · change Function.update _ req _ req = _
      rw [Function.update_self, filled_setLock]
    · intro other apart
      change Function.update _ req _ other = _
      rw [Function.update_of_ne apart, request_setLock]

/-- The table with the given requests in use, and a buffer that is neither up to date nor locked. -/
def occupied (busy : Int → Bool) : Requests where
  request := fun i => ⟨⟨if busy i then 257 else -1, 0, 0, none, none⟩, 0, 0, 0, none⟩
  head := fun _ => ⟨257, 4, 0x80400000, false, false, false⟩

/-- Only request 30 is free, which is one of those that are kept for reads. -/
theorem kept_request_allocates : (∃ req, (occupied fun i => decide (i ≠ 30)).Free READ req) ∧
    (occupied fun i => decide (i ≠ 30)).Allocates READ 0 := by
  have free : ∃ req, (occupied fun i => decide (i ≠ 30)).Free READ req := ⟨30, by decide, by decide, by decide⟩
  have needs : (occupied fun i => decide (i ≠ 30)).NeedsTransfer READ 0 :=
    ⟨fun _ => rfl, fun isWrite => absurd isWrite (by decide)⟩
  exact ⟨free, (make_request_allocates_iff _ READ 0 (.inl rfl) rfl needs).2 free⟩

/-- With every request in use, a read writes its request in front of the table. -/
theorem full_table_overrun : ¬ ∀ (s : Requests) (rw : Int) (bh : Nat),
    rw = READ ∨ rw = WRITE ∨ rw = READA ∨ rw = WRITEA → (s.head bh).lock = false → s.NeedsTransfer rw bh →
      s.Allocates rw bh := by
  intro law
  have never : ¬ ∃ req, (occupied fun _ => true).Free READ req := by
    rintro ⟨req, _, _, isFree⟩
    have busy : ((occupied fun _ => true).request req).dev = 257 := rfl
    rw [busy] at isFree
    cases isFree
  have overrun : (occupied fun _ => true).makeRequest READ 0 =
      ((occupied fun _ => true).setLock 0 true).fill (-1) READ 0 := rfl
  have needs : (occupied fun _ => true).NeedsTransfer READ 0 := ⟨fun _ => rfl, fun isWrite => absurd isWrite (by decide)⟩
  rcases law (occupied fun _ => true) READ 0 (.inl rfl) rfl needs with ⟨req, _, _, isFree, _⟩ | ⟨_, s', _, stops⟩
  · exact never ⟨req, isFree⟩
  · rw [if_neg (by decide), overrun] at stops
    cases stops

end Requests

end K210Linux.Blk
