import K210Linux.Lib.Run
import K210Linux.Chr.Line

namespace K210Linux.Chr

open K210Linux.Lib

namespace Tty

variable {t : Tty} {c : Byte}

/-- `read_q` and what went through it. -/
def incoming (t : Tty) : TtyQueue × List Byte × List Byte := (t.readQ, t.traffic.accepted, t.traffic.taken)

@[simp] theorem incoming_serialSendInterrupt : t.serialSendInterrupt.incoming = t.incoming := by
  unfold serialSendInterrupt
  split <;> rfl

@[simp] theorem incoming_rsWrite : t.rsWrite.incoming = t.incoming := by
  unfold rsWrite
  split
  · rfl
  · exact incoming_serialSendInterrupt

@[simp] theorem incoming_echoBytes (bytes : List Byte) : (t.echoBytes bytes).incoming = t.incoming := by
  rw [echoBytes, incoming_rsWrite]
  induction bytes generalizing t with
  | nil => rfl
  | cons b bytes ih => exact ih

@[simp] theorem incoming_takeBack : (t.takeBack c).incoming = t.incoming := by
  unfold takeBack
  split
  · exact incoming_echoBytes _
  · rfl

@[simp] theorem incoming_store : (t.store c).incoming = t.incoming := by
  simp only [store]
  split <;> split
  · exact incoming_echoBytes _
  · rfl
  · exact incoming_echoBytes _
  · rfl

theorem incoming_cookChar : (t.cookChar c).2.incoming = t.incoming := by
  simp only [cookChar]
  split_ifs
  · rfl
  · rfl
  · exact incoming_takeBack
  all_goals first | rfl | exact incoming_store

theorem incoming_kill : (t.kill c).2.incoming = t.incoming := by
  unfold kill
  split
  · exact incoming_takeBack
  · rfl

@[simp] theorem incoming_getSecondary : t.getSecondary.incoming = t.incoming := rfl

end Tty

/-- The law of the receive queue: its indices point into the buffer, the bytes taken out followed by
    those inside are the bytes accepted, and it tests empty exactly when all were taken. -/
structure Received (t : Tty) : Prop where
  head : t.readQ.head < ttyBufSize
  tail : t.readQ.tail < ttyBufSize
  order : t.traffic.taken ++ t.readQ.contents = t.traffic.accepted
  drained : t.readQ.empty = true ↔ t.traffic.taken = t.traffic.accepted

/-- A byte arrives with the head at the last place of the buffer only when the queue is full. -/
def HeadRoom : Event → Line → Prop
  | .receive _, s => s.tty.readQ.head + 1 < ttyBufSize ∨ s.tty.readQ.full = true
  | _, _ => True

theorem Received.of_order {t : Tty} (ranged : t.readQ.Ranged)
    (order : t.traffic.taken ++ t.readQ.contents = t.traffic.accepted) : Received t := by
  refine ⟨ranged.head, ranged.tail, order, ?_⟩
  rw [TtyQueue.empty_iff_contents ranged, ← order]
  simp

theorem Received.of_incoming {t t' : Tty} (law : Received t) (same : t'.incoming = t.incoming) : Received t' := by
  have queue : t'.readQ = t.readQ := congrArg Prod.fst same
  have accepted : t'.traffic.accepted = t.traffic.accepted := congrArg (fun x => x.2.1) same
  have taken : t'.traffic.taken = t.traffic.taken := congrArg (fun x => x.2.2) same
  rcases law with ⟨head, tail, order, drained⟩
  rw [← queue] at head tail
  rw [← queue, ← accepted, ← taken] at order drained
  exact ⟨head, tail, order, drained⟩

theorem Received.receive {t : Tty} (law : Received t) (b : Byte)
    (room : t.readQ.head + 1 < ttyBufSize ∨ t.readQ.full = true) : Received (t.serialRevInterrupt b) := by
  have ranged : t.readQ.Ranged := ⟨law.head, law.tail⟩
  have sum := TtyQueue.chars_add_left ranged
  by_cases accepts : t.readQ.chars < ttyBufSize - 1
  · have left : 0 < t.readQ.left := by
      simp only [ttyBufSize] at accepts
      omega
    have below : t.readQ.head + 1 < ttyBufSize := by
      simp only [TtyQueue.full, beq_iff_eq] at room
      omega
    -- below the last place the unmasked increment is the one of `PUTCH`
    have atPut : (t.serialRevInterrupt b).readQ = t.readQ.putch b := by
      simp only [Tty.serialRevInterrupt, if_pos accepts, TtyQueue.putch, inc, Nat.mod_eq_of_lt below]
    have log : (t.serialRevInterrupt b).traffic.accepted = t.traffic.accepted ++ [b] := by
      simp only [Tty.serialRevInterrupt, if_pos accepts]
    have taken : (t.serialRevInterrupt b).traffic.taken = t.traffic.taken := by
      simp only [Tty.serialRevInterrupt, if_pos accepts]
    apply Received.of_order
    · rw [atPut]
      exact ranged.putch b
    · rw [atPut, log, taken, TtyQueue.contents_putch ranged left, ← List.append_assoc, law.order]
  · rw [Tty.serialRevInterrupt, if_neg accepts]
    exact law

theorem Received.getRead {t : Tty} (law : Received t) (some : t.readQ.empty = false) : Received t.getRead.2 := by
  have ranged : t.readQ.Ranged := ⟨law.head, law.tail⟩
  have apart : t.readQ.head ≠ t.readQ.tail := by
    simpa [TtyQueue.empty] using some
  apply Received.of_order
  · exact ranged.getch
  · calc t.traffic.taken ++ [t.readQ.getch.1] ++ t.readQ.getch.2.contents
      _ = t.traffic.taken ++ t.readQ.contents := by
        rw [List.append_assoc, TtyQueue.contents_getch ranged apart]
        rfl
      _ = t.traffic.accepted := law.order

theorem Received.cook {t : Tty} (law : Received t) : Received t.cook.2 := by
  unfold Tty.cook
  split
  · rename_i goes
    have some : t.readQ.empty = false := by
      simp only [Tty.goesRound, Bool.and_eq_true, Bool.not_eq_true'] at goes
      exact goes.1
    have taken := law.getRead some
    simp only
    split
    · exact taken
    · exact taken.of_incoming Tty.incoming_cookChar
  · exact law

/-- What one step keeps. -/
theorem Received.step {s s' : Line} {e : Event} (law : Received s.tty) (room : HeadRoom e s)
    (stepped : s.step e = some s') : Received s'.tty := by
  cases Line.step_effect stepped with
  | receive b idle cooking tty =>
    rw [tty]
    exact law.receive b room
  | cook cooking cooked =>
    rw [show s'.tty = s.tty.cook.2 from congrArg Prod.snd cooked]
    exact law.cook
  | kill killing killed =>
    rw [show s'.tty = (s.tty.kill _).2 from congrArg Prod.snd killed]
    exact law.of_incoming Tty.incoming_kill
  | send tty => exact law.of_incoming (tty ▸ Tty.incoming_serialSendInterrupt)
  | none same => exact law.of_incoming (same ▸ rfl)
  | read some tty => exact law.of_incoming (tty ▸ Tty.incoming_getSecondary)
  | push tty => exact law.of_incoming (tty ▸ Tty.incoming_rsWrite)
  | write c crFlag room tty => exact law.of_incoming (tty ▸ rfl)

theorem Received.boot (termios : Termios) : Received (Tty.boot termios) := by
  apply Received.of_order
  · exact TtyQueue.zero_ranged
  · rfl

/-- Over any traffic on the line in which no byte arrives with the head at the last place of a queue that
    has room, the receive queue stays a ring. -/
theorem receive_queue_ring (termios : Termios) (s : Line)
    (run : Run (fun e s => s.step e) HeadRoom (Line.boot termios) s) : Received s.tty :=
  run.invariant (I := fun s => Received s.tty) (Received.boot termios) fun _ _ _ law room stepped =>
    law.step room stepped

instance (e : Event) (s : Line) : Decidable (HeadRoom e s) :=
  match e with
  | .receive _ => inferInstanceAs (Decidable (_ ∨ _))
  | .handle | .send | .read .. | .write .. | .resume .. => inferInstanceAs (Decidable True)

/-- A process waits for a line, which is typed, cooked byte by byte and read. -/
def typedLine : List Event :=
  [.read 1 0 10, .receive 97, .handle, .handle, .receive 98, .handle, .handle, .receive 13, .handle, .handle,
    .resume 1 .none, .resume 1 .none, .resume 1 .none, .resume 1 .none]

def lineTaken (t : Tty) : Bool := t.traffic.accepted = [97, 98, 13] ∧ t.traffic.taken = [97, 98, 13] ∧ t.secondary.empty

theorem typed_line_received :
    ∃ s, Run (fun e s => Line.step s e) HeadRoom (Line.boot initTermios) s ∧ lineTaken s.tty = true ∧ Received s.tty := by
  have passed : (runEvents (fun e s => Line.step s e) HeadRoom typedLine (Line.boot initTermios)).any
      (fun s => lineTaken s.tty) = true := by decide +kernel
  rcases Run.of_test passed with ⟨s, run, taken⟩
  exact ⟨s, run, taken, receive_queue_ring initTermios s run⟩

/-- The line between two interrupts, after `n` bytes that left no trace but in the indices of `read_q`. -/
structure Passed (n : Nat) (s : Line) : Prop where
  idle : s.handler = .idle
  termios : s.tty.termios = initTermios
  secondary : s.tty.secondary = .zero
  head : s.tty.readQ.head = n
  tail : s.tty.readQ.tail = n

theorem Tty.cook_stop {t : Tty} (termios : t.termios = initTermios) (secondary : t.secondary = .zero)
    (some : t.readQ.empty = false) (stop : t.readQ.buf t.readQ.tail = 19) :
    t.cook = (.cooking, { t.getRead.2 with stopped := true }) := by
  have round : t.goesRound = true := by
    rw [goesRound, some, secondary]
    decide
  have same : translate t.getRead.2.termios t.getRead.1 = Option.some 19 := by
    rw [show t.getRead.1 = 19 from stop, show t.getRead.2.termios = initTermios from termios]
    decide
  have stopped : t.getRead.2.cookChar 19 = (.cooking, { t.getRead.2 with stopped := true }) := by
    simp only [cookChar, show t.getRead.2.termios = initTermios from termios]
    rfl
  rw [cook, if_pos round]
  simp only [same, stopped]

theorem Tty.cook_over {t : Tty} (none : t.readQ.empty = true) : t.cook = (.idle, t) := by
  rw [cook, if_neg]
  simp [goesRound, none]

/-- A stop character is taken by `copy_to_cooked` and stored nowhere. -/
theorem Passed.next {n : Nat} {s : Line} (passed : Passed n s) (below : n + 1 < ttyBufSize)
    (run : Run (fun e s => Line.step s e) (fun _ _ => True) (Line.boot initTermios) s) :
    ∃ s, Run (fun e s => Line.step s e) (fun _ _ => True) (Line.boot initTermios) s ∧ Passed (n + 1) s := by
  have accepts : s.tty.readQ.chars < ttyBufSize - 1 := by
    simp [TtyQueue.chars, passed.head, passed.tail, low, ttyBufSize]
  let received := s.tty.serialRevInterrupt 19
  have head : received.readQ.head = n + 1 := by
    simp only [received, Tty.serialRevInterrupt, if_pos accepts, passed.head]
  have tail : received.readQ.tail = n := by
    simp only [received, Tty.serialRevInterrupt, if_pos accepts, passed.tail]
  have byte : received.readQ.buf received.readQ.tail = 19 := by
    rw [tail]
    simp [received, Tty.serialRevInterrupt, if_pos accepts, passed.head, overwrite]
  have termios : received.termios = initTermios := by
    simp only [received, Tty.serialRevInterrupt, if_pos accepts, passed.termios]
  have secondary : received.secondary = .zero := by
    simp only [received, Tty.serialRevInterrupt, if_pos accepts, passed.secondary]
  have nonempty : received.readQ.empty = false := by
    simp [TtyQueue.empty, head, tail]
  have taken : received.getRead.2.readQ.tail = n + 1 := by
    rw [show received.getRead.2.readQ.tail = inc received.readQ.tail from rfl, tail, inc, Nat.mod_eq_of_lt below]
  let stopped := { received.getRead.2 with stopped := true }
  have arrived : s.step (.receive 19) = some { s with tty := received, handler := .cooking } := by
    rw [Line.step, if_pos passed.idle]
  have cooked : Line.step { s with tty := received, handler := .cooking } .handle =
      some { s with tty := stopped, handler := .cooking } := by
    simp only [Line.step, Line.handle, Tty.cook_stop termios secondary nonempty byte, stopped]
  have drained : stopped.readQ.empty = true := by
    rw [TtyQueue.empty_eq_true]
    exact head.trans taken.symm
  have finished : Line.step { s with tty := stopped, handler := .cooking } .handle =
      some { s with tty := stopped, handler := .idle } := by
    simp only [Line.step, Line.handle, Tty.cook_over drained]
  refine ⟨_, ((run.next trivial arrived).next trivial cooked).next trivial finished, ?_⟩
  exact ⟨rfl, termios, secondary, head, taken⟩

theorem passed_all {n : Nat} (below : n < ttyBufSize) :
    ∃ s, Run (fun e s => Line.step s e) (fun _ _ => True) (Line.boot initTermios) s ∧ Passed n s := by
  induction n with
  | zero => exact ⟨_, .start, rfl, rfl, rfl, rfl, rfl⟩
  | succ n ih =>
    rcases ih (by omega) with ⟨s, run, passed⟩
    exact passed.next below run

/-- The byte after 1023 others leaves the head behind the end of the buffer. -/
theorem receive_head_escapes :
    ¬ ∀ (termios : Termios) (s : Line),
      Run (fun e s => Line.step s e) (fun _ _ => True) (Line.boot termios) s → Received s.tty := by
  intro law
  rcases passed_all (n := 1023) (by decide) with ⟨s, run, passed⟩
  have accepts : s.tty.readQ.chars < ttyBufSize - 1 := by
    simp [TtyQueue.chars, passed.head, passed.tail, low, ttyBufSize]
  have arrived : s.step (.receive 19) =
      some { s with tty := s.tty.serialRevInterrupt 19, handler := .cooking } := by
    rw [Line.step, if_pos passed.idle]
  have inside : (s.tty.serialRevInterrupt 19).readQ.head < 1024 :=
    (law initTermios _ (run.next trivial arrived)).head
  have escaped : (s.tty.serialRevInterrupt 19).readQ.head = 1024 := by
    simp only [Tty.serialRevInterrupt, if_pos accepts, passed.head]
  omega

end K210Linux.Chr
