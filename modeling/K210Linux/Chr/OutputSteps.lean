import K210Linux.Chr.Output

/-! `tty_write` with its loads and stores one by one. System calls run with interrupts on, and `PUTCH`, `FULL`, `EMPTY`
    and `serial_send_interrupt` take more than one of them. -/

namespace K210Linux.Chr

open K210Linux.Lib

/-- Where a turn of `tty_write` is, with what it has loaded: in the test of `sleep_if_full` or in that of the inner loop,
    where the tail is loaded; in `PUTCH`; in `EMPTY`, where the head is loaded; or in `serial_send_interrupt`. -/
inductive Pass where
  | sleepTest (tail : Nat)
  | test (tail : Nat)
  | put
  | loaded (c : Byte) (next : Writer) (head : Nat)
  | stored (c : Byte) (next : Writer) (head : Nat)
  | empty (head : Nat)
  | send
  | size (tail : Nat)
  | ready (tail : Nat)
  | sent (tail : Nat)

/-- Whether the inner loop is between the first load for its test and the store of the head. -/
def Pass.puts : Pass → Bool
  | .test _ | .put | .loaded .. | .stored .. => true
  | _ => false

/-- Whether `serial_send_interrupt` is between the load and the store of the tail. -/
def Pass.sends : Pass → Bool
  | .size _ | .ready _ | .sent _ => true
  | _ => false

/-- The line, and the process whose turn an interrupt broke off. -/
structure Steps where
  line : Line
  pass : Option (Nat × Pass)

/-- The character that a turn of the inner loop on `b` passes to `PUTCH`, the flag that it leaves, and whether it goes on
    to the next byte. -/
def Tty.writeChar (t : Tty) (b : Byte) : Byte × Bool × Bool :=
  let post := t.termios.oFlag opost
  let c := translateOut t.termios b
  if post && c = nl && !t.crFlag && t.termios.oFlag onlcr then (cr, true, false)
  else (if post && t.termios.oFlag olcuc then toupper c else c, false, true)

/-- The first load of a turn. -/
def Writer.begins (t : Tty) : Writer → Option Pass
  | .top (_ :: _) _ => some (.sleepTest t.writeQ.tail)
  | .filling (_ :: _) _ => some (.test t.writeQ.tail)
  | .pushing .. => some (.empty t.writeQ.head)
  | _ => none

/-- The end of `tty -> write`. -/
def Writer.pushed : Writer → Writer
  | .pushing bytes done => .top bytes done
  | writer => writer

/-- The next load or store of a turn, and what goes with it. -/
def Pass.next (t : Tty) (writer : Writer) : Pass → Writer × Option Pass × Tty
  | .sleepTest tail =>
    match writer with
    | .top bytes done =>
      (if low (tail - t.writeQ.head - 1) = 0 then .asleep bytes done else .awake bytes done, none, t)
    | writer => (writer, none, t)
  | .test tail =>
    match writer with
    | .filling bytes done =>
      if low (tail - t.writeQ.head - 1) = 0 then (.pushing bytes done, none, t) else (writer, some .put, t)
    | writer => (writer, none, t)
  | .put =>
    match writer with
    | .filling (b :: bytes) done =>
      let (c, crFlag, goesOn) := t.writeChar b
      let next := if goesOn then .filling bytes (done + 1) else .filling (b :: bytes) done
      (writer, some (.loaded c next t.writeQ.head), { t with crFlag })
    | writer => (writer, none, t)
  | .loaded c next head =>
    (writer, some (.stored c next head), { t with writeQ := { t.writeQ with buf := overwrite t.writeQ.buf head [c] } })
  | .stored c next head => (next, none, { t with
      writeQ := { t.writeQ with head := inc head }
      traffic := { t.traffic with put := t.traffic.put ++ [c] } })
  | .empty head => if head = t.writeQ.tail then (writer.pushed, none, t) else (writer, some .send, t)
  | .send => (writer, some (.size t.writeQ.tail), t)
  | .size tail => if low (t.writeQ.head - tail) = 0 then (writer.pushed, none, t) else (writer, some (.ready tail), t)
  | .ready tail => (writer, some (.sent tail), { t with
      traffic := { t.traffic with sent := t.traffic.sent ++ [t.writeQ.buf tail] } })
  | .sent tail => (writer.pushed, none, { t with writeQ := { t.writeQ with tail := inc tail } })

/-- An event of the line, or the next load or store of the turn that was broken off. -/
inductive StepEvent where
  | line (e : Event)
  | go

/-- Whether an event is one of a process. -/
def Event.ofProcess : Event → Bool
  | .read .. | .write .. | .resume .. => true
  | _ => false

/-- The turn that an event begins. -/
def Line.begins (s : Line) : Event → Option (Nat × Pass)
  | .resume i _ =>
    match s.handler, s.process i with
    | .idle, .writing writer => (writer.begins s.tty).map (i, ·)
    | _, _ => none
  | _ => none

/-- The kernel does not go on with another process within a turn. The handler runs with its own interrupt masked. -/
def Steps.step (s : Steps) : StepEvent → Option Steps
  | .line e =>
    if e.ofProcess && s.pass.isSome then none
    else match s.line.begins e with
      | some pass => some { s with pass := some pass }
      | none => (s.line.step e).map fun line => { s with line }
  | .go =>
    match s.pass, s.line.handler with
    | some (i, pass), .idle =>
      match s.line.process i with
      | .writing writer =>
        let (writer, pass, tty) := pass.next s.line.tty writer
        some ⟨{ s.line with tty }.set i (.writing writer), pass.map (i, ·)⟩
      | _ => none
    | _, _ => none

def Steps.boot (termios : Termios) : Steps := ⟨.boot termios, none⟩

def Steps.puts (s : Steps) : Bool := s.pass.any fun pass => pass.2.puts
def Steps.sends (s : Steps) : Bool := s.pass.any fun pass => pass.2.sends

/-- A turn of the handler echoes no more than `write_q` has room for, nothing while a `tty_write` is about to put a byte,
    and calls `tty -> write` only where no other call of it has loaded the tail; nor is a byte sent by an interrupt
    there. -/
def Undisturbed (e : StepEvent) (s : Steps) : Prop :=
  match e with
  | .line .handle =>
    match turnEcho s.line with
    | none => True
    | some bytes => bytes.length ≤ s.line.tty.writeQ.left ∧ (s.puts = true → bytes = []) ∧ s.sends = false
  | .line .send => s.sends = true → s.line.tty.writeQ.empty = true
  | _ => True

instance (e : StepEvent) (s : Steps) : Decidable (Undisturbed e s) := by
  unfold Undisturbed
  split
  · split <;> infer_instance
  · infer_instance
  · infer_instance

/-- What holds of the terminal where a turn is broken off. -/
def Pass.Holds (t : Tty) : Option Pass → Prop
  | some (.test tail) => Outgoing t ∧ tail < ttyBufSize ∧ low (tail - t.writeQ.head - 1) ≤ t.writeQ.left
  | some .put => Outgoing t ∧ 0 < t.writeQ.left
  | some (.loaded _ _ head) => Outgoing t ∧ 0 < t.writeQ.left ∧ head = t.writeQ.head
  | some (.stored c _ head) => Outgoing t ∧ 0 < t.writeQ.left ∧ head = t.writeQ.head ∧ t.writeQ.buf head = c
  | some (.size tail) => Outgoing t ∧ tail = t.writeQ.tail
  | some (.ready tail) => Outgoing t ∧ tail = t.writeQ.tail ∧ t.writeQ.head ≠ tail
  | some (.sent tail) => tail = t.writeQ.tail ∧ t.writeQ.head ≠ tail ∧ Outgoing { t with writeQ := { t.writeQ with tail := inc tail } }
  | _ => Outgoing t

/-- The invariant of all steps. -/
def Steps.Holds (s : Steps) : Prop := Pass.Holds s.line.tty (s.pass.map Prod.snd)

section Law

variable {t t' : Tty} {q : TtyQueue} {pass : Pass} {c : Byte}

/-- A store behind the contents. -/
theorem contents_store (ranged : q.Ranged) (room : 0 < q.left) (c : Byte) :
    { q with buf := overwrite q.buf q.head [c] }.contents = q.contents := by
  have sum := TtyQueue.chars_add_left ranged
  have kept : ring ttyBufSize (overwrite q.buf ((q.tail + q.chars) % ttyBufSize) [c]) q.tail q.chars =
      ring ttyBufSize q.buf q.tail q.chars := ring_overwrite ranged.tail (by simp [ttyBufSize]; omega)
  rw [TtyQueue.head_eq ranged] at kept
  exact kept

theorem overwrite_own (buf : Nat → Byte) (i : Nat) : overwrite buf i [buf i] = buf := by
  funext j
  unfold overwrite
  split
  · rfl
  · by_cases here : j = i
    · rw [here, Nat.sub_self]
      rfl
    · rw [List.getElem?_eq_none (by simp; omega)]
      rfl

/-- The head moves behind a byte that is stored already. -/
theorem Outgoing.advance (law : Outgoing t) (room : 0 < t.writeQ.left) (there : t.writeQ.buf t.writeQ.head = c) :
    Outgoing { t with
      writeQ := { t.writeQ with head := inc t.writeQ.head }
      traffic := { t.traffic with put := t.traffic.put ++ [c] } } := by
  have same : t.writeQ.putch c = { t.writeQ with head := inc t.writeQ.head } := by
    rw [TtyQueue.putch, ← there, overwrite_own]
  exact (law.putWrite room c).congr same.symm rfl rfl

theorem left_serialSendInterrupt (ranged : t.writeQ.Ranged) : t.writeQ.left ≤ t.serialSendInterrupt.writeQ.left := by
  unfold Tty.serialSendInterrupt
  split
  · rename_i waiting
    have head := ranged.head
    have tail := ranged.tail
    simp only [TtyQueue.left, TtyQueue.getch, TtyQueue.chars, low, inc, ttyBufSize] at *
    omega
  · exact Nat.le_refl _

theorem head_serialSendInterrupt (t : Tty) : t.serialSendInterrupt.writeQ.head = t.writeQ.head := by
  unfold Tty.serialSendInterrupt
  split <;> rfl

theorem buf_serialSendInterrupt (t : Tty) : t.serialSendInterrupt.writeQ.buf = t.writeQ.buf := by
  unfold Tty.serialSendInterrupt
  split <;> rfl

theorem Pass.Holds.output {pass : Option Pass} (holds : Pass.Holds t pass) (same : SameOutput t t') : Pass.Holds t' pass := by
  have advanced (tail : Nat) (law : Outgoing { t with writeQ := { t.writeQ with tail := inc tail } }) :
      Outgoing { t' with writeQ := { t'.writeQ with tail := inc tail } } := by
    refine law.congr ?_ same.put same.sent
    rw [same.queue]
  cases pass with
  | none => exact Outgoing.output holds same
  | some pass =>
    cases pass with
    | sleepTest tail => exact Outgoing.output holds same
    | test tail =>
      rcases holds with ⟨law, bound, low⟩
      exact ⟨law.output same, bound, by rw [same.queue]; exact low⟩
    | put => exact ⟨holds.1.output same, by rw [same.queue]; exact holds.2⟩
    | loaded c next head => exact ⟨holds.1.output same, by rw [same.queue]; exact holds.2⟩
    | stored c next head => exact ⟨holds.1.output same, by rw [same.queue]; exact holds.2⟩
    | empty head => exact Outgoing.output holds same
    | send => exact Outgoing.output holds same
    | size tail => exact ⟨holds.1.output same, by rw [same.queue]; exact holds.2⟩
    | ready tail => exact ⟨holds.1.output same, by rw [same.queue]; exact holds.2⟩
    | sent tail =>
      rcases holds with ⟨atTail, apart, law⟩
      exact ⟨by rw [same.queue]; exact atTail, by rw [same.queue]; exact apart, advanced tail law⟩

/-- A byte is sent by an interrupt, but not where a tail is loaded that is to be stored again. -/
theorem Pass.Holds.send {pass : Option Pass} (holds : Pass.Holds t pass)
    (free : pass.any Pass.sends = true → t.writeQ.empty = true) : Pass.Holds t.serialSendInterrupt pass := by
  have idle (some : pass.any Pass.sends = true) (ranged : t.writeQ.Ranged) : t.serialSendInterrupt = t := by
    have none : t.writeQ.chars = 0 := (TtyQueue.chars_eq_zero ranged).mpr (TtyQueue.empty_eq_true.mp (free some))
    unfold Tty.serialSendInterrupt
    rw [if_neg (not_not.mpr none)]
  cases pass with
  | none => exact Outgoing.serialSendInterrupt holds
  | some pass =>
    cases pass with
    | sleepTest tail => exact Outgoing.serialSendInterrupt holds
    | test tail =>
      rcases holds with ⟨law, bound, low⟩
      refine ⟨law.serialSendInterrupt, bound, ?_⟩
      rw [head_serialSendInterrupt]
      exact low.trans (left_serialSendInterrupt law.ranged)
    | put => exact ⟨holds.1.serialSendInterrupt, Nat.lt_of_lt_of_le holds.2 (left_serialSendInterrupt holds.1.ranged)⟩
    | loaded c next head =>
      rcases holds with ⟨law, room, atHead⟩
      refine ⟨law.serialSendInterrupt, Nat.lt_of_lt_of_le room (left_serialSendInterrupt law.ranged), ?_⟩
      rw [head_serialSendInterrupt, atHead]
    | stored c next head =>
      rcases holds with ⟨law, room, atHead, there⟩
      refine ⟨law.serialSendInterrupt, Nat.lt_of_lt_of_le room (left_serialSendInterrupt law.ranged), ?_, ?_⟩
      · rw [head_serialSendInterrupt, atHead]
      · rw [buf_serialSendInterrupt, there]
    | empty head => exact Outgoing.serialSendInterrupt holds
    | send => exact Outgoing.serialSendInterrupt holds
    | size tail =>
      rw [idle rfl holds.1.ranged]
      exact holds
    | ready tail =>
      rw [idle rfl holds.1.ranged]
      exact holds
    | sent tail =>
      rcases holds with ⟨atTail, apart, -⟩
      exact absurd ((TtyQueue.empty_eq_true.mp (free rfl)).trans atTail.symm) apart

/-- The echo of a turn of the handler. -/
theorem Pass.Holds.echoing {pass : Option Pass} (holds : Pass.Holds t pass) {bytes : List Byte}
    (room : bytes.length ≤ t.writeQ.left) (quiet : pass.any Pass.puts = true → bytes = [])
    (free : pass.any Pass.sends = false) : Pass.Holds (t.echoBytes bytes) pass := by
  have silent (putting : pass.any Pass.puts = true) : Pass.Holds (t.echoBytes bytes) pass := by
    rw [quiet putting]
    change Pass.Holds t.rsWrite pass
    unfold Tty.rsWrite
    split
    · exact holds
    · exact holds.send fun sending => absurd sending (by rw [free]; decide)
  cases pass with
  | none => exact Outgoing.echoBytes holds room
  | some pass =>
    cases pass with
    | sleepTest tail => exact Outgoing.echoBytes holds room
    | test tail => exact silent rfl
    | put => exact silent rfl
    | loaded c next head => exact silent rfl
    | stored c next head => exact silent rfl
    | empty head => exact Outgoing.echoBytes holds room
    | send => exact Outgoing.echoBytes holds room
    | size tail => cases free
    | ready tail => cases free
    | sent tail => cases free

/-- The next load or store of a turn. -/
theorem Pass.Holds.next (holds : Pass.Holds t (some pass)) (writer : Writer) :
    Pass.Holds (pass.next t writer).2.2 (pass.next t writer).2.1 := by
  cases pass with
  | sleepTest tail => cases writer <;> exact holds
  | test tail =>
    rcases holds with ⟨law, bound, least⟩
    cases writer with
    | filling bytes done =>
      simp only [Pass.next]
      split
      · exact law
      · rename_i some
        exact ⟨law, Nat.lt_of_lt_of_le (Nat.pos_of_ne_zero some) least⟩
    | _ => exact law
  | put =>
    rcases holds with ⟨law, room⟩
    cases writer with
    | filling bytes done =>
      cases bytes with
      | nil => exact law
      | cons b bytes => exact ⟨law.congr rfl rfl rfl, room, rfl⟩
    | _ => exact law
  | loaded c next head =>
    rcases holds with ⟨law, room, atHead⟩
    subst atHead
    refine ⟨⟨⟨law.ranged.head, law.ranged.tail⟩, ?_⟩, room, rfl, ?_⟩
    · have order : t.traffic.sent ++ t.writeQ.contents = t.traffic.put := law.order
      rw [← contents_store law.ranged room c] at order
      exact order
    · simp [Pass.next, overwrite]
  | stored c next head =>
    rcases holds with ⟨law, room, atHead, there⟩
    subst atHead
    exact law.advance room there
  | empty head =>
    simp only [Pass.next]
    split <;> exact holds
  | send => exact ⟨holds, rfl⟩
  | size tail =>
    rcases holds with ⟨law, atTail⟩
    subst atTail
    simp only [Pass.next]
    split
    · exact law
    · rename_i waiting
      exact ⟨law, rfl, fun same => waiting ((TtyQueue.chars_eq_zero law.ranged).mpr same)⟩
  | ready tail =>
    rcases holds with ⟨law, atTail, apart⟩
    subst atTail
    have order : t.traffic.sent ++ t.writeQ.contents = t.traffic.put := law.order
    rw [TtyQueue.contents_getch law.ranged apart] at order
    refine ⟨rfl, apart, ⟨law.ranged.head, Nat.mod_lt _ (by decide)⟩, ?_⟩
    exact (List.append_assoc ..).trans order
  | sent tail => exact holds.2.2

end Law

section Run

variable {s s' : Steps} {e : StepEvent}

/-- The first load of a turn. -/
theorem Outgoing.begins {l : Line} {e : Event} {i : Nat} {pass : Pass} (law : Outgoing l.tty)
    (begins : l.begins e = some (i, pass)) : Pass.Holds l.tty (some pass) := by
  unfold Line.begins at begins
  split at begins
  · split at begins
    · rename_i writer _ _
      rcases Option.map_eq_some_iff.mp begins with ⟨first, loads, same⟩
      cases same
      unfold Writer.begins at loads
      split at loads
      · cases loads
        exact law
      · cases loads
        exact ⟨law, law.ranged.tail, Nat.le_refl _⟩
      · cases loads
        exact law
      · cases loads
    · cases begins
  · cases begins

/-- A step of a process between its turns. -/
theorem Outgoing.process {l l' : Line} {e : Event} (law : Outgoing l.tty) (own : e.ofProcess = true)
    (stepped : l.step e = some l') : Outgoing l'.tty := by
  cases Line.step_effect stepped with
  | receive => cases own
  | cook => cases own
  | kill => cases own
  | send => cases own
  | none same =>
    rw [same]
    exact law
  | read some tty =>
    rw [tty]
    exact law.congr rfl rfl rfl
  | push tty =>
    rw [tty]
    exact law.rsWrite
  | write c crFlag vacant tty =>
    have left : 0 < l.tty.writeQ.left := by
      simpa [TtyQueue.full, Nat.pos_iff_ne_zero] using vacant
    have marked : Outgoing { l.tty with crFlag } := law.congr rfl rfl rfl
    rw [tty]
    exact marked.putWrite left c

theorem receive_output (t : Tty) (b : Byte) : SameOutput t (t.serialRevInterrupt b) := by
  unfold Tty.serialRevInterrupt
  split
  · exact ⟨rfl, rfl, rfl⟩
  · exact ⟨rfl, rfl, rfl⟩

/-- What one step keeps. A process changes the terminal only where no turn is broken off, and then only `secondary`. -/
theorem Steps.Holds.step (holds : s.Holds) (undisturbed : Undisturbed e s) (stepped : s.step e = some s') : s'.Holds := by
  cases e with
  | go =>
    simp only [Steps.step] at stepped
    split at stepped
    · rename_i i pass here idle
      split at stepped
      · rename_i writer writing
        cases stepped
        have law : Pass.Holds s.line.tty (some pass) := by
          unfold Steps.Holds at holds
          rwa [here] at holds
        have next := law.next writer
        unfold Steps.Holds
        cases after : (pass.next s.line.tty writer).2.1 with
        | none =>
          rw [after] at next
          exact next
        | some pass' =>
          rw [after] at next
          exact next
      · cases stepped
    · cases stepped
  | line e =>
    -- an event that begins no turn
    have plain (interrupt : e.ofProcess = false) (none : s.line.begins e = none) :
        ∃ line, s.line.step e = some line ∧ s' = { s with line } := by
      simp only [Steps.step, interrupt, Bool.false_and, none] at stepped
      rcases Option.map_eq_some_iff.mp stepped with ⟨line, done, same⟩
      exact ⟨line, done, same.symm⟩
    by_cases own : e.ofProcess = true
    · simp only [Steps.step, own, Bool.true_and] at stepped
      split at stepped
      · cases stepped
      · rename_i whole
        rw [Bool.not_eq_true, Option.isSome_eq_false_iff, Option.isNone_iff_eq_none] at whole
        have law : Outgoing s.line.tty := by
          unfold Steps.Holds at holds
          rwa [whole] at holds
        split at stepped
        · rename_i pass begins
          cases stepped
          exact law.begins begins
        · rcases Option.map_eq_some_iff.mp stepped with ⟨line, done, same⟩
          rw [← same]
          unfold Steps.Holds
          rw [whole]
          exact law.process own done
    · rw [Bool.not_eq_true] at own
      cases e with
      | receive b =>
        rcases plain own rfl with ⟨line, done, same⟩
        simp only [Line.step] at done
        split at done
        · cases done
          rw [same]
          exact holds.output (receive_output s.line.tty b)
        · cases done
      | handle =>
        rcases plain own rfl with ⟨line, done, same⟩
        have output := handle_output done
        rw [same]
        unfold Undisturbed at undisturbed
        cases echoed : turnEcho s.line with
        | none =>
          rw [echoed] at output
          exact holds.output output
        | some bytes =>
          simp only [echoed] at undisturbed
          rw [echoed] at output
          rcases undisturbed with ⟨room, quiet, free⟩
          have puts : (s.pass.map Prod.snd).any Pass.puts = s.puts := Option.any_map ..
          have sends : (s.pass.map Prod.snd).any Pass.sends = s.sends := Option.any_map ..
          exact (holds.echoing room (by rwa [puts]) (by rwa [sends])).output output
      | send =>
        rcases plain own rfl with ⟨line, done, same⟩
        cases done
        rw [same]
        have sends : (s.pass.map Prod.snd).any Pass.sends = s.sends := Option.any_map ..
        exact holds.send (by rw [sends]; exact undisturbed)
      | read | write | resume => cases own

/-- The terminal; where `serial_send_interrupt` has written a byte to the transmitter, its next store, which takes it off
    the queue, counts as done. -/
def Steps.settled (s : Steps) : Tty :=
  match s.pass with
  | some (_, .sent tail) => { s.line.tty with writeQ := { s.line.tty.writeQ with tail := inc tail } }
  | _ => s.line.tty

/-- Over any traffic on the line, however the interrupts fall between the loads and stores of `tty_write`: as far as no
    turn of the handler and no interrupt disturbs it, no output byte is lost. -/
theorem output_not_lost (termios : Termios) (s : Steps)
    (run : Run (fun e s => s.step e) Undisturbed (Steps.boot termios) s) : Transmitted s.settled := by
  have start : (Steps.boot termios).Holds := Outgoing.boot termios
  have holds : s.Holds := run.invariant (I := Steps.Holds) start fun _ _ _ holds undisturbed stepped =>
    holds.step undisturbed stepped
  unfold Steps.Holds at holds
  unfold Steps.settled
  cases here : s.pass with
  | none =>
    rw [here] at holds
    exact Outgoing.order holds
  | some broken =>
    rcases broken with ⟨i, pass⟩
    rw [here] at holds
    cases pass with
    | sleepTest tail => exact Outgoing.order holds
    | empty head => exact Outgoing.order holds
    | send => exact Outgoing.order holds
    | sent tail => exact holds.2.2.order
    | _ => exact holds.1.order

/-- Two bytes are written while a byte is echoed and sent between the turns, and a send interrupt falls into `PUTCH`. -/
def echoedWrite : List StepEvent :=
  [.line (.write 0 0 2 fun i => if i = 0 then 98 else 99)] ++
    [.line (.resume 0 .none), .go, .line (.resume 0 .none)] ++
    [.line (.resume 0 .none), .go, .go, .line .send, .go, .go] ++
    [.line (.receive 97), .line .handle, .line .handle] ++
    [.line (.resume 0 .none), .go, .go, .line .send, .go, .go] ++
    [.line (.resume 0 .none), .line (.resume 0 .none), .go, .go, .go, .go, .go]

theorem echoed_byte_kept : ∃ s, Run (fun e s => Steps.step s e) Undisturbed (Steps.boot initTermios) s ∧
    s.line.tty.traffic.put = [98, 97, 99] ∧ s.line.tty.traffic.sent = [98, 97, 99] ∧ Transmitted s.settled := by
  have test : (runEvents (fun e s => Steps.step s e) Undisturbed echoedWrite (Steps.boot initTermios)).any (fun s =>
      s.line.tty.traffic.put = [98, 97, 99] ∧ s.line.tty.traffic.sent = [98, 97, 99]) = true := by decide +kernel
  rcases Run.of_test test with ⟨s, run, bytes⟩
  have both := of_decide_eq_true bytes
  exact ⟨s, run, both.1, both.2, output_not_lost initTermios s run⟩

end Run

section Whole

variable {l l' start : Line} {t : Tty} {i : Nat} {writer : Writer} {pass : Pass}

/-- The steps from `start` on, whatever disturbs them. -/
abbrev AnyRun (start : Line) (s : Steps) : Prop := Run (fun e s => Steps.step s e) (fun _ _ => True) ⟨start, none⟩ s

theorem AnyRun.go (run : AnyRun start ⟨{ l with tty := t }.set i (.writing writer), some (i, pass)⟩) (idle : l.handler = .idle) :
    AnyRun start ⟨{ l with tty := (pass.next t writer).2.2 }.set i (.writing (pass.next t writer).1),
      (pass.next t writer).2.1.map (i, ·)⟩ := by
  refine run.next (e := .go) trivial ?_
  simp only [Steps.step, Line.set, idle, Function.update_self, Function.update_idem]

theorem writeTurn_eq (t : Tty) (b : Byte) :
    t.writeTurn b = ((t.writeChar b).2.2, { t with crFlag := (t.writeChar b).2.1 }.putWrite (t.writeChar b).1) := by
  unfold Tty.writeTurn Tty.writeChar
  dsimp only
  split
  · rfl
  · rfl

/-- A turn without a disturbance does what it does as one step. -/
theorem AnyRun.turn {pending : Pending} (run : AnyRun start ⟨{ l with tty := t }.set i (.writing writer), some (i, pass)⟩)
    (idle : l.handler = .idle) (begins : writer.begins t = some pass) :
    AnyRun start ⟨{ l with tty := (writer.step pending t).2 }.set i (.writing (writer.step pending t).1), none⟩ := by
  have tested : low (t.writeQ.tail - t.writeQ.head - 1) = t.writeQ.left := rfl
  have waits : low (t.writeQ.head - t.writeQ.tail) = t.writeQ.chars := rfl
  have full : t.writeQ.full = true ↔ t.writeQ.left = 0 := beq_iff_eq
  unfold Writer.begins at begins
  split at begins
  · rename_i b bytes done
    cases begins
    have first := run.go idle
    simp only [Pass.next, tested] at first
    simp only [Writer.step, full, reduceCtorEq, if_false]
    split
    · rename_i none
      rw [if_pos none] at first
      exact first
    · rename_i some
      rw [if_neg some] at first
      exact first
  · rename_i b bytes done
    cases begins
    have first := run.go idle
    simp only [Pass.next, tested] at first
    simp only [Writer.step, full]
    split
    · rename_i none
      rw [if_pos none] at first
      exact first
    · rename_i some
      rw [if_neg some] at first
      have last := ((AnyRun.go first idle).go idle).go idle
      rw [writeTurn_eq]
      exact last
  · rename_i bytes done
    cases begins
    have first := run.go idle
    simp only [Pass.next] at first
    simp only [Writer.step, Tty.rsWrite, TtyQueue.empty_eq_true]
    split
    · rename_i none
      rw [if_pos none] at first
      exact first
    · rename_i some
      rw [if_neg some] at first
      have atSize := AnyRun.go first idle
      simp only [Pass.next] at atSize
      have sized := AnyRun.go atSize idle
      simp only [Pass.next, waits] at sized
      unfold Tty.serialSendInterrupt
      split
      · rename_i waiting
        rw [if_neg waiting] at sized
        exact (AnyRun.go sized idle).go idle
      · rename_i nothing
        rw [if_pos (not_not.mp nothing)] at sized
        exact sized
  · cases begins

/-- What the line does turn by turn, it also does load by load. -/
theorem AnyRun.step {e : Event} (run : AnyRun start ⟨l, none⟩) (stepped : l.step e = some l') : AnyRun start ⟨l', none⟩ := by
  cases begins : l.begins e with
  | none =>
    refine run.next (e := .line e) trivial ?_
    simp only [Steps.step, Option.isSome_none, Bool.and_false, begins, stepped, Option.map_some]
    rfl
  | some first =>
    have begun : Steps.step ⟨l, none⟩ (.line e) = some ⟨l, some first⟩ := by
      simp only [Steps.step, Option.isSome_none, Bool.and_false, begins]
      rfl
    have running := run.next (e := .line e) trivial begun
    unfold Line.begins at begins
    split at begins
    · rename_i i pending
      split at begins
      · rename_i writer idle here
        rcases Option.map_eq_some_iff.mp begins with ⟨pass, loads, same⟩
        subst same
        have own : { l with tty := l.tty }.set i (.writing writer) = l := by
          unfold Line.set
          rw [← here, Function.update_eq_self]
        have turned : l.step (.resume i pending) =
            some ({ l with tty := (writer.step pending l.tty).2 }.set i (.writing (writer.step pending l.tty).1)) :=
          Line.step_writing idle here (by rintro value rfl; cases loads) rfl
        rw [turned] at stepped
        cases stepped
        rw [← own] at running
        exact AnyRun.turn running idle loads
      · cases begins
    · cases begins

theorem AnyRun.of_line (run : Run (fun e s => Line.step s e) (fun _ _ => True) start l) : AnyRun start ⟨l, none⟩ := by
  induction run with
  | start => exact .start
  | next _ _ stepped ih => exact ih.step stepped

/-- A `tty_write` leaves one place on `write_q`, and the echo of a newline takes two. -/
theorem echo_loses_output : ¬ ∀ (termios : Termios) (s : Steps),
    Run (fun e s => Steps.step s e) (fun _ _ => True) (Steps.boot termios) s → Transmitted s.settled := by
  intro law
  rcases newline_overruns with ⟨l, run, lost⟩
  exact lost (law initTermios ⟨l, none⟩ (AnyRun.of_line run))

end Whole

end K210Linux.Chr
