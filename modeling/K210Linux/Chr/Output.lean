import K210Linux.Lib.Run
import K210Linux.Chr.Line

namespace K210Linux.Chr

open K210Linux.Lib

/-- What was transmitted, followed by what waits in `write_q`. -/
def Tty.stream (t : Tty) : List Byte := t.traffic.sent ++ t.writeQ.contents

/-- The law of the output. -/
def Transmitted (t : Tty) : Prop := t.traffic.sent ++ t.writeQ.contents = t.traffic.put

/-- The law, with the indices of the queue inside the buffer. -/
structure Outgoing (t : Tty) : Prop where
  ranged : t.writeQ.Ranged
  order : Transmitted t

variable {t t' : Tty} {c : Byte} {bytes : List Byte}

theorem Outgoing.congr (law : Outgoing t) (queue : t'.writeQ = t.writeQ) (put : t'.traffic.put = t.traffic.put)
    (sent : t'.traffic.sent = t.traffic.sent) : Outgoing t' := by
  constructor
  · rw [queue]
    exact law.ranged
  · rw [Transmitted, queue, put, sent]
    exact law.order

theorem stream_putWrite (ranged : t.writeQ.Ranged) (room : 0 < t.writeQ.left) (c : Byte) :
    (t.putWrite c).stream = t.stream ++ [c] := by
  change t.traffic.sent ++ (t.writeQ.putch c).contents = t.traffic.sent ++ t.writeQ.contents ++ [c]
  rw [TtyQueue.contents_putch ranged room, List.append_assoc]

theorem stream_serialSendInterrupt (ranged : t.writeQ.Ranged) : t.serialSendInterrupt.stream = t.stream := by
  unfold Tty.serialSendInterrupt
  split
  · rename_i waiting
    have apart : t.writeQ.head ≠ t.writeQ.tail := fun same => waiting ((TtyQueue.chars_eq_zero ranged).2 same)
    change t.traffic.sent ++ [t.writeQ.getch.1] ++ t.writeQ.getch.2.contents = t.traffic.sent ++ t.writeQ.contents
    rw [TtyQueue.contents_getch ranged apart, List.append_assoc]
    rfl
  · rfl

theorem ranged_serialSendInterrupt (ranged : t.writeQ.Ranged) : t.serialSendInterrupt.writeQ.Ranged := by
  unfold Tty.serialSendInterrupt
  split
  · exact ranged.getch
  · exact ranged

theorem put_serialSendInterrupt (t : Tty) : t.serialSendInterrupt.traffic.put = t.traffic.put := by
  unfold Tty.serialSendInterrupt
  split <;> rfl

theorem Outgoing.putWrite (law : Outgoing t) (room : 0 < t.writeQ.left) (c : Byte) : Outgoing (t.putWrite c) := by
  constructor
  · exact law.ranged.putch c
  · have order : t.stream = t.traffic.put := law.order
    exact (stream_putWrite law.ranged room c).trans (congrArg (· ++ [c]) order)

theorem left_putWrite (law : Outgoing t) (room : 0 < t.writeQ.left) :
    (t.putWrite c).writeQ.left + 1 = t.writeQ.left := by
  have before := TtyQueue.chars_add_left law.ranged
  have after := TtyQueue.chars_add_left (law.ranged.putch c)
  rw [TtyQueue.chars_putch law.ranged room] at after
  change (t.writeQ.putch c).left + 1 = t.writeQ.left
  omega

theorem Outgoing.putAll (law : Outgoing t) (room : bytes.length ≤ t.writeQ.left) :
    Outgoing (bytes.foldl Tty.putWrite t) := by
  induction bytes generalizing t with
  | nil => exact law
  | cons b bytes ih =>
    simp only [List.length_cons] at room
    have first : 0 < t.writeQ.left := by omega
    have rest := left_putWrite (c := b) law first
    exact ih (law.putWrite first b) (by omega)

theorem Outgoing.serialSendInterrupt (law : Outgoing t) : Outgoing t.serialSendInterrupt := by
  constructor
  · exact ranged_serialSendInterrupt law.ranged
  · have order : t.stream = t.traffic.put := law.order
    change t.serialSendInterrupt.stream = _
    rw [stream_serialSendInterrupt law.ranged, put_serialSendInterrupt, order]

theorem Outgoing.rsWrite (law : Outgoing t) : Outgoing t.rsWrite := by
  unfold Tty.rsWrite
  split
  · exact law
  · exact law.serialSendInterrupt

theorem Outgoing.echoBytes (law : Outgoing t) (room : bytes.length ≤ t.writeQ.left) : Outgoing (t.echoBytes bytes) :=
  (law.putAll room).rsWrite

/-- The bytes, if the terminal echoes at all. -/
def ifEcho (t : Termios) (bytes : List Byte) : Option (List Byte) := if t.lFlag echo then some bytes else none

/-- The bytes that `copy_to_cooked` puts on `write_q` for a translated character before it calls `tty -> write`, if it
    comes to echo it. -/
def charEcho (t : Tty) (c : Byte) : Option (List Byte) :=
  let canon := t.termios.lFlag icanon
  let sig := t.termios.lFlag isig
  if canon && same c t.termios.killChar then none
  else if canon && same c t.termios.eraseChar then
    if t.secondary.empty || endsLine t.termios t.secondary.last then none
    else ifEcho t.termios (rubout t.secondary.last)
  else if canon && same c t.termios.stopChar then none
  else if canon && same c t.termios.startChar then none
  else if sig && same c t.termios.intrChar then none
  else if sig && same c t.termios.quitChar then none
  else ifEcho t.termios (echoed t.termios c)

/-- The bytes that the next turn of the handler puts on `write_q`. -/
def turnEcho (s : Line) : Option (List Byte) :=
  match s.handler with
  | .idle => none
  | .cooking =>
    if s.tty.goesRound then (translate s.tty.termios (s.tty.readQ.buf s.tty.readQ.tail)).bind (charEcho s.tty) else none
  | .killing c => (s.tty.killing c).bind fun c => ifEcho s.tty.termios (rubout c)

/-- The output of a turn that echoes these bytes. -/
def Tty.echoing (t : Tty) : Option (List Byte) → Tty
  | none => t
  | some bytes => t.echoBytes bytes

/-- Two terminals have the same output. -/
structure SameOutput (t t' : Tty) : Prop where
  queue : t'.writeQ = t.writeQ
  put : t'.traffic.put = t.traffic.put
  sent : t'.traffic.sent = t.traffic.sent

theorem Outgoing.output (law : Outgoing t) (same : SameOutput t t') : Outgoing t' := law.congr same.queue same.put same.sent

theorem SameOutput.trans {t'' : Tty} (one : SameOutput t t') (two : SameOutput t' t'') : SameOutput t t'' :=
  ⟨two.queue.trans one.queue, two.put.trans one.put, two.sent.trans one.sent⟩

theorem SameOutput.putWrite (same : SameOutput t t') (c : Byte) : SameOutput (t.putWrite c) (t'.putWrite c) := by
  refine ⟨?_, ?_, same.sent⟩
  · exact congrArg (TtyQueue.putch c) same.queue
  · exact congrArg (· ++ [c]) same.put

theorem SameOutput.serialSendInterrupt (same : SameOutput t t') :
    SameOutput t.serialSendInterrupt t'.serialSendInterrupt := by
  unfold Tty.serialSendInterrupt
  rw [same.queue]
  split
  · refine ⟨rfl, same.put, ?_⟩
    exact congrArg (· ++ [t.writeQ.getch.1]) same.sent
  · exact same

theorem SameOutput.rsWrite (same : SameOutput t t') : SameOutput t.rsWrite t'.rsWrite := by
  unfold Tty.rsWrite
  rw [same.queue]
  split
  · exact same
  · exact same.serialSendInterrupt

theorem SameOutput.echoBytes (same : SameOutput t t') (bytes : List Byte) :
    SameOutput (t.echoBytes bytes) (t'.echoBytes bytes) := by
  have all (bytes : List Byte) : SameOutput (bytes.foldl Tty.putWrite t) (bytes.foldl Tty.putWrite t') := by
    induction bytes generalizing t t' with
    | nil => exact same
    | cons b bytes ih => exact ih (same.putWrite b)
  exact (all bytes).rsWrite

theorem ifEcho_output (t : Tty) (bytes : List Byte) :
    SameOutput (t.echoing (ifEcho t.termios bytes)) (if t.termios.lFlag echo then t.echoBytes bytes else t) := by
  unfold ifEcho
  split
  · exact ⟨rfl, rfl, rfl⟩
  · exact ⟨rfl, rfl, rfl⟩

theorem takeBack_output (t : Tty) (c : Byte) : SameOutput (t.echoing (ifEcho t.termios (rubout c))) (t.takeBack c) :=
  (ifEcho_output t (rubout c)).trans ⟨rfl, rfl, rfl⟩

theorem store_output (t : Tty) (c : Byte) : SameOutput (t.echoing (ifEcho t.termios (echoed t.termios c))) (t.store c) := by
  have counted : SameOutput (t.echoing (ifEcho t.termios (echoed t.termios c)))
      (if t.termios.lFlag echo then
        { t with secondary := { t.secondary with data := t.secondary.data + 1 } }.echoBytes (echoed t.termios c)
        else { t with secondary := { t.secondary with data := t.secondary.data + 1 } }) := by
    unfold ifEcho
    split
    · have same : SameOutput t { t with secondary := { t.secondary with data := t.secondary.data + 1 } } := ⟨rfl, rfl, rfl⟩
      exact same.echoBytes _
    · exact ⟨rfl, rfl, rfl⟩
  simp only [Tty.store]
  split
  · exact counted.trans ⟨rfl, rfl, rfl⟩
  · exact (ifEcho_output t _).trans ⟨rfl, rfl, rfl⟩

theorem cookChar_output (t : Tty) (c : Byte) : SameOutput (t.echoing (charEcho t c)) (t.cookChar c).2 := by
  simp only [charEcho, Tty.cookChar]
  split_ifs with kill erase nothing stop start intr quit
  · exact ⟨rfl, rfl, rfl⟩
  · exact ⟨rfl, rfl, rfl⟩
  · exact takeBack_output t _
  · exact ⟨rfl, rfl, rfl⟩
  · exact ⟨rfl, rfl, rfl⟩
  · exact ⟨rfl, rfl, rfl⟩
  · exact ⟨rfl, rfl, rfl⟩
  · exact store_output t c

theorem cook_output (t : Tty) : SameOutput (t.echoing (if t.goesRound then
    (translate t.termios (t.readQ.buf t.readQ.tail)).bind (charEcho t) else none)) t.cook.2 := by
  unfold Tty.cook
  split
  · have taken : SameOutput t t.getRead.2 := ⟨rfl, rfl, rfl⟩
    have char : translate t.getRead.2.termios t.getRead.1 = translate t.termios (t.readQ.buf t.readQ.tail) := rfl
    dsimp only
    rw [char]
    cases translate t.termios (t.readQ.buf t.readQ.tail) with
    | none => exact taken
    | some c =>
      have same : SameOutput (t.echoing (charEcho t c)) (t.getRead.2.echoing (charEcho t c)) := by
        cases charEcho t c with
        | none => exact taken
        | some bytes => exact taken.echoBytes bytes
      exact same.trans (cookChar_output t.getRead.2 c)
  · exact ⟨rfl, rfl, rfl⟩

theorem kill_output (t : Tty) (c : Byte) :
    SameOutput (t.echoing ((t.killing c).bind fun c => ifEcho t.termios (rubout c))) (t.kill c).2 := by
  unfold Tty.kill
  cases t.killing c with
  | none => exact ⟨rfl, rfl, rfl⟩
  | some d => exact takeBack_output t d

/-- The output of a turn of the handler is that of its echo. -/
theorem handle_output {s s' : Line} (turn : s.handle = some s') : SameOutput (s.tty.echoing (turnEcho s)) s'.tty := by
  cases mode : s.handler with
  | idle =>
    simp only [Line.handle, mode] at turn
    cases turn
  | cooking =>
    simp only [Line.handle, mode] at turn
    rw [← Option.some.inj turn]
    simp only [turnEcho, mode]
    exact cook_output s.tty
  | killing c =>
    simp only [Line.handle, mode] at turn
    rw [← Option.some.inj turn]
    simp only [turnEcho, mode]
    exact kill_output s.tty c

theorem Outgoing.boot (termios : Termios) : Outgoing (Tty.boot termios) := ⟨TtyQueue.zero_ranged, rfl⟩

/-- The line while process 0 has put `n` bytes of a `tty_write` on `write_q`, and nothing was sent. -/
structure Filling (n : Nat) (s : Line) : Prop where
  idle : s.handler = .idle
  termios : s.tty.termios = initTermios
  readQ : s.tty.readQ = .zero
  secondary : s.tty.secondary = .zero
  head : s.tty.writeQ.head = n
  tail : s.tty.writeQ.tail = 0
  put : s.tty.traffic.put.length = n
  sent : s.tty.traffic.sent = []
  writer : s.process 0 = .writing (.filling (List.replicate (1023 - n) 97) n)

theorem Filling.next {n : Nat} {s : Line} (filling : Filling n s) (below : n < 1023)
    (run : Run (fun e s => Line.step s e) (fun _ _ => True) (Line.boot initTermios) s) :
    ∃ s, Run (fun e s => Line.step s e) (fun _ _ => True) (Line.boot initTermios) s ∧ Filling (n + 1) s := by
  have room : s.tty.writeQ.full = false := by
    simp only [TtyQueue.full, TtyQueue.left, filling.head, filling.tail, low, ttyBufSize, beq_eq_false_iff_ne]
    omega
  let put := { s.tty with crFlag := false }.putWrite 97
  have off : s.tty.termios.oFlag opost = false := by
    rw [filling.termios]
    decide
  have turn : s.tty.writeTurn 97 = (true, put) := by
    simp [Tty.writeTurn, translateOut, off, put]
  have bytes : List.replicate (1023 - n) (97 : Byte) = 97 :: List.replicate (1023 - (n + 1)) 97 := by
    rw [← List.replicate_succ]
    congr 1
    omega
  have stepped : s.step (.resume 0 .none) = some ({ s with tty := put }.set 0
      (.writing (.filling (List.replicate (1023 - (n + 1)) 97) (n + 1)))) := by
    apply Line.step_writing filling.idle filling.writer (fun _ same => by cases same)
    rw [bytes]
    simp only [Writer.step, room, turn]
    rfl
  refine ⟨_, run.next trivial stepped, ?_⟩
  exact {
    idle := filling.idle
    termios := filling.termios
    readQ := filling.readQ
    secondary := filling.secondary
    head := by
      change inc s.tty.writeQ.head = n + 1
      rw [filling.head, inc, ttyBufSize, Nat.mod_eq_of_lt (by omega)]
    tail := filling.tail
    put := by
      change (s.tty.traffic.put ++ [97]).length = n + 1
      rw [List.length_append, filling.put]
      rfl
    sent := filling.sent
    writer := by simp [Line.set] }

theorem filling_all {n : Nat} (below : n ≤ 1023) :
    ∃ s, Run (fun e s => Line.step s e) (fun _ _ => True) (Line.boot initTermios) s ∧ Filling n s := by
  induction n with
  | zero =>
    let bytes : List Byte := List.replicate 1023 97
    let called : Line := (Line.boot initTermios).set 0 (.writing (.top bytes 0))
    let awake : Line := called.set 0 (.writing (.awake bytes 0))
    let ready : Line := awake.set 0 (.writing (.filling bytes 0))
    have calls : (Line.boot initTermios).step (.write 0 0 1023 fun _ => 97) = some called := by
      have same : bytes = (List.range 1023).map fun _ => 97 := by rw [List.map_const', List.length_range]
      simp only [called, same]
      rfl
    have wakes : called.step (.resume 0 .none) = some awake := Line.step_writing rfl rfl nofun rfl
    have fills : awake.step (.resume 0 .none) = some ready := Line.step_writing rfl rfl nofun rfl
    exact ⟨ready, ((Run.start.next trivial calls).next trivial wakes).next trivial fills,
      rfl, rfl, rfl, rfl, rfl, rfl, rfl, rfl, rfl⟩
  | succ n ih =>
    rcases ih (by omega) with ⟨s, run, filling⟩
    exact filling.next (by omega) run

theorem Tty.cook_nl {t : Tty} (termios : t.termios = initTermios) (secondary : t.secondary = .zero)
    (some : t.readQ.empty = false) (newline : t.readQ.buf t.readQ.tail = nl) :
    t.cook = (.cooking, t.getRead.2.store nl) := by
  have round : t.goesRound = true := by
    rw [goesRound, some, secondary]
    decide
  have same : translate t.getRead.2.termios t.getRead.1 = Option.some nl := by
    rw [show t.getRead.1 = nl from newline, show t.getRead.2.termios = initTermios from termios]
    decide
  have stored : t.getRead.2.cookChar nl = (.cooking, t.getRead.2.store nl) := by
    simp only [cookChar, show t.getRead.2.termios = initTermios from termios]
    rfl
  rw [cook, if_pos round]
  simp only [same, stored]

/-- A newline echoed with one place left on `write_q` makes the head meet the tail. -/
theorem Tty.store_overruns {t : Tty} (termios : t.termios = initTermios) (head : t.writeQ.head = 1023)
    (tail : t.writeQ.tail = 1) :
    (t.store nl).writeQ.contents = [] ∧ (t.store nl).traffic.sent = t.traffic.sent ∧
      (t.store nl).traffic.put = t.traffic.put ++ [cr] ++ [nl] := by
  let counted := { t with secondary := { t.secondary with data := t.secondary.data + 1 } }
  let put := (counted.putWrite cr).putWrite nl
  have atHead : put.writeQ.head = 1 := by
    change inc (inc t.writeQ.head) = 1
    rw [head]
    rfl
  have met : put.writeQ.empty = true := by
    rw [TtyQueue.empty_eq_true, atHead]
    exact tail.symm
  have ends : endsLine t.termios nl = true := by
    rw [termios]
    decide
  have echoes : t.termios.lFlag echo = true := by
    rw [termios]
    decide
  have stored : t.store nl = { put with secondary := put.secondary.putch nl } := by
    have echo : echoed t.termios nl = [cr, nl] := rfl
    simp only [store, ends, echoes, if_true, echo, echoBytes, List.foldl_cons, List.foldl_nil]
    rw [rsWrite, if_pos met]
  rw [stored]
  refine ⟨?_, rfl, rfl⟩
  have ranged : put.writeQ.Ranged := ⟨by rw [atHead]; decide, by rw [show put.writeQ.tail = 1 from tail]; decide⟩
  exact (TtyQueue.empty_iff_contents ranged).1 met

/-- A `tty_write` leaves one place on `write_q`, and the echo of a newline takes two. -/
theorem newline_overruns : ∃ s, Run (fun e s => Line.step s e) (fun _ _ => True) (Line.boot initTermios) s ∧
    ¬ Transmitted s.tty := by
  rcases filling_all (n := 1023) le_rfl with ⟨s, run, filling⟩
  let filled : Line := s.set 0 (.writing (.pushing [] 1023))
  let pushed : Line := { filled with tty := s.tty.rsWrite }.set 0 (.writing (.top [] 1023))
  let received : Line := { pushed with tty := s.tty.rsWrite.serialRevInterrupt nl, handler := .cooking }
  have fills : s.step (.resume 0 .none) = some filled := Line.step_writing filling.idle filling.writer nofun rfl
  have pushing : filled.process 0 = .writing (.pushing [] 1023) := by simp [filled, Line.set]
  have pushes : filled.step (.resume 0 .none) = some pushed :=
    Line.step_writing (s := filled) filling.idle pushing nofun rfl
  have idle : pushed.handler = .idle := filling.idle
  have receives : pushed.step (.receive nl) = some received := by
    rw [Line.step, if_pos idle]
    rfl
  have cooks : received.step .handle = some { received with tty := received.tty.cook.2, handler := received.tty.cook.1 } := rfl
  refine ⟨_, (((run.next trivial fills).next trivial pushes).next trivial receives).next trivial cooks, ?_⟩
  intro order
  have waiting : s.tty.writeQ.chars = 1023 := by
    rw [TtyQueue.chars, filling.head, filling.tail]
    decide
  have sends : s.tty.rsWrite = { s.tty with
      writeQ := { s.tty.writeQ with tail := inc s.tty.writeQ.tail }
      traffic := { s.tty.traffic with sent := s.tty.traffic.sent ++ [s.tty.writeQ.buf s.tty.writeQ.tail] } } := by
    have some : s.tty.writeQ.empty = false := by
      simp [TtyQueue.empty, filling.head, filling.tail]
    have nonzero : s.tty.writeQ.chars ≠ 0 := by omega
    simp only [Tty.rsWrite, some, Tty.serialSendInterrupt, if_pos nonzero]
    rfl
  have readQ : s.tty.rsWrite.readQ = .zero := by
    rw [sends]
    exact filling.readQ
  have arrived : received.tty = { s.tty.rsWrite with
      readQ := { data := 0, head := 1, tail := 0, buf := overwrite (fun _ => 0) 0 [nl] }
      traffic := { s.tty.rsWrite.traffic with accepted := s.tty.rsWrite.traffic.accepted ++ [nl] } } := by
    change s.tty.rsWrite.serialRevInterrupt nl = _
    rw [Tty.serialRevInterrupt, readQ, if_pos (by decide)]
    rfl
  have termios : received.tty.termios = initTermios := by
    rw [arrived, sends]
    exact filling.termios
  have secondary : received.tty.secondary = .zero := by
    rw [arrived, sends]
    exact filling.secondary
  have cooked := Tty.cook_nl termios secondary (by rw [arrived]; rfl) (by rw [arrived]; rfl)
  have overrun := Tty.store_overruns (t := received.tty.getRead.2) termios
    (by rw [arrived, sends]; exact filling.head) (by rw [arrived, sends]; simp [Tty.getRead, filling.tail, inc, ttyBufSize])
  change received.tty.cook.2.traffic.sent ++ received.tty.cook.2.writeQ.contents = received.tty.cook.2.traffic.put at order
  rw [cooked, overrun.1, overrun.2.1, overrun.2.2, arrived, sends] at order
  have lengths := congrArg List.length order
  simp [Tty.getRead, filling.sent, filling.put] at lengths

end K210Linux.Chr
