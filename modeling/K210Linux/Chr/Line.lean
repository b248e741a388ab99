import K210Linux.Chr.Cooked

namespace K210Linux.Chr

/-- What the caller of `tty_read` or `tty_write` has in `current -> signal`: nothing, only the alarm that
    `tty_read` itself asked for, or another signal. -/
inductive Pending where
  | none
  | alarm
  | signal
deriving DecidableEq

/-- The variables of `tty_read`: what is left of `nr`, the bytes stored through `put_fs_byte`, and `minimum`. -/
structure Reading where
  nr : Nat
  got : List Byte
  minimum : Nat

/-- A call of `tty_read`: at the top of its outer loop, at the test of the inner loop, or over. -/
inductive Reader where
  | top (r : Reading)
  | draining (r : Reading)
  | returned (value : Int)

/-- `tty_read` up to its loop. The alarm it may set is not part of the terminal. -/
def ttyRead (t : Tty) (channel : Nat) (nr : Int) : Reader :=
  if channel > 0 ∨ nr < 0 then .returned (-1)
  else
    let minimum := t.termios.vmin.toNat
    let minimum := if t.termios.vtime ≠ 0 ∧ minimum = 0 then 1 else minimum
    .top { nr := nr.toNat, got := [], minimum := min minimum nr.toNat }

/-- The end of `tty_read`. -/
def Reading.finish (r : Reading) (pending : Pending) : Reader :=
  .returned (if pending = .signal ∧ r.got = [] then -4 else r.got.length)

/-- A turn of the inner loop of `tty_read`. -/
def Reading.turn (r : Reading) (t : Tty) : Reader × Tty :=
  let (c, q) := t.secondary.getch
  let q := if c = t.termios.eofChar ∨ c = nl then { q with data := q.data - 1 } else q
  let t := { t with secondary := q }
  if c = t.termios.eofChar ∧ t.termios.lFlag icanon then (.returned r.got.length, t)
  else (.draining { r with nr := r.nr - 1, got := r.got ++ [c] }, t)

/-- Whether `tty_read` goes to sleep. -/
def Tty.blocksReader (t : Tty) : Bool :=
  t.secondary.empty || (t.termios.lFlag icanon && t.secondary.data = 0 && decide (20 < t.secondary.left))

def Reader.step (pending : Pending) (t : Tty) : Reader → Reader × Tty
  | .top r =>
    if r.nr = 0 ∨ pending ≠ .none then (r.finish pending, t)
    else if t.blocksReader then (.top r, t)
    else r.turn t
  | .draining r =>
    if 0 < r.nr ∧ t.secondary.empty = false then r.turn t
    else if if t.termios.lFlag icanon then r.got ≠ [] else r.minimum ≤ r.got.length then (r.finish pending, t)
    else (.top r, t)
  | .returned value => (.returned value, t)

/-- A call of `tty_write`, with the bytes that are left and how many were put: at the top of its outer
    loop, asleep in `sleep_if_full`, after it, at the test of the inner loop, before `tty -> write`, or over. -/
inductive Writer where
  | top (bytes : List Byte) (done : Nat)
  | asleep (bytes : List Byte) (done : Nat)
  | awake (bytes : List Byte) (done : Nat)
  | filling (bytes : List Byte) (done : Nat)
  | pushing (bytes : List Byte) (done : Nat)
  | returned (value : Int)

/-- `tty_write` up to its loop, with the `nr` bytes at `buf`. -/
def ttyWrite (channel : Nat) (nr : Int) (buf : Nat → Byte) : Writer :=
  if channel > 0 ∨ nr < 0 then .returned (-1) else .top ((List.range nr.toNat).map buf) 0

/-- The carriage return translations of `tty_write`. -/
def translateOut (t : Termios) (b : Byte) : Byte :=
  if t.oFlag opost && b = cr && t.oFlag ocrnl then nl
  else if t.oFlag opost && b = nl && t.oFlag onlret then cr
  else b

/-- A turn of the inner loop of `tty_write` on `b`, and whether it went on to the next byte: a carriage
    return may come first, and `b` is then looked at again. -/
def Tty.writeTurn (t : Tty) (b : Byte) : Bool × Tty :=
  let post := t.termios.oFlag opost
  let c := translateOut t.termios b
  if post && c = nl && !t.crFlag && t.termios.oFlag onlcr then
    (false, { t with crFlag := true }.putWrite cr)
  else
    let c := if post && t.termios.oFlag olcuc then toupper c else c
    (true, { t with crFlag := false }.putWrite c)

def Writer.step (pending : Pending) (t : Tty) : Writer → Writer × Tty
  | .top bytes done =>
    if bytes = [] then (.returned done, t)
    else if t.writeQ.full then (.asleep bytes done, t)
    else (.awake bytes done, t)
  | .asleep bytes done =>
    if pending = .none ∧ t.writeQ.left < 128 then (.asleep bytes done, t) else (.awake bytes done, t)
  | .awake bytes done => if pending = .none then (.filling bytes done, t) else (.returned done, t)
  | .filling [] done => (.pushing [] done, t)
  | .filling (b :: bytes) done =>
    if t.writeQ.full then (.pushing (b :: bytes) done, t)
    else
      let (next, t) := t.writeTurn b
      (if next then .filling bytes (done + 1) else .filling (b :: bytes) done, t)
  | .pushing bytes done => (.top bytes done, t.rsWrite)
  | .returned value => (.returned value, t)

/-- A process, as far as the terminal sees it. -/
inductive Process where
  | user
  | reading (reader : Reader)
  | writing (writer : Writer)

/-- The terminal, the interrupt handler on it, and the processes that use it. -/
structure Line where
  tty : Tty
  handler : Handler
  process : Nat → Process

/-- The receive interrupt with a byte, a turn of its handler, the send interrupt, a system call of a
    process, and a turn of that call with what the process has pending. -/
inductive Event where
  | receive (b : Byte)
  | handle
  | send
  | read (i channel : Nat) (nr : Int)
  | write (i channel : Nat) (nr : Int) (buf : Nat → Byte)
  | resume (i : Nat) (pending : Pending)

def Line.set (s : Line) (i : Nat) (p : Process) : Line := { s with process := Function.update s.process i p }

/-- A turn of the handler. -/
def Line.handle (s : Line) : Option Line :=
  match s.handler with
  | .idle => none
  | .cooking => let (handler, tty) := s.tty.cook; some { s with tty, handler }
  | .killing c => let (handler, tty) := s.tty.kill c; some { s with tty, handler }

/-- A turn of the call that process `i` is in. -/
def Line.resume (s : Line) (i : Nat) (pending : Pending) : Option Line :=
  match s.process i with
  | .user => none
  | .reading (.returned _) => some (s.set i .user)
  | .writing (.returned _) => some (s.set i .user)
  | .reading reader => let (reader, tty) := reader.step pending s.tty; some ({ s with tty }.set i (.reading reader))
  | .writing writer => let (writer, tty) := writer.step pending s.tty; some ({ s with tty }.set i (.writing writer))

/-- A process runs only while no receive interrupt is handled, and starts a call only from user mode. A turn of it is one
    step, although system calls run with interrupts on: `Steps.step` has the turns of `tty_write` load by load. -/
def Line.step (s : Line) : Event → Option Line
  | .receive b =>
    if s.handler = .idle then some { s with tty := s.tty.serialRevInterrupt b, handler := .cooking } else none
  | .handle => s.handle
  | .send => some { s with tty := s.tty.serialSendInterrupt }
  | .read i channel nr =>
    match s.handler, s.process i with
    | .idle, .user => some (s.set i (.reading (ttyRead s.tty channel nr)))
    | _, _ => none
  | .write i channel nr buf =>
    match s.handler, s.process i with
    | .idle, .user => some (s.set i (.writing (ttyWrite channel nr buf)))
    | _, _ => none
  | .resume i pending => if s.handler = .idle then s.resume i pending else none

/-- An empty queue of `tty_table`. -/
def TtyQueue.zero : TtyQueue := { data := 0, head := 0, tail := 0, buf := fun _ => 0 }

theorem TtyQueue.zero_ranged : TtyQueue.zero.Ranged := ⟨by decide, by decide⟩

/-- The terminal at boot, but for its `termios`. -/
def Tty.boot (termios : Termios) : Tty where
  termios := termios
  stopped := false
  readQ := .zero
  writeQ := .zero
  secondary := .zero
  crFlag := false
  masks := []
  traffic := { accepted := [], taken := [], put := [], sent := [] }

def Line.boot (termios : Termios) : Line where
  tty := .boot termios
  handler := .idle
  process := fun _ => .user

/-- `INIT_C_CC`. -/
def initCC : List Byte := [3, 28, 127, 21, 4, 0, 1, 0, 17, 19, 26, 0, 18, 15, 23, 22, 0]

/-- The `termios` of `tty_table`. -/
def initTermios : Termios where
  iflag := icrnl
  oflag := 0
  lflag := isig ||| icanon ||| echo ||| 0o2000 ||| 0o4000
  cc := fun i => initCC.getD i 0

/-- What a turn of the inner loop of `tty_read` does to the terminal. -/
def Tty.getSecondary (t : Tty) : Tty :=
  let (c, q) := t.secondary.getch
  { t with secondary := if c = t.termios.eofChar ∨ c = nl then { q with data := q.data - 1 } else q }

theorem Reading.turn_tty (r : Reading) (t : Tty) : (r.turn t).2 = t.getSecondary := by
  simp only [turn]
  split <;> rfl

theorem Reader.step_cases (pending : Pending) (t : Tty) (reader : Reader) :
    (reader.step pending t).2 = t ∨
    (t.secondary.empty = false ∧ (reader.step pending t).2 = t.getSecondary) := by
  cases reader with
  | top r =>
    simp only [step]
    split_ifs with ended blocked
    · exact .inl rfl
    · exact .inl rfl
    · simp only [Tty.blocksReader, Bool.or_eq_true, not_or, Bool.not_eq_true] at blocked
      exact .inr ⟨blocked.1, r.turn_tty t⟩
  | draining r =>
    simp only [step]
    split_ifs with goes
    · exact .inr ⟨goes.2, r.turn_tty t⟩
    all_goals exact .inl rfl
  | returned value => exact .inl rfl

theorem Tty.writeTurn_cases (t : Tty) (b : Byte) :
    ∃ c crFlag, (t.writeTurn b).2 = { t with crFlag }.putWrite c := by
  simp only [writeTurn]
  split
  · exact ⟨cr, true, rfl⟩
  · exact ⟨_, false, rfl⟩

theorem Writer.step_cases (pending : Pending) (t : Tty) (writer : Writer) :
    (writer.step pending t).2 = t ∨ (writer.step pending t).2 = t.rsWrite ∨
    (t.writeQ.full = false ∧ ∃ c crFlag, (writer.step pending t).2 = { t with crFlag }.putWrite c) := by
  cases writer with
  | top bytes done =>
    simp only [step]
    split_ifs <;> exact .inl rfl
  | asleep bytes done =>
    simp only [step]
    split_ifs <;> exact .inl rfl
  | awake bytes done =>
    simp only [step]
    split_ifs <;> exact .inl rfl
  | filling bytes done =>
    cases bytes with
    | nil => exact .inl rfl
    | cons b bytes =>
      simp only [step]
      split_ifs with full
      · exact .inl rfl
      · exact .inr (.inr ⟨by simpa using full, t.writeTurn_cases b⟩)
      · exact .inr (.inr ⟨by simpa using full, t.writeTurn_cases b⟩)
  | pushing bytes done => exact .inr (.inl rfl)
  | returned value => exact .inl rfl

/-- What one step can do to the terminal. -/
inductive Line.Effect (s s' : Line) : Event → Prop
  | receive (b : Byte) (idle : s.handler = .idle) (cooking : s'.handler = .cooking)
      (tty : s'.tty = s.tty.serialRevInterrupt b) : Effect s s' (.receive b)
  | cook (cooking : s.handler = .cooking) (cooked : (s'.handler, s'.tty) = s.tty.cook) : Effect s s' .handle
  | kill {c : Byte} (killing : s.handler = .killing c) (killed : (s'.handler, s'.tty) = s.tty.kill c) :
      Effect s s' .handle
  | send (tty : s'.tty = s.tty.serialSendInterrupt) : Effect s s' .send
  | none {e : Event} (same : s'.tty = s.tty) : Effect s s' e
  | read {i : Nat} {pending : Pending} (some : s.tty.secondary.empty = false)
      (tty : s'.tty = s.tty.getSecondary) : Effect s s' (.resume i pending)
  | push {i : Nat} {pending : Pending} (tty : s'.tty = s.tty.rsWrite) : Effect s s' (.resume i pending)
  | write {i : Nat} {pending : Pending} (c : Byte) (crFlag : Bool) (room : s.tty.writeQ.full = false)
      (tty : s'.tty = { s.tty with crFlag }.putWrite c) : Effect s s' (.resume i pending)

theorem Line.resume_effect {s s' : Line} {i : Nat} {pending : Pending} (stepped : s.resume i pending = some s') :
    s.Effect s' (.resume i pending) := by
  simp only [resume] at stepped
  split at stepped
  · cases stepped
  · cases stepped
    exact .none rfl
  · cases stepped
    exact .none rfl
  · rename_i reader _ _
    cases stepped
    rcases reader.step_cases pending s.tty with same | ⟨some, tty⟩
    · exact .none same
    · exact .read some tty
  · rename_i writer _ _
    cases stepped
    rcases writer.step_cases pending s.tty with same | tty | ⟨room, c, crFlag, tty⟩
    · exact .none same
    · exact .push tty
    · exact .write c crFlag room tty

theorem Line.step_effect {s s' : Line} {e : Event} (stepped : s.step e = some s') : s.Effect s' e := by
  cases e with
  | receive b =>
    simp only [step] at stepped
    split at stepped
    · cases stepped
      exact .receive b ‹_› rfl rfl
    · cases stepped
  | handle =>
    simp only [step, handle] at stepped
    split at stepped
    · cases stepped
    · cases stepped
      exact .cook ‹_› rfl
    · cases stepped
      exact .kill ‹_› rfl
  | send =>
    cases stepped
    exact .send rfl
  | read i channel nr =>
    simp only [step] at stepped
    split at stepped
    · cases stepped
      exact .none rfl
    · cases stepped
  | write i channel nr buf =>
    simp only [step] at stepped
    split at stepped
    · cases stepped
      exact .none rfl
    · cases stepped
  | resume i pending =>
    simp only [step] at stepped
    split at stepped
    · exact resume_effect stepped
    · cases stepped

theorem Line.step_writing {s : Line} {i : Nat} {pending : Pending} {writer next : Writer} {tty : Tty}
    (idle : s.handler = .idle) (here : s.process i = .writing writer) (running : ∀ value, writer ≠ .returned value)
    (turn : writer.step pending s.tty = (next, tty)) :
    s.step (.resume i pending) = some ({ s with tty }.set i (.writing next)) := by
  rw [step, if_pos idle, resume, here]
  cases writer with
  | returned value => exact absurd rfl (running value)
  | _ => simp only [turn]

end K210Linux.Chr
