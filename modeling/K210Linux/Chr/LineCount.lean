import K210Linux.Lib.Run
import K210Linux.Chr.Line

namespace K210Linux.Chr

open K210Linux.Lib

def TtyQueue.flush (q : TtyQueue) : TtyQueue := { q with head := q.tail }

/-- `struct termio`. -/
structure Termio where
  iflag : BitVec 16
  oflag : BitVec 16
  lflag : BitVec 16
  cc : Nat → Byte

/-- The low half of a flag word replaced. -/
def setLow (flags : BitVec 32) (half : BitVec 16) : BitVec 32 := (flags &&& 0xFFFF0000) ||| half.setWidth 32

/-- `set_termio`. -/
def setTermio (t : Termios) (io : Termio) : Termios where
  iflag := setLow t.iflag io.iflag
  oflag := setLow t.oflag io.oflag
  lflag := setLow t.lflag io.lflag
  cc := fun i => if i < 8 then io.cc i else t.cc i

/-- The commands of `tty_ioctl` that flush a queue. -/
inductive Ioctl where
  | tcsetsf (termios : Termios)
  | tcsetaf (termio : Termio)
  | tcflsh (arg : Int)

def Tty.flushInput (t : Tty) : Tty := { t with readQ := t.readQ.flush, secondary := t.secondary.flush }

def Tty.flushOutput (t : Tty) : Tty := { t with writeQ := t.writeQ.flush }

/-- `tty_ioctl` on these commands. Any `termios` stands for what the copy from the user, one byte of it, leaves behind. -/
def ttyIoctl (t : Tty) : Ioctl → Int × Tty
  | .tcsetsf termios => (0, { t.flushInput with termios })
  | .tcsetaf io => (0, { t.flushInput with termios := setTermio t.termios io })
  | .tcflsh arg =>
    if arg = 0 then (0, t.flushInput)
    else if arg = 1 then (0, t.flushOutput)
    else if arg = 2 then (0, t.flushInput.flushOutput)
    else (-22, t)

/-- Traffic on the line, or a flush by a process. -/
inductive Action where
  | traffic (e : Event)
  | ioctl (call : Ioctl)

def Line.act (a : Action) (s : Line) : Option Line :=
  match a with
  | .traffic e => s.step e
  | .ioctl call => if s.handler = .idle then some { s with tty := (ttyIoctl s.tty call).2 } else none

/-- A newline or an end of file, as `tty_read` tells them. -/
def lineEnd (t : Termios) (b : Byte) : Bool := b = nl || b = t.eofChar

/-- The law of the line counter. -/
def LinesCounted (t : Tty) : Prop := t.secondary.data.toNat = t.secondary.contents.countP (lineEnd t.termios)

/-- The control characters stay as they are, and canonical mode stays on. -/
def KeepsModes : Action → Line → Prop
  | .ioctl (.tcsetsf termios), s => termios.cc = s.tty.termios.cc ∧ termios.lFlag icanon = true
  | .ioctl (.tcsetaf io), s =>
    (setTermio s.tty.termios io).cc = s.tty.termios.cc ∧ (setTermio s.tty.termios io).lFlag icanon = true
  | _, _ => True

/-- Whether a command flushes `secondary`. -/
def Ioctl.flushesInput : Ioctl → Bool
  | .tcflsh arg => arg = 0 || arg = 2
  | _ => true

/-- No line end leaves `secondary` uncounted: it is flushed only without one, the loop that kills the line
    takes none back, and an end of file character above 127 never arrives. -/
def NoLineDropped : Action → Line → Prop
  | .ioctl call, s => call.flushesInput = true → ∀ b ∈ s.tty.secondary.contents, lineEnd s.tty.termios b = false
  | .traffic .handle, s =>
    match s.handler with
    | .idle => True
    | .cooking => s.tty.goesRound = true → 128 ≤ s.tty.termios.eofChar.toNat →
        s.tty.readQ.buf s.tty.readQ.tail ≠ s.tty.termios.eofChar
    | .killing c => (s.tty.killing c).isSome = true → lineEnd s.tty.termios s.tty.secondary.last = false
  | _, _ => True

theorem same_iff {c cc : Byte} : same c cc = true ↔ c = cc ∧ c.toNat < 128 := by
  rw [same, beq_iff_eq, BitVec.toInt_eq_toNat_cond, ← BitVec.toNat_inj]
  have small : cc.toNat < 256 := cc.isLt
  split <;> omega

theorem endsLine_eq {t : Termios} {c : Byte} (plain : ¬ (c = t.eofChar ∧ 128 ≤ t.eofChar.toNat)) :
    endsLine t c = lineEnd t c := by
  have eof : same c t.eofChar = decide (c = t.eofChar) := by
    by_cases eq : c = t.eofChar
    · have small : c.toNat < 128 := by
        rw [eq]
        by_contra high
        exact plain ⟨eq, by omega⟩
      rw [same_iff.2 ⟨eq, small⟩, decide_eq_true eq]
    · rw [decide_eq_false eq, ← Bool.not_eq_true, same_iff]
      exact fun both => eq both.1
  rw [endsLine, lineEnd, eof]

theorem tolower_high {c : Byte} (high : 128 ≤ (tolower c).toNat) : tolower c = c := by
  unfold tolower at *
  split at high
  · rename_i upper
    have first : c.toNat ≤ 90 := upper.2
    rw [BitVec.toNat_add] at high
    have : (32 : Byte).toNat = 32 := rfl
    omega
  · rename_i other
    rw [if_neg other]

/-- The translations only touch characters below 128. -/
theorem translate_high {t : Termios} {b c : Byte} (high : 128 ≤ c.toNat) (translated : translate t b = some c) :
    b = c := by
  simp only [translate, Option.map_eq_some_iff] at translated
  rcases translated with ⟨d, first, rfl⟩
  have lower : (if t.iFlag iuclc then tolower d else d) = d := by
    split at high
    · rename_i on
      rw [if_pos on, tolower_high high]
    · rename_i off
      rw [if_neg off]
  rw [lower] at high ⊢
  split_ifs at first
  all_goals cases first
  · exact absurd high (by decide)
  · rfl
  · exact absurd high (by decide)
  · rfl

/-- The law of the line counter with what it rests on. -/
structure Counted (t : Tty) : Prop where
  canon : t.termios.lFlag icanon = true
  ranged : t.secondary.Ranged
  lines : LinesCounted t
  eof : 128 ≤ t.termios.eofChar.toNat → t.termios.eofChar ∉ t.secondary.contents

variable {t t' : Tty} {c : Byte}

theorem Counted.congr (law : Counted t) (termios : t'.termios = t.termios) (queue : t'.secondary = t.secondary) :
    Counted t' := by
  rcases law with ⟨canon, ranged, lines, eof⟩
  rw [← termios] at canon eof
  rw [← queue] at ranged eof
  refine ⟨canon, ranged, ?_, eof⟩
  rw [LinesCounted, termios, queue]
  exact lines

theorem Counted.last_plain (law : Counted t) (some : t.secondary.head ≠ t.secondary.tail)
    (noEnd : endsLine t.termios t.secondary.last = false) : lineEnd t.termios t.secondary.last = false := by
  rw [← noEnd]
  symm
  apply endsLine_eq
  intro high
  apply law.eof high.2
  rw [← high.1, TtyQueue.contents_unput law.ranged some]
  simp

/-- A byte that ends no line may be taken back. -/
theorem Counted.unput (law : Counted t) (some : t.secondary.head ≠ t.secondary.tail)
    (plain : lineEnd t.termios t.secondary.last = false) : Counted { t with secondary := t.secondary.unput } := by
  have contents := TtyQueue.contents_unput law.ranged some
  refine ⟨law.canon, law.ranged.unput, ?_, ?_⟩
  · have lines : t.secondary.data.toNat = t.secondary.contents.countP (lineEnd t.termios) := law.lines
    change t.secondary.data.toNat = t.secondary.unput.contents.countP (lineEnd t.termios)
    simpa [contents, List.countP_append, plain] using lines
  · intro high inside
    apply law.eof high
    rw [contents]
    exact List.mem_append_left _ inside

theorem cooked_serialSendInterrupt (t : Tty) :
    t.serialSendInterrupt.termios = t.termios ∧ t.serialSendInterrupt.secondary = t.secondary := by
  unfold Tty.serialSendInterrupt
  split <;> exact ⟨rfl, rfl⟩

theorem cooked_rsWrite (t : Tty) : t.rsWrite.termios = t.termios ∧ t.rsWrite.secondary = t.secondary := by
  unfold Tty.rsWrite
  split
  · exact ⟨rfl, rfl⟩
  · exact cooked_serialSendInterrupt t

/-- Echoes leave `secondary` alone. -/
theorem cooked_echo (on : Bool) (bytes : List Byte) (t : Tty) :
    (if on then t.echoBytes bytes else t).termios = t.termios ∧
      (if on then t.echoBytes bytes else t).secondary = t.secondary := by
  have put : (bytes.foldl Tty.putWrite t).termios = t.termios ∧
      (bytes.foldl Tty.putWrite t).secondary = t.secondary := by
    induction bytes generalizing t with
    | nil => exact ⟨rfl, rfl⟩
    | cons b bytes ih => exact ih (t.putWrite b)
  split
  · have pushed := cooked_rsWrite (bytes.foldl Tty.putWrite t)
    exact ⟨pushed.1.trans put.1, pushed.2.trans put.2⟩
  · exact ⟨rfl, rfl⟩

theorem Counted.takeBack (law : Counted t) (some : t.secondary.head ≠ t.secondary.tail)
    (plain : lineEnd t.termios t.secondary.last = false) : Counted (t.takeBack c) := by
  have frame := cooked_echo (t.termios.lFlag echo) (rubout c) t
  have echoed : Counted (if t.termios.lFlag echo then t.echoBytes (rubout c) else t) := law.congr frame.1 frame.2
  apply echoed.unput
  · rw [frame.2]
    exact some
  · rw [frame.1, frame.2]
    exact plain

theorem cooked_store (t : Tty) (c : Byte) :
    (t.store c).termios = t.termios ∧ (t.store c).secondary = { t.secondary.putch c with
      data := if endsLine t.termios c then t.secondary.data + 1 else t.secondary.data } := by
  simp only [Tty.store]
  by_cases ends : endsLine t.termios c = true
  · simp only [if_pos ends]
    have frame := cooked_echo (t.termios.lFlag echo) (echoed t.termios c)
      { t with secondary := { t.secondary with data := t.secondary.data + 1 } }
    rw [frame.1, frame.2]
    exact ⟨rfl, rfl⟩
  · simp only [if_neg ends]
    have frame := cooked_echo (t.termios.lFlag echo) (echoed t.termios c) t
    rw [frame.1, frame.2]
    exact ⟨rfl, rfl⟩

/-- The character that is stored is counted when it ends a line. -/
theorem Counted.store (law : Counted t) (room : 0 < t.secondary.left)
    (plain : ¬ (c = t.termios.eofChar ∧ 128 ≤ t.termios.eofChar.toNat)) : Counted (t.store c) := by
  have sum := TtyQueue.chars_add_left law.ranged
  have bound : t.secondary.contents.countP (lineEnd t.termios) ≤ 1023 := by
    have atMost := List.countP_le_length (p := lineEnd t.termios) (l := t.secondary.contents)
    rw [TtyQueue.length_contents] at atMost
    omega
  have lines : t.secondary.data.toNat = t.secondary.contents.countP (lineEnd t.termios) := law.lines
  let data := if endsLine t.termios c then t.secondary.data + 1 else t.secondary.data
  have stored := cooked_store t c
  have contents : (t.store c).secondary.contents = t.secondary.contents ++ [c] := by
    rw [stored.2]
    exact TtyQueue.contents_putch law.ranged room
  have dataEq : (t.store c).secondary.data = data := by rw [stored.2]
  refine ⟨?_, ?_, ?_, ?_⟩
  · rw [stored.1]
    exact law.canon
  · rw [stored.2]
    exact ⟨(law.ranged.putch c).head, law.ranged.tail⟩
  · rw [LinesCounted, contents, dataEq, stored.1, List.countP_append, ← lines]
    by_cases ends : endsLine t.termios c = true
    · have isEnd : lineEnd t.termios c = true := endsLine_eq plain ▸ ends
      simp only [data, if_pos ends, List.countP_singleton, isEnd, BitVec.toNat_add]
      have one : (1 : BitVec 32).toNat = 1 := rfl
      rw [one, Nat.mod_eq_of_lt (by omega)]
      rfl
    · have noEnd : ¬ lineEnd t.termios c = true := endsLine_eq plain ▸ ends
      simp [data, ends, noEnd]
  · rw [stored.1, contents]
    intro high inside
    rcases List.mem_append.1 inside with old | new
    · exact law.eof high old
    · exact plain ⟨(List.mem_singleton.1 new).symm, high⟩

theorem Counted.cookChar (law : Counted t) (room : 0 < t.secondary.left)
    (plain : ¬ (c = t.termios.eofChar ∧ 128 ≤ t.termios.eofChar.toNat)) : Counted (t.cookChar c).2 := by
  simp only [Tty.cookChar]
  split_ifs with kill erase nothing
  · exact law
  · exact law
  · simp only [Bool.or_eq_true, not_or, Bool.not_eq_true, TtyQueue.empty_eq_true] at nothing
    have some : t.secondary.head ≠ t.secondary.tail := by
      simpa [TtyQueue.empty] using nothing.1
    exact law.takeBack some (law.last_plain some nothing.2)
  all_goals first | exact law.congr rfl rfl | exact law.store room plain

theorem Counted.cook (law : Counted t) (plain : t.goesRound = true → 128 ≤ t.termios.eofChar.toNat →
    t.readQ.buf t.readQ.tail ≠ t.termios.eofChar) : Counted t.cook.2 := by
  unfold Tty.cook
  split
  · rename_i goes
    have room : 0 < t.secondary.left := by
      simp only [Tty.goesRound, Bool.and_eq_true, Bool.not_eq_true', TtyQueue.full, beq_eq_false_iff_ne] at goes
      omega
    have taken : Counted t.getRead.2 := law.congr rfl rfl
    simp only
    split
    · exact taken
    · rename_i c translated
      apply taken.cookChar room
      intro eof
      have high : 128 ≤ c.toNat := by
        rw [eof.1]
        exact eof.2
      exact plain goes eof.2 ((translate_high high translated).trans eof.1)
  · exact law

theorem Counted.kill (law : Counted t)
    (plain : (t.killing c).isSome = true → lineEnd t.termios t.secondary.last = false) : Counted (t.kill c).2 := by
  unfold Tty.kill
  split
  · rename_i d round
    have noEnd := plain (by rw [round]; rfl)
    by_cases none : t.secondary.head = t.secondary.tail
    · -- an empty queue goes round only because of a line end that is no longer inside
      have empty : t.secondary.empty = true := TtyQueue.empty_eq_true.2 none
      have ends : endsLine t.termios t.secondary.last = true := by
        by_contra other
        simp [Tty.killing, empty, other] at round
      simp only [endsLine, lineEnd, Bool.or_eq_true, Bool.or_eq_false_iff, decide_eq_true_eq,
        decide_eq_false_iff_not, same_iff] at ends noEnd
      rcases ends with newline | eof
      · exact absurd newline noEnd.1
      · exact absurd eof.1 noEnd.2
    · exact law.takeBack none noEnd
  · exact law

theorem Counted.getSecondary (law : Counted t) (some : t.secondary.empty = false) : Counted t.getSecondary := by
  have apart : t.secondary.head ≠ t.secondary.tail := by
    simpa [TtyQueue.empty] using some
  have contents := TtyQueue.contents_getch law.ranged apart
  have lines : t.secondary.data.toNat = t.secondary.contents.countP (lineEnd t.termios) := law.lines
  rw [contents, List.countP_cons] at lines
  have rest : t.getSecondary.secondary.contents = t.secondary.getch.2.contents := by
    simp only [Tty.getSecondary]
    split <;> rfl
  refine ⟨law.canon, ?_, ?_, ?_⟩
  · have ranged := law.ranged.getch
    simp only [Tty.getSecondary]
    split
    · exact ⟨ranged.head, ranged.tail⟩
    · exact ranged
  · rw [LinesCounted, rest]
    simp only [Tty.getSecondary]
    split
    · rename_i ends
      have isEnd : lineEnd t.termios t.secondary.getch.1 = true := by
        simpa [lineEnd, or_comm] using ends
      rw [if_pos isEnd] at lines
      change (t.secondary.data - 1).toNat = _
      rw [BitVec.toNat_sub_of_le]
      · rw [lines]
        rfl
      · rw [BitVec.le_def, lines]
        exact Nat.le_add_left 1 _
    · rename_i plain
      have noEnd : ¬ lineEnd t.termios t.secondary.getch.1 = true := by
        simpa [lineEnd, or_comm] using plain
      rw [if_neg noEnd] at lines
      exact lines
  · rw [rest]
    intro high inside
    apply law.eof high
    rw [contents]
    exact List.mem_cons_of_mem _ inside

/-- What a step of the traffic keeps. -/
theorem Counted.step {s s' : Line} {e : Event} (law : Counted s.tty) (kept : NoLineDropped (.traffic e) s)
    (stepped : s.step e = some s') : Counted s'.tty := by
  cases Line.step_effect stepped with
  | receive b idle cooking tty =>
    rw [tty]
    unfold Tty.serialRevInterrupt
    split
    · exact law.congr rfl rfl
    · exact law
  | cook cooking cooked =>
    rw [show s'.tty = s.tty.cook.2 from congrArg Prod.snd cooked]
    simp only [NoLineDropped, cooking] at kept
    exact law.cook kept
  | kill killing killed =>
    rw [show s'.tty = (s.tty.kill _).2 from congrArg Prod.snd killed]
    simp only [NoLineDropped, killing] at kept
    exact law.kill kept
  | send tty =>
    rw [tty]
    exact law.congr (cooked_serialSendInterrupt _).1 (cooked_serialSendInterrupt _).2
  | none same =>
    rw [same]
    exact law
  | read some tty =>
    rw [tty]
    exact law.getSecondary some
  | push tty =>
    rw [tty]
    exact law.congr (cooked_rsWrite _).1 (cooked_rsWrite _).2
  | write c crFlag room tty =>
    rw [tty]
    exact law.congr rfl rfl

/-- Without a line end inside, a flush leaves the counter right. -/
theorem Counted.flushInput (law : Counted t) (plain : ∀ b ∈ t.secondary.contents, lineEnd t.termios b = false) :
    Counted t.flushInput := by
  have ranged : t.flushInput.secondary.Ranged := ⟨law.ranged.tail, law.ranged.tail⟩
  have nothing : t.flushInput.secondary.contents = [] := (TtyQueue.empty_iff_contents ranged).1 (by
    rw [TtyQueue.empty_eq_true]
    rfl)
  have lines : t.secondary.data.toNat = t.secondary.contents.countP (lineEnd t.termios) := law.lines
  refine ⟨law.canon, ranged, ?_, ?_⟩
  · rw [LinesCounted, nothing]
    change t.secondary.data.toNat = 0
    rw [lines, List.countP_eq_zero]
    intro b inside
    rw [plain b inside]
    decide
  · rw [nothing]
    exact fun _ => List.not_mem_nil

theorem Counted.setTermios (law : Counted t) {termios : Termios} (chars : termios.cc = t.termios.cc)
    (canon : termios.lFlag icanon = true) : Counted { t with termios } := by
  have ends : lineEnd termios = lineEnd t.termios := by
    funext b
    rw [lineEnd, lineEnd, Termios.eofChar, Termios.eofChar, chars]
  refine ⟨canon, law.ranged, ?_, ?_⟩
  · rw [LinesCounted, ends]
    exact law.lines
  · rw [Termios.eofChar, chars]
    exact law.eof

theorem Counted.ioctl (law : Counted t) {call : Ioctl} {s : Line} (here : s.tty = t)
    (modes : KeepsModes (.ioctl call) s) (kept : NoLineDropped (.ioctl call) s) :
    Counted (ttyIoctl t call).2 := by
  subst here
  cases call with
  | tcsetsf termios => exact (law.flushInput (kept rfl)).setTermios modes.1 modes.2
  | tcsetaf io => exact (law.flushInput (kept rfl)).setTermios modes.1 modes.2
  | tcflsh arg =>
    simp only [NoLineDropped, Ioctl.flushesInput, Bool.or_eq_true, decide_eq_true_eq] at kept
    simp only [ttyIoctl]
    split_ifs with input output both
    · exact law.flushInput (kept (.inl input))
    · exact law.congr rfl rfl
    · exact (law.flushInput (kept (.inr both))).congr rfl rfl
    · exact law

/-- What one action keeps. -/
theorem Counted.act {s s' : Line} {a : Action} (law : Counted s.tty) (modes : KeepsModes a s)
    (kept : NoLineDropped a s) (acted : s.act a = some s') : Counted s'.tty := by
  cases a with
  | traffic e => exact law.step kept acted
  | ioctl call =>
    simp only [Line.act] at acted
    split at acted
    · cases acted
      exact law.ioctl rfl modes kept
    · cases acted

theorem Counted.boot {termios : Termios} (canon : termios.lFlag icanon = true) : Counted (Tty.boot termios) :=
  ⟨canon, TtyQueue.zero_ranged, rfl, fun _ => List.not_mem_nil⟩

/-- In canonical mode with fixed control characters, over any traffic and any flushes that drop no line
    end, the line counter is exact. -/
theorem line_counter_exact (termios : Termios) (canon : termios.lFlag icanon = true) (s : Line)
    (run : Run Line.act (fun a s => KeepsModes a s ∧ NoLineDropped a s) (Line.boot termios) s) :
    LinesCounted s.tty :=
  (run.invariant (I := fun s => Counted s.tty) (Counted.boot canon) fun _ _ _ law allowed acted =>
    law.act allowed.1 allowed.2 acted).lines

/-- The line while a newline waits in `read_q`, and after `copy_to_cooked` stored it. -/
def newlineArrived : Line :=
  { Line.boot initTermios with tty := (Tty.boot initTermios).serialRevInterrupt nl, handler := .cooking }

def newlineStored : Line := { newlineArrived with tty := newlineArrived.tty.cook.2, handler := .cooking }

def newlineHandled : Line := { newlineStored with handler := .idle }

theorem newline_counted :
    ∃ s, Run Line.act (fun a s => KeepsModes a s ∧ NoLineDropped a s) (Line.boot initTermios) s ∧
      s.tty.secondary.contents = [nl] ∧ LinesCounted s.tty := by
  have arrived : Run Line.act (fun a s => KeepsModes a s ∧ NoLineDropped a s) (Line.boot initTermios)
      newlineArrived := .next .start (e := .traffic (.receive nl)) ⟨trivial, trivial⟩ rfl
  have allowed : KeepsModes (.traffic .handle) newlineArrived ∧ NoLineDropped (.traffic .handle) newlineArrived := by
    refine ⟨trivial, ?_⟩
    intro _ high
    exact absurd high (by decide)
  have stored : Run Line.act (fun a s => KeepsModes a s ∧ NoLineDropped a s) (Line.boot initTermios) newlineStored :=
    .next arrived allowed rfl
  exact ⟨newlineStored, stored, by decide, line_counter_exact initTermios (by decide) newlineStored stored⟩

/-- A flush drops the newline and leaves the counter at one. -/
theorem flush_keeps_counter :
    ¬ ∀ (termios : Termios), termios.lFlag icanon = true → ∀ s : Line,
      Run Line.act KeepsModes (Line.boot termios) s → LinesCounted s.tty := by
  intro law
  have arrived : Run Line.act KeepsModes (Line.boot initTermios) newlineArrived :=
    .next .start (e := .traffic (.receive nl)) trivial rfl
  have stored : Run Line.act KeepsModes (Line.boot initTermios) newlineStored :=
    .next arrived (e := .traffic .handle) trivial rfl
  have handled : Run Line.act KeepsModes (Line.boot initTermios) newlineHandled :=
    .next stored (e := .traffic .handle) trivial rfl
  have flushed : Run Line.act KeepsModes (Line.boot initTermios)
      { newlineHandled with tty := newlineHandled.tty.flushInput } :=
    .next handled (e := .ioctl (.tcflsh 0)) trivial rfl
  have counted : newlineHandled.tty.flushInput.secondary.data.toNat =
      newlineHandled.tty.flushInput.secondary.contents.countP (lineEnd newlineHandled.tty.flushInput.termios) :=
    law initTermios (by decide) _ flushed
  exact absurd counted (by decide)

end K210Linux.Chr
