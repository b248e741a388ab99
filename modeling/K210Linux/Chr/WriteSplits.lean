import K210Linux.Chr.Output

namespace K210Linux.Chr

open K210Linux.Lib

/-- A process that calls `tty_write` until all of its bytes are accepted: the terminal, the bytes accepted by
    the calls before, and the call it is in. -/
structure Job where
  tty : Tty
  accepted : Nat
  writer : Writer

/-- A send interrupt drains `write_q`, the call goes on with what the process has pending, or the next call
    starts. -/
inductive Turn where
  | drain
  | resume (pending : Pending)
  | again

/-- A call with the bytes from an offset on. -/
def writeFrom (bytes : List Byte) (offset : Nat) : Writer :=
  ttyWrite 0 (bytes.length - offset : Nat) fun i => bytes.getD (offset + i) 0

def Job.step (bytes : List Byte) (e : Turn) (s : Job) : Option Job :=
  match e with
  | .drain => some { s with tty := s.tty.serialSendInterrupt }
  | .resume pending =>
    match s.writer with
    | .returned _ => none
    | writer => let (writer, tty) := writer.step pending s.tty; some { s with tty, writer }
  | .again =>
    match s.writer with
    | .returned value =>
      let accepted := s.accepted + value.toNat
      if accepted < bytes.length then some { s with accepted, writer := writeFrom bytes accepted } else none
    | _ => none

def Job.start (bytes : List Byte) (t : Tty) : Job := { tty := t, accepted := 0, writer := writeFrom bytes 0 }

/-- The translation of a byte. -/
def output (t : Termios) (b : Byte) : List Byte :=
  if t.oFlag opost = true then
    let c := if b = cr ∧ t.oFlag ocrnl = true then nl else if b = nl ∧ t.oFlag onlret = true then cr else b
    let last := if t.oFlag olcuc = true then toupper c else c
    if c = nl ∧ t.oFlag onlcr = true then [cr, last] else [last]
  else [b]

/-- How many of its bytes a call has put. -/
def Writer.done : Writer → Nat
  | .top _ done | .asleep _ done | .awake _ done | .filling _ done | .pushing _ done => done
  | .returned value => value.toNat

/-- The bytes it has still to put. -/
def Writer.rest : Writer → Option (List Byte)
  | .top bytes _ | .asleep bytes _ | .awake bytes _ | .filling bytes _ | .pushing bytes _ => some bytes
  | .returned _ => none

/-- The bytes that are accepted are translated, and the flag is set exactly when the carriage return of the
    next byte is out already. -/
structure Translated (bytes : List Byte) (t : Tty) (n : Nat) (t' : Tty) : Prop where
  termios : t'.termios = t.termios
  ranged : t'.writeQ.Ranged
  inside : n ≤ bytes.length
  stream : t'.stream = t.stream ++ (bytes.take n).flatMap (output t.termios) ++ if t'.crFlag then [cr] else []
  flag : t'.crFlag = true → ∃ b c, bytes[n]? = some b ∧ output t.termios b = [cr, c]

/-- The invariant of a job. -/
structure Job.Holds (bytes : List Byte) (t : Tty) (s : Job) : Prop where
  translated : Translated bytes t (s.accepted + s.writer.done) s.tty
  rest : ∀ l, s.writer.rest = some l → l = bytes.drop (s.accepted + s.writer.done)

variable {bytes : List Byte} {t t' : Tty} {n : Nat} {s s' : Job}

theorem Translated.congr {t'' : Tty} (law : Translated bytes t n t') (termios : t''.termios = t'.termios)
    (ranged : t''.writeQ.Ranged) (stream : t''.stream = t'.stream) (flag : t''.crFlag = t'.crFlag) :
    Translated bytes t n t'' := by
  refine ⟨termios.trans law.termios, ranged, law.inside, ?_, ?_⟩
  · rw [stream, flag]
    exact law.stream
  · rw [flag]
    exact law.flag

theorem Translated.drain (law : Translated bytes t n t') : Translated bytes t n t'.serialSendInterrupt := by
  apply law.congr _ (ranged_serialSendInterrupt law.ranged) (stream_serialSendInterrupt law.ranged)
  all_goals
    unfold Tty.serialSendInterrupt
    split <;> rfl

theorem Translated.rsWrite (law : Translated bytes t n t') : Translated bytes t n t'.rsWrite := by
  unfold Tty.rsWrite
  split
  · exact law
  · exact law.drain

/-- The byte as `tty_write` puts it. -/
def shown (t : Termios) (b : Byte) : Byte :=
  if t.oFlag opost = true ∧ t.oFlag olcuc = true then toupper (translateOut t b) else translateOut t b

/-- Whether `tty_write` puts a carriage return before a byte. -/
def getsCr (t : Termios) (b : Byte) : Prop :=
  t.oFlag opost = true ∧ translateOut t b = nl ∧ t.oFlag onlcr = true

theorem output_eq (t : Termios) (b : Byte) :
    (getsCr t b → output t b = [cr, shown t b]) ∧ (¬ getsCr t b → output t b = [shown t b]) := by
  unfold output shown getsCr translateOut
  cases t.oFlag opost <;> cases t.oFlag ocrnl <;> cases t.oFlag onlret <;> cases t.oFlag onlcr <;>
    cases t.oFlag olcuc <;> by_cases isCr : b = cr <;> by_cases isNl : b = nl <;> simp [isCr, isNl]

theorem writeTurn_first {b : Byte} (first : getsCr t.termios b) (fresh : t.crFlag = false) :
    t.writeTurn b = (false, { t with crFlag := true }.putWrite cr) := by
  simp [Tty.writeTurn, first.1, first.2.1, first.2.2, fresh]

theorem writeTurn_last {b : Byte} (last : ¬ (getsCr t.termios b ∧ t.crFlag = false)) :
    t.writeTurn b = (true, { t with crFlag := false }.putWrite (shown t.termios b)) := by
  have goesOn : (t.termios.oFlag opost && translateOut t.termios b = nl && !t.crFlag && t.termios.oFlag onlcr) = false := by
    rw [← Bool.not_eq_true]
    simp only [Bool.and_eq_true, decide_eq_true_eq, Bool.not_eq_true']
    rintro ⟨⟨⟨post, isNl⟩, fresh⟩, nlcr⟩
    exact last ⟨⟨post, isNl, nlcr⟩, fresh⟩
  unfold Tty.writeTurn shown
  dsimp only
  rw [goesOn]
  simp only [Bool.false_eq_true, if_false, Bool.and_eq_true]

/-- A turn of the inner loop puts the first or the last byte of a translation. -/
theorem Translated.turn {b : Byte} (law : Translated bytes t n t') (room : 0 < t'.writeQ.left)
    (here : bytes[n]? = some b) :
    Translated bytes t (if (t'.writeTurn b).1 then n + 1 else n) (t'.writeTurn b).2 := by
  have inside : n < bytes.length := (List.getElem?_eq_some_iff.mp here).1
  by_cases first : getsCr t'.termios b ∧ t'.crFlag = false
  · rw [writeTurn_first first.1 first.2]
    have stream := stream_putWrite (t := { t' with crFlag := true }) law.ranged room cr
    have before := law.stream
    rw [first.2] at before
    refine ⟨law.termios, law.ranged.putch cr, law.inside, ?_, ?_⟩
    · rw [stream]
      change t'.stream ++ [cr] = _
      rw [before]
      simp [Tty.putWrite]
    · intro _
      rw [law.termios] at first
      exact ⟨b, _, here, (output_eq t.termios b).1 first.1⟩
  · rw [writeTurn_last first]
    have stream := stream_putWrite (t := { t' with crFlag := false }) law.ranged room (shown t'.termios b)
    have before : t'.stream = t.stream ++ (bytes.take n).flatMap (output t.termios) ++ if t'.crFlag then [cr] else [] :=
      law.stream
    have out : (if t'.crFlag then [cr] else []) ++ [shown t'.termios b] = output t.termios b := by
      rw [law.termios] at first ⊢
      by_cases flag : t'.crFlag = true
      · rcases law.flag flag with ⟨b', c, here', two⟩
        rw [here] at here'
        cases here'
        have gets : getsCr t.termios b := by
          by_contra never
          have one := (output_eq t.termios b).2 never
          rw [two] at one
          simpa using congrArg List.length one
        rw [if_pos flag, (output_eq t.termios b).1 gets]
        rfl
      · have never : ¬ getsCr t.termios b := by
          intro gets
          exact first ⟨gets, by simpa using flag⟩
        rw [if_neg flag, (output_eq t.termios b).2 never]
        rfl
    refine ⟨law.termios, law.ranged.putch _, inside, ?_, nofun⟩
    rw [stream]
    change t'.stream ++ [shown t'.termios b] = _
    rw [before, List.append_assoc, out, if_pos rfl, List.take_add_one, here, List.flatMap_append]
    simp [List.append_assoc, Tty.putWrite]

theorem writeFrom_eq (bytes : List Byte) (offset : Nat) : writeFrom bytes offset = .top (bytes.drop offset) 0 := by
  unfold writeFrom ttyWrite
  rw [if_neg (by omega), Int.toNat_natCast]
  congr 1
  apply List.ext_getElem
  · simp
  · intro i inside _
    have bound : offset + i < bytes.length := by
      simp at inside
      omega
    simp [List.getElem_drop, bound]

/-- What one turn of a call keeps. -/
theorem Job.Holds.resume (pending : Pending) (holds : s.Holds bytes t) (running : ∀ value, s.writer ≠ .returned value) :
    Job.Holds bytes t { s with tty := (s.writer.step pending s.tty).2, writer := (s.writer.step pending s.tty).1 } := by
  rcases s with ⟨tty, accepted, writer⟩
  have law : Translated bytes t (accepted + writer.done) tty := holds.translated
  have rest : ∀ l, writer.rest = some l → l = bytes.drop (accepted + writer.done) := holds.rest
  cases writer with
  | top l done =>
    have ended : Translated bytes t (accepted + (Writer.returned done).done) tty := law
    simp only [Writer.step]
    split_ifs
    · exact ⟨ended, fun l more => by cases more⟩
    · exact ⟨law, rest⟩
    · exact ⟨law, rest⟩
  | asleep l done =>
    simp only [Writer.step]
    split_ifs
    · exact ⟨law, rest⟩
    · exact ⟨law, rest⟩
  | awake l done =>
    have ended : Translated bytes t (accepted + (Writer.returned done).done) tty := law
    simp only [Writer.step]
    split_ifs
    · exact ⟨law, rest⟩
    · exact ⟨ended, fun l more => by cases more⟩
  | filling l done =>
    cases l with
    | nil => exact ⟨law, rest⟩
    | cons b l =>
      simp only [Writer.step]
      split_ifs with full next
      · exact ⟨law, rest⟩
      all_goals
        have remaining : b :: l = bytes.drop (accepted + done) := rest _ rfl
        have here : bytes[accepted + done]? = some b := by
          rw [← Nat.add_zero (accepted + done), ← List.getElem?_drop, ← remaining]
          rfl
        have room : 0 < tty.writeQ.left := by
          simp only [TtyQueue.full, beq_iff_eq] at full
          omega
        have turned := law.turn room here
      · rw [if_pos next] at turned
        refine ⟨turned, ?_⟩
        intro l' same
        cases same
        change l = bytes.drop (accepted + (done + 1))
        rw [← Nat.add_assoc, ← List.drop_drop, ← remaining]
        rfl
      · rw [if_neg next] at turned
        exact ⟨turned, rest⟩
  | pushing l done => exact ⟨law.rsWrite, rest⟩
  | returned value => exact absurd rfl (running value)

theorem Job.Holds.step {e : Turn} (holds : s.Holds bytes t) (stepped : s.step bytes e = some s') :
    s'.Holds bytes t := by
  cases e with
  | drain =>
    cases stepped
    exact ⟨holds.translated.drain, holds.rest⟩
  | resume pending =>
    have running : ∀ value, s.writer ≠ .returned value := by
      intro value ended
      simp [Job.step, ended] at stepped
    have turned := holds.resume pending running
    unfold Job.step at stepped
    cases here : s.writer with
    | returned value => exact absurd here (running value)
    | _ =>
      rw [here] at turned
      simp only [here] at stepped
      cases stepped
      exact turned
  | again =>
    unfold Job.step at stepped
    cases here : s.writer with
    | returned value =>
      have translated := holds.translated
      rw [here] at translated
      simp only [here] at stepped
      split at stepped
      · cases stepped
        rw [writeFrom_eq]
        refine ⟨translated, ?_⟩
        intro l same
        cases same
        rfl
      · cases stepped
    | _ => simp [here] at stepped

theorem Job.Holds.start (ranged : t.writeQ.Ranged) (fresh : t.crFlag = false) : (Job.start bytes t).Holds bytes t := by
  unfold Job.start
  rw [writeFrom_eq]
  refine ⟨⟨rfl, ranged, Nat.zero_le _, ?_, ?_⟩, ?_⟩
  · simp [fresh, Writer.done]
  · intro flag
    rw [fresh] at flag
    cases flag
  · intro l same
    cases same
    rfl

/-- However the calls are split by a full queue, by drains and by signals, a job that is done has sent the
    translation of its bytes, and leaves the flag clear. -/
theorem output_split_free (t : Tty) (bytes : List Byte) (s : Job) (value : Int) (ranged : t.writeQ.Ranged)
    (fresh : t.crFlag = false) (run : Run (Job.step bytes) (fun _ _ => True) (Job.start bytes t) s)
    (returned : s.writer = .returned value) (all : s.accepted + value.toNat = bytes.length) :
    s.tty.stream = t.stream ++ bytes.flatMap (output t.termios) ∧ s.tty.crFlag = false := by
  have holds := run.invariant (I := Job.Holds bytes t) (Job.Holds.start ranged fresh)
    fun _ _ _ holds _ stepped => holds.step stepped
  have law := holds.translated
  rw [returned, Writer.done, all] at law
  have clear : s.tty.crFlag = false := by
    by_contra flag
    rcases law.flag (by simpa using flag) with ⟨b, _, here, _⟩
    have inside := (List.getElem?_eq_some_iff.mp here).1
    exact absurd inside (lt_irrefl _)
  have stream := law.stream
  rw [clear, List.take_length] at stream
  exact ⟨by simpa using stream, clear⟩

/-- The terminal with room for one more byte in `write_q`, and newlines to be sent with a carriage return. -/
def nearlyFull : Tty :=
  { Tty.boot { initTermios with oflag := opost ||| onlcr } with writeQ := { data := 0, head := 1022, tail := 0, buf := fun _ => 0 } }

/-- A signal comes when the carriage return is out and the newline is not. -/
def interrupted : List Turn :=
  List.replicate 6 (.resume .none) ++ [.resume .signal, .again] ++ List.replicate 6 (.resume .none)

def returnedOne (s : Job) : Bool :=
  s.accepted = 0 && match s.writer with
    | .returned value => value = 1
    | _ => false

theorem interrupted_newline : ∃ s, Run (Job.step [nl]) (fun _ _ => True) (Job.start [nl] nearlyFull) s ∧
    s.writer = .returned 1 ∧ s.tty.stream = nearlyFull.stream ++ [cr, nl] ∧ s.tty.crFlag = false := by
  have passed : (runEvents (Job.step [nl]) (fun _ _ => True) interrupted (Job.start [nl] nearlyFull)).any returnedOne = true := by
    decide +kernel
  rcases Run.of_test passed with ⟨s, run, test⟩
  unfold returnedOne at test
  cases here : s.writer with
  | returned value =>
    simp only [here, Bool.and_eq_true, decide_eq_true_eq] at test
    have all : s.accepted + value.toNat = [nl].length := by
      rw [test.1, test.2]
      rfl
    have sent := output_split_free nearlyFull [nl] s value ⟨by decide, by decide⟩ rfl run here all
    have translation : [nl].flatMap (output nearlyFull.termios) = [cr, nl] := by decide
    rw [translation] at sent
    exact ⟨s, run, by rw [here, test.2], sent⟩
  | _ => simp [here] at test

end K210Linux.Chr
