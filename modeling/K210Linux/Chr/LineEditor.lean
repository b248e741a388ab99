import K210Linux.Chr.LineCount
import K210Linux.Chr.ReceiveRing
import Mathlib.Data.List.DropRight
import Mathlib.Data.List.GetD

namespace K210Linux.Chr

/-- A turn of `copy_to_cooked`, wherever it is. -/
def turn : Handler × Tty → Handler × Tty
  | (.idle, t) => (.idle, t)
  | (.cooking, t) => t.cook
  | (.killing c, t) => t.kill c

/-- The terminal when `copy_to_cooked` first comes to a place where it is to stop. -/
def runUntil (stop : Handler → Bool) : Nat → Handler × Tty → Option Tty
  | 0, _ => none
  | fuel + 1, (handler, t) => if stop handler then some t else runUntil stop fuel (turn (handler, t))

/-- At the top of the loop of `copy_to_cooked`. -/
def atTop (handler : Handler) : Bool := handler = .cooking

section Kill

variable {t : Tty} {c : Byte}

/-- What a kill character owes: its loop ends, and takes back what comes after the last line end. -/
def KillsLine (t : Tty) (c : Byte) : Prop :=
  ∃ fuel t', runUntil atTop fuel (t.cookChar c) = some t' ∧
    t'.secondary.contents = t.secondary.contents.rdropWhile (fun b => !lineEnd t.termios b) ∧
    t'.secondary.tail = t.secondary.tail ∧ t'.secondary.data = t.secondary.data

/-- The byte in front of the queue, which the loop looks at once the queue is empty. -/
def TtyQueue.stale (q : TtyQueue) : Byte := q.buf (dec q.tail)

theorem flush_of_empty {q : TtyQueue} (none : q.head = q.tail) : q.flush = q := by
  cases q
  cases none
  rfl

theorem cooked_takeBack (t : Tty) (c : Byte) :
    (t.takeBack c).termios = t.termios ∧ (t.takeBack c).secondary = t.secondary.unput := by
  have frame := cooked_echo (t.termios.lFlag echo) (rubout c) t
  exact ⟨frame.1, congrArg TtyQueue.unput frame.2⟩

theorem kill_some (some : t.secondary.head ≠ t.secondary.tail) : t.kill c = (.killing c, t.takeBack c) := by
  have notEmpty : t.secondary.empty = false := by
    rw [← Bool.not_eq_true, TtyQueue.empty_eq_true]
    exact some
  simp [Tty.kill, Tty.killing, notEmpty]

theorem kill_none (none : t.secondary.head = t.secondary.tail) :
    t.kill c = if endsLine t.termios t.secondary.stale then (.killing t.secondary.stale, t.takeBack t.secondary.stale)
      else (.cooking, t) := by
  have empty : t.secondary.empty = true := TtyQueue.empty_eq_true.2 none
  have last : t.secondary.last = t.secondary.stale := by rw [TtyQueue.last, none, TtyQueue.stale]
  unfold Tty.kill Tty.killing
  rw [empty, last]
  by_cases ends : endsLine t.termios t.secondary.stale = true
  · simp [ends]
  · simp [ends]

/-- Whatever the queue holds, the loop takes all of it back. -/
theorem kill_empties {n : Nat} (ranged : t.secondary.Ranged) (chars : t.secondary.chars = n) :
    ∃ t', t'.termios = t.termios ∧ t'.secondary = t.secondary.flush ∧
      ∀ fuel, runUntil atTop (fuel + n) (.killing c, t) = runUntil atTop fuel (.killing c, t') := by
  induction n generalizing t with
  | zero =>
    have none := (TtyQueue.chars_eq_zero ranged).1 chars
    exact ⟨t, rfl, (flush_of_empty none).symm, fun _ => rfl⟩
  | succ n ih =>
    have some : t.secondary.head ≠ t.secondary.tail := by
      rw [Ne, ← TtyQueue.chars_eq_zero ranged]
      omega
    have back := cooked_takeBack t c
    have shorter : (t.takeBack c).secondary.chars = n := by
      have one := TtyQueue.chars_unput ranged some
      rw [back.2]
      omega
    have inside : (t.takeBack c).secondary.Ranged := by
      rw [back.2]
      exact ranged.unput
    rcases ih inside shorter with ⟨t', termios, secondary, run⟩
    refine ⟨t', termios.trans back.1, ?_, ?_⟩
    · rw [secondary, back.2]
      rfl
    · intro fuel
      rw [← run fuel, ← Nat.add_assoc, runUntil, turn, kill_some some]
      rfl

/-- A line end in front of the queue keeps the loop going round the whole ring. -/
theorem kill_never_stops {fuel : Nat} (ranged : t.secondary.Ranged)
    (ends : endsLine t.termios t.secondary.stale = true) : runUntil atTop fuel (.killing c, t) = none := by
  induction fuel generalizing t c with
  | zero => rfl
  | succ fuel ih =>
    have round : ∃ d, t.kill c = (.killing d, t.takeBack d) := by
      by_cases none : t.secondary.head = t.secondary.tail
      · refine ⟨t.secondary.stale, ?_⟩
        rw [kill_none none, if_pos ends]
      · exact ⟨c, kill_some none⟩
    rcases round with ⟨d, kill⟩
    have back := cooked_takeBack t d
    rw [runUntil, turn, kill]
    apply ih
    · rw [back.2]
      exact ranged.unput
    · rw [back.1, back.2]
      exact ends

theorem flush_contents (ranged : t.secondary.Ranged) : t.secondary.flush.contents = [] := by
  have flushed : t.secondary.flush.Ranged := ⟨ranged.tail, ranged.tail⟩
  exact (TtyQueue.empty_iff_contents flushed).1 (TtyQueue.empty_eq_true.2 rfl)

/-- Without one it stops, with nothing left. -/
theorem kill_stops (ranged : t.secondary.Ranged) (plain : endsLine t.termios t.secondary.stale = false) :
    ∃ t', runUntil atTop (2 + t.secondary.chars) (.killing c, t) = some t' ∧ t'.secondary = t.secondary.flush := by
  rcases kill_empties (c := c) ranged rfl with ⟨t', termios, secondary, run⟩
  refine ⟨t', ?_, secondary⟩
  have none : t'.secondary.head = t'.secondary.tail := by
    rw [secondary]
    rfl
  have stale : t'.secondary.stale = t.secondary.stale := by
    rw [secondary]
    rfl
  rw [run, runUntil, turn, kill_none none, termios, stale, plain]
  rfl

theorem runUntil_mono {stop : Handler → Bool} {fuel : Nat} {s : Handler × Tty} {t' : Tty}
    (run : runUntil stop fuel s = some t') (more : Nat) : runUntil stop (fuel + more) s = some t' := by
  induction fuel generalizing s with
  | zero => cases run
  | succ fuel ih =>
    rw [show fuel + 1 + more = fuel + more + 1 by omega]
    unfold runUntil at run ⊢
    split
    · rename_i stops
      rwa [if_pos stops] at run
    · rename_i goes
      rw [if_neg goes] at run
      exact ih run

/-- A kill character erases exactly the current line if and only if the queue holds no line end and none
    stands in front of it. -/
theorem kill_line_iff (t : Tty) (c : Byte) (canon : t.termios.lFlag icanon = true) (ranged : t.secondary.Ranged)
    (isKill : same c t.termios.killChar = true) :
    KillsLine t c ↔ (∀ b ∈ t.secondary.contents, lineEnd t.termios b = false) ∧
      endsLine t.termios t.secondary.stale = false := by
  have start : t.cookChar c = (.killing c, t) := by
    rw [Tty.cookChar, canon, isKill]
    rfl
  unfold KillsLine
  rw [start]
  constructor
  · rintro ⟨fuel, t', run, contents, _, _⟩
    have plain : endsLine t.termios t.secondary.stale = false := by
      by_contra ends
      rw [kill_never_stops ranged (by simpa using ends)] at run
      cases run
    rcases kill_stops (c := c) ranged plain with ⟨t'', run', secondary⟩
    have same := runUntil_mono run (2 + t.secondary.chars)
    rw [Nat.add_comm, runUntil_mono run' fuel] at same
    cases same
    rw [secondary, flush_contents ranged] at contents
    have all := List.rdropWhile_eq_nil_iff.mp contents.symm
    refine ⟨?_, plain⟩
    intro b isIn
    simpa using all b isIn
  · rintro ⟨noEnd, plain⟩
    rcases kill_stops (c := c) ranged plain with ⟨t', run, secondary⟩
    refine ⟨_, t', run, ?_, ?_, ?_⟩
    · rw [secondary, flush_contents ranged]
      symm
      rw [List.rdropWhile_eq_nil_iff]
      intro b isIn
      rw [noEnd b isIn]
      rfl
    · rw [secondary]
      rfl
    · rw [secondary]
      rfl

/-- The initial terminal with the given queue. -/
def holding (q : TtyQueue) : Tty := { Tty.boot initTermios with secondary := q }

theorem kill_erases_word : (∀ b ∈ ((TtyQueue.zero.putch 97).putch 98).contents, lineEnd initTermios b = false) ∧
    KillsLine (holding ((TtyQueue.zero.putch 97).putch 98)) 21 := by
  have plain : (∀ b ∈ ((TtyQueue.zero.putch 97).putch 98).contents, lineEnd initTermios b = false) ∧
      endsLine initTermios ((TtyQueue.zero.putch 97).putch 98).stale = false := by decide
  have ranged := (TtyQueue.zero_ranged.putch 97).putch 98
  exact ⟨plain.1, (kill_line_iff (holding ((TtyQueue.zero.putch 97).putch 98)) 21 (by decide) ranged (by decide)).2 plain⟩

/-- A kill character takes back the line before the current one too. -/
theorem kill_erases_earlier_line : ¬ ∀ (t : Tty) (c : Byte), t.termios.lFlag icanon = true → t.secondary.Ranged →
    same c t.termios.killChar = true → KillsLine t c := by
  intro law
  rcases law (holding (TtyQueue.zero.putch nl)) 21 (by decide) (TtyQueue.zero_ranged.putch nl) (by decide) with
    ⟨fuel, t', run, contents, _, _⟩
  have killed : runUntil atTop 3 ((holding (TtyQueue.zero.putch nl)).cookChar 21) = some
      ((holding (TtyQueue.zero.putch nl)).takeBack 21) := rfl
  have same := runUntil_mono run 3
  rw [Nat.add_comm, runUntil_mono killed fuel] at same
  cases same
  rw [(cooked_takeBack _ _).2] at contents
  have kept : (TtyQueue.zero.putch nl).contents.rdropWhile (fun b => !lineEnd initTermios b) = [nl] := by decide
  have erased : (TtyQueue.zero.putch nl).unput.contents = [] := by decide
  exact absurd (erased.symm.trans (contents.trans kept)) (by decide)

end Kill

section Edit

/-- The input after `ICRNL`, `IGNCR` and `INLCR`. -/
def mapped (t : Termios) (b : Byte) : Option Byte :=
  if b = cr ∧ t.iFlag icrnl = true then some nl
  else if b = cr ∧ t.iFlag igncr = true then none
  else if b = nl ∧ t.iFlag inlcr = true then some cr
  else some b

/-- The line editor on lists. -/
def edit (t : Termios) (line : List Byte) (c : Byte) : List Byte :=
  if c = t.eraseChar then if line.getLast?.any (lineEnd t) then line else line.dropLast
  else if c = t.stopChar ∨ c = t.startChar then line
  else if t.lFlag isig = true ∧ (c = t.intrChar ∨ c = t.quitChar) then line
  else line ++ [c]

def editByte (t : Termios) (line : List Byte) (b : Byte) : List Byte :=
  match mapped t b with
  | none => line
  | some c => edit t line c

/-- Canonical mode without `IUCLC`, with control characters below 128. -/
structure Canonical (t : Termios) : Prop where
  canon : t.lFlag icanon = true
  noCase : t.iFlag iuclc = false
  small : ∀ i, (t.cc i).toNat < 128

variable {t : Tty} {c : Byte}

theorem translate_eq_mapped {t : Termios} (noCase : t.iFlag iuclc = false) (b : Byte) :
    translate t b = mapped t b := by
  have apart : (nl : Byte) ≠ cr := by decide
  unfold translate mapped
  rw [noCase]
  by_cases isCr : b = cr
  · cases t.iFlag icrnl <;> cases t.iFlag igncr <;> simp [isCr, apart.symm]
  · by_cases isNl : b = nl
    · cases t.iFlag inlcr <;> simp [isNl, apart]
    · simp [isCr, isNl]

theorem same_small {cc : Byte} (small : cc.toNat < 128) : same c cc = true ↔ c = cc := by
  rw [same_iff]
  constructor
  · exact fun both => both.1
  · intro equal
    exact ⟨equal, equal ▸ small⟩

theorem Canonical.is (modes : Canonical t.termios) (i : Nat) :
    same c (t.termios.cc i) = true ↔ c = t.termios.cc i := same_small (modes.small i)

theorem Canonical.endsLine (modes : Canonical t.termios) (c : Byte) :
    endsLine t.termios c = lineEnd t.termios c := by
  apply endsLine_eq
  intro both
  have small := modes.small 4
  exact absurd small (not_lt.mpr both.2)

theorem erase_edits (modes : Canonical t.termios) (ranged : t.secondary.Ranged) :
    ∃ t', (if t.secondary.empty || endsLine t.termios t.secondary.last then t else t.takeBack t.secondary.last) = t' ∧
      t'.termios = t.termios ∧ t'.secondary.Ranged ∧
      t'.secondary.contents = edit t.termios t.secondary.contents t.termios.eraseChar := by
  rw [modes.endsLine]
  simp only [edit, if_true]
  by_cases none : t.secondary.head = t.secondary.tail
  · have empty : t.secondary.empty = true := TtyQueue.empty_eq_true.2 none
    have nothing := (TtyQueue.empty_iff_contents ranged).1 empty
    rw [empty, Bool.true_or, if_pos rfl]
    refine ⟨t, rfl, rfl, ranged, ?_⟩
    rw [nothing]
    rfl
  · have notEmpty : t.secondary.empty = false := by
      rw [← Bool.not_eq_true, TtyQueue.empty_eq_true]
      exact none
    have contents := TtyQueue.contents_unput ranged none
    rw [notEmpty, Bool.false_or]
    simp only [contents, List.getLast?_concat, Option.any_some, List.dropLast_concat]
    by_cases ends : lineEnd t.termios t.secondary.last = true
    · rw [if_pos ends, if_pos ends]
      exact ⟨t, rfl, rfl, ranged, contents⟩
    · have back := cooked_takeBack t t.secondary.last
      rw [if_neg ends, if_neg ends]
      refine ⟨_, rfl, back.1, ?_, ?_⟩
      · rw [back.2]
        exact ranged.unput
      · rw [back.2]

/-- A turn on a character that is no kill character edits the list. -/
theorem cookChar_edits (modes : Canonical t.termios) (ranged : t.secondary.Ranged) (room : 0 < t.secondary.left)
    (noKill : c ≠ t.termios.killChar) :
    ∃ t', t.cookChar c = (.cooking, t') ∧ t'.termios = t.termios ∧ t'.secondary.Ranged ∧
      t'.secondary.contents = edit t.termios t.secondary.contents c := by
  have kill : same c t.termios.killChar = false := by
    rw [← Bool.not_eq_true]
    exact fun isKill => noKill ((modes.is 3).1 isKill)
  have isErase : same c t.termios.eraseChar = true ↔ c = t.termios.eraseChar := modes.is 2
  have isStop : same c t.termios.stopChar = true ↔ c = t.termios.stopChar := modes.is 9
  have isStart : same c t.termios.startChar = true ↔ c = t.termios.startChar := modes.is 8
  have isIntr : same c t.termios.intrChar = true ↔ c = t.termios.intrChar := modes.is 0
  have isQuit : same c t.termios.quitChar = true ↔ c = t.termios.quitChar := modes.is 1
  unfold Tty.cookChar
  simp only [modes.canon, kill, Bool.and_false, Bool.false_eq_true, if_false, Bool.true_and, Bool.and_eq_true,
    isErase, isStop, isStart, isIntr, isQuit]
  by_cases erase : c = t.termios.eraseChar
  · rcases erase_edits modes ranged with ⟨t', back, edited⟩
    rw [if_pos erase, back, erase]
    exact ⟨t', rfl, edited⟩
  · unfold edit
    rw [if_neg erase, if_neg erase]
    by_cases stop : c = t.termios.stopChar
    · rw [if_pos stop, if_pos (.inl stop)]
      exact ⟨_, rfl, rfl, ranged, rfl⟩
    · rw [if_neg stop]
      by_cases start : c = t.termios.startChar
      · rw [if_pos start, if_pos (.inr start)]
        exact ⟨_, rfl, rfl, ranged, rfl⟩
      · have neither : ¬ (c = t.termios.stopChar ∨ c = t.termios.startChar) := fun either => either.elim stop start
        rw [if_neg start, if_neg neither]
        have stored := cooked_store t c
        have appended : ∃ t', (Handler.cooking, t.store c) = (.cooking, t') ∧ t'.termios = t.termios ∧
            t'.secondary.Ranged ∧ t'.secondary.contents = t.secondary.contents ++ [c] := by
          refine ⟨_, rfl, stored.1, ?_, ?_⟩
          · rw [stored.2]
            exact ⟨(ranged.putch c).head, ranged.tail⟩
          · rw [stored.2]
            exact TtyQueue.contents_putch ranged room
        by_cases intr : t.termios.lFlag isig = true ∧ c = t.termios.intrChar
        · rw [if_pos intr, if_pos ⟨intr.1, .inl intr.2⟩]
          exact ⟨_, rfl, rfl, ranged, rfl⟩
        · rw [if_neg intr]
          by_cases quit : t.termios.lFlag isig = true ∧ c = t.termios.quitChar
          · rw [if_pos quit, if_pos ⟨quit.1, .inr quit.2⟩]
            exact ⟨_, rfl, rfl, ranged, rfl⟩
          · rw [if_neg quit, if_neg]
            · exact appended
            · rintro ⟨sig, either⟩
              exact either.elim (fun h => intr ⟨sig, h⟩) fun h => quit ⟨sig, h⟩

/-- A turn of the loop takes a byte, and edits the list with it. -/
theorem cook_edits (modes : Canonical t.termios) (read : t.readQ.Ranged) (ranged : t.secondary.Ranged)
    (goes : t.goesRound = true) (noKill : ∀ b ∈ t.readQ.contents, mapped t.termios b ≠ some t.termios.killChar) :
    ∃ t' b, t.cook = (.cooking, t') ∧ t'.termios = t.termios ∧ t'.readQ.Ranged ∧ t'.secondary.Ranged ∧
      t.readQ.contents = b :: t'.readQ.contents ∧
      t'.secondary.contents = editByte t.termios t.secondary.contents b := by
  simp only [Tty.goesRound, Bool.and_eq_true, Bool.not_eq_true', TtyQueue.full, beq_eq_false_iff_ne] at goes
  have apart : t.readQ.head ≠ t.readQ.tail := by
    simpa [TtyQueue.empty] using goes.1
  have room : 0 < t.secondary.left := by omega
  have input := TtyQueue.contents_getch read apart
  have first := noKill t.readQ.getch.1 (by rw [input]; exact List.mem_cons_self ..)
  have taken : t.getRead.1 = t.readQ.getch.1 := rfl
  have goesRound : t.goesRound = true := by simp [Tty.goesRound, TtyQueue.full, goes]
  unfold Tty.cook
  rw [if_pos goesRound]
  dsimp only
  have same : t.getRead.2.termios = t.termios := rfl
  rw [taken, same, translate_eq_mapped modes.noCase]
  cases char : mapped t.termios t.readQ.getch.1 with
  | none =>
    refine ⟨t.getRead.2, t.readQ.getch.1, rfl, rfl, read.getch, ranged, input, ?_⟩
    unfold editByte
    rw [char]
    rfl
  | some c =>
    have noKill : c ≠ t.getRead.2.termios.killChar := by
      intro isKill
      exact first (char.trans (congrArg some isKill))
    rcases cookChar_edits (t := t.getRead.2) modes ranged room noKill with ⟨t', cooked, termios, inside, edited⟩
    have queue : t'.readQ = t.readQ.getch.2 := by
      have incoming := t.getRead.2.incoming_cookChar (c := c)
      rw [cooked] at incoming
      exact congrArg Prod.fst incoming
    refine ⟨t', t.readQ.getch.1, cooked, termios, ?_, inside, ?_, ?_⟩
    · rw [queue]
      exact read.getch
    · rw [queue]
      exact input
    · unfold editByte
      rw [char]
      exact edited

def atEnd (handler : Handler) : Bool := handler = .idle

/-- Canonical line editing is a list editor, folded over the input that `copy_to_cooked` consumes; it stops
    only when nothing is left to read or the list is full. -/
theorem canonical_editing (t : Tty) (modes : Canonical t.termios) (read : t.readQ.Ranged)
    (ranged : t.secondary.Ranged)
    (noKill : ∀ b ∈ t.readQ.contents, mapped t.termios b ≠ some t.termios.killChar) :
    ∃ fuel t' consumed, runUntil atEnd fuel (.cooking, t) = some t' ∧
      t.readQ.contents = consumed ++ t'.readQ.contents ∧
      t'.secondary.contents = consumed.foldl (editByte t.termios) t.secondary.contents ∧
      (t'.readQ.contents = [] ∨ t'.secondary.contents.length = 1023) := by
  generalize input : t.readQ.contents = bytes at noKill
  induction bytes generalizing t with
  | nil =>
    have empty : t.readQ.empty = true := (TtyQueue.empty_iff_contents read).2 input
    have ended : t.cook = (.idle, t) := t.cook_over empty
    refine ⟨2, t, [], ?_, ?_, rfl, .inl input⟩
    · rw [runUntil, turn, ended]
      rfl
    · rw [input]
      rfl
  | cons b bytes ih =>
    by_cases goes : t.goesRound = true
    · rcases cook_edits modes read ranged goes (by rw [input]; exact noKill) with
        ⟨t₁, first, cooked, termios, read₁, ranged₁, input₁, edited⟩
      rw [input, List.cons.injEq] at input₁
      rcases input₁ with ⟨rfl, rfl⟩
      have noKill₁ : ∀ b' ∈ t₁.readQ.contents, mapped t₁.termios b' ≠ some t₁.termios.killChar := by
        rw [termios]
        exact fun b' isIn => noKill b' (List.mem_cons_of_mem _ isIn)
      rcases ih t₁ (termios ▸ modes) read₁ ranged₁ rfl noKill₁ with ⟨fuel, t', consumed, run, rest, folded, stops⟩
      refine ⟨fuel + 1, t', b :: consumed, ?_, ?_, ?_, stops⟩
      · rw [runUntil, turn, cooked]
        exact run
      · rw [rest]
        rfl
      · rw [folded, termios, edited]
        rfl
    · have some : t.readQ.empty = false := by
        rw [← Bool.not_eq_true, TtyQueue.empty_iff_contents read, input]
        exact List.cons_ne_nil b bytes
      have full : t.secondary.left = 0 := by
        simpa [Tty.goesRound, some, TtyQueue.full] using goes
      have ended : t.cook = (.idle, t) := if_neg goes
      refine ⟨2, t, [], ?_, ?_, rfl, .inr ?_⟩
      · rw [runUntil, turn, ended]
        rfl
      · rw [input]
        rfl
      · have sum := TtyQueue.chars_add_left ranged
        rw [TtyQueue.length_contents]
        omega

theorem initTermios_canonical : Canonical initTermios := by
  refine ⟨by decide, by decide, ?_⟩
  intro i
  change (initCC.getD i 0).toNat < 128
  have listed : ∀ b ∈ initCC, b.toNat < 128 := by decide
  by_cases inside : i < initCC.length
  · rw [List.getD_eq_getElem _ _ inside]
    exact listed _ (List.getElem_mem inside)
  · rw [List.getD_eq_default _ _ (by omega)]
    decide

/-- The terminal with an `a`, the erase character and a `b` to read. -/
def typed : Tty := { Tty.boot initTermios with readQ := ((TtyQueue.zero.putch 97).putch 127).putch 98 }

theorem typed_edited : ∃ fuel t' consumed, runUntil atEnd fuel (.cooking, typed) = some t' ∧
    [97, 127, 98] = consumed ++ t'.readQ.contents ∧
    t'.secondary.contents = consumed.foldl (editByte initTermios) [] ∧
    (t'.readQ.contents = [] ∨ t'.secondary.contents.length = 1023) := by
  have input : typed.readQ.contents = [97, 127, 98] := by decide
  have line : typed.secondary.contents = [] := by decide
  have noKill : ∀ b ∈ typed.readQ.contents, mapped typed.termios b ≠ some typed.termios.killChar := by
    rw [input]
    decide
  have edited := canonical_editing typed initTermios_canonical
    (((TtyQueue.zero_ranged.putch 97).putch 127).putch 98) TtyQueue.zero_ranged noKill
  rw [input, line] at edited
  exact edited

end Edit

end K210Linux.Chr
