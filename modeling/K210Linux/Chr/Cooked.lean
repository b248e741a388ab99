import K210Linux.Chr.Queue

namespace K210Linux.Chr

/-- `struct termios`, without the fields that only `change_speed` would use. -/
structure Termios where
  iflag : BitVec 32
  oflag : BitVec 32
  lflag : BitVec 32
  cc : Nat → Byte

def inlcr : BitVec 32 := 0o100
def igncr : BitVec 32 := 0o200
def icrnl : BitVec 32 := 0o400
def iuclc : BitVec 32 := 0o1000
def opost : BitVec 32 := 0o1
def olcuc : BitVec 32 := 0o2
def onlcr : BitVec 32 := 0o4
def ocrnl : BitVec 32 := 0o10
def onlret : BitVec 32 := 0o40
def isig : BitVec 32 := 0o1
def icanon : BitVec 32 := 0o2
def echo : BitVec 32 := 0o10
def echoctl : BitVec 32 := 0o1000

namespace Termios

variable (t : Termios)

/-- `_I_FLAG`, `_O_FLAG` and `_L_FLAG`. -/
def iFlag (f : BitVec 32) : Bool := t.iflag &&& f != 0
def oFlag (f : BitVec 32) : Bool := t.oflag &&& f != 0
def lFlag (f : BitVec 32) : Bool := t.lflag &&& f != 0

def intrChar : Byte := t.cc 0
def quitChar : Byte := t.cc 1
def eraseChar : Byte := t.cc 2
def killChar : Byte := t.cc 3
def eofChar : Byte := t.cc 4
def vtime : Byte := t.cc 5
def vmin : Byte := t.cc 6
def startChar : Byte := t.cc 8
def stopChar : Byte := t.cc 9

end Termios

def cr : Byte := 13
def nl : Byte := 10
def del : Byte := 127

/-- What went through the queues: the bytes `serial_rev_interrupt` accepted, those that left `read_q`
    through `GETCH`, those passed to `PUTCH` on `write_q`, and those written to the transmitter. -/
structure Traffic where
  accepted : List Byte
  taken : List Byte
  put : List Byte
  sent : List Byte

/-- A `tty_struct`, with the static variable of `tty_write` and the masks that `tty_intr` was called with. -/
structure Tty where
  termios : Termios
  stopped : Bool
  readQ : TtyQueue
  writeQ : TtyQueue
  secondary : TtyQueue
  crFlag : Bool
  masks : List (BitVec 64)
  traffic : Traffic

/-- `c == cc`, where `c` is a signed char and `cc`, from `c_cc`, an unsigned one. -/
def same (c cc : Byte) : Bool := c.toInt == cc.toNat

/-- `tolower`. -/
def tolower (c : Byte) : Byte := if 65 ≤ c ∧ c ≤ 90 then c + 32 else c

/-- `toupper`. -/
def toupper (c : Byte) : Byte := if 97 ≤ c ∧ c ≤ 122 then c - 32 else c

namespace Tty

variable (t : Tty)

/-- `PUTCH` on `write_q`. -/
def putWrite (c : Byte) : Tty :=
  { t with writeQ := t.writeQ.putch c, traffic := { t.traffic with put := t.traffic.put ++ [c] } }

/-- `GETCH` from `read_q`. -/
def getRead : Byte × Tty :=
  let (c, readQ) := t.readQ.getch
  (c, { t with readQ, traffic := { t.traffic with taken := t.traffic.taken ++ [c] } })

def serialSendInterrupt : Tty :=
  if t.writeQ.chars ≠ 0 then
    let (c, writeQ) := t.writeQ.getch
    { t with writeQ, traffic := { t.traffic with sent := t.traffic.sent ++ [c] } }
  else t

/-- The part of `serial_rev_interrupt` before `do_tty_interrupt`, with `b` in the receive register. The
    head is raised without a mask. -/
def serialRevInterrupt (b : Byte) : Tty :=
  if t.readQ.chars < ttyBufSize - 1 then
    { t with
      readQ := { t.readQ with buf := Lib.overwrite t.readQ.buf t.readQ.head [b], head := t.readQ.head + 1 }
      traffic := { t.traffic with accepted := t.traffic.accepted ++ [b] } }
  else t

def rsWrite : Tty := if t.writeQ.empty then t else t.serialSendInterrupt

/-- The bytes put on `write_q`, and the call of `tty -> write` after them. -/
def echoBytes (bytes : List Byte) : Tty := (bytes.foldl putWrite t).rsWrite

def ttyIntr (mask : BitVec 64) : Tty := { t with masks := t.masks ++ [mask] }

end Tty

/-- The carriage return and case translations at the top of the loop of `copy_to_cooked`; `none` when the
    character is skipped. -/
def translate (t : Termios) (c : Byte) : Option Byte :=
  let c :=
    if c = cr then
      if t.iFlag icrnl then some nl else if t.iFlag igncr then none else some c
    else if c = nl && t.iFlag inlcr then some cr
    else some c
  c.map fun c => if t.iFlag iuclc then tolower c else c

/-- The echo of a character that is taken back. -/
def rubout (c : Byte) : List Byte := if c.toInt < 32 then [del, del] else [del]

/-- The echo of a character that is stored. -/
def echoed (t : Termios) (c : Byte) : List Byte :=
  if c = nl then [cr, nl]
  else if c.toInt < 32 then if t.lFlag echoctl then [94, c + 64] else []
  else [c]

/-- A line end for `copy_to_cooked`. -/
def endsLine (t : Termios) (c : Byte) : Bool := c = nl || same c t.eofChar

/-- Where the handler is: in no interrupt, at the top of the loop of `copy_to_cooked`, or at the test of
    its inner loop, which kills the line, with `c` in its variable. -/
inductive Handler where
  | idle
  | cooking
  | killing (c : Byte)
deriving DecidableEq

namespace Tty

variable (t : Tty)

/-- The echo of the byte that is taken back, and `DEC` of the head of `secondary`. -/
def takeBack (c : Byte) : Tty :=
  let t := if t.termios.lFlag echo then t.echoBytes (rubout c) else t
  { t with secondary := t.secondary.unput }

/-- The end of the loop of `copy_to_cooked`: the character is counted, echoed and stored. -/
def store (c : Byte) : Tty :=
  let t := if endsLine t.termios c then
      { t with secondary := { t.secondary with data := t.secondary.data + 1 } } else t
  let t := if t.termios.lFlag echo then t.echoBytes (echoed t.termios c) else t
  { t with secondary := t.secondary.putch c }

/-- A turn of the loop of `copy_to_cooked` after the translations. -/
def cookChar (c : Byte) : Handler × Tty :=
  let canon := t.termios.lFlag icanon
  let sig := t.termios.lFlag isig
  if canon && same c t.termios.killChar then (.killing c, t)
  else if canon && same c t.termios.eraseChar then
    let c := t.secondary.last
    (.cooking, if t.secondary.empty || endsLine t.termios c then t else t.takeBack c)
  else if canon && same c t.termios.stopChar then (.cooking, { t with stopped := true })
  else if canon && same c t.termios.startChar then (.cooking, { t with stopped := false })
  else if sig && same c t.termios.intrChar then (.cooking, t.ttyIntr 2)
  else if sig && same c t.termios.quitChar then (.cooking, t.ttyIntr 4)
  else (.cooking, t.store c)

/-- Whether `copy_to_cooked` goes round its loop. -/
def goesRound : Bool := !t.readQ.empty && !t.secondary.full

/-- The test of the loop of `copy_to_cooked` and a turn of it. -/
def cook : Handler × Tty :=
  if t.goesRound then
    let (c, t) := t.getRead
    match translate t.termios c with
    | none => (.cooking, t)
    | some c => t.cookChar c
  else (.idle, t)

/-- Whether the loop that kills the line goes round, and what its variable then holds: the last byte is
    only looked at when `secondary` is empty. -/
def killing (c : Byte) : Option Byte :=
  if !t.secondary.empty then some c
  else if endsLine t.termios t.secondary.last then some t.secondary.last
  else none

/-- The test of the loop that kills the line, and a turn of it. -/
def kill (c : Byte) : Handler × Tty :=
  match t.killing c with
  | some c => (.killing c, t.takeBack c)
  | none => (.cooking, t)

end Tty

end K210Linux.Chr
