import Mathlib

namespace K210Linux.Mm

abbrev Word := BitVec 64
abbrev Byte := BitVec 8

/-- The accessibility codes of `pte_accessibility`: the R, W and X bits of an entry. -/
inductive Accessibility
  | pointer
  | readonly
  | readwrite
  | executeonly
  | readexecute
  | all
  deriving DecidableEq, Repr

def Accessibility.bits : Accessibility → BitVec 3
  | .pointer => 0
  | .readonly => 1
  | .readwrite => 3
  | .executeonly => 4
  | .readexecute => 5
  | .all => 7

/-- Assignment to a one-bit field of a `pte_64model`. -/
def setField (e : Word) (n : Nat) (b : Bool) : Word :=
  if b then e ||| BitVec.twoPow 64 n else e &&& ~~~ BitVec.twoPow 64 n

namespace Pte

def v (e : Word) : Bool := e.getLsbD 0
def r (e : Word) : Bool := e.getLsbD 1
def w (e : Word) : Bool := e.getLsbD 2
def x (e : Word) : Bool := e.getLsbD 3
def u (e : Word) : Bool := e.getLsbD 4
def d (e : Word) : Bool := e.getLsbD 7
def ppn (e : Word) : BitVec 38 := e.extractLsb' 10 38

def setPpn (e : Word) (p : BitVec 38) : Word :=
  (e &&& ~~~ ((BitVec.allOnes 38).setWidth 64 <<< 10)) ||| (p.setWidth 64 <<< 10)

end Pte

def pteCommonSetAccessibility (e : Word) (a : Accessibility) : Word :=
  setField (setField (setField e 1 (a.bits.getLsbD 0)) 2 (a.bits.getLsbD 1)) 3 (a.bits.getLsbD 2)

def pteCommonAddrToPpn (e addr : Word) : Word := Pte.setPpn e ((addr >>> 12).setWidth 38)

def pteCommonPpnToAddr (e : Word) : Word := (Pte.ppn e).setWidth 64 <<< 12

def pteCommonEnableEntry (e : Word) : Word := setField e 0 true
def pteCommonEnableUser (e : Word) : Word := setField e 4 true
def pteCommonDisableUser (e : Word) : Word := setField e 4 false
def pteCommonSetWriteable (e : Word) : Word := setField e 2 true

theorem getLsbD_setField (e : Word) (n i : Nat) (b : Bool) (hn : n < 64) :
    (setField e n b).getLsbD i = if i = n then b else e.getLsbD i := by
  by_cases same : i = n
  · subst same
    cases b <;> simp [setField, hn]
  · have other : (BitVec.twoPow 64 n).getLsbD i = false := by
      simp only [BitVec.getLsbD_twoPow, Bool.and_eq_false_iff, decide_eq_false_iff_not]
      right
      omega
    by_cases hi : i < 64
    · cases b <;> simp only [setField, if_true, Bool.false_eq_true, if_false, BitVec.getLsbD_or,
        BitVec.getLsbD_and, BitVec.getLsbD_not, other, same, hi, decide_true, Bool.not_false,
        Bool.and_true, Bool.or_false]
    · simp only [same, if_false, BitVec.getLsbD_of_ge _ _ (Nat.le_of_not_lt hi)]

theorem getLsbD_setPpn (e : Word) (p : BitVec 38) (i : Nat) :
    (Pte.setPpn e p).getLsbD i = if 10 ≤ i ∧ i < 48 then p.getLsbD (i - 10) else e.getLsbD i := by
  simp only [Pte.setPpn, BitVec.getLsbD_or, BitVec.getLsbD_and, BitVec.getLsbD_not,
    BitVec.getLsbD_shiftLeft, BitVec.getLsbD_setWidth, BitVec.getLsbD_allOnes]
  by_cases hi : i < 64
  · by_cases low : i < 10
    · have outside : ¬ (10 ≤ i ∧ i < 48) := by omega
      simp [hi, low]
    · by_cases high : i < 48
      · have shift : i - 10 < 38 := by omega
        have wide : i - 10 < 64 := by omega
        have inside : 10 ≤ i := by omega
        simp [hi, low, high, shift, wide, inside]
      · have shift : ¬ i - 10 < 38 := by omega
        have zero : p.getLsbD (i - 10) = false := BitVec.getLsbD_of_ge _ _ (by omega)
        simp [hi, low, high, shift, zero]
  · have outside : ¬ (10 ≤ i ∧ i < 48) := by omega
    have zero : e.getLsbD i = false := BitVec.getLsbD_of_ge _ _ (by omega)
    simp [outside, hi, zero]

theorem v_setField (e : Word) (n : Nat) (b : Bool) (hn : n < 64) :
    Pte.v (setField e n b) = if n = 0 then b else Pte.v e := by
  simp only [Pte.v, getLsbD_setField e n 0 b hn, eq_comm]

theorem w_setField (e : Word) (n : Nat) (b : Bool) (hn : n < 64) :
    Pte.w (setField e n b) = if n = 2 then b else Pte.w e := by
  simp only [Pte.w, getLsbD_setField e n 2 b hn, eq_comm]

theorem ppn_setField (e : Word) (n : Nat) (b : Bool) (hn : n < 10) :
    Pte.ppn (setField e n b) = Pte.ppn e := by
  apply BitVec.eq_of_getLsbD_eq
  intro i hi
  have apart : ¬ (10 + i = n) := by omega
  simp only [Pte.ppn, BitVec.getLsbD_extractLsb', hi, decide_true, Bool.true_and,
    getLsbD_setField e n (10 + i) b (by omega), apart, if_false]

@[simp] theorem ppn_setPpn (e : Word) (p : BitVec 38) : Pte.ppn (Pte.setPpn e p) = p := by
  apply BitVec.eq_of_getLsbD_eq
  intro i hi
  have field : 10 ≤ 10 + i ∧ 10 + i < 48 := by omega
  simp only [Pte.ppn, BitVec.getLsbD_extractLsb', getLsbD_setPpn, field, and_self, if_true, hi,
    decide_true, Bool.true_and, Nat.add_sub_cancel_left]

@[simp] theorem v_setPpn (e : Word) (p : BitVec 38) : Pte.v (Pte.setPpn e p) = Pte.v e := by
  simp only [Pte.v, getLsbD_setPpn]; rfl

@[simp] theorem w_setPpn (e : Word) (p : BitVec 38) : Pte.w (Pte.setPpn e p) = Pte.w e := by
  simp only [Pte.w, getLsbD_setPpn]; rfl

section Fields

variable (e addr : Word) (a : Accessibility)

@[simp] theorem v_setAccessibility : Pte.v (pteCommonSetAccessibility e a) = Pte.v e := by
  simp [pteCommonSetAccessibility, v_setField]

@[simp] theorem w_setAccessibility : Pte.w (pteCommonSetAccessibility e a) = a.bits.getLsbD 1 := by
  simp [pteCommonSetAccessibility, w_setField]

@[simp] theorem ppn_setAccessibility : Pte.ppn (pteCommonSetAccessibility e a) = Pte.ppn e := by
  simp [pteCommonSetAccessibility, ppn_setField]

@[simp] theorem v_addrToPpn : Pte.v (pteCommonAddrToPpn e addr) = Pte.v e := by
  simp [pteCommonAddrToPpn]

@[simp] theorem ppn_addrToPpn : Pte.ppn (pteCommonAddrToPpn e addr) = (addr >>> 12).setWidth 38 := by
  simp [pteCommonAddrToPpn]

@[simp] theorem v_enableEntry : Pte.v (pteCommonEnableEntry e) = true := by
  simp [pteCommonEnableEntry, v_setField]

@[simp] theorem w_enableEntry : Pte.w (pteCommonEnableEntry e) = Pte.w e := by
  simp [pteCommonEnableEntry, w_setField]

@[simp] theorem ppn_enableEntry : Pte.ppn (pteCommonEnableEntry e) = Pte.ppn e := by
  simp [pteCommonEnableEntry, ppn_setField]

@[simp] theorem v_enableUser : Pte.v (pteCommonEnableUser e) = Pte.v e := by
  simp [pteCommonEnableUser, v_setField]

@[simp] theorem w_enableUser : Pte.w (pteCommonEnableUser e) = Pte.w e := by
  simp [pteCommonEnableUser, w_setField]

@[simp] theorem ppn_enableUser : Pte.ppn (pteCommonEnableUser e) = Pte.ppn e := by
  simp [pteCommonEnableUser, ppn_setField]

@[simp] theorem v_setWriteable : Pte.v (pteCommonSetWriteable e) = Pte.v e := by
  simp [pteCommonSetWriteable, v_setField]

@[simp] theorem w_setWriteable : Pte.w (pteCommonSetWriteable e) = true := by
  simp [pteCommonSetWriteable, w_setField]

@[simp] theorem ppn_setWriteable : Pte.ppn (pteCommonSetWriteable e) = Pte.ppn e := by
  simp [pteCommonSetWriteable, ppn_setField]

end Fields

@[simp] theorem v_zero : Pte.v 0 = false := by decide

end K210Linux.Mm
