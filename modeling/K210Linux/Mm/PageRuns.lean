import K210Linux.Mm.Allocation

/-! `get_free_page` and `get_free_pages` with the `ulong` indices of the source. -/

namespace K210Linux.Mm

/-- The loop `for(j = i;j >= i - pagenum + 1;j--)` that looks for a frame in use, with `last` for its bound. -/
def scanDown (memMap : Nat → Byte) (last : Word) : Nat → Word → Option (Option Word)
  | 0, _ => none
  | fuel + 1, j =>
    if last ≤ j then
      if memMap j.toNat ≠ 0 then some (some j) else scanDown memMap last fuel (j - 1)
    else some none

/-- The same loop over the frames it marks. -/
def markDown (last : Word) : Nat → Word → Memory → Option Memory
  | 0, _, _ => none
  | fuel + 1, j, m => if last ≤ j then markDown last fuel (j - 1) (m.setCount j.toNat 1) else some m

/-- `memset` of whole pages. -/
def clearPages (m : Memory) (addr bytes : Word) : Memory :=
  { m with phys := fun p =>
      if pageOf addr ≤ p ∧ p < pageOf addr + (bytes >>> 12).toNat then fun _ => 0 else m.phys p }

/-- The outer loop of `get_free_pages`. -/
def pagesLoop (m : Memory) (pagenum : Word) : Nat → Word → Option (Word × Memory)
  | 0, _ => none
  | fuel + 1, i =>
    if pagenum - 1 < i then
      match scanDown m.memMap (i - pagenum + 1) (fuel + 1) i with
      | none => none
      | some (some j) => pagesLoop m pagenum fuel (j - 1)
      | some none =>
        (markDown (i - pagenum + 1) (fuel + 1) i m).map fun m' =>
          let addr := ((i - pagenum + 1) <<< 12) + lowMem
          (addr, clearPages m' addr (pageSize * pagenum))
    else some (0, m)

/-- `get_free_pages`, with a bound on the turns of each of its loops. -/
def getFreePages64 (m : Memory) (pagenum : Word) (fuel : Nat) : Option (Word × Memory) :=
  pagesLoop m pagenum fuel (BitVec.ofNat 64 pagingPages - 1)

/-- The loop `while(--i)` of `get_free_page`. -/
def pageLoop (m : Memory) : Nat → Word → Option (Word × Memory)
  | 0, _ => none
  | fuel + 1, i =>
    if i - 1 = 0 then some (0, m)
    else if m.memMap (i - 1).toNat = 0 then
      let addr := ((i - 1) <<< 12) + lowMem
      some (addr, clearPages (m.setCount (i - 1).toNat 1) addr pageSize)
    else pageLoop m fuel (i - 1)

def getFreePage64 (m : Memory) (fuel : Nat) : Option (Word × Memory) :=
  pageLoop m fuel (BitVec.ofNat 64 pagingPages)

section Loops

variable {memMap : Nat → Byte} {m : Memory} {fuel : Nat} {i last pagenum : Word}

/-- From `i` down, above a `last` that is not 0, the index never wraps. -/
theorem scanDown_eq {n : Nat} (positive : 0 < last.toNat) (span : i.toNat + 1 = last.toNat + n) (enough : n < fuel) :
    scanDown memMap last fuel i = some ((busyFrame memMap i.toNat n).map (BitVec.ofNat 64)) := by
  induction n generalizing fuel i with
  | zero =>
    obtain ⟨fuel, rfl⟩ := Nat.exists_eq_succ_of_ne_zero (Nat.ne_of_gt enough)
    have past : ¬ last ≤ i := by
      rw [BitVec.le_def]
      omega
    rw [scanDown, if_neg past]
    rfl
  | succ n ih =>
    obtain ⟨fuel, rfl⟩ := Nat.exists_eq_succ_of_ne_zero (by omega : fuel ≠ 0)
    have inside : last ≤ i := by
      rw [BitVec.le_def]
      omega
    have down : (i - 1).toNat = i.toNat - 1 := by
      rw [BitVec.toNat_sub_of_le (by rw [BitVec.le_def]; change 1 ≤ i.toNat; omega)]
      rfl
    rw [scanDown, if_pos inside, busyFrame]
    split
    · rw [Option.map_some, BitVec.ofNat_toNat, BitVec.setWidth_eq]
    · rw [ih (by omega) (by omega), down]

theorem markDown_eq {n : Nat} (positive : 0 < last.toNat) (span : i.toNat + 1 = last.toNat + n) (enough : n < fuel) :
    markDown last fuel i m = some { m with
      memMap := fun j => if last.toNat ≤ j ∧ j < last.toNat + n then 1 else m.memMap j } := by
  induction n generalizing fuel i m with
  | zero =>
    obtain ⟨fuel, rfl⟩ := Nat.exists_eq_succ_of_ne_zero (Nat.ne_of_gt enough)
    have past : ¬ last ≤ i := by
      rw [BitVec.le_def]
      omega
    have same : (fun j => if last.toNat ≤ j ∧ j < last.toNat + 0 then (1 : Byte) else m.memMap j) = m.memMap := by
      funext j
      rw [if_neg (by omega)]
    rw [markDown, if_neg past, same]
  | succ n ih =>
    obtain ⟨fuel, rfl⟩ := Nat.exists_eq_succ_of_ne_zero (by omega : fuel ≠ 0)
    have inside : last ≤ i := by
      rw [BitVec.le_def]
      omega
    have down : (i - 1).toNat = i.toNat - 1 := by
      rw [BitVec.toNat_sub_of_le (by rw [BitVec.le_def]; change 1 ≤ i.toNat; omega)]
      rfl
    have marked : (fun j => if last.toNat ≤ j ∧ j < last.toNat + n then (1 : Byte)
          else (m.setCount i.toNat 1).memMap j) =
        fun j => if last.toNat ≤ j ∧ j < last.toNat + (n + 1) then 1 else m.memMap j := by
      funext j
      by_cases top : j = i.toNat
      · rw [if_neg (show ¬ (last.toNat ≤ j ∧ j < last.toNat + n) by omega), if_pos (by omega), top]
        exact Function.update_self _ _ _
      · have kept : (m.setCount i.toNat 1).memMap j = m.memMap j := Function.update_of_ne top _ _
        rw [kept]
        exact if_congr (by omega) rfl rfl
    rw [markDown, if_pos inside, ih (by omega) (by omega), marked]
    rfl

end Loops

/-- A free run is found as high as there is one. -/
theorem freeRun_highest (memMap : Nat → Byte) (n i r : Nat) (positive : 0 < r) (some : 0 < n) (room : r + n ≤ i + 1)
    (free : IsFreeRun memMap n r) : r ≤ freeRun memMap n i := by
  fun_induction freeRun memMap n i with
  | case1 i enter j busy ih =>
    have bounds := busyFrame_bounds memMap i n j (by omega) busy
    by_cases inside : j < r + n
    · exact absurd (free j (by omega) inside) bounds.2.2.2
    · exact ih (by omega)
  | case2 i enter none => omega
  | case3 i done => omega

/-- What an allocation of `n` frames from frame `r` on leaves, with 0 for no frame. -/
def takenFrom (m : Memory) (n r : Nat) : Word × Memory := if r = 0 then (0, m) else (frameAddr r, takeRun m r n)

section Loops

variable {m : Memory} {fuel : Nat} {i pagenum : Word}

theorem pred_toNat (positive : 0 < i.toNat) : (i - 1).toNat = i.toNat - 1 := by
  have le : (1 : Word) ≤ i := by
    rw [BitVec.le_def]
    exact positive
  rw [BitVec.toNat_sub_of_le le]
  rfl

theorem runBase_toNat (positive : 0 < pagenum.toNat) (room : pagenum.toNat ≤ i.toNat) :
    (i - pagenum + 1).toNat = i.toNat - pagenum.toNat + 1 := by
  have le : pagenum ≤ i := by
    rw [BitVec.le_def]
    exact room
  have one : (1 : Word).toNat = 1 := rfl
  have bound := i.isLt
  rw [BitVec.toNat_add, BitVec.toNat_sub_of_le le, one]
  omega

theorem frameAddr_toNat (i : Word) : frameAddr i.toNat = (i <<< 12) + lowMem := by
  rw [frameAddr, BitVec.ofNat_toNat, BitVec.setWidth_eq]

theorem clearPages_eq (bound : i.toNat < pagingPages) (few : pagenum.toNat ≤ pagingPages) :
    clearPages m ((i <<< 12) + lowMem) (pageSize * pagenum) = { m with
      phys := fun p => if framePage i.toNat ≤ p ∧ p < framePage i.toNat + pagenum.toNat then fun _ => 0
        else m.phys p } := by
  have small : pagenum.toNat ≤ 3840 := few
  have size : pageSize.toNat = 4096 := rfl
  have bytes : ((pageSize * pagenum) >>> 12).toNat = pagenum.toNat := by
    rw [BitVec.toNat_ushiftRight, BitVec.toNat_mul, size, Nat.shiftRight_eq_div_pow]
    omega
  rw [clearPages, ← frameAddr_toNat, pageOf_frameAddr bound, bytes]

theorem pagesLoop_eq (positive : 0 < pagenum.toNat) (top : i.toNat < pagingPages) (enough : i.toNat < fuel) :
    pagesLoop m pagenum fuel i = some (takenFrom m pagenum.toNat (freeRun m.memMap pagenum.toNat i.toNat)) := by
  generalize index : i.toNat = k
  fun_induction freeRun m.memMap pagenum.toNat k generalizing i fuel with
  | case1 k enter j busy ih =>
    obtain ⟨fuel, rfl⟩ := Nat.exists_eq_succ_of_ne_zero (by omega : fuel ≠ 0)
    have turn : pagenum - 1 < i := by
      rw [BitVec.lt_def, pred_toNat positive]
      omega
    have base := runBase_toNat positive (show pagenum.toNat ≤ i.toNat by omega)
    have scan : scanDown m.memMap (i - pagenum + 1) (fuel + 1) i = some (some (BitVec.ofNat 64 j)) := by
      rw [scanDown_eq (n := pagenum.toNat) (by omega) (by omega) (by omega), index, busy]
      rfl
    obtain ⟨jpos, jle, _, _⟩ := busyFrame_bounds m.memMap k pagenum.toNat j (by omega) busy
    have small : k < 3840 := by
      rw [← index]
      exact top
    have value : (BitVec.ofNat 64 j).toNat = j := by
      rw [BitVec.toNat_ofNat]
      omega
    have below : (BitVec.ofNat 64 j - 1).toNat = j - 1 := by
      rw [pred_toNat (by omega), value]
    rw [pagesLoop, if_pos turn, scan]
    exact ih (by rw [below]; change j - 1 < 3840; omega) (by omega) below
  | case2 k enter none =>
    obtain ⟨fuel, rfl⟩ := Nat.exists_eq_succ_of_ne_zero (by omega : fuel ≠ 0)
    have turn : pagenum - 1 < i := by
      rw [BitVec.lt_def, pred_toNat positive]
      omega
    have base := runBase_toNat positive (show pagenum.toNat ≤ i.toNat by omega)
    have scan : scanDown m.memMap (i - pagenum + 1) (fuel + 1) i = some Option.none := by
      rw [scanDown_eq (n := pagenum.toNat) (by omega) (by omega) (by omega), index, none]
      rfl
    have bound : k < 3840 := by
      rw [← index]
      exact top
    have low : (i - pagenum + 1).toNat < pagingPages := by
      rw [base]
      change _ < 3840
      omega
    have marked : markDown (i - pagenum + 1) (fuel + 1) i m = some _ :=
      markDown_eq (n := pagenum.toNat) (by omega) (by omega) (by omega)
    have few : pagenum.toNat ≤ pagingPages := by
      change _ ≤ 3840
      omega
    rw [pagesLoop, if_pos turn, scan, marked, Option.map_some, takenFrom, if_neg (Nat.succ_ne_zero _), takeRun,
      ← index, ← base, frameAddr_toNat]
    exact congrArg some (congrArg (Prod.mk _) (clearPages_eq low few))
  | case3 k done =>
    obtain ⟨fuel, rfl⟩ := Nat.exists_eq_succ_of_ne_zero (by omega : fuel ≠ 0)
    have leave : ¬ pagenum - 1 < i := by
      rw [BitVec.lt_def, pred_toNat positive]
      omega
    rw [pagesLoop, if_neg leave]
    rfl

theorem pageLoop_eq (top : i.toNat ≤ pagingPages) (positive : 0 < i.toNat) (enough : i.toNat ≤ fuel) :
    pageLoop m fuel i = some (takenFrom m 1 (freeScan m.memMap i.toNat)) := by
  induction fuel generalizing i with
  | zero => omega
  | succ fuel ih =>
    have below := pred_toNat positive
    have split : i.toNat = (i - 1).toNat + 1 := by omega
    rw [pageLoop, split, freeScan]
    by_cases last : i - 1 = 0
    · rw [if_pos last, last]
      rfl
    have more : (i - 1).toNat ≠ 0 := fun zero => last (BitVec.eq_of_toNat_eq zero)
    rw [if_neg last, if_neg more]
    by_cases free : m.memMap (i - 1).toNat = 0
    · have counts : (m.setCount (i - 1).toNat 1).memMap = fun j =>
          if (i - 1).toNat ≤ j ∧ j < (i - 1).toNat + 1 then 1 else m.memMap j := by
        funext j
        by_cases here : j = (i - 1).toNat
        · rw [if_pos (by omega), here]
          exact Function.update_self _ _ _
        · rw [if_neg (by omega)]
          exact Function.update_of_ne here _ _
      have cleared : clearPages (m.setCount (i - 1).toNat 1) _ (pageSize * 1) = _ :=
        clearPages_eq (by omega : (i - 1).toNat < pagingPages) (by decide)
      rw [if_pos free, if_pos free, takenFrom, if_neg more, frameAddr_toNat, takeRun, ← counts]
      exact congrArg some (congrArg (Prod.mk _) cleared)
    · rw [if_neg free, if_neg free]
      exact ih (by omega) (by omega) (by omega)

end Loops

theorem freeRun_one (memMap : Nat → Byte) (i : Nat) : freeRun memMap 1 i = freeScan memMap (i + 1) := by
  by_cases none : freeRun memMap 1 i = 0
  · rcases freeScan_cases memMap (i + 1) with ⟨zero, _⟩ | ⟨positive, below, free⟩
    · rw [none, zero]
    · refine absurd ?_ (freeRun_eq_zero memMap 1 i (by decide) none _ positive (by omega))
      intro j low high
      rw [show j = freeScan memMap (i + 1) by omega]
      exact free
  · obtain ⟨_, room, free⟩ := freeRun_spec memMap 1 i none
    symm
    apply freeScan_eq
    · omega
    · omega
    · exact free _ (Nat.le_refl _) (by omega)
    · intro j above below zero
      have highest := freeRun_highest memMap 1 i j (by omega) (by decide) (by omega)
        (fun k low high => by rw [show k = j by omega]; exact zero)
      omega

/-- The source's loops end, without a wrap of an index, in the state of the model over natural numbers. -/
theorem getFreePages64_eq (m : Memory) {pagenum : Word} {fuel : Nat} (positive : 0 < pagenum.toNat)
    (enough : pagingPages ≤ fuel) : getFreePages64 m pagenum fuel = some (getFreePages m pagenum.toNat) := by
  have large : 3840 ≤ fuel := enough
  have top : (BitVec.ofNat 64 pagingPages - 1).toNat = pagingPages - 1 := by decide
  rw [getFreePages64, pagesLoop_eq positive (by rw [top]; decide) (by rw [top]; change 3839 < fuel; omega), top]
  rfl

theorem getFreePage64_eq (m : Memory) {fuel : Nat} (enough : pagingPages ≤ fuel) :
    getFreePage64 m fuel = some (getFreePages m 1) := by
  have top : (BitVec.ofNat 64 pagingPages).toNat = pagingPages := by decide
  have last : pagingPages = pagingPages - 1 + 1 := by decide
  rw [getFreePage64, pageLoop_eq (by rw [top]) (by rw [top]; decide) (by rw [top]; exact enough), top, last,
    ← freeRun_one]
  rfl

/-- The highest run that fits is handed out, and `get_free_page` is the case of one frame. -/
theorem getFreePages64_highest (m : Memory) (pagenum : Word) (fuel : Nat) (positive : 1 ≤ pagenum.toNat)
    (enough : pagingPages ≤ fuel) :
    (∃ addr m', getFreePages64 m pagenum fuel = some (addr, m') ∧
      (addr = 0 ↔ ∀ k, 1 ≤ k → k + pagenum.toNat ≤ pagingPages → ¬ IsFreeRun m.memMap pagenum.toNat k) ∧
      (addr = 0 → m' = m) ∧
      (addr ≠ 0 → ∃ k, 1 ≤ k ∧ k + pagenum.toNat ≤ pagingPages ∧ IsFreeRun m.memMap pagenum.toNat k ∧
        (∀ r, 1 ≤ r → r + pagenum.toNat ≤ pagingPages → IsFreeRun m.memMap pagenum.toNat r → r ≤ k) ∧
        addr.toNat = lowMem.toNat + 4096 * k ∧
        m' = { m with
          memMap := fun j => if k ≤ j ∧ j < k + pagenum.toNat then 1 else m.memMap j
          phys := fun p => if pageOf addr ≤ p ∧ p < pageOf addr + pagenum.toNat then fun _ => 0 else m.phys p })) ∧
    getFreePage64 m fuel = getFreePages64 m 1 fuel := by
  constructor
  · rw [getFreePages64_eq m positive enough]
    have taken : getFreePages m pagenum.toNat =
        takenFrom m pagenum.toNat (freeRun m.memMap pagenum.toNat (pagingPages - 1)) := rfl
    have top : pagingPages - 1 + 1 = pagingPages := by decide
    rw [taken]
    generalize found : freeRun m.memMap pagenum.toNat (pagingPages - 1) = r
    by_cases none : r = 0
    · subst none
      have busy := freeRun_eq_zero m.memMap pagenum.toNat _ positive found
      rw [top] at busy
      exact ⟨0, m, rfl, ⟨fun _ => busy, fun _ => rfl⟩, fun _ => rfl, fun nonzero => absurd rfl nonzero⟩
    · obtain ⟨_, room, free⟩ := freeRun_spec m.memMap pagenum.toNat (pagingPages - 1) (by rw [found]; exact none)
      have highest := freeRun_highest m.memMap pagenum.toNat (pagingPages - 1)
      rw [found, top] at room highest
      rw [found] at free
      have below : r < pagingPages := by omega
      have nonzero := frameAddr_ne_zero below
      refine ⟨frameAddr r, takeRun m r pagenum.toNat, by rw [takenFrom, if_neg none], ?_, ?_, ?_⟩
      · constructor
        · intro zero
          exact absurd zero nonzero
        · intro busy
          exact absurd free (busy r (Nat.pos_of_ne_zero none) room)
      · intro zero
        exact absurd zero nonzero
      · intro _
        refine ⟨r, Nat.pos_of_ne_zero none, room, free, ?_, toNat_frameAddr below, ?_⟩
        · intro k low high run
          exact highest k low positive high run
        · rw [pageOf_frameAddr below]
          rfl
  · rw [getFreePage64_eq m enough, getFreePages64_eq m (by decide) enough]
    rfl

/-- Three frames right after `mem_init`. -/
theorem bootMemory_three : 1 ≤ (3 : Word).toNat ∧ pagingPages ≤ 3840 ∧ ∃ addr m',
    getFreePages64 (bootMemory 0x80700000) 3 3840 = some (addr, m') ∧ addr ≠ 0 := by
  refine ⟨by decide, by decide, ?_⟩
  obtain ⟨⟨addr, m', run, none, _⟩, _⟩ := getFreePages64_highest (bootMemory 0x80700000) 3 3840 (by decide) (by decide)
  refine ⟨addr, m', run, ?_⟩
  intro zero
  apply none.mp zero 1 (by decide) (by decide)
  intro j low high
  have bound : j < 1 + 3 := high
  rw [bootMemory_count, if_pos (by omega)]

end K210Linux.Mm
