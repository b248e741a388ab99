import K210Linux.Exec.Image

namespace K210Linux.Exec

open K210Linux.Mm K210Linux.Kernel K210Linux.Fs Outcome

section Bytes

theorem append_byte_high {n : Nat} (high : BitVec n) (low : BitVec 8) (j : Nat) :
    ((high ++ low) >>> (8 * (j + 1))).setWidth 8 = (high >>> (8 * j)).setWidth 8 := by
  apply BitVec.eq_of_getLsbD_eq
  intro b bound
  simp only [BitVec.getLsbD_setWidth, BitVec.getLsbD_ushiftRight, BitVec.getLsbD_append]
  rw [if_neg (by omega), show 8 * (j + 1) + b - 8 = 8 * j + b by omega]

theorem append_byte_low {n : Nat} (high : BitVec n) (low : BitVec 8) :
    ((high ++ low) >>> (8 * 0)).setWidth 8 = low := by
  apply BitVec.eq_of_getLsbD_eq
  intro b bound
  simp only [BitVec.getLsbD_setWidth, BitVec.getLsbD_ushiftRight, BitVec.getLsbD_append]
  rw [if_pos (by omega), Nat.mul_zero, Nat.zero_add, decide_eq_true bound, Bool.true_and]

theorem byteAt_blockWord (block : Block) (k : Nat) : byteAt (blockWord block) k = block k := by
  have split : k = 8 * (k / 8) + k % 8 := (Nat.div_add_mod k 8).symm
  have small : k % 8 < 8 := Nat.mod_lt _ (by decide)
  unfold byteAt
  generalize k / 8 = i at split
  generalize k % 8 = j at split small
  subst split
  unfold blockWord
  have cases : j = 0 ∨ j = 1 ∨ j = 2 ∨ j = 3 ∨ j = 4 ∨ j = 5 ∨ j = 6 ∨ j = 7 := by omega
  rcases cases with rfl | rfl | rfl | rfl | rfl | rfl | rfl | rfl
  all_goals
    repeat refine (append_byte_high _ _ _).trans ?_
    first
    | exact append_byte_low _ _
    | exact BitVec.setWidth_eq _

theorem byteAt_breadPage (fs : FileSystem) (words : Nat → Word) (nr : List Nat) (o : Nat) :
    byteAt (breadPage fs words nr) o =
      if nr.getD (o / 1024) 0 = 0 then byteAt words o else fs.disk (nr.getD (o / 1024) 0) (o % 1024) := by
  have block : o / 8 / 128 = o / 1024 := by omega
  have inside : byteAt (blockWord (fs.disk (nr.getD (o / 1024) 0))) (o % 1024) =
      ((blockWord (fs.disk (nr.getD (o / 1024) 0)) (o / 8 % 128)) >>> (8 * (o % 8))).setWidth 8 := by
    unfold byteAt
    rw [show o % 1024 / 8 = o / 8 % 128 by omega, show o % 1024 % 8 = o % 8 by omega]
  unfold byteAt breadPage
  rw [block]
  dsimp only
  split
  · rfl
  · rw [← inside, byteAt_blockWord]

/-- The loop clears the bytes below the address, in this page or in another. -/
theorem byteAt_clearDown {n : Nat} (m : Memory) (tmp : Word) (room : n ≤ tmp.toNat) (p o : Nat) (small : o < 4096) :
    byteAt ((clearDown m tmp n).phys p) o =
      if tmp.toNat - n ≤ 4096 * p + o ∧ 4096 * p + o < tmp.toNat then 0 else byteAt (m.phys p) o := by
  induction n generalizing m tmp with
  | zero => rw [if_neg (by omega)]; rfl
  | succ n ih =>
    have below : (tmp - 1).toNat = tmp.toNat - 1 := by
      rw [BitVec.toNat_sub_of_le]
      · rfl
      · rw [BitVec.le_def]
        exact (Nat.succ_le_succ (Nat.zero_le n)).trans room
    rw [clearDown, ih _ _ (by omega), byteAt_storeByte _ _ _ _ _ small, below]
    by_cases last : 4096 * p + o = tmp.toNat - 1
    · rw [if_neg (by omega), if_pos last, if_pos (by omega)]
    · rw [if_neg last]
      exact if_congr (by omega) rfl rfl

/-- The loop writes to pages only. -/
theorem clearDown_eq (m : Memory) (tmp : Word) (n : Nat) :
    clearDown m tmp n = { m with phys := (clearDown m tmp n).phys } := by
  induction n generalizing m tmp with
  | zero => rfl
  | succ n ih =>
    rw [clearDown, ih]
    rfl

/-- A page that the loop does not reach. -/
theorem clearDown_other {n : Nat} (m : Memory) (tmp : Word) (room : n ≤ tmp.toNat) {p : Nat}
    (away : 4096 * p + 4096 ≤ tmp.toNat - n ∨ tmp.toNat ≤ 4096 * p) : (clearDown m tmp n).phys p = m.phys p := by
  induction n generalizing m tmp with
  | zero => rfl
  | succ n ih =>
    have below : (tmp - 1).toNat = tmp.toNat - 1 := by
      rw [BitVec.toNat_sub_of_le]
      · rfl
      · rw [BitVec.le_def]
        exact (Nat.succ_le_succ (Nat.zero_le n)).trans room
    have page : pageOf (tmp - 1) = (tmp.toNat - 1) / 4096 := by
      simp only [pageOf, BitVec.toNat_ushiftRight, Nat.shiftRight_eq_div_pow, below, Nat.reducePow]
    rw [clearDown, ih _ _ (by omega) (by omega)]
    exact Function.update_of_ne (by omega) ..

end Bytes

section Blocks

variable {fs : FileSystem} {ino : Nat} {block : BitVec 32}

theorem bmapFrom_ok {n : Nat} (bound : block.toNat + n ≤ bigBlock) :
    bmapFrom fs ino block n = .ok ((List.range n).map fun i => fs.zoneOf (blockRef ino (block.toNat + i))) := by
  induction n generalizing block with
  | zero => rfl
  | succ n ih =>
    have small : block.toNat + 1 < 2 ^ 31 := by
      rw [bigBlock] at bound
      omega
    have positive : block.msb = false := by
      rw [BitVec.msb_eq_false_iff_two_mul_lt]
      omega
    have next : (block + 1).toNat = block.toNat + 1 := by
      rw [BitVec.toNat_add]
      exact Nat.mod_eq_of_lt (by simp only [BitVec.ofNat_eq_ofNat, BitVec.toNat_ofNat]; omega)
    rw [bmapFrom, positive, if_neg Bool.false_ne_true, bind_ok (bmap_eq fs ino (by omega : block.toNat < bigBlock))]
    have rest := ih (by omega : (block + 1).toNat + n ≤ bigBlock)
    dsimp only
    rw [bind_ok rest, next, List.range_succ_eq_map, List.map_cons, List.map_map]
    congr 2
    apply List.map_congr_left
    intro i _
    rw [Function.comp_apply, Nat.succ_eq_add_one, Nat.add_assoc, Nat.add_comm 1 i]

theorem bmapFrom_big {n : Nat} (large : bigBlock < block.toNat + n) (some : 0 < n) (small : block.toNat + n < 2 ^ 31) :
    bmapFrom fs ino block n = .error "_bmap: block > big" := by
  induction n generalizing block with
  | zero => omega
  | succ n ih =>
    have positive : block.msb = false := by
      rw [BitVec.msb_eq_false_iff_two_mul_lt]
      omega
    rw [bmapFrom, positive, if_neg Bool.false_ne_true]
    by_cases first : block.toNat < bigBlock
    · have next : (block + 1).toNat = block.toNat + 1 := by
        rw [BitVec.toNat_add]
        exact Nat.mod_eq_of_lt (by simp only [BitVec.ofNat_eq_ofNat, BitVec.toNat_ofNat]; omega)
      rw [bind_ok (bmap_eq fs ino first), ih (by omega) (by omega) (by omega)]
      rfl
    · rw [bmap_big fs ino (not_lt.mp first)]
      rfl

end Blocks

section Frames

variable {pool : Pool} {dirs : Finset Word} {held : Finset Nat} {m : Memory} {address : Word}

/-- Frames for a page and for its page table. -/
def TwoFree (m : Memory) : Prop :=
  ∃ a b, a ≠ b ∧ 0 < a ∧ a < pagingPages ∧ m.memMap a = 0 ∧ 0 < b ∧ b < pagingPages ∧ m.memMap b = 0

theorem TwoFree.other (two : TwoFree m) (f : Nat) : ∃ g, g ≠ f ∧ 0 < g ∧ g < pagingPages ∧ m.memMap g = 0 := by
  rcases two with ⟨a, b, apart, positive, bound, free, positive', bound', free'⟩
  by_cases same : a = f
  · exact ⟨b, fun equal => apart (same.trans equal.symm), positive', bound', free'⟩
  · exact ⟨a, same, positive, bound, free⟩

/-- A frame is taken, its bytes and those of other pages that are no page tables are written, and it is mapped. -/
theorem put_written {f : Nat} (wf : Wf pool dirs held m) (absent : m.leafOf (m.slotOf address) = none)
    (two : TwoFree m) (positive : 0 < f) (bound : f < pagingPages) (free : m.memMap f = 0)
    (pages : Nat → Nat → Word)
    (tables : ∀ s ∈ tableSlots dirs, ∀ p, m.tableOf s = some p → pages p = m.phys p) :
    ∃ m', putPage { m.setCount f 1 with phys := pages } (frameAddr f) address = (frameAddr f, m') ∧
      walk m' address = .found (frameAddr f + (address &&& 0xFFF)) ∧ m'.phys (framePage f) = pages (framePage f) := by
  have has := wf.pool_of_free positive bound free
  have noTable := (wf.counted.free_of_zero has free).2.1
  rcases (wf.take_free positive bound free).write_pages pages (by
    intro s hs p table
    have apart : p ≠ framePage f := by
      intro same
      subst same
      exact noTable s hs table
    exact (tables s hs p table).trans (Function.update_of_ne apart _ _).symm) with ⟨written, leaves⟩
  have absent₁ : Memory.leafOf { m.setCount f 1 with phys := pages } (m.slotOf address) = none :=
    (leaves _ (slotOf_mem wf address)).trans ((wf.leafOf_clear has free _ (slotOf_mem wf address)).trans absent)
  rcases written.put_page (Finset.mem_insert_self f held) address absent₁ with ⟨_, _, full⟩ | ⟨m', put, _, mapped⟩
  · rcases two.other f with ⟨g, apart, positive', bound', free'⟩
    exact absurd ((Function.update_of_ne apart _ _).trans free') (full g positive' bound')
  · rcases mapped.leaf with ⟨e, leaf, target, _⟩
    have here : m'.leafOf (m'.slotOf address) = some e := by
      rw [Memory.slotOf, mapped.control.pageDirTable]
      exact leaf
    refine ⟨m', put, ?_, ?_⟩
    · rw [walk_found here, ppnToAddr_of_target bound target]
    · apply mapped.data f bound
      constructor
      · change Function.update m.memMap f 1 f ≠ 0
        rw [Function.update_self]
        decide
      · exact noTable

theorem positivePart_lt (i : BitVec 32) : positivePart i < 2 ^ 31 := by
  unfold positivePart
  split
  · decide
  · rename_i positive
    have := BitVec.msb_eq_false_iff_two_mul_lt.mp (Bool.not_eq_true _ ▸ positive)
    omega

/-- The page that `do_no_page` brings in once the blocks are looked up. The loop that clears its end
    must not reach a page table. -/
theorem loadPage_spec {fs : FileSystem} {ino n : Nat} {nr : List Nat} (task : Task) (wf : Wf pool dirs held m)
    (absent : m.leafOf (m.slotOf address) = none) (two : TwoFree m)
    (blocks : bmapFrom fs ino ((1 + (address - task.startCode) / 1024).setWidth 32) 4 = .ok nr)
    (tail : n = positivePart ((address - task.startCode + task.startCode + 4096 - task.endData).setWidth 32))
    (harmless : n ≤ 4096 ∨ ∀ s ∈ tableSlots dirs, m.tableOf s = none) :
    ∃ f m', f < pagingPages ∧ loadPage fs task ino m address = .ok m' ∧
      walk m' address = .found (frameAddr f + (address &&& 0xFFF)) ∧
      ∀ o, o < 4096 → byteAt (m'.phys (framePage f)) o =
        if o < 4096 - n then if nr.getD (o / 1024) 0 = 0 then 0 else fs.disk (nr.getD (o / 1024) 0) (o % 1024)
        else 0 := by
  rcases getFreePage_cases m with ⟨_, full⟩ | ⟨f, positive, bound, free, took⟩
  · rcases two.other 0 with ⟨g, _, positive, bound, free⟩
    exact absurd free (full g positive bound)
  · have short : n < 2 ^ 31 := tail ▸ positivePart_lt _
    have base := toNat_frameAddr bound
    have size : f < 3840 := bound
    have top : (frameAddr f + 4096).toNat = 0x80100000 + 4096 * f + 4096 := by
      rw [BitVec.toNat_add, base, show (4096 : Word).toNat = 4096 from rfl]
      omega
    generalize filled : setPage ((m.setCount f 1).clearPage (framePage f)) (framePage f)
      (breadPage fs (((m.setCount f 1).clearPage (framePage f)).phys (framePage f)) nr) = m₁
    have other : ∀ p, p ≠ framePage f → m₁.phys p = m.phys p := by
      intro p apart
      rw [← filled]
      exact (Function.update_of_ne apart _ _).trans (Function.update_of_ne apart _ _)
    have own : m₁.phys (framePage f) = breadPage fs (fun _ => 0) nr := by
      rw [← filled]
      simp only [setPage, Memory.clearPage, Function.update_self]
    have cleared : clearDown m₁ (frameAddr f + 4096) n =
        { m.setCount f 1 with phys := (clearDown m₁ (frameAddr f + 4096) n).phys } := by
      refine (clearDown_eq ..).trans ?_
      generalize (clearDown m₁ (frameAddr f + 4096) n).phys = pages
      rw [← filled]
      rfl
    rcases put_written wf absent two positive bound free (clearDown m₁ (frameAddr f + 4096) n).phys (by
      intro s hs p table
      rcases harmless with few | none
      · have apart : p ≠ framePage f := by
          intro same
          subst same
          exact (wf.counted.free_of_zero (wf.pool_of_free positive bound free) free).2.1 s hs table
        rw [clearDown_other m₁ _ (by omega) (by rw [framePage] at apart; omega)]
        exact other p apart
      · rw [none s hs] at table
        cases table) with ⟨m', put, found, page⟩
    refine ⟨f, m', bound, ?_, found, ?_⟩
    · have looked : (bmapFrom fs ino ((1 + (address - task.startCode) / 1024).setWidth 32) 4).mapError
          (Stop.panic : String → Stop Memory) = .ok nr := by
        rw [blocks]
        rfl
      unfold loadPage
      simp only [took, frameAddr_ne_zero bound, if_false]
      rw [bind_ok looked]
      simp only [pageOf_frameAddr bound, filled, ← tail]
      rw [cleared, put]
      exact if_pos (frameAddr_ne_zero bound)
    · intro o inside
      rw [page, byteAt_clearDown m₁ _ (by omega) _ _ inside, top, own, byteAt_breadPage]
      by_cases kept : o < 4096 - n
      · have zero : byteAt (fun _ => (0 : Word)) o = 0 := byteAt_zero rfl
        rw [if_pos kept, if_neg (by rw [framePage]; omega), zero]
      · rw [if_neg kept, if_pos (by rw [framePage]; omega)]

end Frames

end K210Linux.Exec
