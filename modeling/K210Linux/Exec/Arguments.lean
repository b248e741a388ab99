import K210Linux.Lib.CStrings
import K210Linux.Kernel.BulkCopy
import K210Linux.Exec.Image

/-! The argument pages of `do_execve`, filled from the top down. -/

namespace K210Linux.Exec

open K210Linux.Mm K210Linux.Kernel CStrings Outcome

def maxArgPages : Nat := 32
/-- Where `p` starts in `do_execve`. -/
def argTop : Word := 0xC0000000 + pageSize * 32 - 8
def intMax : Nat := 0x7FFFFFFF

/-- How `do_execve` can fail to return: a panic, an access outside `page[]`, or a loop of it that
    finds no end within the range of its `int`. -/
inductive ExecStop where
  | stopped (s : Stop Memory)
  | outside (index : Nat)
  | endless

/-- `count`. -/
def count (user : Space) (argv : Word) : Option Nat :=
  if argv = 0 then some 0 else countPointers user argv (intMax + 1)

/-- What `copy_strings` finds at one pointer of a vector. -/
inductive Fetched where
  | null
  | endless
  | string (bytes : List Byte)

abbrev Source := Nat → Fetched

/-- The `len` of the string and its NUL is an `int`. The pages that `get_fs_byte` reads are resident: it takes no frame
    here, and no page fault ends in `oom`. -/
def fetchString (user : Space) (tmp : Word) : Fetched :=
  if tmp = 0 then .null
  else match readString user tmp intMax with
    | none => .endless
    | some s => .string s

/-- With `from_kmem = 0` pointers and strings are the user's, with 1 the pointer is a variable of
    the kernel, and with 2 the string is the kernel's too. The user's pages are resident, as in `fetchString`. -/
def userVector (user : Space) (argv : Word) : Source := fun argc => fetchString user (load64 user (slot argv argc))
def kernelPointer (user : Space) (tmp : Word) : Source := fun _ => fetchString user tmp
def kernelString (bytes : List Byte) : Source := fun _ => .string bytes

structure ArgPages where
  memory : Memory
  page : Nat → Word

/-- The index of an address in `page[]`. -/
def argIndex (p : Word) : Nat := ((p - userStartAddr) / pageSize).toNat

/-- The variables of `copy_strings` that move with each byte. -/
structure Cursor where
  p : Word
  offset : Int
  pag : Word

/-- A page of the array, allocated when it is not there. -/
def argPage (a : ArgPages) (index : Nat) : Word × ArgPages :=
  if a.page index ≠ 0 then (a.page index, a)
  else
    let (pag, memory) := getFreePage a.memory
    (pag, ⟨memory, Function.update a.page index pag⟩)

def ArgPages.store (a : ArgPages) (addr : Word) (b : Byte) : ArgPages := { a with memory := storeByte a.memory addr b }

/-- One byte of the loop `while(len)`; `none` is its `return 0`. -/
def pushByte (b : Byte) (c : Cursor) (a : ArgPages) : Except ExecStop (Option Cursor × ArgPages) :=
  let p := c.p - 1
  let offset := c.offset - 1
  if offset < 0 then
    let offset : Int := (p % pageSize).toNat
    if maxArgPages ≤ argIndex p then .error (.outside (argIndex p))
    else
      let (pag, a) := argPage a (argIndex p)
      if pag = 0 then .ok (none, a)
      else .ok (some ⟨p, offset, pag⟩, a.store (pag + BitVec.ofInt 64 offset) b)
  else .ok (some ⟨p, offset, c.pag⟩, a.store (c.pag + BitVec.ofInt 64 offset) b)

/-- The loop `while(len)`. The bytes come in the order in which it stores them. -/
def pushBytes (c : Cursor) (a : ArgPages) : List Byte → Except ExecStop (Option Cursor × ArgPages)
  | [] => .ok (some c, a)
  | b :: bytes => do
    match ← pushByte b c a with
    | (none, a) => .ok (none, a)
    | (some c, a) => pushBytes c a bytes

/-- The loop `while(argc-- > 0)`. -/
def copyFrom (source : Source) (c : Cursor) (a : ArgPages) : Nat → Except ExecStop (Word × ArgPages)
  | 0 => .ok (c.p, a)
  | argc + 1 =>
    match source argc with
    | .null => .error (.stopped (.panic "argc is wrong"))
    | .endless => .error .endless
    | .string bytes =>
      let len := bytes.length + 1
      if c.p.toInt - len < 0 then .ok (0, a)
      else do
        match ← pushBytes c a (bytes ++ [0]).reverse with
        | (none, a) => .ok (0, a)
        | (some c, a) => copyFrom source c a argc

def copyStrings (argc : Int) (source : Source) (a : ArgPages) (p : Word) : Except ExecStop (Word × ArgPages) :=
  if p = 0 then .ok (0, a) else copyFrom source ⟨p, 0, 0⟩ a argc.toNat

/-- The loop at `exec_error1`, from page `i` on. -/
def freeArgPages (a : ArgPages) (i : Nat) : Nat → Except ExecStop Memory
  | 0 => .ok a.memory
  | left + 1 => do
    let memory ← (freePage a.memory (a.page i)).mapError .stopped
    freeArgPages { a with memory } (i + 1) left

/-- Where a byte of the argument area is stored. -/
def argAddr (a : ArgPages) (p : Word) : Word := a.page (argIndex p) + p % pageSize

/-- The argument area as the stored pages hold it. -/
def argSpace (a : ArgPages) : Space := fun p => loadByte a.memory (argAddr a p)

/-- The frames of the pages from index `i` on. -/
def framesFrom (a : ArgPages) (i : Nat) : Finset Nat :=
  ((Finset.Ico i maxArgPages).filter fun j => a.page j ≠ 0).image fun j => mapNr (a.page j)

/-- The pages of the array were free frames of `m`, each taken once. -/
structure PagesTaken (m : Memory) (a : ArgPages) : Prop where
  frame : ∀ i, i < maxArgPages → a.page i ≠ 0 → ∃ f ∈ freeFrames m, a.page i = frameAddr f
  apart : ∀ i j, i < maxArgPages → j < maxArgPages → a.page i ≠ 0 → a.page i = a.page j → i = j
  count : ∀ f, a.memory.memMap f = if f ∈ framesFrom a 0 then 1 else m.memMap f
  high : a.memory.highMemory = m.highMemory

section Pages

variable {m : Memory} {a : ArgPages} {p : Word} {i f : Nat}

theorem mem_framesFrom : f ∈ framesFrom a i ↔ ∃ j, i ≤ j ∧ j < maxArgPages ∧ a.page j ≠ 0 ∧ mapNr (a.page j) = f := by
  simp only [framesFrom, Finset.mem_image, Finset.mem_filter, Finset.mem_Ico, and_assoc]

theorem PagesTaken.mapNr_page (taken : PagesTaken m a) (inside : i < maxArgPages) (used : a.page i ≠ 0) :
    mapNr (a.page i) ∈ freeFrames m ∧ a.page i = frameAddr (mapNr (a.page i)) := by
  obtain ⟨f, free, page⟩ := taken.frame i inside used
  have nr : mapNr (a.page i) = f := by
    rw [page]
    exact mapNr_frameAddr (mem_freeFrames.mp free).1
  rw [nr]
  exact ⟨free, page⟩

theorem PagesTaken.card_frames (taken : PagesTaken m a) :
    (framesFrom a 0).card = ((Finset.range maxArgPages).filter fun j => a.page j ≠ 0).card := by
  rw [framesFrom, ← Finset.range_eq_Ico]
  apply Finset.card_image_of_injOn
  intro i first j second same
  obtain ⟨inside, used⟩ := Finset.mem_filter.mp first
  obtain ⟨inside', used'⟩ := Finset.mem_filter.mp second
  rw [Finset.mem_range] at inside inside'
  apply taken.apart i j inside inside' used
  rw [(taken.mapNr_page inside used).2, (taken.mapNr_page inside' used').2]
  exact congrArg frameAddr same

theorem PagesTaken.frames_free (taken : PagesTaken m a) : framesFrom a 0 ⊆ freeFrames m := by
  intro f member
  obtain ⟨j, _, inside, used, rfl⟩ := mem_framesFrom.mp member
  exact (taken.mapNr_page inside used).1

/-- With every page of the array in use, as many frames were free. -/
theorem PagesTaken.card_of_full (taken : PagesTaken m a) (full : ∀ j, j < maxArgPages → a.page j ≠ 0) :
    maxArgPages ≤ (freeFrames m).card := by
  have all : ((Finset.range maxArgPages).filter fun j => a.page j ≠ 0) = Finset.range maxArgPages :=
    Finset.filter_true_of_mem fun j member => full j (Finset.mem_range.mp member)
  have size := taken.card_frames
  rw [all, Finset.card_range] at size
  rw [← size]
  exact Finset.card_le_card taken.frames_free

/-- With no frame left and a page of the array missing, too few frames were free. -/
theorem PagesTaken.card_of_none (taken : PagesTaken m a) (inside : i < maxArgPages) (missing : a.page i = 0)
    (none : ∀ f, 0 < f → f < pagingPages → a.memory.memMap f ≠ 0) : (freeFrames m).card < maxArgPages := by
  have covered : freeFrames m ⊆ framesFrom a 0 := by
    intro f free
    obtain ⟨bound, positive, zero⟩ := mem_freeFrames.mp free
    by_contra outside
    apply none f (by omega) bound
    rw [taken.count, if_neg outside]
    exact zero
  have fewer : ((Finset.range maxArgPages).filter fun j => a.page j ≠ 0) ⊂ Finset.range maxArgPages := by
    apply Finset.filter_ssubset.mpr
    exact ⟨i, Finset.mem_range.mpr inside, fun used => used missing⟩
  calc (freeFrames m).card ≤ (framesFrom a 0).card := Finset.card_le_card covered
    _ = _ := taken.card_frames
    _ < (Finset.range maxArgPages).card := Finset.card_lt_card fewer
    _ = maxArgPages := Finset.card_range _

theorem argIndex_eq (user : userStartAddr ≤ p) : argIndex p = (p.toNat - 0xC0000000) / 4096 := by
  have start : userStartAddr.toNat = 0xC0000000 := rfl
  have size : pageSize.toNat = 4096 := rfl
  rw [argIndex, BitVec.toNat_udiv, BitVec.toNat_sub_of_le user, start, size]

theorem toNat_mod_page (p : Word) : (p % pageSize).toNat = p.toNat % 4096 := by
  rw [BitVec.toNat_umod]
  rfl

theorem toNat_argAddr (bound : f < pagingPages) (page : a.page (argIndex p) = frameAddr f) :
    (argAddr a p).toNat = 0x80100000 + 4096 * f + p.toNat % 4096 := by
  have small : f < 3840 := bound
  rw [argAddr, page, BitVec.toNat_add, toNat_frameAddr bound, toNat_mod_page]
  omega

theorem argAddr_page (taken : PagesTaken m a) (inside : argIndex p < maxArgPages) (used : a.page (argIndex p) ≠ 0) :
    ∃ f ∈ freeFrames m, a.page (argIndex p) = frameAddr f ∧
      (argAddr a p).toNat = 0x80100000 + 4096 * f + p.toNat % 4096 := by
  obtain ⟨f, free, page⟩ := taken.frame _ inside used
  exact ⟨f, free, page, toNat_argAddr (mem_freeFrames.mp free).1 page⟩

/-- Two addresses of the area share no byte. -/
theorem argAddr_inj {q : Word} (taken : PagesTaken m a) (user : userStartAddr ≤ p) (user' : userStartAddr ≤ q)
    (inside : argIndex p < maxArgPages) (inside' : argIndex q < maxArgPages) (used : a.page (argIndex p) ≠ 0)
    (used' : a.page (argIndex q) ≠ 0) (same : argAddr a p = argAddr a q) : p = q := by
  obtain ⟨f, free, page, addr⟩ := argAddr_page taken inside used
  obtain ⟨g, free', page', addr'⟩ := argAddr_page taken inside' used'
  have equal : f = g := by
    have := congrArg BitVec.toNat same
    omega
  have index := taken.apart _ _ inside inside' used (by rw [page, page', equal])
  rw [argIndex_eq user, argIndex_eq user'] at index
  have low : 0xC0000000 ≤ p.toNat := user
  have low' : 0xC0000000 ≤ q.toNat := user'
  apply BitVec.eq_of_toNat_eq
  have := congrArg BitVec.toNat same
  omega

/-- What asking for the page at an index leaves. -/
inductive PageReport (m : Memory) (a : ArgPages) (i : Nat) : Word × ArgPages → Prop where
  | granted (pag : Word) (a' : ArgPages) (nonzero : pag ≠ 0) (taken : PagesTaken m a')
      (page : a'.page = Function.update a.page i pag)
      (kept : ∀ x, argIndex x < maxArgPages → a.page (argIndex x) ≠ 0 → argSpace a' x = argSpace a x ∧ argAddr a' x = argAddr a x) :
      PageReport m a i (pag, a')
  | refused (a' : ArgPages) (taken : PagesTaken m a') (few : (freeFrames m).card < maxArgPages) : PageReport m a i (0, a')

theorem PagesTaken.granted (taken : PagesTaken m a) (inside : i < maxArgPages) (missing : a.page i = 0)
    (bound : f < pagingPages) (positive : 0 < f) (free : a.memory.memMap f = 0) :
    PagesTaken m ⟨(a.memory.setCount f 1).clearPage (framePage f), Function.update a.page i (frameAddr f)⟩ := by
  have fresh : f ∉ framesFrom a 0 := by
    intro member
    rw [taken.count, if_pos member] at free
    exact absurd free (by decide)
  have before : m.memMap f = 0 := by
    rw [← free, taken.count, if_neg fresh]
  have distinct : ∀ j, j < maxArgPages → a.page j ≠ 0 → a.page j ≠ frameAddr f := by
    intro j inside' used same
    apply fresh
    exact mem_framesFrom.mpr ⟨j, Nat.zero_le _, inside', used, by rw [same, mapNr_frameAddr bound]⟩
  refine ⟨?_, ?_, ?_, taken.high⟩
  · intro j inside' used
    dsimp only at used ⊢
    by_cases here : j = i
    · subst here
      exact ⟨f, mem_freeFrames.mpr ⟨bound, by omega, before⟩, Function.update_self ..⟩
    · rw [Function.update_of_ne here] at used ⊢
      exact taken.frame j inside' used
  · intro j k inside' inside'' used same
    dsimp only at used same
    by_cases here : j = i
    · by_cases there : k = i
      · rw [here, there]
      · subst here
        rw [Function.update_self, Function.update_of_ne there] at same
        have used' : a.page k ≠ 0 := by
          rw [← same]
          exact frameAddr_ne_zero bound
        exact absurd same.symm (distinct k inside'' used')
    · rw [Function.update_of_ne here] at used same
      by_cases there : k = i
      · subst there
        rw [Function.update_self] at same
        exact absurd same (distinct j inside' used)
      · rw [Function.update_of_ne there] at same
        exact taken.apart j k inside' inside'' used same
  · intro g
    have grown : g ∈ framesFrom ⟨(a.memory.setCount f 1).clearPage (framePage f), Function.update a.page i (frameAddr f)⟩ 0 ↔
        g = f ∨ g ∈ framesFrom a 0 := by
      rw [mem_framesFrom, mem_framesFrom]
      dsimp only
      constructor
      · rintro ⟨j, _, inside', used, nr⟩
        by_cases here : j = i
        · subst here
          rw [Function.update_self, mapNr_frameAddr bound] at nr
          exact .inl nr.symm
        · rw [Function.update_of_ne here] at used nr
          exact .inr ⟨j, Nat.zero_le _, inside', used, nr⟩
      · rintro (rfl | ⟨j, _, inside', used, nr⟩)
        · refine ⟨i, Nat.zero_le _, inside, ?_, ?_⟩
          · rw [Function.update_self]
            exact frameAddr_ne_zero bound
          · rw [Function.update_self, mapNr_frameAddr bound]
        · have here : j ≠ i := by
            rintro rfl
            exact used missing
          exact ⟨j, Nat.zero_le _, inside', by rwa [Function.update_of_ne here], by rwa [Function.update_of_ne here]⟩
    change Function.update a.memory.memMap f 1 g = _
    by_cases self : g = f
    · subst self
      rw [Function.update_self, if_pos (grown.mpr (.inl rfl))]
    · rw [Function.update_of_ne self, taken.count]
      exact if_congr (by rw [grown, or_iff_right self]) rfl rfl

/-- The cleared frame is no page of the array. -/
theorem loadByte_granted (page : a.page (argIndex p) = frameAddr i) (bound' : i < pagingPages)
    (other : i ≠ f) : loadByte ((a.memory.setCount f 1).clearPage (framePage f)) (argAddr a p) =
      loadByte a.memory (argAddr a p) := by
  have addr := toNat_argAddr bound' page
  have elsewhere : pageOf (argAddr a p) ≠ framePage f := by
    rw [pageOf_toNat, addr, framePage]
    omega
  rw [loadByte_eq, loadByte_eq, Memory.clearPage, Memory.setCount]
  dsimp only
  rw [Function.update_of_ne elsewhere]

theorem argPage_report (taken : PagesTaken m a) (inside : i < maxArgPages) : PageReport m a i (argPage a i) := by
  by_cases missing : a.page i = 0
  · rw [argPage, if_neg (not_not.mpr missing)]
    rcases getFreePage_cases a.memory with ⟨full, none⟩ | ⟨f, positive, bound, free, found⟩
    · rw [full]
      have same : Function.update a.page i 0 = a.page := by
        rw [← missing]
        exact Function.update_eq_self i a.page
      dsimp only
      rw [same]
      exact .refused _ taken (taken.card_of_none inside missing none)
    · rw [found]
      refine .granted _ _ (frameAddr_ne_zero bound) (taken.granted inside missing bound positive free) rfl ?_
      intro x inside' used
      have other : argIndex x ≠ i := by
        intro same
        rw [same] at used
        exact used missing
      have kept : argAddr ⟨(a.memory.setCount f 1).clearPage (framePage f), Function.update a.page i (frameAddr f)⟩ x =
          argAddr a x := by
        rw [argAddr, argAddr]
        dsimp only
        rw [Function.update_of_ne other]
      refine ⟨?_, kept⟩
      obtain ⟨g, free', page⟩ := taken.frame _ inside' used
      rw [argSpace, argSpace, kept]
      dsimp only
      apply loadByte_granted page (mem_freeFrames.mp free').1
      rintro rfl
      have held := taken.count g
      rw [if_pos (mem_framesFrom.mpr ⟨_, Nat.zero_le _, inside', used, by
        rw [page, mapNr_frameAddr bound]⟩), free] at held
      exact absurd held (by decide)
  · rw [argPage, if_pos missing]
    refine .granted _ _ missing taken ?_ fun _ _ _ => ⟨rfl, rfl⟩
    exact (Function.update_eq_self i a.page).symm

end Pages

/-- The argument area holds the bytes from `p` up to its top, and has pages for them alone. -/
structure Pushed (m : Memory) (a : ArgPages) (p : Word) (bytes : List Byte) : Prop where
  taken : PagesTaken m a
  bottom : p.toNat + bytes.length = argTop.toNat
  user : userStartAddr ≤ p
  used : ∀ i, i < maxArgPages → (a.page i ≠ 0 ↔ bytes ≠ [] ∧ argIndex p ≤ i)
  holds : BytesAt (argSpace a) p bytes

/-- Either the next byte looks its page up, or `pag` is the page of the last one. -/
def CursorAt (a : ArgPages) (c : Cursor) : Prop :=
  c.offset = 0 ∨ (c.offset = (c.p % pageSize).toNat ∧ c.pag = a.page (argIndex c.p) ∧ c.pag ≠ 0)

/-- The bytes that fit above `USER_START_ADDR`. -/
def argRoom : Nat := 32 * 4096 - 8

inductive PushReport (m : Memory) (bytes : List Byte) : Except ExecStop (Option Cursor × ArgPages) → Prop where
  | pushed (c : Cursor) (a : ArgPages) (pushed : Pushed m a c.p bytes) (ready : CursorAt a c) :
      PushReport m bytes (.ok (some c, a))
  | full (a : ArgPages) (taken : PagesTaken m a) (few : (freeFrames m).card < maxArgPages) :
      PushReport m bytes (.ok (none, a))
  | outside (index : Nat) (long : argRoom < bytes.length) (many : maxArgPages ≤ (freeFrames m).card) :
      PushReport m bytes (.error (.outside index))

section Push

variable {m : Memory} {a : ArgPages} {p : Word} {bytes : List Byte} {c : Cursor} {b : Byte}

theorem toNat_argTop : argTop.toNat = 0xC0000000 + argRoom := rfl

theorem Pushed.start (m : Memory) : Pushed m ⟨m, fun _ => 0⟩ argTop [] where
  taken := {
    frame := fun _ _ used => absurd rfl used
    apart := fun _ _ _ _ used => absurd rfl used
    count := fun f => by
      rw [if_neg]
      intro member
      obtain ⟨_, _, _, used, _⟩ := mem_framesFrom.mp member
      exact used rfl
    high := rfl }
  bottom := rfl
  user := by decide
  used _ _ := by
    rw [iff_false_left (not_not.mpr rfl)]
    exact fun both => both.1 rfl
  holds := bytesAt_nil

theorem Pushed.length_le (pushed : Pushed m a p bytes) : bytes.length ≤ argRoom := by
  have low : 0xC0000000 ≤ p.toNat := pushed.user
  have bottom := pushed.bottom
  rw [toNat_argTop] at bottom
  omega

theorem Pushed.ne_zero (pushed : Pushed m a p bytes) : p ≠ 0 := by
  rintro rfl
  exact absurd pushed.user (by decide)

/-- The addresses of the stored bytes. -/
theorem Pushed.offset_index (pushed : Pushed m a p bytes) {i : Nat} (inside : i < bytes.length) :
    userStartAddr ≤ offset p i ∧ (offset p i).toNat = p.toNat + i ∧ argIndex (offset p i) < maxArgPages ∧
      a.page (argIndex (offset p i)) ≠ 0 := by
  have bottom := pushed.bottom
  have room : argRoom = 131064 := rfl
  rw [toNat_argTop] at bottom
  have low : 0xC0000000 ≤ p.toNat := pushed.user
  have value : (offset p i).toNat = p.toNat + i := toNat_offset (by omega)
  have user : userStartAddr ≤ offset p i := by
    rw [BitVec.le_def, value]
    change 0xC0000000 ≤ p.toNat + i
    omega
  have index : argIndex (offset p i) < maxArgPages := by
    rw [argIndex_eq user, value]
    unfold maxArgPages
    omega
  refine ⟨user, value, index, (pushed.used _ index).mpr ⟨?_, ?_⟩⟩
  · rintro rfl
    exact absurd inside (Nat.not_lt_zero _)
  · rw [argIndex_eq pushed.user, argIndex_eq user, value]
    omega

theorem argSpace_store (addr x : Word) : argSpace (a.store addr b) x = if argAddr a x = addr then b else argSpace a x :=
  loadByte_storeByte

/-- One byte more, once its page is there. -/
theorem Pushed.store {a' : ArgPages} {pag : Word} (pushed : Pushed m a p bytes) (room : userStartAddr < p)
    (taken : PagesTaken m a') (nonzero : pag ≠ 0) (page : a'.page = Function.update a.page (argIndex (p - 1)) pag)
    (kept : ∀ x, argIndex x < maxArgPages → a.page (argIndex x) ≠ 0 → argSpace a' x = argSpace a x ∧ argAddr a' x = argAddr a x) :
    Pushed m (a'.store (argAddr a' (p - 1)) b) (p - 1) (b :: bytes) := by
  have bottom := pushed.bottom
  have low : 0xC0000000 < p.toNat := room
  have below : (p - 1).toNat = p.toNat - 1 := BitVec.toNat_sub_of_le (by rw [BitVec.le_def]; change 1 ≤ p.toNat; omega)
  have user : userStartAddr ≤ p - 1 := by
    rw [BitVec.le_def, below]
    change 0xC0000000 ≤ p.toNat - 1
    omega
  have whole : argRoom = 131064 := rfl
  have index : argIndex (p - 1) < maxArgPages := by
    rw [toNat_argTop] at bottom
    rw [argIndex_eq user, below]
    unfold maxArgPages
    omega
  have here : a'.page (argIndex (p - 1)) ≠ 0 := by
    rw [page, Function.update_self]
    exact nonzero
  refine ⟨⟨taken.frame, taken.apart, taken.count, taken.high⟩, ?_, user, ?_, ?_⟩
  · rw [below, List.length_cons]
    omega
  · intro i inside
    change a'.page i ≠ 0 ↔ _
    rw [and_iff_right (List.cons_ne_nil b bytes), page, argIndex_eq user, below]
    by_cases new : i = (p.toNat - 1 - 0xC0000000) / 4096
    · rw [← new, Function.update_self]
      exact ⟨fun _ => Nat.le_refl i, fun _ => nonzero⟩
    · rw [Function.update_of_ne new, pushed.used i inside, argIndex_eq pushed.user]
      unfold maxArgPages at inside
      rw [toNat_argTop] at bottom
      cases bytes with
      | nil =>
        rw [List.length_nil] at bottom
        exact ⟨fun both => absurd rfl both.1, fun high => by omega⟩
      | cons _ _ =>
        rw [and_iff_right (List.cons_ne_nil _ _)]
        omega
  · have back : p - 1 + 1 = p := by bv_omega
    apply bytesAt_cons.mpr
    rw [back]
    constructor
    · rw [argSpace_store, if_pos rfl]
    · intro i inside
      obtain ⟨user', value, index', used'⟩ := pushed.offset_index inside
      obtain ⟨same, addr⟩ := kept _ index' used'
      have used'' : a'.page (argIndex (offset p i)) ≠ 0 := by
        rw [page, Function.update_apply]
        split
        · exact nonzero
        · exact used'
      rw [argSpace_store, if_neg, same, pushed.holds i inside]
      intro both
      have equal := argAddr_inj taken user' user index' index used'' here both
      have := congrArg BitVec.toNat equal
      omega

/-- With its page looked up, or known from the last byte, a byte goes to its place. -/
theorem pushByte_inside (ready : CursorAt a c) (user : userStartAddr ≤ c.p - 1) (room : userStartAddr < c.p)
    (index : argIndex (c.p - 1) < maxArgPages) : pushByte b c a =
      if (argPage a (argIndex (c.p - 1))).1 = 0 then .ok (none, (argPage a (argIndex (c.p - 1))).2)
      else .ok (some ⟨c.p - 1, ((c.p - 1) % pageSize).toNat, (argPage a (argIndex (c.p - 1))).1⟩,
        (argPage a (argIndex (c.p - 1))).2.store
          ((argPage a (argIndex (c.p - 1))).1 + (c.p - 1) % pageSize) b) := by
  have back : ∀ w : Word, BitVec.ofInt 64 (w.toNat : Int) = w := fun w => by
    rw [BitVec.ofInt_natCast, BitVec.ofNat_toNat, BitVec.setWidth_eq]
  have low : 0xC0000000 < c.p.toNat := room
  have below : (c.p - 1).toNat = c.p.toNat - 1 := BitVec.toNat_sub_of_le (by rw [BitVec.le_def]; change 1 ≤ c.p.toNat; omega)
  rcases ready with zero | ⟨value, page, nonzero⟩
  · rw [pushByte]
    dsimp only
    rw [if_pos (by omega), if_neg (by omega), back]
  · by_cases first : c.offset = 0
    · rw [pushByte]
      dsimp only
      rw [if_pos (by omega), if_neg (by omega), back]
    · rw [toNat_mod_page] at value
      have same : argIndex (c.p - 1) = argIndex c.p := by
        rw [argIndex_eq user, argIndex_eq (BitVec.le_of_lt room), below]
        omega
      have next : c.offset - 1 = ((c.p - 1) % pageSize).toNat := by
        rw [toNat_mod_page, below]
        omega
      have present : argPage a (argIndex (c.p - 1)) = (c.pag, a) := by
        rw [argPage, same, ← page, if_pos nonzero]
      rw [pushByte]
      dsimp only
      rw [if_neg (by omega), present, if_neg nonzero, next, back]

theorem pushByte_report (pushed : Pushed m a c.p bytes) (ready : CursorAt a c) :
    PushReport m (b :: bytes) (pushByte b c a) := by
  have whole : argRoom = 131064 := rfl
  have bottom := pushed.bottom
  rw [toNat_argTop] at bottom
  by_cases full : c.p = userStartAddr
  · have some : bytes ≠ [] := by
      rintro rfl
      rw [full, List.length_nil] at bottom
      exact absurd bottom (by decide)
    have zero : c.offset = 0 := by
      rcases ready with zero | ⟨value, _⟩
      · exact zero
      · rw [value, full]
        decide
    have index : argIndex (c.p - 1) = 0xFFFFFFFFFFFFF := by
      rw [full]
      decide
    rw [pushByte]
    dsimp only
    rw [if_pos (by omega), index, if_pos (by decide)]
    apply PushReport.outside
    · have start : userStartAddr.toNat = 0xC0000000 := rfl
      rw [full, start] at bottom
      rw [List.length_cons]
      omega
    · apply pushed.taken.card_of_full
      intro j inside
      have low : argIndex c.p = 0 := by
        rw [full]
        decide
      exact (pushed.used j inside).mpr ⟨some, by omega⟩
  · have room : userStartAddr < c.p := BitVec.lt_of_le_ne pushed.user (Ne.symm full)
    have low : 0xC0000000 < c.p.toNat := room
    have below : (c.p - 1).toNat = c.p.toNat - 1 :=
      BitVec.toNat_sub_of_le (by rw [BitVec.le_def]; change 1 ≤ c.p.toNat; omega)
    have user : userStartAddr ≤ c.p - 1 := by
      rw [BitVec.le_def, below]
      change 0xC0000000 ≤ c.p.toNat - 1
      omega
    have index : argIndex (c.p - 1) < maxArgPages := by
      rw [argIndex_eq user, below]
      unfold maxArgPages
      omega
    rw [pushByte_inside ready user room index]
    have report := argPage_report pushed.taken index
    generalize argPage a (argIndex (c.p - 1)) = granted at report ⊢
    cases report with
    | refused a' taken few =>
      rw [if_pos rfl]
      exact .full a' taken few
    | granted pag a' nonzero taken page kept =>
      have addr : pag + (c.p - 1) % pageSize = argAddr a' (c.p - 1) := by
        rw [argAddr, page, Function.update_self]
      rw [if_neg nonzero]
      dsimp only
      rw [addr]
      refine .pushed _ _ (pushed.store room taken nonzero page kept) (.inr ⟨rfl, ?_, nonzero⟩)
      change pag = a'.page (argIndex (c.p - 1))
      rw [page, Function.update_self]

theorem pushBytes_report {stored : List Byte} (pushed : Pushed m a c.p bytes) (ready : CursorAt a c) :
    PushReport m (stored.reverse ++ bytes) (pushBytes c a stored) := by
  induction stored generalizing a c bytes with
  | nil => exact .pushed c a pushed ready
  | cons b stored ih =>
    rw [List.reverse_cons, List.append_assoc, List.singleton_append, pushBytes]
    have report : PushReport m (b :: bytes) (pushByte b c a) := pushByte_report pushed ready
    generalize pushByte b c a = run at report ⊢
    cases report with
    | pushed c' a' pushed' ready' => exact ih pushed' ready'
    | full a' taken few => exact .full a' taken few
    | outside index long many =>
      apply PushReport.outside
      · rw [List.length_append]
        omega
      · exact many

end Push

/-- What copying the strings of a vector leaves: they all went in front of the bytes, a page was
    missing, or the first of them that did not fit left the array. -/
inductive CopyReport (m : Memory) (bytes : List Byte) : Except ExecStop (Word × ArgPages) → Prop where
  | copied (p : Word) (a : ArgPages) (pushed : Pushed m a p bytes) : CopyReport m bytes (.ok (p, a))
  | full (a : ArgPages) (taken : PagesTaken m a) (few : (freeFrames m).card < maxArgPages) : CopyReport m bytes (.ok (0, a))
  | outside (index : Nat) (long : argRoom < bytes.length) (many : maxArgPages ≤ (freeFrames m).card) :
      CopyReport m bytes (.error (.outside index))

/-- The source yields these strings, all of a size that is an `int`. -/
structure Yields (source : Source) (strs : List (List Byte)) : Prop where
  string : ∀ i (inside : i < strs.length), source i = .string strs[i]
  short : ∀ s ∈ strs, s.length < intMax

section Copy

variable {m : Memory} {a : ArgPages} {p : Word} {bytes : List Byte} {c : Cursor} {source : Source}
  {strs : List (List Byte)}

theorem copyFrom_report (yields : Yields source strs) {n : Nat} (inside : n ≤ strs.length)
    (pushed : Pushed m a p bytes) {offset : Int} {pag : Word} (ready : CursorAt a ⟨p, offset, pag⟩) :
    CopyReport m (terminated (strs.take n) ++ bytes) (copyFrom source ⟨p, offset, pag⟩ a n) := by
  induction n generalizing a p offset pag bytes with
  | zero => exact .copied p a pushed
  | succ n ih =>
    have low : 0xC0000000 ≤ p.toNat := pushed.user
    have fits := pushed.bottom
    have top := toNat_argTop
    have whole : argRoom = 131064 := rfl
    have short := yields.short strs[n] (List.getElem_mem _)
    have int : intMax = 0x7FFFFFFF := rfl
    have room : ¬ p.toInt - ((strs[n].length + 1 : Nat) : Int) < 0 := by
      rw [BitVec.toInt_eq_toNat_of_lt (by omega)]
      omega
    have split : terminated (strs.take (n + 1)) ++ bytes = terminated (strs.take n) ++ ((strs[n] ++ [0]) ++ bytes) := by
      rw [List.take_succ_eq_append_getElem inside, terminated_append, terminated_cons, terminated_nil, List.append_nil,
        List.append_assoc]
    rw [split, copyFrom, yields.string n inside]
    dsimp only
    rw [if_neg room]
    have report : PushReport m ((strs[n] ++ [0]) ++ bytes) (pushBytes ⟨p, offset, pag⟩ a (strs[n] ++ [0]).reverse) := by
      have all : PushReport m ((strs[n] ++ [0]).reverse.reverse ++ bytes) _ := pushBytes_report pushed ready
      rwa [List.reverse_reverse] at all
    generalize pushBytes ⟨p, offset, pag⟩ a (strs[n] ++ [0]).reverse = run at report ⊢
    cases report with
    | pushed c a' pushed' ready' => exact ih (Nat.le_of_succ_le inside) pushed' ready'
    | full a' taken few => exact .full a' taken few
    | outside index long many =>
      apply CopyReport.outside
      · rw [List.length_append]
        omega
      · exact many

/-- One call of `copy_strings` after others. -/
theorem CopyReport.next {run : Except ExecStop (Word × ArgPages)} (report : CopyReport m bytes run)
    (yields : Yields source strs) (argc : Int) (exact : argc.toNat = strs.length) :
    CopyReport m (terminated strs ++ bytes) (run >>= fun (p, a) => copyStrings argc source a p) := by
  cases report with
  | copied p a pushed =>
    change CopyReport m _ (copyStrings argc source a p)
    rw [copyStrings, if_neg pushed.ne_zero, exact]
    have all : CopyReport m _ (copyFrom source ⟨p, 0, 0⟩ a strs.length) :=
      copyFrom_report yields (Nat.le_refl _) pushed (.inl rfl)
    rwa [List.take_length] at all
  | full a taken few =>
    change CopyReport m _ (copyStrings argc source a 0)
    rw [copyStrings, if_pos rfl]
    exact .full a taken few
  | outside index long many =>
    apply CopyReport.outside
    · rw [List.length_append]
      omega
    · exact many

end Copy

section Free

variable {m : Memory} {a : ArgPages}

/-- Giving the pages back restores every counter. -/
theorem freeArgPages_restores {left i : Nat} (length : i + left = maxArgPages)
    (below : ∀ f, f ∈ freeFrames m → frameAddr f < m.highMemory) (high : a.memory.highMemory = m.highMemory)
    (frame : ∀ j, j < maxArgPages → a.page j ≠ 0 → ∃ f ∈ freeFrames m, a.page j = frameAddr f)
    (apart : ∀ j k, j < maxArgPages → k < maxArgPages → a.page j ≠ 0 → a.page j = a.page k → j = k)
    (count : ∀ f, a.memory.memMap f = if f ∈ framesFrom a i then 1 else m.memMap f) :
    ∃ m', freeArgPages a i left = .ok m' ∧ m'.memMap = m.memMap := by
  induction left generalizing a i with
  | zero =>
    refine ⟨a.memory, rfl, funext fun f => ?_⟩
    rw [count, if_neg]
    intro member
    obtain ⟨j, low, inside, _⟩ := mem_framesFrom.mp member
    omega
  | succ left ih =>
    have inside : i < maxArgPages := by omega
    rw [freeArgPages]
    by_cases missing : a.page i = 0
    · have skip : freePage a.memory (a.page i) = .ok a.memory := by
        rw [missing, freePage, if_pos (by decide)]
      rw [skip]
      apply ih (by omega) high frame apart
      intro f
      rw [count]
      apply if_congr _ rfl rfl
      rw [mem_framesFrom, mem_framesFrom]
      constructor
      · rintro ⟨j, low, inside', used, nr⟩
        have other : j ≠ i := by
          rintro rfl
          exact used missing
        exact ⟨j, by omega, inside', used, nr⟩
      · rintro ⟨j, low, rest⟩
        exact ⟨j, by omega, rest⟩
    · obtain ⟨f, free, page⟩ := frame i inside missing
      obtain ⟨bound, positive, zero⟩ := mem_freeFrames.mp free
      have nr := mapNr_frameAddr bound
      have one : a.memory.memMap f = 1 := by
        rw [count, if_pos]
        exact mem_framesFrom.mpr ⟨i, Nat.le_refl i, inside, missing, by rw [page, nr]⟩
      have freed : freePage a.memory (a.page i) = .ok (a.memory.setCount f 0) := by
        rw [page, freePage, if_neg (BitVec.not_lt.mpr (low_le_frameAddr bound)), high,
          if_neg (BitVec.not_le.mpr (below f free)), nr, one, if_neg (by decide)]
        rfl
      rw [freed]
      apply ih (a := { a with memory := a.memory.setCount f 0 }) (by omega) high frame apart
      intro g
      change Function.update a.memory.memMap f 0 g = if g ∈ framesFrom a (i + 1) then 1 else m.memMap g
      by_cases self : g = f
      · subst self
        rw [Function.update_self, if_neg, zero]
        intro member
        obtain ⟨j, low, inside', used, nr'⟩ := mem_framesFrom.mp member
        obtain ⟨g', free', page'⟩ := frame j inside' used
        rw [page', mapNr_frameAddr (mem_freeFrames.mp free').1] at nr'
        have same := apart i j inside inside' missing (by rw [page, page', nr'])
        omega
      · rw [Function.update_of_ne self, count]
        apply if_congr _ rfl rfl
        rw [mem_framesFrom, mem_framesFrom]
        constructor
        · rintro ⟨j, low, inside', used, nr'⟩
          have other : j ≠ i := by
            rintro rfl
            rw [page, nr] at nr'
            exact self nr'.symm
          exact ⟨j, by omega, inside', used, nr'⟩
        · rintro ⟨j, low, rest⟩
          exact ⟨j, by omega, rest⟩

theorem PagesTaken.restored (taken : PagesTaken m a) (below : ∀ f, f ∈ freeFrames m → frameAddr f < m.highMemory) :
    ∃ m', freeArgPages a 0 maxArgPages = .ok m' ∧ m'.memMap = m.memMap :=
  freeArgPages_restores (Nat.zero_add _) below taken.high taken.frame taken.apart taken.count

end Free

end K210Linux.Exec
