import K210Linux.Kernel.UserReach
import K210Linux.Kernel.UserStore

/-! `mem_copy_from_kernel` and `mem_copy_to_kernel`, with the translation they share. -/

namespace K210Linux.Kernel

open K210Linux.Mm Outcome

def getPageId (x : Word) : Nat := ((x &&& 0x3FFFFFFF) >>> 12).toNat

/-- The static variables of `page_transform_addr`. They outlive the call. -/
structure PageTransform where
  lastuseraddr : Word
  lastkerneladdr : Word
  traned : Bool

/-- What the copies run with: `ram` tells the physical pages that there is memory behind, and `stack` is where
    the pointer of the loop lies. -/
structure CopyContext where
  k : Process
  image : Word → Nat → Word
  ram : Nat → Bool
  stack : Word
  low : stack < userStartAddr

def pageTransformStart (s : PageTransform) : PageTransform := { s with traned := false }

/-- `page_transform_addr` on a pointer that lies at `c.stack` and holds `addr`. The source passes the address of
    its own parameter on, so it is the place of the pointer that is translated, not the pointer. -/
def pageTransformAddr (c : CopyContext) (s : PageTransform) (m : Memory) (addr : Word) :
    Except (Stop Memory) (Word × PageTransform × Memory) :=
  if !s.traned || getPageId addr ≠ getPageId s.lastkerneladdr then do
    let addr := addr - s.lastkerneladdr + s.lastuseraddr
    let (_, m) ← userAddrToKernel c.k c.image m c.stack
    .ok (addr, ⟨addr, addr, true⟩, m)
  else .ok (addr, s, m)

/-- A byte at a physical address. The handler halts where there is no memory. -/
def rawLoad (c : CopyContext) (m : Memory) (addr : Word) : Except (Stop Memory) Byte :=
  if c.ram (pageOf addr) then .ok (loadByte m addr) else .error (.panic "load access fault")

def rawStore (c : CopyContext) (m : Memory) (addr : Word) (b : Byte) : Except (Stop Memory) Memory :=
  if c.ram (pageOf addr) then .ok (storeByte m addr b) else .error (.panic "store/amo access fault")

/-- `*to = *from`. -/
def copyByte (c : CopyContext) (m : Memory) (source dest : Word) : Except (Stop Memory) Memory := do
  let b ← rawLoad c m source
  rawStore c m dest b

/-- Which pointer is the user's: `mem_copy_from_kernel` goes `out`, `mem_copy_to_kernel` comes `back`. -/
inductive Direction where
  | out
  | back

def Direction.transform (c : CopyContext) (s : PageTransform) (m : Memory) (source dest : Word) :
    Direction → Except (Stop Memory) (Word × Word × PageTransform × Memory)
  | .out => do
    let (dest, s, m) ← pageTransformAddr c s m dest
    .ok (source, dest, s, m)
  | .back => do
    let (source, s, m) ← pageTransformAddr c s m source
    .ok (source, dest, s, m)

/-- The loop `while(size--)`. Neither pointer is advanced. -/
def copyLoop (c : CopyContext) (d : Direction) (s : PageTransform) (m : Memory) (source dest : Word) :
    Nat → Except (Stop Memory) (PageTransform × Memory)
  | 0 => .ok (s, m)
  | n + 1 => do
    let (source, dest, s, m) ← d.transform c s m source dest
    let m ← copyByte c m source dest
    copyLoop c d s m source dest n

def memCopy (d : Direction) (c : CopyContext) (s : PageTransform) (m : Memory) (fromaddr toaddr size : Word) :
    Except (Stop Memory) (PageTransform × Memory) :=
  copyLoop c d (pageTransformStart s) m fromaddr toaddr size.toNat

def memCopyFromKernel := memCopy .out
def memCopyToKernel := memCopy .back

/-- The values that the static variables take: zeros at boot, and then what the copies leave. -/
inductive Reached : PageTransform → Prop where
  | boot : Reached ⟨0, 0, false⟩
  | copy {d c s m fromaddr toaddr size s' m'} : Reached s →
      memCopy d c s m fromaddr toaddr size = .ok (s', m') → Reached s'

section Bytes

variable {m : Memory} {a d : Word} {b : Byte}

theorem loadByte_eq (m : Memory) (a : Word) : loadByte m a = byteAt (m.phys (pageOf a)) (a.toNat % 4096) := by
  rw [loadByte, byteAt, toNat_and_mask]

theorem loadByte_storeByte : loadByte (storeByte m a b) d = if d = a then b else loadByte m d := by
  have split : 4096 * pageOf d + d.toNat % 4096 = d.toNat := by
    rw [pageOf_toNat]
    omega
  rw [loadByte_eq, loadByte_eq, byteAt_storeByte m a b _ _ (Nat.mod_lt _ (by decide)), split]
  exact if_congr BitVec.toNat_inj rfl rfl

theorem setByte_twice (w : Word) (i : Nat) (b : Byte) : setByte (setByte w i b) i b = setByte w i b := by
  unfold setByte
  generalize ~~~ ((0xFF : Word) <<< (8 * i)) = mask
  generalize b.setWidth 64 <<< (8 * i) = bits
  apply BitVec.eq_of_getLsbD_eq
  intro k _
  simp only [BitVec.getLsbD_or, BitVec.getLsbD_and]
  cases w.getLsbD k <;> cases mask.getLsbD k <;> cases bits.getLsbD k <;> rfl

theorem storeByte_twice (m : Memory) (a : Word) (b : Byte) : storeByte (storeByte m a b) a b = storeByte m a b := by
  unfold storeByte Memory.setEntry
  simp only [Function.update_self, Function.update_idem, setByte_twice]

end Bytes

section Loops

variable {c : CopyContext} {d : Direction} {s s' : PageTransform} {m m' : Memory} {source dest : Word} {n : Nat}

/-- Translating a pointer returns it as it is, since the two last addresses are always the same. -/
theorem pageTransformAddr_eq (same : s.lastuseraddr = s.lastkerneladdr) (addr : Word) :
    ∃ s', pageTransformAddr c s m addr = .ok (addr, s', m) ∧ s'.lastuseraddr = s'.lastkerneladdr := by
  have value : addr - s.lastkerneladdr + s.lastkerneladdr = addr := BitVec.sub_add_cancel addr _
  have untouched : userAddrToKernel c.k c.image m c.stack = .ok (c.stack, m) := by
    rw [userAddrToKernel, if_pos c.low]
  rw [pageTransformAddr, same]
  split
  · refine ⟨⟨addr, addr, true⟩, ?_, rfl⟩
    rw [bind_ok untouched, value]
  · exact ⟨s, rfl, same⟩

/-- Whether the byte at `source` is there to be fetched, and the one at `dest` to be replaced. -/
def RawAccess (c : CopyContext) (source dest : Word) : Prop := c.ram (pageOf source) ∧ c.ram (pageOf dest)

theorem copyByte_ok (access : RawAccess c source dest) :
    copyByte c m source dest = .ok (storeByte m dest (loadByte m source)) := by
  rw [copyByte, rawLoad, if_pos access.1]
  change rawStore c m dest (loadByte m source) = _
  rw [rawStore, if_pos access.2]

theorem of_copyByte (run : copyByte c m source dest = .ok m') : RawAccess c source dest := by
  obtain ⟨b, loaded, stored⟩ := of_bind run
  unfold rawLoad at loaded
  unfold rawStore at stored
  split at loaded
  · rename_i readable
    split at stored
    · rename_i writable
      exact ⟨readable, writable⟩
    · cases stored
  · cases loaded

theorem transform_eq (same : s.lastuseraddr = s.lastkerneladdr) (d : Direction) (source dest : Word) :
    ∃ s', d.transform c s m source dest = .ok (source, dest, s', m) ∧ s'.lastuseraddr = s'.lastkerneladdr := by
  cases d with
  | out =>
    obtain ⟨s', done, same'⟩ := pageTransformAddr_eq (c := c) (m := m) same dest
    exact ⟨s', bind_ok done, same'⟩
  | back =>
    obtain ⟨s', done, same'⟩ := pageTransformAddr_eq (c := c) (m := m) same source
    exact ⟨s', bind_ok done, same'⟩

theorem copied_twice (m : Memory) (source dest : Word) :
    storeByte (storeByte m dest (loadByte m source)) dest (loadByte (storeByte m dest (loadByte m source)) source) =
      storeByte m dest (loadByte m source) := by
  have kept : loadByte (storeByte m dest (loadByte m source)) source = loadByte m source := by
    rw [loadByte_storeByte]
    exact ite_eq_right_iff.mpr fun _ => rfl
  rw [kept, storeByte_twice]

/-- However long the loop runs, it copies one byte. -/
theorem copyLoop_eq (same : s.lastuseraddr = s.lastkerneladdr) (access : RawAccess c source dest) (n : Nat) :
    ∃ s', copyLoop c d s m source dest (n + 1) = .ok (s', storeByte m dest (loadByte m source)) ∧
      s'.lastuseraddr = s'.lastkerneladdr := by
  induction n generalizing s m with
  | zero =>
    obtain ⟨s', done, same'⟩ := transform_eq (c := c) (m := m) same d source dest
    refine ⟨s', ?_, same'⟩
    rw [copyLoop, bind_ok done]
    exact bind_ok (copyByte_ok access)
  | succ n ih =>
    obtain ⟨s₁, done, same₁⟩ := transform_eq (c := c) (m := m) same d source dest
    obtain ⟨s', rest, same'⟩ := ih (m := storeByte m dest (loadByte m source)) same₁
    rw [copied_twice] at rest
    refine ⟨s', ?_, same'⟩
    rw [copyLoop, bind_ok done]
    exact (bind_ok (copyByte_ok access)).trans rest

theorem of_copyLoop (same : s.lastuseraddr = s.lastkerneladdr)
    (run : copyLoop c d s m source dest (n + 1) = .ok (s', m')) : RawAccess c source dest := by
  obtain ⟨s₁, done, _⟩ := transform_eq (c := c) (m := m) same d source dest
  rw [copyLoop, bind_ok done] at run
  obtain ⟨m₁, copied, _⟩ := of_bind run
  exact of_copyByte copied

theorem memCopy_statics (same : s.lastuseraddr = s.lastkerneladdr) {fromaddr toaddr size : Word}
    (run : memCopy d c s m fromaddr toaddr size = .ok (s', m')) : s'.lastuseraddr = s'.lastkerneladdr := by
  unfold memCopy at run
  cases length : size.toNat with
  | zero =>
    rw [length] at run
    cases run
    exact same
  | succ n =>
    rw [length] at run
    have access := of_copyLoop (s := pageTransformStart s) same run
    obtain ⟨s₁, done, same₁⟩ := copyLoop_eq (s := pageTransformStart s) (m := m) (d := d) same access n
    rw [done] at run
    cases run
    exact same₁

theorem Reached.same (reached : Reached s) : s.lastuseraddr = s.lastkerneladdr := by
  induction reached with
  | boot => rfl
  | copy _ run ih => exact memCopy_statics ih run

end Loops

/-- Byte `i` of a user range, if it is mapped, is `b`. -/
def UserHolds (m m' : Memory) (addr : Word) (i : Nat) (b : Byte) : Prop :=
  ∀ a, walk m (addr + BitVec.ofNat 64 i) = .found a → loadByte m' a = b

/-- A range of user space, mapped onto memory below it. -/
structure UserRange (m : Memory) (addr size : Word) : Prop where
  user : userStartAddr ≤ addr
  window : addr.toNat + size.toNat ≤ userEndAddr.toNat + 1
  mapped : ∀ i, i < size.toNat → ∃ a, walk m (addr + BitVec.ofNat 64 i) = .found a ∧ a < userStartAddr

/-- A range of the kernel's memory. -/
structure KernelRange (c : CopyContext) (addr size : Word) : Prop where
  low : addr.toNat + size.toNat ≤ userStartAddr.toNat
  memory : ∀ i, i < size.toNat → c.ram (pageOf (addr + BitVec.ofNat 64 i))

theorem KernelRange.room {c : CopyContext} {addr size : Word} (range : KernelRange c addr size) :
    addr.toNat + size.toNat < 2 ^ 64 :=
  Nat.lt_of_le_of_lt range.low (by decide)

structure CopiedOut (m m' : Memory) (fromaddr toaddr : Word) (n : Nat) : Prop where
  bytes : ∀ i, i < n → UserHolds m m' toaddr i (loadByte m (fromaddr + BitVec.ofNat 64 i))
  others : ∀ a, (∀ i, i < n → walk m (toaddr + BitVec.ofNat 64 i) ≠ .found a) → loadByte m' a = loadByte m a
  rest : m' = { m with phys := m'.phys }

structure CopiedBack (m m' : Memory) (fromaddr toaddr : Word) (n : Nat) : Prop where
  bytes : ∀ i, i < n → UserHolds m m fromaddr i (loadByte m' (toaddr + BitVec.ofNat 64 i))
  others : ∀ a, (∀ i, i < n → a ≠ toaddr + BitVec.ofNat 64 i) → loadByte m' a = loadByte m a
  rest : m' = { m with phys := m'.phys }

/-- The copy returns and satisfies `post`. -/
def Copies (run : Except (Stop Memory) (PageTransform × Memory)) (post : Memory → Prop) : Prop :=
  ∃ s' m', run = .ok (s', m') ∧ post m'

/-- The bytes from `dest` on are those that were at `source`. -/
def SameBytes (m m' : Memory) (source dest : Word) (n : Nat) : Prop :=
  ∀ i, i < n → loadByte m' (dest + BitVec.ofNat 64 i) = loadByte m (source + BitVec.ofNat 64 i)

/-- A structure is copied out to user space, and from there to `dest`. -/
def roundTrip (c : CopyContext) (s : PageTransform) (m : Memory) (source user dest size : Word) :
    Except (Stop Memory) (PageTransform × Memory) := do
  let (s, m) ← memCopyFromKernel c s m source user size
  memCopyToKernel c s m user dest size

section Contract

variable {c : CopyContext} {s : PageTransform} {m : Memory} {fromaddr toaddr user source dest size : Word}

theorem offset_toNat {addr : Word} {i n : Nat} (inside : i < n) (room : addr.toNat + n < 2 ^ 64) :
    (addr + BitVec.ofNat 64 i).toNat = addr.toNat + i := by
  rw [BitVec.toNat_add, BitVec.toNat_ofNat]
  omega

/-- A copy of something comes down to one byte at the bare addresses. -/
theorem copies_iff (reached : Reached s) (some : size ≠ 0) (d : Direction) (post : Memory → Prop) :
    Copies (memCopy d c s m fromaddr toaddr size) post ↔
      RawAccess c fromaddr toaddr ∧ post (storeByte m toaddr (loadByte m fromaddr)) := by
  obtain ⟨n, length⟩ := Nat.exists_eq_succ_of_ne_zero (fun zero => some (BitVec.eq_of_toNat_eq zero) : size.toNat ≠ 0)
  unfold memCopy
  rw [length]
  constructor
  · rintro ⟨s', m', run, good⟩
    have access := of_copyLoop (s := pageTransformStart s) reached.same run
    obtain ⟨s₁, done, _⟩ := copyLoop_eq (s := pageTransformStart s) (m := m) (d := d) reached.same access n
    rw [done] at run
    cases run
    exact ⟨access, good⟩
  · rintro ⟨access, good⟩
    obtain ⟨s₁, done, _⟩ := copyLoop_eq (s := pageTransformStart s) (m := m) (d := d) reached.same access n
    exact ⟨s₁, _, done, good⟩

theorem copies_none (d : Direction) (post : Memory → Prop) :
    Copies (memCopy d c s m fromaddr toaddr 0) post ↔ post m := by
  constructor
  · rintro ⟨s', m', run, good⟩
    cases run
    exact good
  · intro good
    exact ⟨_, m, rfl, good⟩

/-- `mem_copy_from_kernel` is right only where it had nothing to do. -/
theorem copies_out_iff (reached : Reached s) (user : UserRange m toaddr size) (kernel : KernelRange c fromaddr size) :
    Copies (memCopyFromKernel c s m fromaddr toaddr size) (CopiedOut m · fromaddr toaddr size.toNat) ↔
      size = 0 ∨ (c.ram (pageOf toaddr) ∧ loadByte m toaddr = loadByte m fromaddr ∧
        ∀ i, i < size.toNat → UserHolds m m toaddr i (loadByte m (fromaddr + BitVec.ofNat 64 i))) := by
  by_cases none : size = 0
  · subst none
    refine (copies_none .out _).trans (iff_of_true ⟨?_, fun _ _ => rfl, rfl⟩ (.inl rfl))
    intro i inside
    exact absurd inside (Nat.not_lt_zero i)
  have positive : 0 < size.toNat := Nat.pos_of_ne_zero fun zero => none (BitVec.eq_of_toNat_eq zero)
  have readable : c.ram (pageOf fromaddr) := by
    have first := kernel.memory 0 positive
    rwa [BitVec.add_zero] at first
  have apart : ∀ i, i < size.toNat → ∀ a, walk m (toaddr + BitVec.ofNat 64 i) = .found a → a ≠ toaddr := by
    rintro i inside a found rfl
    obtain ⟨a', found', below⟩ := user.mapped i inside
    rw [found] at found'
    cases found'
    exact absurd user.user (BitVec.not_le.mpr below)
  rw [memCopyFromKernel, copies_iff reached none, or_iff_right none, RawAccess, and_iff_right readable]
  refine and_congr_right fun _ => ?_
  constructor
  · intro good
    have here := good.others toaddr fun i inside found => apart i inside toaddr found rfl
    rw [loadByte_storeByte, if_pos rfl] at here
    refine ⟨here.symm, ?_⟩
    intro i inside a found
    have byte := good.bytes i inside a found
    rwa [loadByte_storeByte, if_neg (apart i inside a found)] at byte
  · rintro ⟨here, same⟩
    have all : ∀ a, loadByte (storeByte m toaddr (loadByte m fromaddr)) a = loadByte m a := by
      intro a
      rw [loadByte_storeByte]
      split
      · rename_i this
        rw [this, here]
      · rfl
    refine ⟨?_, fun a _ => all a, rfl⟩
    intro i inside a found
    rw [all, same i inside a found]

/-- `mem_copy_to_kernel` brings over the byte at the bare address, if there is one, and no other. -/
theorem copies_back_iff (reached : Reached s) (user : UserRange m fromaddr size) (kernel : KernelRange c toaddr size) :
    Copies (memCopyToKernel c s m fromaddr toaddr size) (CopiedBack m · fromaddr toaddr size.toNat) ↔
      size = 0 ∨ (c.ram (pageOf fromaddr) ∧ UserHolds m m fromaddr 0 (loadByte m fromaddr) ∧
        ∀ i, 0 < i → i < size.toNat → UserHolds m m fromaddr i (loadByte m (toaddr + BitVec.ofNat 64 i))) := by
  by_cases none : size = 0
  · subst none
    refine (copies_none .back _).trans (iff_of_true ⟨?_, fun _ _ => rfl, rfl⟩ (.inl rfl))
    intro i inside
    exact absurd inside (Nat.not_lt_zero i)
  have positive : 0 < size.toNat := Nat.pos_of_ne_zero fun zero => none (BitVec.eq_of_toNat_eq zero)
  have writable : c.ram (pageOf toaddr) := by
    have first := kernel.memory 0 positive
    rwa [BitVec.add_zero] at first
  have later : ∀ i, 0 < i → i < size.toNat → toaddr + BitVec.ofNat 64 i ≠ toaddr := by
    intro i nonzero inside same
    have value := congrArg BitVec.toNat same
    rw [offset_toNat inside kernel.room] at value
    omega
  have first : loadByte (storeByte m toaddr (loadByte m fromaddr)) (toaddr + BitVec.ofNat 64 0) = loadByte m fromaddr := by
    rw [BitVec.add_zero, loadByte_storeByte, if_pos rfl]
  have others : ∀ i, 0 < i → i < size.toNat →
      loadByte (storeByte m toaddr (loadByte m fromaddr)) (toaddr + BitVec.ofNat 64 i) =
        loadByte m (toaddr + BitVec.ofNat 64 i) := by
    intro i nonzero inside
    rw [loadByte_storeByte, if_neg (later i nonzero inside)]
  rw [memCopyToKernel, copies_iff reached none, or_iff_right none, RawAccess, and_assoc, and_iff_right writable]
  refine and_congr_right fun _ => ?_
  constructor
  · intro good
    refine ⟨?_, ?_⟩
    · have byte := good.bytes 0 positive
      rwa [first] at byte
    · intro i nonzero inside
      have byte := good.bytes i inside
      rwa [others i nonzero inside] at byte
  · rintro ⟨here, rest⟩
    refine ⟨?_, ?_, rfl⟩
    · intro i inside
      rcases Nat.eq_zero_or_pos i with rfl | nonzero
      · rw [first]
        exact here
      · rw [others i nonzero inside]
        exact rest i nonzero inside
    · intro a outside
      have other : a ≠ toaddr := by
        have zero := outside 0 positive
        rwa [BitVec.add_zero] at zero
      rw [loadByte_storeByte, if_neg other]

/-- What a round trip leaves at the destination. -/
theorem round_trip_byte (low : userStartAddr ≤ user) (range : KernelRange c dest size) {i : Nat} (inside : i < size.toNat) :
    loadByte (storeByte (storeByte m user (loadByte m source)) dest
        (loadByte (storeByte m user (loadByte m source)) user)) (dest + BitVec.ofNat 64 i) =
      if i = 0 then loadByte m source else loadByte m (dest + BitVec.ofNat 64 i) := by
  have value := offset_toNat inside range.room
  rw [loadByte_storeByte]
  rcases Nat.eq_zero_or_pos i with rfl | nonzero
  · rw [BitVec.add_zero, if_pos rfl, if_pos rfl, loadByte_storeByte, if_pos rfl]
  · have notFirst : dest + BitVec.ofNat 64 i ≠ dest := by
      intro same
      rw [same] at value
      omega
    have notUser : dest + BitVec.ofNat 64 i ≠ user := by
      intro same
      have bound := range.low
      rw [same] at value
      rw [BitVec.le_def] at low
      omega
    rw [if_neg notFirst, if_neg (Nat.ne_of_gt nonzero), loadByte_storeByte, if_neg notUser]

/-- Out and back in, a structure keeps its first byte at most. -/
theorem round_trip_iff (reached : Reached s) (low : userStartAddr ≤ user) (first : KernelRange c source size)
    (second : KernelRange c dest size) :
    Copies (roundTrip c s m source user dest size) (SameBytes m · source dest size.toNat) ↔
      size = 0 ∨ (c.ram (pageOf user) ∧ ∀ i, 0 < i → i < size.toNat →
        loadByte m (dest + BitVec.ofNat 64 i) = loadByte m (source + BitVec.ofNat 64 i)) := by
  by_cases none : size = 0
  · subst none
    refine iff_of_true ⟨_, m, rfl, ?_⟩ (.inl rfl)
    intro i inside
    exact absurd inside (Nat.not_lt_zero i)
  have positive : 0 < size.toNat := Nat.pos_of_ne_zero fun zero => none (BitVec.eq_of_toNat_eq zero)
  have access : ∀ addr, KernelRange c addr size → c.ram (pageOf addr) := by
    intro addr range
    have start := range.memory 0 positive
    rwa [BitVec.add_zero] at start
  rw [or_iff_right none]
  constructor
  · rintro ⟨s', m', run, good⟩
    obtain ⟨⟨s₁, m₁⟩, out, back⟩ := of_bind run
    obtain ⟨sent, rfl⟩ := (copies_iff reached none .out (· = m₁)).mp ⟨s₁, m₁, out, rfl⟩
    obtain ⟨_, bytes⟩ := (copies_iff (reached.copy out) none .back (SameBytes m · source dest size.toNat)).mp
      ⟨s', m', back, good⟩
    refine ⟨sent.2, ?_⟩
    intro i nonzero inside
    have byte := bytes i inside
    rwa [round_trip_byte low second inside, if_neg (Nat.ne_of_gt nonzero)] at byte
  · rintro ⟨memory, same⟩
    obtain ⟨s₁, m₁, out, rfl⟩ := (copies_iff reached none .out (· = _)).mpr ⟨⟨access source first, memory⟩, rfl⟩
    have bytes : SameBytes m (storeByte (storeByte m user (loadByte m source)) dest
        (loadByte (storeByte m user (loadByte m source)) user)) source dest size.toNat := by
      intro i inside
      rw [round_trip_byte low second inside]
      split
      · rename_i zero
        rw [zero, BitVec.add_zero]
      · rename_i nonzero
        exact same i (Nat.pos_of_ne_zero nonzero) inside
    obtain ⟨s', m', back, good⟩ := (copies_iff (reached.copy out) none .back (SameBytes m · source dest size.toNat)).mpr
      ⟨⟨memory, access dest second⟩, bytes⟩
    exact ⟨s', m', (bind_ok out).trans back, good⟩

/-- The bulk copies are right exactly where nothing was to be done but for one byte at the bare user address. -/
theorem bulk_copies_iff (reached : Reached s) (range : UserRange m user size) (first : KernelRange c source size)
    (second : KernelRange c dest size) :
    (Copies (memCopyFromKernel c s m source user size) (CopiedOut m · source user size.toNat) ↔
      size = 0 ∨ (c.ram (pageOf user) ∧ loadByte m user = loadByte m source ∧
        ∀ i, i < size.toNat → UserHolds m m user i (loadByte m (source + BitVec.ofNat 64 i)))) ∧
    (Copies (memCopyToKernel c s m user dest size) (CopiedBack m · user dest size.toNat) ↔
      size = 0 ∨ (c.ram (pageOf user) ∧ UserHolds m m user 0 (loadByte m user) ∧
        ∀ i, 0 < i → i < size.toNat → UserHolds m m user i (loadByte m (dest + BitVec.ofNat 64 i)))) ∧
    (Copies (roundTrip c s m source user dest size) (SameBytes m · source dest size.toNat) ↔
      size = 0 ∨ (c.ram (pageOf user) ∧ ∀ i, 0 < i → i < size.toNat →
        loadByte m (dest + BitVec.ofNat 64 i) = loadByte m (source + BitVec.ofNat 64 i))) :=
  ⟨copies_out_iff reached range first, copies_back_iff reached range second,
    round_trip_iff reached range.user first second⟩

end Contract

section Example

/-- The memory of the machine: 8 MB from 0x80000000 on. -/
def k210 : CopyContext where
  k := sampleProcess (forkedTask fun _ => 1) 0x4000000
  image := fun _ _ => 0
  ram := fun page => decide (0x80000 ≤ page ∧ page < 0x80800)
  stack := 0x80700FF8
  low := by decide

theorem forkedTask_range : UserRange (forkedTask fun _ => 1) userStartAddr 8 where
  user := BitVec.le_refl _
  window := by decide
  mapped := by
    intro i inside
    have shared := forkedTask_both fun _ => 1
    obtain ⟨e, leaf, target, _⟩ := shared.leaf parentDir (.inl rfl)
    have below : i < 8 := inside
    have slot : (forkedTask fun _ => 1).slotOf (userStartAddr + BitVec.ofNat 64 i) = (parentDir, 0, 0) := by
      rw [← forkedTask_slot shared]
      apply slotOf_congr
      interval_cases i <;> decide
    rw [← slot] at leaf
    refine ⟨_, walk_found leaf, ?_⟩
    rw [ppnToAddr_of_target (by decide) target]
    interval_cases i <;> decide

theorem k210_range : KernelRange k210 0x80700000 8 where
  low := by decide
  memory := by
    intro i inside
    have below : i < 8 := inside
    interval_cases i <;> decide

/-- Eight bytes to a mapped page: the store goes to the address as it is, where there is no memory. -/
theorem copy_out_fails : UserRange (forkedTask fun _ => 1) userStartAddr 8 ∧ KernelRange k210 0x80700000 8 ∧
    ¬ Copies (memCopyFromKernel k210 ⟨0, 0, false⟩ (forkedTask fun _ => 1) 0x80700000 userStartAddr 8)
      (CopiedOut (forkedTask fun _ => 1) · 0x80700000 userStartAddr 8) := by
  refine ⟨forkedTask_range, k210_range, ?_⟩
  intro copied
  have access := ((copies_iff .boot (by decide) .out _).mp copied).1
  exact absurd access.2 (by decide)

theorem k210_copies_nothing : Copies (memCopyFromKernel k210 ⟨0, 0, false⟩ (forkedTask fun _ => 1) 0x80700000 userStartAddr 8)
    (CopiedOut (forkedTask fun _ => 1) · 0x80700000 userStartAddr 8) ↔ False := by
  refine (bulk_copies_iff .boot forkedTask_range k210_range k210_range).1.trans (iff_false_intro ?_)
  rintro (none | ⟨memory, _⟩)
  · exact absurd none (by decide)
  · exact absurd memory (by decide)

end Example

end K210Linux.Kernel
