import K210Linux.Exec.Execve

/-! `copy_strings` with the flag of `set_fs`, which its three kinds of vectors move in three ways. -/

namespace K210Linux.Exec

open K210Linux.Mm K210Linux.Kernel CStrings Outcome

/-- `from_kmem`: strings and pointers of the user, a pointer of the kernel, or the strings of the kernel too. -/
inductive FromKmem where
  | user
  | pointer
  | strings
deriving DecidableEq

/-- What `get_fs_byte` reads while `fs_is_kernel` is 0 and while it is 1. -/
structure Spaces where
  user : Space
  kernel : Space

def Spaces.read (m : Spaces) (fs : Bool) : Space := if fs then m.kernel else m.user

section Calls

variable (kmem : FromKmem) (old : Bool) (m : Spaces)

/-- One byte of the loop `while(len)`, which is at `tmp`. -/
def pushRead (tmp : Word) (c : Cursor) (a : ArgPages) (fs : Bool) : Except ExecStop (Option Cursor × ArgPages × Bool) :=
  let p := c.p - 1
  let offset := c.offset - 1
  if offset < 0 then
    let offset : Int := (p % pageSize).toNat
    let fs := if kmem = .strings then old else fs
    if maxArgPages ≤ argIndex p then .error (.outside (argIndex p))
    else
      let (pag, a) := argPage a (argIndex p)
      if pag = 0 then .ok (none, a, fs)
      else
        let fs := if kmem = .strings then true else fs
        .ok (some ⟨p, offset, pag⟩, a.store (pag + BitVec.ofInt 64 offset) (m.read fs tmp), fs)
  else .ok (some ⟨p, offset, c.pag⟩, a.store (c.pag + BitVec.ofInt 64 offset) (m.read fs tmp), fs)

/-- The loop `while(len)` over the string at `tmp`. -/
def pushString (tmp : Word) : Nat → Cursor → ArgPages → Bool → Except ExecStop (Option Cursor × ArgPages × Bool)
  | 0, c, a, fs => .ok (some c, a, fs)
  | len + 1, c, a, fs => do
    match ← pushRead kmem old m (offset tmp len) c a fs with
    | (none, a, fs) => .ok (none, a, fs)
    | (some c, a, fs) => pushString tmp len c a fs

/-- The loop `while(argc-- > 0)`, and the end of `copy_strings`. -/
def copyVector (argv : Word) : Nat → Cursor → ArgPages → Bool → Except ExecStop (Word × ArgPages × Bool)
  | 0, c, a, fs => .ok (c.p, a, if kmem = .strings then old else fs)
  | argc + 1, c, a, fs =>
    let fs := if kmem = .pointer then true else fs
    let tmp := load64 (m.read fs) (slot argv argc)
    if tmp = 0 then .error (.stopped (.panic "argc is wrong"))
    else
      let fs := if kmem = .pointer then old else fs
      match readString (m.read fs) tmp intMax with
      | none => .error .endless
      | some s =>
        let len := s.length + 1
        if c.p.toInt - len < 0 then .ok (0, a, old)
        else do
          match ← pushString kmem old m tmp len c a fs with
          | (none, a, fs) => .ok (0, a, fs)
          | (some c, a, fs) => copyVector argv argc c a fs

end Calls

/-- `copy_strings`, with `fs_is_kernel`. -/
def copyStringsFs (kmem : FromKmem) (m : Spaces) (argc : Int) (argv : Word) (a : ArgPages) (p : Word) (fs : Bool) :
    Except ExecStop (Word × ArgPages × Bool) :=
  if p = 0 then .ok (0, a, fs)
  else copyVector kmem fs m argv argc.toNat ⟨p, 0, 0⟩ a (if kmem = .strings then true else fs)

/-- The flag at the bytes of a string, and at the pointer to it. -/
def FromKmem.stringFs (kmem : FromKmem) (fs : Bool) : Bool := if kmem = .strings then true else fs
def FromKmem.pointerFs (kmem : FromKmem) (fs : Bool) : Bool := if kmem = .user then fs else true

/-- What a vector yields to `copy_strings`. -/
def FromKmem.source (kmem : FromKmem) (m : Spaces) (argv : Word) (fs : Bool) : Source := fun argc =>
  fetchString (m.read (kmem.stringFs fs)) (load64 (m.read (kmem.pointerFs fs)) (slot argv argc))

section Flag

variable {kmem : FromKmem} {old : Bool} {m : Spaces} {tmp argv : Word} {c : Cursor} {a : ArgPages}

/-- The flag is down for the user's page alone, and back where a page is missing. -/
theorem pushRead_eq (tmp : Word) (c : Cursor) (a : ArgPages) : pushRead kmem old m tmp c a (kmem.stringFs old) =
    (pushByte (m.read (kmem.stringFs old) tmp) c a).map fun (r, a) =>
      (r, a, if r.isNone then old else kmem.stringFs old) := by
  have lowered : (if kmem = .strings then old else kmem.stringFs old) = old := by
    unfold FromKmem.stringFs
    split <;> rfl
  have raised : (if kmem = .strings then true else old) = kmem.stringFs old := rfl
  unfold pushRead pushByte
  dsimp only
  rw [lowered, raised]
  split
  · split
    · rfl
    · split
      · rfl
      · rfl
  · rfl

theorem pushString_eq {bytes : List Byte} (at_tmp : BytesAt (m.read (kmem.stringFs old)) tmp bytes) (c : Cursor)
    (a : ArgPages) : pushString kmem old m tmp bytes.length c a (kmem.stringFs old) =
      (pushBytes c a bytes.reverse).map fun (r, a) => (r, a, if r.isNone then old else kmem.stringFs old) := by
  induction bytes using List.reverseRecOn generalizing c a with
  | nil => rfl
  | append_singleton bytes b ih =>
    obtain ⟨first, last⟩ := bytesAt_append.mp at_tmp
    have here : m.read (kmem.stringFs old) (offset tmp bytes.length) = b := (bytesAt_cons.mp last).1
    rw [List.length_append, List.length_singleton, List.reverse_append, List.reverse_singleton, List.singleton_append,
      pushString, pushBytes, pushRead_eq, here]
    cases pushByte b c a with
    | error stop => rfl
    | ok result =>
      obtain ⟨_ | c', a'⟩ := result
      · rfl
      · exact ih first c' a'

/-- Pointers and strings are read in the right space, and the flag ends as it was. -/
theorem copyVector_eq (argv : Word) (n : Nat) (c : Cursor) (a : ArgPages) :
    copyVector kmem old m argv n c a (kmem.stringFs old) =
      (copyFrom (kmem.source m argv old) c a n).map fun (p, a) => (p, a, old) := by
  have pointer : (if kmem = .pointer then true else kmem.stringFs old) = kmem.pointerFs old := by
    cases kmem <;> rfl
  have string : (if kmem = .pointer then old else kmem.pointerFs old) = kmem.stringFs old := by
    cases kmem <;> rfl
  induction n generalizing c a with
  | zero =>
    have ended : (if kmem = .strings then old else kmem.stringFs old) = old := by
      cases kmem <;> rfl
    rw [copyVector, ended]
    rfl
  | succ n ih =>
    rw [copyVector, copyFrom]
    dsimp only
    rw [pointer, string, FromKmem.source, fetchString]
    split
    · rfl
    · generalize read : readString (m.read (kmem.stringFs old)) (load64 (m.read (kmem.pointerFs old)) (slot argv n)) intMax = found
      cases found with
      | none => rfl
      | some s =>
        dsimp only
        split
        · rfl
        · have pushed : pushString kmem old m _ _ c a (kmem.stringFs old) = _ := pushString_eq (readString_bytes read) c a
          rw [List.length_append, List.length_singleton] at pushed
          rw [pushed]
          cases pushBytes c a (s ++ [0]).reverse with
          | error stop => rfl
          | ok result =>
            obtain ⟨_ | c', a'⟩ := result
            · rfl
            · exact ih c' a'

/-- `copy_strings` gives back the flag that it found, on every exit. -/
theorem copyStringsFs_eq (kmem : FromKmem) (m : Spaces) (argc : Int) (argv : Word) (a : ArgPages) (p : Word) (fs : Bool) :
    copyStringsFs kmem m argc argv a p fs =
      (copyStrings argc (kmem.source m argv fs) a p).map fun (p, a) => (p, a, fs) := by
  unfold copyStringsFs copyStrings
  split
  · rfl
  · exact copyVector_eq argv argc.toNat ⟨p, 0, 0⟩ a

end Flag

end K210Linux.Exec
