import K210Linux.Exec.Arguments

namespace K210Linux.Exec

open K210Linux.Mm K210Linux.Kernel CStrings Outcome

/-- The new user memory after `change_ldt`: the argument pages end at `0xC4000000`, and the rest is
    loaded on demand. -/
def changeLdt (a : ArgPages) (demand : Space) : Space := fun x =>
  let old := x - 0x3FE0000
  if userStartAddr ≤ old ∧ argIndex old < maxArgPages ∧ a.page (argIndex old) ≠ 0 then argSpace a old else demand x

/-- A loop of `create_tables`. The result holds the pointers `p` and `argv` as the loop leaves them. -/
def putPointers (space : Space) (p argv : Word) : Nat → Option (Space × Word × Word)
  | 0 => some (space, p, argv)
  | argc + 1 =>
    let space := store64 space argv p
    match readString space p (2 ^ 64) with
    | none => none
    | some s => putPointers space (offset p (s.length + 1)) (argv + 8) argc

/-- The registers and the memory that a program starts with. -/
structure Tables where
  a0 : Word
  a1 : Word
  a2 : Word
  sp : Word
  space : Space

def createTables (space : Space) (p : Word) (argc envc : Int) : Option Tables := do
  let sp := ~~~(7 : Word) &&& p
  let sp := sp - 8 * BitVec.ofInt 64 (envc + 1)
  let envp := sp
  let sp := sp - 8 * BitVec.ofInt 64 (argc + 1)
  let argv := sp
  let (space, p, argvEnd) ← putPointers space p argv argc.toNat
  let space := store64 space argvEnd 0
  let (space, _, envpEnd) ← putPointers space p envp envc.toNat
  some ⟨BitVec.ofInt 64 argc, argv, envp, sp, store64 space envpEnd 0⟩

theorem Pushed.mapped {m : Memory} {a : ArgPages} {p : Word} {bytes : List Byte} (pushed : Pushed m a p bytes)
    (demand : Space) : BytesAt (changeLdt a demand) (p + 0x3FE0000) bytes := by
  intro i inside
  obtain ⟨user, _, index, used⟩ := pushed.offset_index inside
  have back : offset (p + 0x3FE0000) i - 0x3FE0000 = offset p i := by
    unfold offset
    generalize BitVec.ofNat 64 i = n
    bv_omega
  rw [changeLdt, back, if_pos ⟨user, index, used⟩]
  exact pushed.holds i inside

section Pointers

variable {space : Space} {p table : Word} {strs : List (List Byte)} {more : List Byte}

/-- The pointers to the strings, one after the other, and nothing else. -/
structure PointersPut (p table : Word) (strs : List (List Byte)) (space space' : Space) : Prop where
  pointer : ∀ i, i < strs.length → load64 space' (slot table i) = offset p (terminated (strs.take i)).length
  others : ∀ x : Word, x.toNat < table.toNat ∨ table.toNat + 8 * strs.length ≤ x.toNat → space' x = space x

theorem putPointers_spec (bytes : BytesAt space p (terminated strs ++ more)) (nonzero : ∀ s ∈ strs, ∀ b ∈ s, b ≠ 0)
    (below : table.toNat + 8 * strs.length ≤ p.toNat) (room : p.toNat + (terminated strs ++ more).length < 2 ^ 64) :
    ∃ space', putPointers space p table strs.length =
      some (space', offset p (terminated strs).length, slot table strs.length) ∧
      PointersPut p table strs space space' := by
  induction strs generalizing space p table with
  | nil =>
    refine ⟨space, ?_, fun i inside => absurd inside (Nat.not_lt_zero i), fun _ _ => rfl⟩
    rw [List.length_nil, putPointers, terminated_nil, List.length_nil, offset_zero, slot_zero]
  | cons s strs ih =>
    rw [List.length_append, length_terminated_cons] at room
    rw [List.length_cons] at below
    rw [terminated_cons, List.append_assoc] at bytes
    have above : ∀ x : Word, p.toNat ≤ x.toNat → store64 space table p x = space x := fun x high =>
      store64_other (by omega) (.inr (by omega))
    have kept : BytesAt (store64 space table p) p ((s ++ [0]) ++ (terminated strs ++ more)) := by
      intro i inside
      rw [← bytes i inside]
      simp only [List.length_append, List.length_singleton] at inside
      exact above _ (by rw [toNat_offset (by omega)]; omega)
    obtain ⟨first, rest⟩ := bytesAt_append.mp kept
    have size : (s ++ [0]).length = s.length + 1 := by rw [List.length_append, List.length_singleton]
    rw [size] at rest
    have read : readString (store64 space table p) p (2 ^ 64) = some s :=
      readString_eq first (nonzero s List.mem_cons_self) (by omega)
    have next : (offset p (s.length + 1)).toNat = p.toNat + (s.length + 1) := toNat_offset (by omega)
    have table' : (offset table 8).toNat = table.toNat + 8 := toNat_offset (by omega)
    rw [show offset table 8 = table + 8 from rfl] at table'
    have below' : (table + 8).toNat + 8 * strs.length ≤ (offset p (s.length + 1)).toNat := by omega
    obtain ⟨space', run, put⟩ := ih rest (fun t member => nonzero t (List.mem_cons_of_mem _ member)) below'
      (by rw [List.length_append]; omega)
    refine ⟨space', ?_, ?_, ?_⟩
    · rw [List.length_cons, putPointers, read]
      dsimp only
      rw [run, offset_offset, length_terminated_cons, slot_succ]
    · intro i inside
      cases i with
      | zero =>
        rw [slot_zero, List.take_zero, terminated_nil, List.length_nil, offset_zero]
        have same : load64 space' table = load64 (store64 space table p) table := by
          apply load64_congr
          intro i small
          apply put.others
          left
          rw [toNat_offset (by omega), table']
          omega
        rw [same, load64_store64]
      | succ i =>
        rw [slot_succ, put.pointer i (Nat.lt_of_succ_lt_succ inside), List.take_succ_cons, length_terminated_cons,
          offset_offset]
    · intro x outside
      rw [List.length_cons] at outside
      rw [put.others x (by omega)]
      exact store64_other (by omega) (by omega)

/-- A program finds the strings in place behind its pointers. -/
theorem vectorAt_of_pointers (pointer : ∀ i, i < strs.length → load64 space (slot table i) = offset p (terminated (strs.take i)).length)
    (last : load64 space (slot table strs.length) = 0) (strings : BytesAt space p (terminated strs))
    (positive : 0 < p.toNat) (room : p.toNat + (terminated strs).length < 2 ^ 64) : VectorAt space table strs where
  valid i inside := by
    have before := length_terminated_take_le strs inside
    rw [pointer i inside]
    intro null
    have value := congrArg BitVec.toNat null
    rw [toNat_offset (by omega), show (0 : Word).toNat = 0 from rfl] at value
    omega
  string i inside := by
    rw [pointer i inside]
    exact strings.string inside
  last := last

end Pointers

/-- A program finds its arguments and its environment. -/
structure Delivered (argv envp : List (List Byte)) (t : Tables) : Prop where
  argc : t.a0 = BitVec.ofNat 64 argv.length
  args : VectorAt t.space t.a1 argv
  envs : VectorAt t.space t.a2 envp

/-- The two tables stand below `p`, on a multiple of 8, with the stack below them, and the strings stand
    one after the other from `p` on. -/
structure PlacedAt (p : Word) (argv envp : List (List Byte)) (t : Tables) : Prop where
  stack : t.sp = t.a1
  aligned : t.sp.toNat % 8 = 0
  envTable : t.a2.toNat = t.a1.toNat + 8 * (argv.length + 1)
  below : t.a2.toNat + 8 * (envp.length + 1) ≤ p.toNat
  args : ∀ i, i < argv.length → load64 t.space (slot t.a1 i) = offset p (terminated (argv.take i)).length
  envs : ∀ i, i < envp.length →
    load64 t.space (slot t.a2 i) = offset p ((terminated argv).length + (terminated (envp.take i)).length)

section Tables

variable {space : Space} {p : Word} {argv envp : List (List Byte)}

theorem toNat_align8 (p : Word) : (~~~(7 : Word) &&& p).toNat = 8 * (p.toNat / 8) := by
  have mask : ∀ i, i < 64 → (~~~(7 : Word)).getLsbD i = decide (3 ≤ i) := by decide
  have shifted : ~~~(7 : Word) &&& p = (p >>> 3) <<< 3 := by
    apply BitVec.eq_of_getLsbD_eq
    intro i small
    rw [BitVec.getLsbD_and, mask i small, BitVec.getLsbD_shiftLeft, BitVec.getLsbD_ushiftRight]
    grind
  have bound := p.isLt
  rw [shifted, BitVec.toNat_shiftLeft, BitVec.toNat_ushiftRight, Nat.shiftLeft_eq, Nat.shiftRight_eq_div_pow]
  omega

theorem toNat_slots (n : Nat) (small : n < 2 ^ 32) : (8 * BitVec.ofInt 64 ((n : Int) + 1)).toNat = 8 * (n + 1) := by
  rw [show ((n : Int) + 1) = ((n + 1 : Nat) : Int) from rfl, BitVec.ofInt_natCast, BitVec.toNat_mul, BitVec.toNat_ofNat]
  change 8 * ((n + 1) % 2 ^ 64) % 2 ^ 64 = _
  omega

theorem createTables_spec {more : List Byte} {total : Nat}
    (bytes : BytesAt space p (terminated argv ++ (terminated envp ++ more)))
    (length : (terminated argv ++ (terminated envp ++ more)).length = total) (nonzero : ∀ s ∈ argv, ∀ b ∈ s, b ≠ 0)
    (nonzero' : ∀ s ∈ envp, ∀ b ∈ s, b ≠ 0) (below : 9 * total + 24 ≤ p.toNat) (top : p.toNat + total < 2 ^ 32) :
    ∃ t, createTables space p argv.length envp.length = some t ∧ Delivered argv envp t ∧ PlacedAt p argv envp t := by
  have few := length_le_terminated argv
  have few' := length_le_terminated envp
  rw [List.length_append, List.length_append] at length
  obtain ⟨sp, align⟩ : ∃ sp : Word, sp = ~~~(7 : Word) &&& p := ⟨_, rfl⟩
  obtain ⟨envTable, env⟩ : ∃ x, x = sp - 8 * BitVec.ofInt 64 ((envp.length : Int) + 1) := ⟨_, rfl⟩
  obtain ⟨argTable, arg⟩ : ∃ x, x = envTable - 8 * BitVec.ofInt 64 ((argv.length : Int) + 1) := ⟨_, rfl⟩
  have base : sp.toNat = 8 * (p.toNat / 8) := by rw [align, toNat_align8]
  have size := toNat_slots envp.length (by omega)
  have size' := toNat_slots argv.length (by omega)
  have envAt : envTable.toNat = sp.toNat - 8 * (envp.length + 1) := by
    rw [env, BitVec.toNat_sub_of_le (by rw [BitVec.le_def, size]; omega), size]
  have argAt : argTable.toNat = envTable.toNat - 8 * (argv.length + 1) := by
    rw [arg, BitVec.toNat_sub_of_le (by rw [BitVec.le_def, size']; omega), size']
  obtain ⟨space₁, run₁, put₁⟩ := putPointers_spec bytes nonzero (by omega : argTable.toNat + 8 * argv.length ≤ p.toNat)
    (by rw [List.length_append, List.length_append]; omega)
  have argEnd : (slot argTable argv.length).toNat = argTable.toNat + 8 * argv.length := toNat_offset (by omega)
  have next : (offset p (terminated argv).length).toNat = p.toNat + (terminated argv).length := toNat_offset (by omega)
  have high₂ : ∀ x : Word, p.toNat ≤ x.toNat → store64 space₁ (slot argTable argv.length) 0 x = space x := by
    intro x high
    rw [store64_other (by omega) (by omega), put₁.others x (by omega)]
  have strings₂ : BytesAt (store64 space₁ (slot argTable argv.length) 0) (offset p (terminated argv).length)
      (terminated envp ++ more) := by
    apply (bytesAt_append.mp bytes).2.congr
    intro i inside
    rw [List.length_append] at inside
    exact high₂ _ (by rw [toNat_offset (by omega)]; omega)
  obtain ⟨space₃, run₃, put₃⟩ := putPointers_spec strings₂ nonzero' (by omega : envTable.toNat + 8 * envp.length ≤ _)
    (by rw [List.length_append]; omega)
  have envEnd : (slot envTable envp.length).toNat = envTable.toNat + 8 * envp.length := toNat_offset (by omega)
  have final : ∀ x : Word, x.toNat < envTable.toNat ∨ envTable.toNat + 8 * (envp.length + 1) ≤ x.toNat →
      store64 space₃ (slot envTable envp.length) 0 x = store64 space₁ (slot argTable argv.length) 0 x := by
    intro x outside
    rw [store64_other (by omega) (by omega), put₃.others x (by omega)]
  have strings : BytesAt (store64 space₃ (slot envTable envp.length) 0) p (terminated argv ++ (terminated envp ++ more)) := by
    apply bytes.congr
    intro i inside
    rw [List.length_append, List.length_append] at inside
    have value : (offset p i).toNat = p.toNat + i := toNat_offset (by omega)
    rw [final _ (by omega), high₂ _ (by omega)]
  have inTable : ∀ (table : Word) i j, table.toNat + 8 * i + j < 2 ^ 64 →
      (offset (slot table i) j).toNat = table.toNat + 8 * i + j := by
    intro table i j small
    rw [slot, offset_offset, toNat_offset (by omega)]
    omega
  have args : ∀ i, i < argv.length → load64 (store64 space₃ (slot envTable envp.length) 0) (slot argTable i) =
      offset p (terminated (argv.take i)).length := by
    intro i inside
    rw [← put₁.pointer i inside]
    apply load64_congr
    intro j small
    have value := inTable argTable i j (by omega)
    rw [final _ (by omega), store64_other (by omega) (by omega)]
  have envs : ∀ i, i < envp.length → load64 (store64 space₃ (slot envTable envp.length) 0) (slot envTable i) =
      offset (offset p (terminated argv).length) (terminated (envp.take i)).length := by
    intro i inside
    rw [← put₃.pointer i inside]
    apply load64_congr
    intro j small
    have value := inTable envTable i j (by omega)
    exact store64_other (by omega) (by omega)
  have lastArg : load64 (store64 space₃ (slot envTable envp.length) 0) (slot argTable argv.length) = 0 := by
    have kept : load64 (store64 space₃ (slot envTable envp.length) 0) (slot argTable argv.length) =
        load64 (store64 space₁ (slot argTable argv.length) 0) (slot argTable argv.length) := by
      apply load64_congr
      intro j small
      have value := inTable argTable argv.length j (by omega)
      exact final _ (by omega)
    rw [kept, load64_store64]
  obtain ⟨first, second⟩ := bytesAt_append.mp strings
  refine ⟨⟨BitVec.ofInt 64 argv.length, argTable, envTable, argTable, store64 space₃ (slot envTable envp.length) 0⟩,
    ?_, ⟨BitVec.ofInt_natCast 64 argv.length, vectorAt_of_pointers args lastArg first (by omega) (by omega),
      vectorAt_of_pointers envs load64_store64 (bytesAt_append.mp second).1 (by omega) (by omega)⟩,
    ⟨rfl, ?_, ?_, ?_, args, ?_⟩⟩
  · rw [createTables, ← align]
    dsimp only
    rw [← env, ← arg, Int.toNat_natCast, run₁]
    dsimp only [Option.bind_eq_bind, Option.bind_some]
    rw [Int.toNat_natCast, run₃]
    rfl
  · change argTable.toNat % 8 = 0
    omega
  · change envTable.toNat = argTable.toNat + 8 * (argv.length + 1)
    omega
  · change envTable.toNat + 8 * (envp.length + 1) ≤ p.toNat
    omega
  · intro i inside
    rw [← offset_offset]
    exact envs i inside

end Tables

end K210Linux.Exec
