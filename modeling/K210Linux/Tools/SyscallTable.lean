import Mathlib.Data.Finset.Card
import Mathlib.Data.List.DropRight
import Mathlib.Tactic

namespace K210Linux.Tools

abbrev Text := List Char

def tableSize : Nat := 2048

def nullText : Text := ['N', 'U', 'L', 'L']

/-- An array index, or the exception. -/
def index (i : Int) : Option Nat := if 0 ≤ i ∧ i < tableSize then some i.toNat else none

/-- The dictionary `mustsyscalllist`, `idlist`, `syscallstringlist` and `cnt`. -/
structure Generator where
  must : Text → Option Nat
  idlist : Nat → Bool
  strings : Nat → Text
  cnt : Nat

namespace Generator

def empty : Generator where
  must := fun _ => none
  idlist := fun _ => false
  strings := fun _ => nullText
  cnt := 0

variable (g : Generator)

/-- A name gets an id. -/
def assign (name : Text) (id : Nat) : Generator :=
  { g with must := Function.update g.must name (some id), idlist := Function.update g.idlist id true }

/-- The loop over the required names, with `ToLower`. -/
def reserve (toLower : Text → Text) : List (Text × Int) → Generator → Option Generator
  | [], g => some g
  | (name, id) :: required, g => do
    let i ← index id
    reserve toLower required (g.assign (toLower name) i)

/-- The loop `while(idlist[cnt])`, with what is left of the array. -/
def skip (idlist : Nat → Bool) : Nat → Nat → Option Nat
  | 0, _ => none
  | left + 1, cnt => if idlist cnt then skip idlist left (cnt + 1) else some cnt

/-- The id of a name: its own, or the next free one. -/
def identify (name : Text) : Option (Nat × Generator) :=
  match g.must name with
  | some id => some (id, g)
  | none => do
    let cnt ← skip g.idlist (tableSize - g.cnt) g.cnt
    some (cnt, { g.assign name cnt with cnt := cnt + 1 })

def place (name : Text) : Option Generator := do
  let (id, g) ← g.identify name
  some { g with strings := Function.update g.strings id name }

/-- The loop over the listed names. -/
def placeAll : List Text → Generator → Option Generator
  | [], g => some g
  | name :: names, g => do
    let g ← g.place name
    placeAll names g

end Generator

/-- `Substring(4,Length - 4)`. -/
def substring (s : Text) : Option Text := if s.length < 4 then none else some (s.drop 4)

/-- `"#define __NR_" + name + " " + i + "\r\n"`. -/
def defineLine (name : Text) (i : Nat) : Text :=
  "#define __NR_".toList ++ name ++ ' ' :: (Nat.toDigits 10 i ++ ['\r', '\n'])

/-- What is appended to the two string builders, piece by piece. -/
structure Output where
  entries : List Text
  lines : List Text

/-- A turn of the last loop. -/
def emit (names : List Text) (strings : Nat → Text) (i : Nat) (out : Output) : Option Output :=
  let s := strings i
  if s ∈ names ∨ s = nullText then do
    let entries := out.entries ++ [s ++ [',']]
    if s ≠ nullText then do
      let name ← substring s
      some { entries, lines := out.lines ++ [defineLine name i] }
    else some { out with entries }
  else some out

def emitAll (names : List Text) (strings : Nat → Text) : Nat → Option Output
  | 0 => some ⟨[], []⟩
  | n + 1 => (emitAll names strings n).bind (emit names strings n)

/-- `button1_Click` between the two text boxes it reads and the two it sets. -/
def generate (toLower : Text → Text) (names : List Text) (required : List (Text × Int)) :
    Option (Generator × Output) := do
  let g ← Generator.reserve toLower required .empty
  let g ← Generator.placeAll names g
  let out ← emitAll names g.strings tableSize
  some (g, out)

section Numbers

variable {g g' : Generator} {domain : Finset Text} {name : Text} {id : Nat}

/-- The dictionary gives the names of the domain different ids, `idlist` marks the ids given, and no id is free
    below the cursor. -/
structure Numbered (g : Generator) (domain : Finset Text) : Prop where
  domain : ∀ name, name ∈ domain ↔ ∃ id, g.must name = some id
  inside : ∀ name id, g.must name = some id → id < tableSize
  injective : ∀ a b id, g.must a = some id → g.must b = some id → a = b
  taken : ∀ id, g.idlist id = true ↔ ∃ name, g.must name = some id
  cursor : ∀ id < g.cnt, g.idlist id = true

/-- The names keep their ids. -/
def Keeps (g g' : Generator) : Prop := ∀ name id, g.must name = some id → g'.must name = some id

theorem Keeps.trans {g₁ g₂ g₃ : Generator} (one : Keeps g₁ g₂) (two : Keeps g₂ g₃) : Keeps g₁ g₃ :=
  fun name id given => two name id (one name id given)

theorem Numbered.empty : Numbered .empty ∅ := by
  refine ⟨?_, nofun, nofun, ?_, nofun⟩
  · intro name
    simp [Generator.empty]
  · intro id
    simp [Generator.empty]

theorem Numbered.none (numbered : Numbered g domain) (new : name ∉ domain) : g.must name = .none := by
  cases given : g.must name with
  | none => rfl
  | some id => exact absurd ((numbered.domain name).2 ⟨id, given⟩) new

theorem keeps_assign (absent : g.must name = none) (id : Nat) : Keeps g (g.assign name id) := by
  intro other given
  have apart : other ≠ name ∨ other = name := (em _).symm
  intro isGiven
  rcases apart with apart | same
  · exact (Function.update_of_ne apart ..).trans isGiven
  · rw [same, absent] at isGiven
    cases isGiven

/-- A new name with a free id. -/
theorem Numbered.assign (numbered : Numbered g domain) (new : name ∉ domain) (inside : id < tableSize)
    (free : g.idlist id = false) : Numbered (g.assign name id) (insert name domain) := by
  have absent := numbered.none new
  have unused : ∀ other, g.must other ≠ some id := by
    intro other given
    rw [(numbered.taken id).2 ⟨other, given⟩] at free
    cases free
  have must : ∀ other, (g.assign name id).must other = if other = name then some id else g.must other :=
    fun other => Function.update_apply ..
  have idlist : ∀ i, (g.assign name id).idlist i = if i = id then true else g.idlist i :=
    fun i => Function.update_apply ..
  refine ⟨?_, ?_, ?_, ?_, ?_⟩
  · intro other
    rw [Finset.mem_insert, must]
    by_cases same : other = name
    · simp [same]
    · simp [same, numbered.domain]
  · intro other i
    rw [must]
    split
    · intro given
      rw [← Option.some.inj given]
      exact inside
    · exact numbered.inside other i
  · intro a b i
    rw [must, must]
    split_ifs with isA isB isB
    · intro _ _
      rw [isA, isB]
    · intro given given'
      rw [← given] at given'
      exact absurd given' (unused b)
    · intro given given'
      rw [← given'] at given
      exact absurd given (unused a)
    · exact numbered.injective a b i
  · intro i
    rw [idlist]
    by_cases same : i = id
    · rw [if_pos same, same]
      exact iff_of_true rfl ⟨name, by rw [must, if_pos rfl]⟩
    · rw [if_neg same, numbered.taken]
      constructor
      · rintro ⟨other, given⟩
        exact ⟨other, keeps_assign absent id other i given⟩
      · rintro ⟨other, given⟩
        rw [must] at given
        split at given
        · exact absurd (Option.some.inj given).symm same
        · exact ⟨other, given⟩
  · intro i below
    rw [idlist, numbered.cursor i below, ite_self]

/-- The cursor may pass an id that is given. -/
theorem Numbered.advance (numbered : Numbered g domain) {cnt : Nat} (given : ∀ id < cnt, g.idlist id = true) :
    Numbered { g with cnt } domain :=
  ⟨numbered.domain, numbered.inside, numbered.injective, numbered.taken, given⟩

/-- Fewer names than ids leave an id free. -/
theorem Numbered.room (numbered : Numbered g domain) (few : domain.card < tableSize) :
    ∃ id < tableSize, g.idlist id = false := by
  by_contra none
  have covered : Finset.range tableSize ⊆ domain.image fun name => (g.must name).getD 0 := by
    intro id isId
    have given : g.idlist id = true := by
      by_contra free
      exact none ⟨id, Finset.mem_range.1 isId, by simpa using free⟩
    rcases (numbered.taken id).1 given with ⟨name, has⟩
    exact Finset.mem_image.2 ⟨name, (numbered.domain name).2 ⟨id, has⟩, by rw [has]; rfl⟩
  have enough := (Finset.card_le_card covered).trans Finset.card_image_le
  rw [Finset.card_range] at enough
  omega

/-- The loop over the cursor stops at the first free id. -/
theorem skip_stops {idlist : Nat → Bool} {left cnt : Nat} (inside : cnt ≤ id) (before : id < cnt + left)
    (free : idlist id = false) :
    ∃ i, Generator.skip idlist left cnt = some i ∧ i < cnt + left ∧ idlist i = false ∧
      ∀ j, cnt ≤ j → j < i → idlist j = true := by
  induction left generalizing cnt with
  | zero => omega
  | succ left ih =>
    unfold Generator.skip
    by_cases taken : idlist cnt = true
    · rw [if_pos taken]
      have apart : cnt ≠ id := by
        intro same
        rw [same, free] at taken
        cases taken
      rcases ih (show cnt + 1 ≤ id by omega) (by omega) with ⟨i, stops, bound, isFree, passed⟩
      refine ⟨i, stops, by omega, isFree, ?_⟩
      intro j low high
      by_cases first : j = cnt
      · rw [first]
        exact taken
      · exact passed j (by omega) high
    · rw [if_neg taken]
      exact ⟨cnt, rfl, by omega, by simpa using taken, fun j low high => by omega⟩

/-- A name that the dictionary has keeps its id, and a new one gets a free one. -/
theorem identify_spec (numbered : Numbered g domain) (few : (insert name domain).card ≤ tableSize) :
    ∃ id g', g.identify name = some (id, g') ∧ g'.must name = some id ∧ g'.strings = g.strings ∧
      Numbered g' (insert name domain) ∧ Keeps g g' := by
  unfold Generator.identify
  cases given : g.must name with
  | some id =>
    have old : name ∈ domain := (numbered.domain name).2 ⟨id, given⟩
    refine ⟨id, g, rfl, given, rfl, ?_, fun _ _ given => given⟩
    rw [Finset.insert_eq_of_mem old]
    exact numbered
  | none =>
    have new : name ∉ domain := by
      intro old
      rcases (numbered.domain name).1 old with ⟨id, has⟩
      rw [given] at has
      cases has
    rw [Finset.card_insert_of_notMem new] at few
    rcases numbered.room (by omega) with ⟨id, inside, free⟩
    have above : g.cnt ≤ id := by
      by_contra below
      rw [numbered.cursor id (by omega)] at free
      cases free
    rcases skip_stops above (show id < g.cnt + (tableSize - g.cnt) by omega) free with ⟨cnt, stops, bound, isFree, passed⟩
    have assigned := numbered.assign new (show cnt < tableSize by omega) isFree
    refine ⟨cnt, { g.assign name cnt with cnt := cnt + 1 }, ?_, Function.update_self .., rfl, assigned.advance ?_,
      keeps_assign given cnt⟩
    · dsimp only
      rw [stops]
      rfl
    · intro i below
      change Function.update g.idlist cnt true i = true
      rw [Function.update_apply]
      by_cases last : i = cnt
      · rw [if_pos last]
      · rw [if_neg last]
        by_cases early : i < g.cnt
        · exact numbered.cursor i early
        · exact passed i (by omega) (by omega)

/-- The table holds the names that are done at their ids, and `NULL` elsewhere. -/
structure Filled (g : Generator) (done : List Text) : Prop where
  placed : ∀ name ∈ done, ∃ id, g.must name = some id ∧ g.strings id = name
  others : ∀ id, (∀ name ∈ done, g.must name ≠ some id) → g.strings id = nullText

theorem Filled.listed {names : List Text} (filled : Filled g names) (i : Nat) :
    g.strings i = nullText ∨ g.strings i ∈ names ∧ g.must (g.strings i) = some i := by
  by_cases used : ∃ name ∈ names, g.must name = some i
  · right
    rcases used with ⟨name, isIn, has⟩
    rcases filled.placed name isIn with ⟨id, has', here⟩
    rw [has] at has'
    cases has'
    rw [here]
    exact ⟨isIn, has⟩
  · left
    apply filled.others i
    intro name isIn has
    exact used ⟨name, isIn, has⟩

theorem place_spec {done : List Text} (numbered : Numbered g domain) (filled : Filled g done)
    (few : (insert name domain).card ≤ tableSize) :
    ∃ g', g.place name = some g' ∧ Numbered g' (insert name domain) ∧ Filled g' (done ++ [name]) ∧ Keeps g g' := by
  rcases identify_spec numbered few with ⟨id, g₁, identified, given, strings, numbered₁, keeps⟩
  refine ⟨{ g₁ with strings := Function.update g₁.strings id name }, ?_, ?_, ⟨?_, ?_⟩, keeps⟩
  · unfold Generator.place
    rw [identified]
    rfl
  · exact ⟨numbered₁.domain, numbered₁.inside, numbered₁.injective, numbered₁.taken, numbered₁.cursor⟩
  · intro other isIn
    rcases List.mem_append.1 isIn with old | new
    · rcases filled.placed other old with ⟨i, has, here⟩
      refine ⟨i, keeps other i has, ?_⟩
      change Function.update g₁.strings id name i = other
      rw [Function.update_apply, strings]
      split
      · rename_i same
        rw [same] at has
        exact numbered₁.injective name other id given (keeps other id has)
      · exact here
    · rw [List.mem_singleton.1 new]
      exact ⟨id, given, Function.update_self ..⟩
  · intro i unused
    have apart : i ≠ id := by
      intro same
      rw [same] at unused
      exact unused name (by simp) given
    change Function.update g₁.strings id name i = nullText
    rw [Function.update_of_ne apart, strings]
    apply filled.others i
    intro other isIn has
    exact unused other (List.mem_append_left _ isIn) (keeps other i has)

theorem placeAll_spec {names done : List Text} (numbered : Numbered g domain) (filled : Filled g done)
    (few : (domain ∪ names.toFinset).card ≤ tableSize) :
    ∃ g', Generator.placeAll names g = some g' ∧ Numbered g' (domain ∪ names.toFinset) ∧ Filled g' (done ++ names) ∧
      Keeps g g' := by
  induction names generalizing g domain done with
  | nil =>
    refine ⟨g, rfl, ?_, ?_, fun _ _ given => given⟩
    · simpa using numbered
    · simpa using filled
  | cons name names ih =>
    have all : domain ∪ (name :: names).toFinset = insert name domain ∪ names.toFinset := by
      rw [List.toFinset_cons, Finset.union_insert, Finset.insert_union]
    rw [all] at few ⊢
    rcases place_spec numbered filled ((Finset.card_le_card Finset.subset_union_left).trans few) with
      ⟨g₁, placed, numbered₁, filled₁, keeps₁⟩
    rcases ih numbered₁ filled₁ few with ⟨g', rest, numbered', filled', keeps'⟩
    refine ⟨g', ?_, numbered', ?_, keeps₁.trans keeps'⟩
    · unfold Generator.placeAll
      rw [placed]
      exact rest
    · rw [List.append_assoc] at filled'
      exact filled'

/-- The required names get their ids. -/
theorem reserve_spec {toLower : Text → Text} {required : List (Text × Int)} (numbered : Numbered g domain)
    (start : g.cnt = 0) (ids : ∀ r ∈ required, 0 ≤ r.2 ∧ r.2 < tableSize)
    (free : ∀ r ∈ required, toLower r.1 ∉ domain ∧ g.idlist r.2.toNat = false)
    (names : (required.map fun r => toLower r.1).Nodup) (numbers : (required.map Prod.snd).Nodup) :
    ∃ g', Generator.reserve toLower required g = some g' ∧ g'.strings = g.strings ∧
      Numbered g' (domain ∪ (required.map fun r => toLower r.1).toFinset) ∧ Keeps g g' ∧
      ∀ r ∈ required, g'.must (toLower r.1) = some r.2.toNat := by
  induction required generalizing g domain with
  | nil => exact ⟨g, rfl, rfl, by simpa using numbered, fun _ _ given => given, nofun⟩
  | cons r required ih =>
    rcases r with ⟨raw, id⟩
    rcases ids (raw, id) (List.mem_cons_self ..) with ⟨low, high⟩
    rcases free (raw, id) (List.mem_cons_self ..) with ⟨new, isFree⟩
    rw [List.map_cons, List.nodup_cons] at names numbers
    have inside : id.toNat < tableSize := by
      unfold tableSize at high ⊢
      omega
    have one := numbered.assign new inside isFree
    have absent := numbered.none new
    have later : ∀ r ∈ required, toLower r.1 ∉ insert (toLower raw) domain ∧
        (g.assign (toLower raw) id.toNat).idlist r.2.toNat = false := by
      intro r isIn
      rcases free r (List.mem_cons_of_mem _ isIn) with ⟨newR, freeR⟩
      have otherName : toLower r.1 ≠ toLower raw := by
        intro same
        exact names.1 (List.mem_map.2 ⟨r, isIn, same⟩)
      have otherId : r.2.toNat ≠ id.toNat := by
        intro same
        have lowR := (ids r (List.mem_cons_of_mem _ isIn)).1
        exact numbers.1 (List.mem_map.2 ⟨r, isIn, by omega⟩)
      refine ⟨?_, ?_⟩
      · rw [Finset.mem_insert, not_or]
        exact ⟨otherName, newR⟩
      · exact (Function.update_of_ne otherId ..).trans freeR
    rcases ih one start (fun r isIn => ids r (List.mem_cons_of_mem _ isIn)) later names.2 numbers.2 with
      ⟨g', ran, strings, numbered', keeps, given⟩
    refine ⟨g', ?_, strings, ?_, (keeps_assign absent id.toNat).trans keeps, ?_⟩
    · unfold Generator.reserve index
      rw [if_pos ⟨low, high⟩]
      exact ran
    · rw [List.map_cons, List.toFinset_cons, Finset.union_insert, ← Finset.insert_union]
      exact numbered'
    · intro r isIn
      rcases List.mem_cons.1 isIn with rfl | isIn
      · exact keeps _ _ (Function.update_self ..)
      · exact given r isIn

end Numbers

section Table

def sysPrefix : Text := ['s', 'y', 's', '_']

/-- The table and the constants agree with the two lists. -/
structure InStep (toLower : Text → Text) (names : List Text) (required : List (Text × Int)) (out : Output)
    (entry : Nat → Text) : Prop where
  entries : out.entries = (List.range 2048).map fun i => entry i ++ [',']
  once : ∀ name ∈ names, ∃! i, i < 2048 ∧ entry i = name
  required : ∀ r ∈ required, toLower r.1 ∈ names → entry r.2.toNat = toLower r.1
  null : ∀ i < 2048, entry i ∉ names → entry i = nullText
  lines : ∀ x i, defineLine x i ∈ out.lines ↔ i < 2048 ∧ entry i = sysPrefix ++ x

variable {names : List Text} {strings : Nat → Text} {g : Generator} {domain : Finset Text}

theorem prefix_ne_null (x : Text) : sysPrefix ++ x ≠ nullText := by
  intro same
  have first := congrArg List.head? same
  change some 's' = some 'N' at first
  exact absurd first (by decide)

/-- The last blank of a line tells its number from its name. -/
theorem append_cons_inj {α : Type} {c : α} {x y d e : List α} (outside : c ∉ d) (outside' : c ∉ e)
    (same : x ++ c :: d = y ++ c :: e) : x = y ∧ d = e := by
  rcases List.append_eq_append_iff.1 same with ⟨as, rfl, rest⟩ | ⟨as, rfl, rest⟩
  · cases as with
    | nil => simpa using rest
    | cons a as =>
      rw [List.cons_append, List.cons.injEq] at rest
      exact absurd (show c ∈ d by rw [rest.2]; simp) outside
  · cases as with
    | nil => simpa using rest.symm
    | cons a as =>
      rw [List.cons_append, List.cons.injEq] at rest
      exact absurd (show c ∈ e by rw [rest.2]; simp) outside'

theorem blank_not_mem (i : Nat) : ' ' ∉ Nat.toDigits 10 i ++ ['\r', '\n'] := by
  rw [List.mem_append, not_or]
  refine ⟨?_, by decide⟩
  intro isIn
  have digit := Nat.isDigit_of_mem_toDigits (by decide) (by decide) isIn
  exact absurd digit (by decide)

theorem toDigits_inj {i j : Nat} (same : Nat.toDigits 10 i = Nat.toDigits 10 j) : i = j := by
  rw [← Nat.ofDigitChars_toDigits (b := 10) (n := i) (by decide) (by decide), same]
  exact Nat.ofDigitChars_toDigits (by decide) (by decide)

theorem defineLine_inj {x y : Text} {i j : Nat} (same : defineLine x i = defineLine y j) : x = y ∧ i = j := by
  unfold defineLine at same
  rw [List.append_assoc, List.append_assoc, List.append_cancel_left_eq] at same
  rcases append_cons_inj (blank_not_mem i) (blank_not_mem j) same with ⟨name, number⟩
  exact ⟨name, toDigits_inj (List.append_cancel_right number)⟩

/-- What the last loop appends, when every entry is `NULL` or listed. -/
theorem emitAll_eq {n : Nat} (entries : ∀ i < n, strings i = nullText ∨ strings i ∈ names)
    (prefixed : ∀ name ∈ names, ∃ x, name = sysPrefix ++ x) :
    emitAll names strings n = some {
      entries := (List.range n).map fun i => strings i ++ [',']
      lines := ((List.range n).filter fun i => strings i ≠ nullText).map fun i => defineLine ((strings i).drop 4) i } := by
  induction n with
  | zero => rfl
  | succ n ih =>
    unfold emitAll
    rw [ih fun i below => entries i (by omega), Option.bind_some, List.range_succ]
    unfold emit
    rcases entries n (by omega) with isNull | listed
    · simp [isNull]
    · rcases prefixed _ listed with ⟨x, isName⟩
      have notNull : strings n ≠ nullText := isName ▸ prefix_ne_null x
      have cut : substring (strings n) = some ((strings n).drop 4) := by
        apply if_neg
        rw [isName]
        simp [sysPrefix]
      simp [listed, notNull, cut]

theorem emitAll_spec {n : Nat} (entries : ∀ i < n, strings i = nullText ∨ strings i ∈ names)
    (prefixed : ∀ name ∈ names, ∃ x, name = sysPrefix ++ x) :
    ∃ out, emitAll names strings n = some out ∧ out.entries = (List.range n).map (fun i => strings i ++ [',']) ∧
      ∀ line, line ∈ out.lines ↔ ∃ i < n, strings i ≠ nullText ∧ defineLine ((strings i).drop 4) i = line := by
  refine ⟨_, emitAll_eq entries prefixed, rfl, ?_⟩
  intro line
  simp [List.mem_map, List.mem_filter, and_assoc]

/-- What the numbering and the filled table give for the output. -/
theorem inStep {toLower : Text → Text} {required : List (Text × Int)} {out : Output} (numbered : Numbered g domain)
    (filled : Filled g names) (given : ∀ r ∈ required, g.must (toLower r.1) = some r.2.toNat)
    (prefixed : ∀ name ∈ names, ∃ x, name = sysPrefix ++ x) (emitted : emitAll names g.strings tableSize = some out) :
    InStep toLower names required out g.strings := by
  have listed := filled.listed
  have notNull : ∀ name ∈ names, name ≠ nullText := by
    intro name isIn
    rcases prefixed name isIn with ⟨x, rfl⟩
    exact prefix_ne_null x
  rcases emitAll_spec (fun i (_ : i < tableSize) => (listed i).imp_right And.left) prefixed with
    ⟨_, emitted', entries, lines⟩
  rw [emitted, Option.some.injEq] at emitted'
  subst emitted'
  refine ⟨entries, ?_, ?_, ?_, ?_⟩
  · intro name isIn
    rcases filled.placed name isIn with ⟨id, has, here⟩
    refine ⟨id, ⟨numbered.inside name id has, here⟩, ?_⟩
    rintro j ⟨_, here'⟩
    rcases listed j with isNull | ⟨_, has'⟩
    · exact absurd (here'.symm.trans isNull) (notNull name isIn)
    · rw [here', has] at has'
      exact (Option.some.inj has').symm
  · intro r isIn inNames
    rcases filled.placed _ inNames with ⟨id, has, here⟩
    rw [given r isIn] at has
    rw [Option.some.inj has]
    exact here
  · intro i _ outside
    exact (listed i).resolve_right fun both => outside both.1
  · intro x i
    rw [lines]
    constructor
    · rintro ⟨j, inside, notNull, same⟩
      rcases defineLine_inj same with ⟨name, rfl⟩
      rcases (listed j).resolve_left notNull with ⟨inNames, _⟩
      rcases prefixed _ inNames with ⟨y, isName⟩
      refine ⟨inside, ?_⟩
      rw [isName] at name ⊢
      rw [← name]
      rfl
    · rintro ⟨inside, here⟩
      refine ⟨i, inside, ?_, ?_⟩
      · rw [here]
        exact prefix_ne_null x
      · rw [here]
        rfl

/-- The names not required and the required ids bound the domain of the dictionary. -/
theorem domain_card {keys : List Text} (few : (names.dedup.filter (· ∉ keys)).length + keys.length ≤ tableSize) :
    (∅ ∪ keys.toFinset ∪ names.toFinset).card ≤ tableSize := by
  have covered : ∅ ∪ keys.toFinset ∪ names.toFinset ⊆ keys.toFinset ∪ (names.dedup.filter (· ∉ keys)).toFinset := by
    intro name isIn
    simp only [Finset.empty_union, Finset.mem_union, List.mem_toFinset, List.mem_filter, List.mem_dedup,
      decide_eq_true_eq] at isIn ⊢
    by_cases known : name ∈ keys
    · exact .inl known
    · exact .inr ⟨isIn.resolve_left known, known⟩
  have sum := (Finset.card_le_card covered).trans (Finset.card_union_le ..)
  have one := List.toFinset_card_le keys
  have two := List.toFinset_card_le (names.dedup.filter (· ∉ keys))
  omega

/-- The generator keeps the table and the constants in step. `toLower` stands for the conversion of the library;
    required names that it makes the same are one name. -/
theorem generator_in_step (toLower : Text → Text) (names : List Text) (required : List (Text × Int))
    (prefixed : ∀ name ∈ names, ∃ x, name = sysPrefix ++ x) (distinct : (required.map fun r => toLower r.1).Nodup)
    (numbers : (required.map Prod.snd).Nodup) (ids : ∀ r ∈ required, 0 ≤ r.2 ∧ r.2 < 2048)
    (few : (names.dedup.filter (· ∉ required.map fun r => toLower r.1)).length + required.length ≤ 2048) :
    ∃ g out, generate toLower names required = some (g, out) ∧ InStep toLower names required out g.strings := by
  have start : Filled .empty [] := ⟨nofun, fun _ _ => rfl⟩
  rcases reserve_spec Numbered.empty rfl ids (fun r _ => ⟨Finset.notMem_empty _, rfl⟩) distinct numbers with
    ⟨g₁, reserved, strings, numbered₁, _, given⟩
  have filled₁ : Filled g₁ [] := by
    refine ⟨nofun, ?_⟩
    intro id _
    rw [strings]
    rfl
  have room : (∅ ∪ (required.map fun r => toLower r.1).toFinset ∪ names.toFinset).card ≤ tableSize := by
    apply domain_card
    rw [List.length_map]
    exact few
  rcases placeAll_spec numbered₁ filled₁ room with ⟨g₂, placed, numbered₂, filled₂, keeps⟩
  rw [List.nil_append] at filled₂
  rcases emitAll_spec (fun i (_ : i < tableSize) => (filled₂.listed i).imp_right And.left) prefixed with ⟨out, emitted, _⟩
  refine ⟨g₂, out, ?_, inStep numbered₂ filled₂ (fun r isIn => keeps _ _ (given r isIn)) prefixed emitted⟩
  simp only [generate, reserved, placed, emitted, Option.bind_eq_bind, Option.bind_some]

/-- `ToLower` on the letters of the alphabet. -/
def asciiLower (s : Text) : Text := s.map Char.toLower

theorem small_tables : ∃ g out,
    generate asciiLower ["sys_fork".toList, "sys_read".toList, "sys_fork".toList] [("SYS_READ".toList, 0)] =
      some (g, out) ∧
    InStep asciiLower ["sys_fork".toList, "sys_read".toList, "sys_fork".toList] [("SYS_READ".toList, 0)] out g.strings := by
  apply generator_in_step
  · intro name isIn
    refine ⟨name.drop 4, ?_⟩
    revert name
    decide
  · decide
  · decide
  · decide
  · decide

end Table

end K210Linux.Tools
