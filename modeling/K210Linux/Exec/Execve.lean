import K210Linux.Exec.Tables
import K210Linux.Exec.Segments
import K210Linux.Kernel.UserCalls

/-! `do_execve`: the `#!` line, the argument pages and the start of the program. -/

namespace K210Linux.Exec

open K210Linux.Mm K210Linux.Kernel CStrings Outcome
open K210Linux.Fs (FileSystem Block)

def newline : Byte := 0x0A

def isBlank (c : Byte) : Bool := c = 0x20 || c = 0x09

/-- The loop that moves `i_name` behind every slash. It is left at the last one. -/
def lastName (iName : List Byte) : List Byte → List Byte
  | [] => iName
  | c :: cp => lastName (if c = 0x2F then cp else iName) cp

structure Script where
  interp : List Byte
  iName : List Byte
  iArg : Option (List Byte)

/-- What follows the `#!` in the block. -/
def headerText (block : Block) : List Byte := (List.range 1022).map fun i => block (i + 2)

/-- `buf` after `strncpy`, up to its first NUL. -/
def scriptBuffer (block : Block) : List Byte := (headerText block).takeWhile (· ≠ 0)

/-- The `#!` line, `none` without an interpreter. -/
def parseScript (block : Block) : Option Script :=
  let buf := scriptBuffer block
  if newline ∈ buf then
    let cp := (buf.takeWhile (· ≠ newline)).dropWhile isBlank
    if cp = [] then none
    else
      let interp := cp.takeWhile fun c => !isBlank c
      let rest := cp.dropWhile fun c => !isBlank c
      some ⟨interp, lastName interp interp, if rest = [] then none else some rest.tail⟩
  else none

/-- A string of the kernel from address 0 on. -/
def kernelSpace (bytes : List Byte) : Space := fun a => bytes.getD a.toNat 0

/-- What `do_execve` works with: the files, the caller, its memory, and what demand loading will find
    in the new one. -/
structure ExecEnv where
  fs : FileSystem
  cred : Credentials
  namei : Space → Word → Option Nat
  user : Space
  demand : Space

structure Running where
  ino : Nat
  ex : Header
  value : Int
  tables : Tables

inductive Executed where
  | failed (value : Int) (memory : Memory)
  | running (r : Running)

/-- `exec_error1`. -/
def execError (a : ArgPages) (value : Int) : Except ExecStop Executed := do
  let memory ← freeArgPages a 0 maxArgPages
  .ok (.failed value memory)

/-- From the point of no return on. -/
def enter (e : ExecEnv) (ino : Nat) (ex : Header) (argc envc : Int) (p : Word) (a : ArgPages) : Except ExecStop Executed :=
  match createTables (changeLdt a e.demand) (p + (0x4000000 - 32 * pageSize)) argc envc with
  | none => .error .endless
  | some tables => .ok (.running ⟨ino, ex, argc, tables⟩)

/-- The second pass over `restart_interp`, where `sh_bang` keeps `#!` from being seen. -/
def openInterpreter (e : ExecEnv) (ino : Nat) : Except Int Header :=
  let inode := e.fs.inode ino
  let ex := headerOf (e.fs.disk (inode.zone 0).toNat)
  if !isReg inode.mode then .error (-eacces)
  else if !mayExecute inode e.cred then .error (-enoexec)
  else if badHeader ex inode.size then .error (-enoexec)
  else if nTxtoff ex ≠ 1024 then .error (-enoexec)
  else .ok ex

/-- The end of the `#!` branch, from its test of `p` on. -/
def runInterpreter (e : ExecEnv) (s : Script) (argc envc : Int) (p : Word) (a : ArgPages) : Except ExecStop Executed :=
  if p = 0 then execError a (-enomem)
  else match e.namei (kernelSpace s.interp) 0 with
    | none => execError a (-enoent)
    | some ino => match openInterpreter e ino with
      | .error value => execError a value
      | .ok ex => enter e ino ex argc envc p a

/-- The `#!` branch, from the parsed line on. -/
def interpret (e : ExecEnv) (s : Script) (filename argv envp : Word) (argc envc : Int) (a : ArgPages) :
    Except ExecStop Executed := do
  let (p, a) ← copyStrings envc (userVector e.user envp) a argTop
  let argc := argc - 1
  let (p, a) ← copyStrings argc (userVector e.user (argv + 8)) a p
  let (p, a) ← copyStrings 1 (kernelPointer e.user filename) a p
  let argc := argc + 1
  let (p, a, argc) ← match s.iArg with
    | none => .ok (p, a, argc)
    | some iArg => do
      let (p, a) ← copyStrings 1 (kernelString iArg) a p
      .ok (p, a, argc + 1)
  let (p, a) ← copyStrings 1 (kernelString s.iName) a p
  let argc := argc + 1
  runInterpreter e s argc envc p a

/-- The end of `do_execve` on a program that is no script, from its test of `p` on. -/
def runProgram (e : ExecEnv) (ino : Nat) (ex : Header) (argc envc : Int) (p : Word) (a : ArgPages) :
    Except ExecStop Executed :=
  if p = 0 then execError a (-enomem) else enter e ino ex argc envc p a

def doExecve (e : ExecEnv) (memory : Memory) (filename argv envp : Word) : Except ExecStop Executed :=
  let a : ArgPages := ⟨memory, fun _ => 0⟩
  match e.namei e.user filename with
  | none => .ok (.failed (-enoent) memory)
  | some ino => match count e.user argv, count e.user envp with
    | some argc, some envc => match openProgram e.fs ino e.cred with
      | .failed value => execError a value
      | .script => match parseScript (e.fs.disk ((e.fs.inode ino).zone 0).toNat) with
        | none => execError a (-enoexec)
        | some s => interpret e s filename argv envp argc envc a
      | .program ex => do
        let (p, a) ← copyStrings envc (userVector e.user envp) a argTop
        let (p, a) ← copyStrings argc (userVector e.user argv) a p
        runProgram e ino ex argc envc p a
    | _, _ => .error .endless

/-- What follows the path: nothing, or a blank and the rest of the line. -/
inductive RestOfLine : Option (List Byte) → List Byte → Prop where
  | absent : RestOfLine none []
  | behind (c : Byte) (rest : List Byte) (blank : isBlank c = true) : RestOfLine (some rest) (c :: rest)

/-- The first line of a script that names its interpreter. -/
structure ScriptLine (block : Block) (path : List Byte) (rest : Option (List Byte)) : Prop where
  marks : block 0 = 0x23 ∧ block 1 = 0x21
  named : path ≠ []
  solid : ∀ c ∈ path, isBlank c = false ∧ c ≠ newline ∧ c ≠ 0
  inLine : ∀ r ∈ rest, ∀ c ∈ r, c ≠ newline ∧ c ≠ 0
  line : ∃ blanks behind more, headerText block = blanks ++ (path ++ (behind ++ newline :: more)) ∧
    (∀ c ∈ blanks, isBlank c = true) ∧ RestOfLine rest behind

/-- What follows the last slash of a path. -/
def lastComponent (path : List Byte) : List Byte := path.rtakeWhile (· ≠ 0x2F)

section Line

variable {block : Block} {s : Script}

theorem lastName_suffix {whole iName : List Byte} (cp : List Byte) (name : iName <:+ whole) (rest : cp <:+ whole) :
    lastName iName cp <:+ whole := by
  induction cp generalizing iName with
  | nil => exact name
  | cons c cp ih =>
    have rest' := (List.suffix_cons c cp).trans rest
    rw [lastName]
    split
    · exact ih rest' rest'
    · exact ih name rest'

theorem lastName_name {iName name : List Byte} (no : (0x2F : Byte) ∉ name) : lastName iName name = iName := by
  induction name with
  | nil => rfl
  | cons c name ih =>
    rw [List.mem_cons, not_or] at no
    rw [lastName, if_neg (Ne.symm no.1)]
    exact ih no.2

/-- Behind a slash only the rest of the path matters. -/
theorem lastName_slash (iName first rest : List Byte) :
    lastName iName (first ++ 0x2F :: rest) = lastName rest rest := by
  induction first generalizing iName with
  | nil => rw [List.nil_append, lastName, if_pos rfl]
  | cons c first ih =>
    rw [List.cons_append, lastName]
    exact ih _

theorem scriptBuffer_length : (scriptBuffer block).length ≤ 1022 := by
  have size : (headerText block).length = 1022 := by rw [headerText, List.length_map, List.length_range]
  rw [scriptBuffer, ← size]
  generalize headerText block = text
  exact (List.takeWhile_prefix _).length_le

/-- What the line yields is made of bytes of the buffer. -/
theorem parseScript_within (parsed : parseScript block = some s) :
    s.iName.Sublist (scriptBuffer block) ∧ ∀ iArg ∈ s.iArg, iArg.Sublist (scriptBuffer block) := by
  unfold parseScript at parsed
  generalize scriptBuffer block = buf at parsed ⊢
  dsimp only at parsed
  split at parsed
  · split at parsed
    · cases parsed
    · cases parsed
      have line : ((buf.takeWhile (· ≠ newline)).dropWhile isBlank).Sublist buf :=
        (List.dropWhile_sublist isBlank).trans (List.takeWhile_sublist _)
      constructor
      · exact (lastName_suffix _ (List.suffix_refl _) (List.suffix_refl _)).sublist.trans
          ((List.takeWhile_sublist _).trans line)
      · intro iArg member
        split at member
        · cases member
        · cases member
          exact (List.tail_sublist _).trans ((List.dropWhile_sublist _).trans line)
  · cases parsed

theorem parseScript_short (parsed : parseScript block = some s) :
    s.iName.length < intMax ∧ ∀ iArg ∈ s.iArg, iArg.length < intMax := by
  have int : 1022 < intMax := by decide
  have size : (scriptBuffer block).length ≤ 1022 := scriptBuffer_length
  obtain ⟨iName, iArg⟩ := parseScript_within parsed
  refine ⟨?_, fun arg member => ?_⟩
  · have := iName.length_le
    omega
  · have := (iArg arg member).length_le
    omega

theorem lastName_eq (path : List Byte) : lastName path path = lastComponent path := by
  by_cases slash : (0x2F : Byte) ∈ path
  · obtain ⟨rest, first, split, last⟩ := List.eq_append_cons_of_mem (List.mem_reverse.mpr slash)
    have whole : path = first.reverse ++ 0x2F :: rest.reverse := by
      rw [← List.reverse_reverse path, split]
      simp
    have no : (0x2F : Byte) ∉ rest.reverse := fun member => last (List.mem_reverse.mp member)
    rw [lastComponent, List.rtakeWhile, split, List.takeWhile_append_of_pos, List.takeWhile_cons_of_neg (by decide),
      List.append_nil, whole, lastName_slash, lastName_name no]
    intro c member
    apply decide_eq_true
    rintro rfl
    exact last member
  · rw [lastName_name slash, lastComponent]
    refine (List.rtakeWhile_eq_self_iff.mpr fun c member => decide_eq_true ?_).symm
    rintro rfl
    exact slash member

theorem blank_in_line {c : Byte} (blank : isBlank c = true) : c ≠ newline ∧ c ≠ 0 := by
  constructor
  · rintro rfl
    exact absurd blank (by decide)
  · rintro rfl
    exact absurd blank (by decide)

theorem ScriptLine.parsed {path : List Byte} {rest : Option (List Byte)} (line : ScriptLine block path rest) :
    parseScript block = some ⟨path, lastComponent path, rest⟩ := by
  obtain ⟨blanks, behind, more, text, blank, follows⟩ := line.line
  have solid : ∀ c ∈ path, c ≠ newline ∧ c ≠ 0 := fun c member => (line.solid c member).2
  have behind_in : ∀ c ∈ behind, c ≠ newline ∧ c ≠ 0 := by
    cases follows with
    | absent =>
      intro c member
      cases member
    | behind c r isblank =>
      intro c' member
      rcases List.mem_cons.mp member with rfl | member
      · exact blank_in_line isblank
      · exact line.inLine r rfl c' member
  have inside : ∀ c ∈ blanks ++ (path ++ behind), c ≠ newline ∧ c ≠ 0 := by
    intro c member
    rcases List.mem_append.mp member with member | member
    · exact blank_in_line (blank c member)
    · rcases List.mem_append.mp member with member | member
      · exact solid c member
      · exact behind_in c member
  have whole : headerText block = (blanks ++ (path ++ behind)) ++ newline :: more := by
    rw [text, List.append_assoc, List.append_assoc]
  have buffer : scriptBuffer block = (blanks ++ (path ++ behind)) ++ newline :: more.takeWhile (· ≠ 0) := by
    rw [scriptBuffer, whole, List.takeWhile_append_of_pos fun c member => decide_eq_true (inside c member).2,
      List.takeWhile_cons_of_pos (by decide)]
  have firstLine : (scriptBuffer block).takeWhile (· ≠ newline) = blanks ++ (path ++ behind) := by
    rw [buffer, List.takeWhile_append_of_pos fun c member => decide_eq_true (inside c member).1,
      List.takeWhile_cons_of_neg (by decide), List.append_nil]
  obtain ⟨c, tail, rfl⟩ := List.exists_cons_of_ne_nil line.named
  have solid' : ∀ b ∈ c :: tail, (!isBlank b) = true := by
    intro b member
    rw [(line.solid b member).1]
    rfl
  have start : (blanks ++ (c :: tail ++ behind)).dropWhile isBlank = c :: tail ++ behind := by
    have first := (line.solid c List.mem_cons_self).1
    rw [List.dropWhile_append_of_pos blank, List.cons_append, List.dropWhile_cons_of_neg (by rw [first]; exact Bool.false_ne_true)]
  have cut : ∀ {l : List Byte} (r : Option (List Byte)), RestOfLine r l → l.takeWhile (fun c => !isBlank c) = [] ∧
      l.dropWhile (fun c => !isBlank c) = l ∧ (if l = [] then none else some l.tail) = r := by
    intro l r follows
    cases follows with
    | absent => exact ⟨rfl, rfl, rfl⟩
    | behind c r isblank =>
      refine ⟨List.takeWhile_cons_of_neg (by rw [isblank]; decide), List.dropWhile_cons_of_neg (by rw [isblank]; decide), ?_⟩
      rw [if_neg (List.cons_ne_nil c r), List.tail_cons]
  obtain ⟨none, same, rest'⟩ := cut rest follows
  have found : newline ∈ scriptBuffer block := by
    rw [buffer]
    exact List.mem_append_right _ List.mem_cons_self
  unfold parseScript
  dsimp only
  rw [if_pos found, firstLine, start, if_neg (by simp), List.takeWhile_append_of_pos solid', none, List.append_nil,
    List.dropWhile_append_of_pos solid', same, rest', lastName_eq]

end Line

/-- A string that user space passes. Its size, with the NUL, is an `int`. -/
structure PassedString (user : Space) (a : Word) (s : List Byte) : Prop where
  valid : a ≠ 0
  bytes : BytesAt user a (s ++ [0])
  nonzero : ∀ b ∈ s, b ≠ 0
  short : s.length < intMax

/-- A vector that user space passes: no pointer at all, or pointers up to a null pointer. -/
structure PassedVector (user : Space) (argv : Word) (strs : List (List Byte)) : Prop where
  vector : argv = 0 ∧ strs = [] ∨ argv ≠ 0 ∧ VectorAt user argv strs
  few : strs.length ≤ intMax
  nonzero : ∀ s ∈ strs, ∀ b ∈ s, b ≠ 0
  short : ∀ s ∈ strs, s.length < intMax

section Passed

variable {user : Space} {a argv : Word} {s : List Byte} {strs : List (List Byte)}

theorem PassedVector.count (passed : PassedVector user argv strs) : count user argv = some strs.length := by
  rcases passed.vector with ⟨rfl, rfl⟩ | ⟨nonzero, vector⟩
  · rfl
  · rw [Exec.count, if_neg nonzero]
    exact vector.count (Nat.lt_succ_of_le passed.few)

theorem fetchString_eq (valid : a ≠ 0) (bytes : BytesAt user a (s ++ [0])) (nonzero : ∀ b ∈ s, b ≠ 0)
    (short : s.length < intMax) : fetchString user a = .string s := by
  rw [fetchString, if_neg valid, readString_eq bytes nonzero short]

theorem yields_of_vector (vector : VectorAt user argv strs) (nonzero : ∀ s ∈ strs, ∀ b ∈ s, b ≠ 0)
    (short : ∀ s ∈ strs, s.length < intMax) : Yields (userVector user argv) strs where
  string i inside := fetchString_eq (vector.valid i inside) (vector.string i inside)
    (nonzero _ (List.getElem_mem inside)) (short _ (List.getElem_mem inside))
  short := short

theorem Yields.none (source : Source) : Yields source [] where
  string i inside := absurd inside (Nat.not_lt_zero i)
  short _ member := by cases member

theorem PassedVector.yields (passed : PassedVector user argv strs) : Yields (userVector user argv) strs := by
  rcases passed.vector with ⟨_, rfl⟩ | ⟨_, vector⟩
  · exact .none _
  · exact yields_of_vector vector passed.nonzero passed.short

/-- `argv + 1` yields the strings behind the first. -/
theorem PassedVector.yields_tail (passed : PassedVector user argv strs) : Yields (userVector user (argv + 8)) strs.tail := by
  cases strs with
  | nil => exact .none _
  | cons s strs =>
    rcases passed.vector with ⟨_, empty⟩ | ⟨_, vector⟩
    · cases empty
    · exact yields_of_vector vector.tail (fun t member => passed.nonzero t (List.mem_cons_of_mem _ member))
        fun t member => passed.short t (List.mem_cons_of_mem _ member)

theorem Yields.single {source : Source} (first : source 0 = .string s) (short : s.length < intMax) : Yields source [s] where
  string i inside := by
    rw [List.length_singleton] at inside
    obtain rfl : i = 0 := by omega
    exact first
  short t member := by
    rw [List.mem_singleton] at member
    rw [member]
    exact short

theorem PassedString.yields (passed : PassedString user a s) : Yields (kernelPointer user a) [s] :=
  .single (fetchString_eq passed.valid passed.bytes passed.nonzero passed.short) passed.short

end Passed

/-- The strings that the `#!` branch copies, in the order in which the new program finds them. -/
def scriptStrings (s : Script) (file : List Byte) (argvs envps : List (List Byte)) : List (List Byte) :=
  s.iName :: (s.iArg.toList ++ (file :: argvs.tail)) ++ envps

/-- The calls of `copy_strings` in the `#!` branch. -/
def scriptCopies (e : ExecEnv) (s : Script) (filename argv envp : Word) (argc envc : Int) (a : ArgPages) :
    Except ExecStop (Word × ArgPages) := do
  let (p, a) ← copyStrings envc (userVector e.user envp) a argTop
  let (p, a) ← copyStrings (argc - 1) (userVector e.user (argv + 8)) a p
  let (p, a) ← copyStrings 1 (kernelPointer e.user filename) a p
  let (p, a) ← match s.iArg with
    | none => .ok (p, a)
    | some iArg => copyStrings 1 (kernelString iArg) a p
  copyStrings 1 (kernelString s.iName) a p

/-- The `argc` that the `#!` branch ends with. -/
def scriptArgc (s : Script) (argc : Int) : Int := argc - 1 + 1 + s.iArg.toList.length + 1

/-- The calls of `copy_strings` on a program that is no script. -/
def programCopies (e : ExecEnv) (argv envp : Word) (argc envc : Int) (a : ArgPages) : Except ExecStop (Word × ArgPages) := do
  let (p, a) ← copyStrings envc (userVector e.user envp) a argTop
  copyStrings argc (userVector e.user argv) a p

section Copies

variable {e : ExecEnv} {s : Script} {m : Memory} {filename argv envp : Word} {file : List Byte}
  {argvs envps : List (List Byte)}

theorem interpret_eq (e : ExecEnv) (s : Script) (filename argv envp : Word) (argc envc : Int) (a : ArgPages) :
    interpret e s filename argv envp argc envc a = scriptCopies e s filename argv envp argc envc a >>= fun (p, a) =>
      runInterpreter e s (scriptArgc s argc) envc p a := by
  unfold interpret scriptCopies scriptArgc
  cases s.iArg with
  | none =>
    simp only [bind_assoc, Option.toList_none, List.length_nil, Nat.cast_zero, add_zero]
    rfl
  | some iArg =>
    simp only [bind_assoc, Option.toList_some, List.length_singleton, Nat.cast_one]
    rfl

/-- What `do_execve` does once its vectors are counted. -/
theorem doExecve_eq {ino : Nat} (found : e.namei e.user filename = some ino) (args : PassedVector e.user argv argvs)
    (envs : PassedVector e.user envp envps) : doExecve e m filename argv envp =
      match openProgram e.fs ino e.cred with
      | .failed value => execError ⟨m, fun _ => 0⟩ value
      | .script => match parseScript (e.fs.disk ((e.fs.inode ino).zone 0).toNat) with
        | none => execError ⟨m, fun _ => 0⟩ (-enoexec)
        | some s => scriptCopies e s filename argv envp argvs.length envps.length ⟨m, fun _ => 0⟩ >>= fun (p, a) =>
          runInterpreter e s (scriptArgc s argvs.length) envps.length p a
      | .program ex => programCopies e argv envp argvs.length envps.length ⟨m, fun _ => 0⟩ >>= fun (p, a) =>
          runProgram e ino ex argvs.length envps.length p a := by
  rw [doExecve, found]
  dsimp only
  rw [args.count, envs.count]
  dsimp only
  split
  · rfl
  · split
    · rfl
    · exact interpret_eq e _ filename argv envp argvs.length envps.length _
  · rw [programCopies, bind_assoc]

theorem programCopies_report (args : PassedVector e.user argv argvs) (envs : PassedVector e.user envp envps) :
    CopyReport m (terminated (argvs ++ envps)) (programCopies e argv envp argvs.length envps.length ⟨m, fun _ => 0⟩) := by
  have first := (CopyReport.copied argTop _ (Pushed.start m)).next envs.yields envps.length (Int.toNat_natCast _)
  have second := first.next args.yields argvs.length (Int.toNat_natCast _)
  rw [List.append_nil, ← terminated_append] at second
  exact second

theorem scriptCopies_report (parsed : s.iName.length < intMax ∧ ∀ iArg ∈ s.iArg, iArg.length < intMax)
    (args : PassedVector e.user argv argvs) (envs : PassedVector e.user envp envps) (name : PassedString e.user filename file) :
    CopyReport m (terminated (scriptStrings s file argvs envps))
      (scriptCopies e s filename argv envp argvs.length envps.length ⟨m, fun _ => 0⟩) := by
  have tail : ((argvs.length : Int) - 1).toNat = argvs.tail.length := by
    rw [List.length_tail]
    omega
  have first := (CopyReport.copied argTop _ (Pushed.start m)).next envs.yields envps.length (Int.toNat_natCast _)
  have second := first.next args.yields_tail (argvs.length - 1) tail
  have third := second.next name.yields 1 rfl
  have named : Yields (kernelString s.iName) [s.iName] := .single rfl parsed.1
  have strings : terminated (scriptStrings s file argvs envps) = terminated [s.iName] ++ (terminated s.iArg.toList ++
      (terminated [file] ++ (terminated argvs.tail ++ (terminated envps ++ [])))) := by
    rw [List.append_nil, ← terminated_append, ← terminated_append, ← terminated_append, ← terminated_append, scriptStrings]
    simp
  rw [strings]
  unfold scriptCopies
  cases arg : s.iArg with
  | none =>
    have last := third.next named 1 rfl
    simp only [bind_assoc] at last ⊢
    exact last
  | some iArg =>
    have argument : Yields (kernelString iArg) [iArg] := .single rfl (parsed.2 iArg arg)
    have last := (third.next argument 1 rfl).next named 1 rfl
    simp only [bind_assoc] at last ⊢
    exact last

end Copies

/-- What a call of `do_execve` has to copy. Where it fails before, that is nothing. -/
def argumentStrings (e : ExecEnv) (filename : Word) (file : List Byte) (argvs envps : List (List Byte)) : List (List Byte) :=
  match e.namei e.user filename with
  | none => []
  | some ino => match openProgram e.fs ino e.cred with
    | .failed _ => []
    | .script => match parseScript (e.fs.disk ((e.fs.inode ino).zone 0).toNat) with
      | none => []
      | some s => scriptStrings s file argvs envps
    | .program _ => argvs ++ envps

/-- No access leaves the array, and strings that do not fit are refused, with every page given back. -/
structure Contained (m : Memory) (needed : Nat) (run : Except ExecStop Executed) : Prop where
  inside : ∀ index, run ≠ .error (.outside index)
  refused : argRoom < needed → ∃ m', run = .ok (.failed (-enomem) m') ∧ m'.memMap = m.memMap

section Contained

variable {e : ExecEnv} {m : Memory} {filename argv envp : Word} {file : List Byte} {argvs envps : List (List Byte)}
  {pool : Pool} {dirs : Finset Word} {held : Finset Nat}

theorem freeArgPages_inside (a : ArgPages) (i left index : Nat) : freeArgPages a i left ≠ .error (.outside index) := by
  induction left generalizing a i with
  | zero => exact nofun
  | succ left ih =>
    intro run
    rcases error_of_bind run with stopped | ⟨memory, _, rest⟩
    · cases freed : freePage a.memory (a.page i) with
      | error stop =>
        rw [freed] at stopped
        cases stopped
      | ok memory =>
        rw [freed] at stopped
        cases stopped
    · exact ih _ _ rest

theorem execError_inside (a : ArgPages) (value : Int) (index : Nat) : execError a value ≠ .error (.outside index) := by
  intro run
  rcases error_of_bind run with stopped | ⟨memory, _, rest⟩
  · exact freeArgPages_inside a 0 maxArgPages index stopped
  · cases rest

theorem enter_inside (e : ExecEnv) (ino : Nat) (ex : Header) (argc envc : Int) (p : Word) (a : ArgPages) (index : Nat) :
    enter e ino ex argc envc p a ≠ .error (.outside index) := by
  unfold enter
  split <;> exact nofun

theorem free_below (wf : Wf pool dirs held m) {f : Nat} (free : f ∈ freeFrames m) : frameAddr f < m.highMemory := by
  obtain ⟨bound, positive, zero⟩ := mem_freeFrames.mp free
  exact wf.high f (wf.pool_of_free (by omega) bound zero)

theorem execError_taken (wf : Wf pool dirs held m) {a : ArgPages} (taken : PagesTaken m a) (value : Int) :
    ∃ m', execError a value = .ok (.failed value m') ∧ m'.memMap = m.memMap := by
  obtain ⟨m', freed, same⟩ := taken.restored fun f => free_below wf
  exact ⟨m', by rw [execError, freed]; rfl, same⟩

theorem contained_copies {bytes : List Byte} {copies : Except ExecStop (Word × ArgPages)}
    {rest : Word → ArgPages → Except ExecStop Executed} (wf : Wf pool dirs held m) (report : CopyReport m bytes copies)
    (refuses : ∀ a, rest 0 a = execError a (-enomem)) (quiet : ∀ p a index, rest p a ≠ .error (.outside index)) :
    Contained m bytes.length (copies >>= fun (p, a) => rest p a) ↔
      bytes.length ≤ argRoom ∨ (freeFrames m).card < maxArgPages := by
  cases report with
  | copied p a pushed =>
    have fits := pushed.length_le
    exact ⟨fun _ => .inl fits, fun _ => ⟨quiet p a, fun long => by omega⟩⟩
  | full a taken few =>
    obtain ⟨m', error, same⟩ := execError_taken wf taken (-enomem)
    rw [← refuses] at error
    exact ⟨fun _ => .inr few, fun _ => ⟨quiet 0 a, fun _ => ⟨m', error, same⟩⟩⟩
  | outside index long many =>
    constructor
    · intro contained
      exact absurd rfl (contained.inside index)
    · rintro (fits | few)
      · omega
      · omega

/-- A call that copies nothing. -/
theorem contained_none {run : Except ExecStop Executed} (quiet : ∀ index, run ≠ .error (.outside index)) :
    Contained m (terminated []).length run ↔
      (terminated []).length ≤ argRoom ∨ (freeFrames m).card < maxArgPages := by
  have fits : (terminated []).length ≤ argRoom := Nat.zero_le _
  exact ⟨fun _ => .inl fits, fun _ => ⟨quiet, fun long => by omega⟩⟩

theorem runProgram_inside (e : ExecEnv) (ino : Nat) (ex : Header) (argc envc : Int) (p : Word) (a : ArgPages) (index : Nat) :
    runProgram e ino ex argc envc p a ≠ .error (.outside index) := by
  unfold runProgram
  split
  · exact execError_inside a _ index
  · exact enter_inside e _ _ _ _ _ _ index

theorem runInterpreter_inside (e : ExecEnv) (s : Script) (argc envc : Int) (p : Word) (a : ArgPages) (index : Nat) :
    runInterpreter e s argc envc p a ≠ .error (.outside index) := by
  unfold runInterpreter
  split
  · exact execError_inside a _ index
  · split
    · exact execError_inside a _ index
    · split
      · exact execError_inside a _ index
      · exact enter_inside e _ _ _ _ _ _ index

/-- The strings of `do_execve`, which are resident, stay inside its pages exactly when they fit, or when there are not
    frames for all of the pages. -/
theorem execve_contained_iff (wf : Wf pool dirs held m) (args : PassedVector e.user argv argvs)
    (envs : PassedVector e.user envp envps) (name : PassedString e.user filename file) :
    Contained m (terminated (argumentStrings e filename file argvs envps)).length (doExecve e m filename argv envp) ↔
      (terminated (argumentStrings e filename file argvs envps)).length ≤ argRoom ∨
        (freeFrames m).card < maxArgPages := by
  unfold argumentStrings
  split
  · rename_i missing
    rw [doExecve, missing]
    exact contained_none fun _ escaped => by cases escaped
  · rename_i ino found
    split
    · rename_i value opened
      rw [doExecve_eq found args envs, opened]
      exact contained_none (execError_inside _ _)
    · rename_i opened
      rw [doExecve_eq found args envs, opened]
      split
      · exact contained_none (execError_inside _ _)
      · rename_i s parsed
        apply contained_copies wf (scriptCopies_report (parseScript_short parsed) args envs name)
        · exact fun a => if_pos rfl
        · exact runInterpreter_inside e s _ _
    · rename_i ex opened
      rw [doExecve_eq found args envs, opened]
      apply contained_copies wf (programCopies_report args envs)
      · exact fun a => if_pos rfl
      · exact runProgram_inside e ino ex _ _

/-- A caller's memory: letters up to `0xC0021000`, and a vector of one pointer into them. -/
def oneArgument (start : Word) : Space :=
  store64 (fun a => if 0xC0001000 ≤ a.toNat ∧ a.toNat < 0xC0021000 then 0x61 else 0) 0xC0000000 start

/-- A device where every path leads to one small program. -/
def oneProgram (user : Space) : ExecEnv where
  fs := programDevice smallHeader 5120
  cred := ⟨0, 0⟩
  namei := fun _ _ => some 1
  user := user
  demand := fun _ => 0

theorem bootMemory_frames : maxArgPages ≤ (freeFrames (bootMemory parentDir)).card := by
  have some : (Finset.range 33).erase 0 ⊆ freeFrames (bootMemory parentDir) := by
    intro f member
    obtain ⟨positive, small⟩ := Finset.mem_erase.mp member
    rw [Finset.mem_range] at small
    refine mem_freeFrames.mpr ⟨by unfold pagingPages; omega, positive, ?_⟩
    rw [bootMemory_count, if_pos (by omega)]
  exact Finset.card_le_card some

theorem oneArgument_other (start : Word) {x : Word} (high : 0xC0000008 ≤ x.toNat) :
    oneArgument start x = if 0xC0001000 ≤ x.toNat ∧ x.toNat < 0xC0021000 then 0x61 else 0 :=
  store64_other (by decide) (.inr high)

theorem oneArgument_letters (start at_ : Word) {n : Nat} (low : 0xC0001000 ≤ at_.toNat)
    (length : at_.toNat + n = 0xC0021000) : PassedString (oneArgument start) at_ (List.replicate n 0x61) where
  valid := by
    rintro rfl
    exact absurd low (by decide)
  bytes := by
    have value : ∀ k, k ≤ n → (offset at_ k).toNat = at_.toNat + k := fun k small => toNat_offset (by omega)
    apply bytesAt_replicate
    · intro k inside
      have here := value k (by omega)
      rw [oneArgument_other start (by omega), if_pos (by omega)]
    · have here := value _ (Nat.le_refl _)
      rw [oneArgument_other start (by omega), if_neg (by omega)]
  nonzero b member := by
    rw [List.eq_of_mem_replicate member]
    decide
  short := by
    rw [List.length_replicate]
    unfold intMax
    omega

theorem oneArgument_passed (start : Word) {n : Nat} (low : 0xC0001000 ≤ start.toNat)
    (length : start.toNat + n = 0xC0021000) : PassedVector (oneArgument start) 0xC0000000 [List.replicate n 0x61] := by
  have pointer : load64 (oneArgument start) 0xC0000000 = start := load64_store64
  have letters := oneArgument_letters start start low length
  refine ⟨.inr ⟨by decide, ?_, ?_, ?_⟩, by rw [List.length_singleton]; decide, ?_, ?_⟩
  · intro i inside
    rw [List.length_singleton] at inside
    obtain rfl : i = 0 := by omega
    rw [slot_zero, pointer]
    exact letters.valid
  · intro i inside
    rw [List.length_singleton] at inside
    obtain rfl : i = 0 := by omega
    rw [slot_zero, pointer, List.getElem_singleton]
    exact letters.bytes
  · have empty : load64 (oneArgument start) (slot 0xC0000000 1) = load64 (fun _ => 0) (slot 0xC0000000 1) := by
      apply load64_congr
      intro k small
      have value : (offset (slot 0xC0000000 1) k).toNat = 0xC0000008 + k := toNat_offset (by
        change 0xC0000008 + k < _
        omega)
      rw [oneArgument_other start (by omega), if_neg (by omega)]
    rw [List.length_singleton, empty]
    rfl
  · intro s member
    rw [List.mem_singleton] at member
    rw [member]
    exact letters.nonzero
  · intro s member
    rw [List.mem_singleton] at member
    rw [member]
    exact letters.short

theorem PassedVector.none (user : Space) : PassedVector user 0 [] where
  vector := .inl ⟨rfl, rfl⟩
  few := by decide
  nonzero _ member := by cases member
  short _ member := by cases member

theorem oneProgram_opens (user : Space) :
    openProgram (oneProgram user).fs 1 (oneProgram user).cred = .program smallHeader :=
  programDevice_opens (by decide)

theorem oneProgram_strings (user : Space) (argvs envps : List (List Byte)) (filename : Word) (file : List Byte) :
    argumentStrings (oneProgram user) filename file argvs envps = argvs ++ envps := by
  unfold argumentStrings
  rw [show (oneProgram user).namei (oneProgram user).user filename = some 1 from rfl]
  dsimp only
  rw [oneProgram_opens]

theorem no_arguments_contained : Contained (bootMemory parentDir) 0
    (doExecve (oneProgram (oneArgument 0xC0020FFF)) (bootMemory parentDir) 0xC0020FFF 0 0) := by
  have name : PassedString (oneArgument 0xC0020FFF) 0xC0020FFF (List.replicate 1 0x61) :=
    oneArgument_letters _ _ (by decide) (by decide)
  have settled := execve_contained_iff (e := oneProgram (oneArgument 0xC0020FFF))
    (bootMemory_wf (Finset.mem_singleton_self parentDir)) (.none _) (.none _) name
  rw [oneProgram_strings] at settled
  exact settled.mpr (.inl (Nat.zero_le _))

/-- 128 kB of arguments run out of the pages. -/
theorem long_argument_escapes : PassedVector (oneArgument 0xC0001000) 0xC0000000 [List.replicate 0x20000 0x61] ∧
    PassedVector (oneArgument 0xC0001000) 0 [] ∧ PassedString (oneArgument 0xC0001000) 0xC0020FFF (List.replicate 1 0x61) ∧
    ¬ Contained (bootMemory parentDir) (terminated [List.replicate 0x20000 0x61]).length
      (doExecve (oneProgram (oneArgument 0xC0001000)) (bootMemory parentDir) 0xC0020FFF 0xC0000000 0) := by
  have passed : PassedVector (oneArgument 0xC0001000) 0xC0000000 [List.replicate 0x20000 0x61] :=
    oneArgument_passed _ (by decide) (by decide)
  have size : (List.replicate 0x20000 (0x61 : Byte)).length = 0x20000 := List.length_replicate
  generalize List.replicate 0x20000 (0x61 : Byte) = argument at passed size ⊢
  refine ⟨passed, .none _, oneArgument_letters _ _ (by decide) (by decide), ?_⟩
  have found : (oneProgram (oneArgument 0xC0001000)).namei (oneArgument 0xC0001000) 0xC0020FFF = some 1 := rfl
  have wf := bootMemory_wf (Finset.mem_singleton_self parentDir)
  rw [doExecve_eq (e := oneProgram (oneArgument 0xC0001000)) found passed (.none _), oneProgram_opens]
  have report : CopyReport (bootMemory parentDir) _
      (programCopies (oneProgram (oneArgument 0xC0001000)) 0xC0000000 0 _ _ _) := programCopies_report passed (.none _)
  rw [List.append_nil] at report
  have length : argRoom < (terminated [argument]).length := by
    rw [length_terminated_cons, size]
    decide
  intro contained
  rcases (contained_copies wf report (fun a => if_pos rfl) (runProgram_inside _ 1 smallHeader _ _)).mp contained with
    fits | few
  · exact absurd length (Nat.not_lt.mpr fits)
  · exact absurd bootMemory_frames (Nat.not_le.mpr few)

end Contained

end K210Linux.Exec
