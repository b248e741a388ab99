import K210Linux.Exec.Execve

/-! The arguments that a new program finds. -/

namespace K210Linux.Exec

open K210Linux.Mm K210Linux.Kernel CStrings Outcome
open K210Linux.Fs (FileSystem MInode Block)

/-- The program runs, and these are its arguments and its environment. -/
structure StartedWith (argv envp : List (List Byte)) (r : Running) : Prop where
  value : r.value = argv.length
  tables : Delivered argv envp r.tables

section Enter

variable {e : ExecEnv} {m : Memory} {a : ArgPages} {p filename argv envp : Word} {file : List Byte}
  {argvs envps : List (List Byte)} {s : Script}

theorem enter_started {more : List Byte} (pushed : Pushed m a p (terminated argvs ++ (terminated envps ++ more)))
    (nonzero : ∀ t ∈ argvs, ∀ b ∈ t, b ≠ 0) (nonzero' : ∀ t ∈ envps, ∀ b ∈ t, b ≠ 0) (ino : Nat) (ex : Header) :
    ∃ t bottom, enter e ino ex argvs.length envps.length p a = .ok (.running ⟨ino, ex, argvs.length, t⟩) ∧
      Delivered argvs envps t ∧ PlacedAt bottom argvs envps t ∧
      bottom.toNat + (terminated argvs ++ (terminated envps ++ more)).length = 0xC3FFFFF8 := by
  have below := pushed.bottom
  have fits := pushed.length_le
  have whole : argRoom = 131064 := rfl
  rw [toNat_argTop] at below
  have shift : (0x4000000 - 32 * pageSize : Word) = 0x3FE0000 := by decide
  have bottom : (p + 0x3FE0000).toNat = p.toNat + 0x3FE0000 := by
    rw [BitVec.toNat_add, show (0x3FE0000 : Word).toNat = 0x3FE0000 from rfl]
    omega
  obtain ⟨t, run, delivered, placed⟩ := createTables_spec (pushed.mapped e.demand) rfl nonzero nonzero' (by omega) (by omega)
  refine ⟨t, p + 0x3FE0000, ?_, delivered, placed, by omega⟩
  rw [enter, shift, run]

theorem execError_not_running (a : ArgPages) (value : Int) (r : Running) : execError a value ≠ .ok (.running r) := by
  intro run
  obtain ⟨memory, _, failed⟩ := of_bind run
  cases failed

/-- A program that runs has found all of its strings in the pages. -/
theorem CopyReport.of_running {bytes : List Byte} {copies : Except ExecStop (Word × ArgPages)}
    {rest : Word → ArgPages → Except ExecStop Executed} {r : Running} (report : CopyReport m bytes copies)
    (refuses : ∀ a, rest 0 a = execError a (-enomem)) (run : (copies >>= fun (p, a) => rest p a) = .ok (.running r)) :
    ∃ p a, Pushed m a p bytes ∧ rest p a = .ok (.running r) := by
  cases report with
  | copied p a pushed => exact ⟨p, a, pushed, run⟩
  | full a taken few =>
    change rest 0 a = _ at run
    rw [refuses] at run
    exact absurd run (execError_not_running a _ r)
  | outside index long many => cases run

/-- Strings that fit find their pages while there are frames. -/
theorem CopyReport.of_room {bytes : List Byte} {copies : Except ExecStop (Word × ArgPages)} (report : CopyReport m bytes copies)
    (fits : bytes.length ≤ argRoom) (many : maxArgPages ≤ (freeFrames m).card) :
    ∃ p a, copies = .ok (p, a) ∧ Pushed m a p bytes := by
  cases report with
  | copied p a pushed => exact ⟨p, a, rfl, pushed⟩
  | full a taken few => omega
  | outside index long many => omega

/-- A program whose strings fit runs, while there are frames. -/
theorem program_runs {ino : Nat} {ex : Header} (found : e.namei e.user filename = some ino)
    (opened : openProgram e.fs ino e.cred = .program ex) (args : PassedVector e.user argv argvs)
    (envs : PassedVector e.user envp envps) (fits : (terminated (argvs ++ envps)).length ≤ argRoom)
    (many : maxArgPages ≤ (freeFrames m).card) : ∃ r, doExecve e m filename argv envp = .ok (.running r) := by
  obtain ⟨p, a, copied, pushed⟩ := (programCopies_report args envs).of_room fits many
  have positive := pushed.ne_zero
  rw [terminated_append, ← List.append_nil (terminated envps)] at pushed
  obtain ⟨t, _, run, _⟩ := enter_started (e := e) pushed args.nonzero envs.nonzero ino ex
  refine ⟨⟨ino, ex, argvs.length, t⟩, ?_⟩
  rw [doExecve_eq found args envs, opened]
  dsimp only
  rw [bind_ok copied]
  change runProgram _ _ _ _ _ p a = _
  rw [runProgram, if_neg positive, run]

/-- A program that is no script finds the caller's vectors, with the strings below `0xC4000000` and the
    tables below the strings. -/
theorem program_started {ino : Nat} {ex : Header} (found : e.namei e.user filename = some ino)
    (opened : openProgram e.fs ino e.cred = .program ex) (args : PassedVector e.user argv argvs)
    (envs : PassedVector e.user envp envps) {r : Running} (run : doExecve e m filename argv envp = .ok (.running r)) :
    StartedWith argvs envps r ∧ ∃ bottom, PlacedAt bottom argvs envps r.tables ∧
      bottom.toNat + (terminated argvs ++ terminated envps).length ≤ 0xC4000000 := by
  rw [doExecve_eq found args envs, opened] at run
  obtain ⟨p, a, pushed, entered⟩ := (programCopies_report args envs).of_running (fun _ => if_pos rfl) run
  rw [runProgram, if_neg pushed.ne_zero] at entered
  rw [terminated_append, ← List.append_nil (terminated envps)] at pushed
  obtain ⟨t, bottom, run', delivered, placed, below⟩ := enter_started (e := e) pushed args.nonzero envs.nonzero ino ex
  rw [run'] at entered
  cases entered
  rw [List.append_nil] at below
  exact ⟨⟨rfl, delivered⟩, bottom, placed, by omega⟩

theorem one_argument_started : ∃ r,
    doExecve (oneProgram (oneArgument 0xC0020FFF)) (bootMemory parentDir) 0xC0020FFF 0xC0000000 0 = .ok (.running r) ∧
      StartedWith [[0x61]] [] r := by
  have passed : PassedVector (oneArgument 0xC0020FFF) 0xC0000000 [List.replicate 1 0x61] :=
    oneArgument_passed _ (by decide) (by decide)
  have found : (oneProgram (oneArgument 0xC0020FFF)).namei (oneArgument 0xC0020FFF) 0xC0020FFF = some 1 := rfl
  obtain ⟨r, run⟩ := program_runs (e := oneProgram (oneArgument 0xC0020FFF)) found (oneProgram_opens _) passed (.none _)
    (by decide) bootMemory_frames
  exact ⟨r, run, (program_started found (oneProgram_opens _) passed (.none _) run).1⟩

end Enter

/-- What the `#!` branch should pass to the interpreter. -/
def interpreterArgs (s : Script) (file : List Byte) (argvs : List (List Byte)) : List (List Byte) :=
  s.iName :: (s.iArg.toList ++ (file :: argvs.tail))

section Interpreter

variable {e : ExecEnv} {m : Memory} {a : ArgPages} {p filename argv envp : Word} {file : List Byte}
  {argvs envps : List (List Byte)} {s : Script}

theorem scriptArgc_eq (s : Script) (file : List Byte) (some : argvs ≠ []) :
    scriptArgc s argvs.length = (interpreterArgs s file argvs).length := by
  have positive := List.length_pos_of_ne_nil some
  rw [scriptArgc, interpreterArgs, List.length_cons, List.length_append, List.length_cons, List.length_tail]
  omega

/-- Without arguments the count stays one behind the strings. -/
theorem scriptArgc_nil (s : Script) (file : List Byte) :
    scriptArgc s ((([] : List (List Byte)).length : Nat) : Int) = (s.iName :: s.iArg.toList).length ∧
      (interpreterArgs s file []).length = (s.iName :: s.iArg.toList).length + 1 := by
  rw [scriptArgc, interpreterArgs]
  simp

/-- With an argument the interpreter finds what it should. -/
theorem interpreter_enters (some : argvs ≠ []) (pushed : Pushed m a p (terminated (scriptStrings s file argvs envps)))
    (nonzero : ∀ t ∈ scriptStrings s file argvs envps, ∀ b ∈ t, b ≠ 0) (ino : Nat) (ex : Header) :
    ∃ t, enter e ino ex (scriptArgc s argvs.length) envps.length p a =
      .ok (.running ⟨ino, ex, (interpreterArgs s file argvs).length, t⟩) ∧
      Delivered (interpreterArgs s file argvs) envps t := by
  have strings : terminated (scriptStrings s file argvs envps) =
      terminated (interpreterArgs s file argvs) ++ (terminated envps ++ []) := by
    rw [List.append_nil, ← terminated_append, interpreterArgs, scriptStrings]
  rw [strings] at pushed
  have first : ∀ t ∈ interpreterArgs s file argvs, ∀ b ∈ t, b ≠ 0 := fun t member =>
    nonzero t (List.mem_append_left _ member)
  have second : ∀ t ∈ envps, ∀ b ∈ t, b ≠ 0 := fun t member => nonzero t (List.mem_append_right _ member)
  obtain ⟨t, _, run, delivered, _⟩ := enter_started (e := e) pushed first second ino ex
  rw [scriptArgc_eq s file some]
  exact ⟨t, run, delivered⟩

/-- Without one it finds the file name as the first string of its environment. -/
theorem interpreter_shifted (pushed : Pushed m a p (terminated (scriptStrings s file [] envps)))
    (nonzero : ∀ t ∈ scriptStrings s file [] envps, ∀ b ∈ t, b ≠ 0) (ino : Nat) (ex : Header) :
    ∃ t, enter e ino ex (scriptArgc s (([] : List (List Byte)).length : Nat)) envps.length p a =
      .ok (.running ⟨ino, ex, (s.iName :: s.iArg.toList).length, t⟩) ∧
      Delivered (s.iName :: s.iArg.toList) (file :: envps).dropLast t := by
  have whole : scriptStrings s file [] envps =
      (s.iName :: s.iArg.toList) ++ ((file :: envps).dropLast ++ [(file :: envps).getLast (List.cons_ne_nil _ _)]) := by
    rw [List.dropLast_append_getLast, scriptStrings, List.tail_nil]
    simp
  rw [whole] at nonzero
  rw [whole, terminated_append, terminated_append] at pushed
  have first : ∀ t ∈ s.iName :: s.iArg.toList, ∀ b ∈ t, b ≠ 0 := fun t member =>
    nonzero t (List.mem_append_left _ member)
  have second : ∀ t ∈ (file :: envps).dropLast, ∀ b ∈ t, b ≠ 0 := fun t member =>
    nonzero t (List.mem_append_right _ (List.mem_append_left _ member))
  have size : (file :: envps).dropLast.length = envps.length := by
    rw [List.length_dropLast, List.length_cons, Nat.add_sub_cancel]
  obtain ⟨t, _, run, delivered, _⟩ := enter_started (e := e) pushed first second ino ex
  rw [(scriptArgc_nil s file).1, ← size]
  exact ⟨t, run, delivered⟩

/-- A script is no program. -/
theorem marked_opens {fs : FileSystem} {ino : Nat} (cred : Credentials)
    (marks : fs.disk ((fs.inode ino).zone 0).toNat 0 = 0x23 ∧ fs.disk ((fs.inode ino).zone 0).toNat 1 = 0x21) :
    (∃ value, openProgram fs ino cred = .failed value) ∨ openProgram fs ino cred = .script := by
  unfold openProgram
  dsimp only
  split
  · exact .inl ⟨_, rfl⟩
  · split
    · exact .inl ⟨_, rfl⟩
    · exact .inr rfl

theorem ScriptLine.nonzero {block : Block} {path : List Byte} {rest : Option (List Byte)} (line : ScriptLine block path rest)
    (args : PassedVector e.user argv argvs) (envs : PassedVector e.user envp envps) (name : PassedString e.user filename file) :
    ∀ t ∈ scriptStrings ⟨path, lastComponent path, rest⟩ file argvs envps, ∀ b ∈ t, b ≠ 0 := by
  intro t member
  rcases List.mem_append.mp member with member | member
  · rcases List.mem_cons.mp member with rfl | member
    · intro b inside
      have suffix : lastComponent path <:+ path := List.rtakeWhile_suffix _ _
      exact (line.solid b (suffix.subset inside)).2.2
    · rcases List.mem_append.mp member with member | member
      · intro b inside
        exact (line.inLine t (Option.mem_toList.mp member) b inside).2
      · rcases List.mem_cons.mp member with rfl | member
        · exact name.nonzero
        · exact args.nonzero t (List.mem_of_mem_tail member)
  · exact envs.nonzero t member

/-- The run of a script, from the parsed line on. -/
theorem doExecve_script {ino : Nat} {path : List Byte} {rest : Option (List Byte)}
    (found : e.namei e.user filename = some ino) (line : ScriptLine (e.fs.disk ((e.fs.inode ino).zone 0).toNat) path rest)
    (args : PassedVector e.user argv argvs) (envs : PassedVector e.user envp envps)
    (opened : openProgram e.fs ino e.cred = .script) : doExecve e m filename argv envp =
      scriptCopies e ⟨path, lastComponent path, rest⟩ filename argv envp argvs.length envps.length ⟨m, fun _ => 0⟩ >>=
        fun (p, a) => runInterpreter e ⟨path, lastComponent path, rest⟩
          (scriptArgc ⟨path, lastComponent path, rest⟩ argvs.length) envps.length p a := by
  rw [doExecve_eq found args envs, opened]
  dsimp only
  rw [line.parsed]

theorem script_running {ino : Nat} {path : List Byte} {rest : Option (List Byte)}
    (found : e.namei e.user filename = some ino) (line : ScriptLine (e.fs.disk ((e.fs.inode ino).zone 0).toNat) path rest)
    (args : PassedVector e.user argv argvs) (envs : PassedVector e.user envp envps) (name : PassedString e.user filename file)
    {r : Running} (run : doExecve e m filename argv envp = .ok (.running r)) :
    (argvs ≠ [] → StartedWith (lastComponent path :: (rest.toList ++ (file :: argvs.tail))) envps r) ∧
      (argvs = [] → StartedWith (lastComponent path :: rest.toList) (file :: envps).dropLast r) := by
  rcases marked_opens e.cred line.marks with ⟨value, failed⟩ | opened
  · rw [doExecve_eq found args envs, failed] at run
    exact absurd run (execError_not_running _ _ r)
  · rw [doExecve_script found line args envs opened] at run
    have nonzero := line.nonzero args envs name
    obtain ⟨p, a, pushed, entered⟩ := (scriptCopies_report (parseScript_short line.parsed) args envs name).of_running
      (fun _ => if_pos rfl) run
    rw [runInterpreter, if_neg pushed.ne_zero] at entered
    split at entered
    · exact absurd entered (execError_not_running _ _ r)
    · rename_i ino' _
      split at entered
      · exact absurd entered (execError_not_running _ _ r)
      · rename_i ex _
        constructor
        · intro some
          obtain ⟨t, run', delivered⟩ := interpreter_enters (e := e) some pushed nonzero ino' ex
          rw [run'] at entered
          cases entered
          exact ⟨rfl, delivered⟩
        · rintro rfl
          obtain ⟨t, run', delivered⟩ := interpreter_shifted (e := e) pushed nonzero ino' ex
          rw [run'] at entered
          cases entered
          exact ⟨rfl, delivered⟩

/-- A script whose strings fit runs, while there are frames. -/
theorem script_runs {ino ino' : Nat} {path : List Byte} {rest : Option (List Byte)} {ex : Header}
    (found : e.namei e.user filename = some ino) (line : ScriptLine (e.fs.disk ((e.fs.inode ino).zone 0).toNat) path rest)
    (args : PassedVector e.user argv argvs) (envs : PassedVector e.user envp envps) (name : PassedString e.user filename file)
    (opened : openProgram e.fs ino e.cred = .script) (interp : e.namei (kernelSpace path) 0 = some ino')
    (program : openInterpreter e ino' = .ok ex)
    (fits : (terminated (scriptStrings ⟨path, lastComponent path, rest⟩ file argvs envps)).length ≤ argRoom)
    (many : maxArgPages ≤ (freeFrames m).card) : ∃ r, doExecve e m filename argv envp = .ok (.running r) := by
  have nonzero := line.nonzero args envs name
  obtain ⟨p, a, copied, pushed⟩ := (scriptCopies_report (parseScript_short line.parsed) args envs name).of_room fits many
  have entered : doExecve e m filename argv envp = enter e ino' ex
      (scriptArgc ⟨path, lastComponent path, rest⟩ argvs.length) envps.length p a := by
    rw [doExecve_script found line args envs opened, bind_ok copied]
    change runInterpreter _ _ _ _ p a = _
    rw [runInterpreter, if_neg pushed.ne_zero, interp]
    dsimp only
    rw [program]
  rw [entered]
  by_cases empty : argvs = []
  · subst empty
    obtain ⟨t, run, _⟩ := interpreter_shifted (e := e) pushed nonzero ino' ex
    exact ⟨_, run⟩
  · obtain ⟨t, run, _⟩ := interpreter_enters (e := e) empty pushed nonzero ino' ex
    exact ⟨_, run⟩

/-- A script that runs passes its interpreter the right vectors exactly when the caller passed at least
    one argument. -/
theorem script_started_iff {ino : Nat} {path : List Byte} {rest : Option (List Byte)}
    (found : e.namei e.user filename = some ino) (line : ScriptLine (e.fs.disk ((e.fs.inode ino).zone 0).toNat) path rest)
    (args : PassedVector e.user argv argvs) (envs : PassedVector e.user envp envps) (name : PassedString e.user filename file)
    {r : Running} (run : doExecve e m filename argv envp = .ok (.running r)) :
    StartedWith (lastComponent path :: (rest.toList ++ (file :: argvs.tail))) envps r ↔ argvs ≠ [] := by
  obtain ⟨right, shifted⟩ := script_running found line args envs name run
  refine ⟨?_, right⟩
  rintro started rfl
  have more := started.value
  rw [(shifted rfl).value] at more
  simp only [List.length_cons, List.length_append, List.tail_nil, List.length_nil] at more
  omega

/-- `#!/sh`. -/
def scriptBlock : Block := fun i => [0x23, 0x21, 0x2F, 0x73, 0x68, newline].getD i 0

/-- A device with a script and its interpreter, which every path from the root leads to. -/
def oneScript (user : Space) : ExecEnv where
  fs := {
    sb := (programDevice smallHeader 5120).sb
    disk := fun b => if b = 6 then headerBlock smallHeader else scriptBlock
    inode := fun ino => { MInode.zero with mode := 0x81FF, size := 5120, zone := fun _ => if ino = 1 then 6 else 5 } }
  cred := ⟨0, 0⟩
  namei := fun space path => if space path = 0x2F then some 1 else some 2
  user := user
  demand := fun _ => 0

theorem oneScript_line (user : Space) :
    ScriptLine ((oneScript user).fs.disk (((oneScript user).fs.inode 2).zone 0).toNat) [0x2F, 0x73, 0x68] none where
  marks := ⟨rfl, rfl⟩
  named := by decide
  solid := by decide
  inLine := nofun
  line := by
    refine ⟨[], [], ((List.range 1018).map fun i => 4 + i).map fun i => scriptBlock (i + 2), ?_, nofun, .absent⟩
    have first : (List.range 4).map (fun i => scriptBlock (i + 2)) = [0x2F, 0x73, 0x68, newline] := rfl
    have text : (oneScript user).fs.disk (((oneScript user).fs.inode 2).zone 0).toNat = scriptBlock := rfl
    rw [text, headerText, show 1022 = 4 + 1018 from rfl, List.range_add, List.map_append, first]
    simp only [List.nil_append, List.cons_append]

theorem oneScript_allows (user : Space) (ino : Nat) : isReg ((oneScript user).fs.inode ino).mode = true ∧
    mayExecute ((oneScript user).fs.inode ino) (oneScript user).cred = true := by
  constructor
  · change isReg 0x81FF = true
    decide
  · simp [mayExecute, oneScript, MInode.zero]

theorem oneScript_opens (user : Space) : openProgram (oneScript user).fs 2 (oneScript user).cred = .script := by
  obtain ⟨regular, allowed⟩ := oneScript_allows user 2
  have marks := (oneScript_line user).marks
  unfold openProgram
  dsimp only
  rw [regular, allowed, if_pos marks]
  rfl

theorem oneScript_interpreter (user : Space) : ∃ ex, openInterpreter (oneScript user) 1 = .ok ex := by
  refine ⟨headerOf (headerBlock smallHeader), ?_⟩
  obtain ⟨regular, allowed⟩ := oneScript_allows user 1
  have block : (oneScript user).fs.disk (((oneScript user).fs.inode 1).zone 0).toNat = headerBlock smallHeader := rfl
  have accepted : badHeader (headerOf (headerBlock smallHeader)) ((oneScript user).fs.inode 1).size = false := by
    change badHeader (headerOf (headerBlock smallHeader)) 5120 = false
    decide
  have offset : nTxtoff (headerOf (headerBlock smallHeader)) = 1024 := by decide
  unfold openInterpreter
  dsimp only
  rw [block, regular, allowed, accepted, offset]
  rfl

theorem oneScript_finds (start : Word) : (oneScript (oneArgument start)).namei (oneArgument start) 0xC0020FFF = some 2 := by
  change (if oneArgument start 0xC0020FFF = 0x2F then some 1 else some 2) = some 2
  rw [oneArgument_other start (by decide), if_neg (by decide)]

theorem oneScript_runs (start : Word) {argv : Word} {argvs : List (List Byte)} (args : PassedVector (oneArgument start) argv argvs)
    (small : (terminated argvs.tail).length ≤ 1000) : ∃ r,
    doExecve (oneScript (oneArgument start)) (bootMemory parentDir) 0xC0020FFF argv 0 = .ok (.running r) := by
  have name : PassedString (oneArgument start) 0xC0020FFF (List.replicate 1 0x61) :=
    oneArgument_letters _ _ (by decide) (by decide)
  obtain ⟨ex, program⟩ := oneScript_interpreter (oneArgument start)
  apply script_runs (e := oneScript (oneArgument start)) (oneScript_finds _) (oneScript_line _) args (.none _) name (oneScript_opens _) rfl program
    _ bootMemory_frames
  have room : argRoom = 131064 := rfl
  rw [scriptStrings, List.append_nil, length_terminated_cons, Option.toList_none, List.nil_append, length_terminated_cons,
    List.length_replicate]
  have short : (lastComponent [0x2F, 0x73, 0x68]).length = 2 := rfl
  dsimp only
  omega

theorem one_argument_interpreted : ∃ r,
    doExecve (oneScript (oneArgument 0xC0020FFF)) (bootMemory parentDir) 0xC0020FFF 0xC0000000 0 = .ok (.running r) ∧
      StartedWith [[0x73, 0x68], [0x61]] [] r := by
  have passed : PassedVector (oneArgument 0xC0020FFF) 0xC0000000 [List.replicate 1 0x61] :=
    oneArgument_passed _ (by decide) (by decide)
  have name : PassedString (oneArgument 0xC0020FFF) 0xC0020FFF (List.replicate 1 0x61) :=
    oneArgument_letters _ _ (by decide) (by decide)
  obtain ⟨r, run⟩ := oneScript_runs 0xC0020FFF passed (by decide)
  exact ⟨r, run, (script_started_iff (e := oneScript (oneArgument 0xC0020FFF)) (oneScript_finds _) (oneScript_line _) passed
    (.none _) name run).mpr (by decide)⟩

/-- Without arguments the interpreter is not told the name of the script. -/
theorem no_argument_lost : ∃ r,
    doExecve (oneScript (oneArgument 0xC0020FFF)) (bootMemory parentDir) 0xC0020FFF 0 0 = .ok (.running r) ∧
      ¬ StartedWith [[0x73, 0x68], [0x61]] [] r := by
  have name : PassedString (oneArgument 0xC0020FFF) 0xC0020FFF (List.replicate 1 0x61) :=
    oneArgument_letters _ _ (by decide) (by decide)
  obtain ⟨r, run⟩ := oneScript_runs 0xC0020FFF (.none _) (by decide)
  have shifted := (script_running (e := oneScript (oneArgument 0xC0020FFF)) (oneScript_finds _) (oneScript_line _) (.none _)
    (.none _) name run).2 rfl
  refine ⟨r, run, fun started => ?_⟩
  have value := started.value
  rw [shifted.value] at value
  exact absurd value (by decide)

end Interpreter

end K210Linux.Exec
