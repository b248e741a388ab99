import K210Linux.Fs.InodeCache

/-! `get_dir` and `dir_namei`, against the path split at every `/`. -/

namespace K210Linux.Fs

open Outcome
open K210Linux.Buffer (Halt ramdisk)
open K210Linux.Buffer.Drive (nrInode)

def slash : Byte := 0x2F
def mayExec : BitVec 16 := 1

/-- The current task, and what is behind the calls of the walk: the entry of a directory with a name, and whether
    the `iget` of the `step`th component returns an inode. -/
structure Walk where
  caller : Caller
  root : Option Nat
  pwd : Option Nat
  lookup : BitVec 16 → List Byte → Option (BitVec 16)
  gets : Nat → Bool

/-- `find_entry` up to the inode in the entry. Only the root device is mounted, so that the directory stays the same
    one at `..` too. -/
def Walk.findEntry (w : Walk) (dir : BitVec 16) (name : List Byte) : Option (BitVec 16) :=
  if name.take nameLen = [] then none else w.lookup dir (name.take nameLen)

/-- The test of `get_dir` on every inode it comes to. -/
def Walk.mayEnter (w : Walk) (inode : MInode) : Bool := isDir inode.mode && permission inode w.caller mayExec

/-- The `for` loop of `get_dir`: the length of the name, and the path behind the `/` that ended it. -/
def scanName : List Byte → Nat × Option (List Byte)
  | [] => (0, none)
  | c :: rest =>
    if c = 0 then (0, none)
    else if c = slash then (0, some rest)
    else ((scanName rest).1 + 1, (scanName rest).2)

section Calls

variable (release : Nat → InodeTable → Except Halt InodeTable) (w : Walk)

/-- The end of a call that puts an inode and returns `NULL`. -/
def putNone {α : Type} (k : Nat) (t : InodeTable) : Except Halt (Option α × InodeTable) := do
  let t ← InodeTable.iput release k t
  .ok (none, t)

/-- The loop of `get_dir`, with the inode it has come to. -/
def getDirFrom : Nat → Nat → Nat → List Byte → InodeTable → Except Halt (Option Nat × InodeTable)
  | 0, _, _, _, _ => .error .asleep
  | fuel + 1, step, k, path, t =>
    if w.mayEnter (t.inode k) = false then putNone release k t
    else
      match scanName path with
      | (_, none) => .ok (some k, t)
      | (namelen, some rest) =>
        match w.findEntry (t.inode k).num (path.take namelen) with
        | none => putNone release k t
        | some inr => do
          let t ← InodeTable.iput release k t
          if w.gets step then do
            let (k, t) ← InodeTable.iget release inr t
            getDirFrom fuel (step + 1) k rest t
          else .ok (none, t)

def getDir (path : List Byte) (t : InodeTable) : Except Halt (Option Nat × InodeTable) :=
  match w.root, w.pwd with
  | some root, some pwd =>
    if (t.inode root).count = 0 then .error (.panic "No root inode")
    else if (t.inode pwd).count = 0 then .error (.panic "No cwd inode")
    else
      match path with
      | [] => .ok (none, t)
      | c :: rest =>
        if c = slash then getDirFrom release w (path.length + 1) 0 root rest (t.hold root)
        else if c ≠ 0 then getDirFrom release w (path.length + 1) 0 pwd path (t.hold pwd)
        else .ok (none, t)
  | none, _ => .error (.panic "No root inode")
  | _, none => .error (.panic "No cwd inode")

/-- The loop of `dir_namei`: `basename`, and how far the path went behind it. -/
def scanBase : List Byte → List Byte → Nat → List Byte × Nat
  | [], basename, passed => (basename, passed)
  | c :: rest, basename, passed =>
    if c = 0 then (basename, passed)
    else if c = slash then scanBase rest rest 0
    else scanBase rest basename (passed + 1)

/-- `dir_namei`: the directory, `name` and `namelen`. -/
def dirNamei (path : List Byte) (t : InodeTable) : Except Halt (Option (Nat × List Byte × Nat) × InodeTable) := do
  let (dir, t) ← getDir release w path t
  match dir with
  | none => .ok (none, t)
  | some k => .ok (some (k, scanBase path path 0), t)

end Calls

/-- The path, less one leading `/`, split at every `/`. -/
def components (path : List Byte) : List (List Byte) :=
  (if path.head? = some slash then path.tail else path).splitOn slash

theorem components_ne_nil (path : List Byte) : components path ≠ [] := List.splitOn_ne_nil _ _

/-- The directory that is reached from inode `num` by all components but the last, with the inodes as `see` has them. -/
def Walk.resolve (w : Walk) (see : BitVec 16 → MInode) : Nat → BitVec 16 → List (List Byte) → Option (BitVec 16)
  | _, _, [] => none
  | _, num, [_] => if w.mayEnter (see num) then some num else none
  | step, num, name :: next :: rest =>
    if w.mayEnter (see num) then
      match w.findEntry num name with
      | none => none
      | some inr => if w.gets step then w.resolve see (step + 1) inr (next :: rest) else none
    else none

/-- The inode that `dir_namei` should return. -/
def Walk.target (w : Walk) (t : InodeTable) (path : List Byte) : Option (BitVec 16) :=
  if path = [] then none
  else
    match if path.head? = some slash then w.root else w.pwd with
    | none => none
    | some k => w.resolve t.record 0 (t.inode k).num (components path)

/-- What `dir_namei` does with a path. -/
def Resolves (w : Walk) (t : InodeTable) (path : List Byte) : Option (Nat × List Byte × Nat) × InodeTable → Prop
  | (none, t') => w.target t path = none ∧ ∀ j, (t'.inode j).count = (t.inode j).count
  | (some (k, name, namelen), t') =>
    w.target t path = some (t'.inode k).num ∧ (t'.inode k).dev = ramdisk ∧
      name = (components path).getLast (components_ne_nil path) ∧
      namelen = ((components path).getLast (components_ne_nil path)).length ∧
      ∀ j, (t'.inode j).count.toNat = (t.inode j).count.toNat + if j = k then 1 else 0

section Scan

variable {path rest : List Byte} {n : Nat}

theorem scanName_end (noNul : 0 ∉ path) (scanned : scanName path = (n, none)) : path.splitOn slash = [path] := by
  apply List.splitOn_eq_singleton
  induction path generalizing n with
  | nil => exact List.not_mem_nil
  | cons c rest ih =>
    rw [List.mem_cons, not_or] at noNul
    unfold scanName at scanned
    rw [if_neg (Ne.symm noNul.1)] at scanned
    split at scanned
    · cases scanned
    · rename_i other
      rw [List.mem_cons, not_or]
      refine ⟨Ne.symm other, ih noNul.2 (n := (scanName rest).1) ?_⟩
      exact Prod.ext rfl (Prod.mk.inj scanned).2

theorem scanName_slash (noNul : 0 ∉ path) (scanned : scanName path = (n, some rest)) :
    path = path.take n ++ slash :: rest ∧ slash ∉ path.take n := by
  induction path generalizing n with
  | nil => cases scanned
  | cons c tail ih =>
    rw [List.mem_cons, not_or] at noNul
    unfold scanName at scanned
    rw [if_neg (Ne.symm noNul.1)] at scanned
    split at scanned
    · rename_i here
      cases scanned
      rw [here]
      exact ⟨rfl, List.not_mem_nil⟩
    · rename_i other
      have parts := Prod.mk.inj scanned
      rcases ih noNul.2 (n := (scanName tail).1) (Prod.ext rfl parts.2) with ⟨split, notIn⟩
      rw [← parts.1, List.take_succ_cons]
      refine ⟨?_, ?_⟩
      · rw [List.cons_append, ← split]
      · rw [List.mem_cons, not_or]
        exact ⟨Ne.symm other, notIn⟩

/-- The loops of `get_dir` cut off the components one by one. -/
theorem splitOn_scanName (noNul : 0 ∉ path) (scanned : scanName path = (n, some rest)) :
    path.splitOn slash = path.take n :: rest.splitOn slash ∧ rest.length < path.length ∧ 0 ∉ rest := by
  rcases scanName_slash noNul scanned with ⟨split, notIn⟩
  refine ⟨?_, ?_, ?_⟩
  · conv_lhs => rw [split]
    exact List.splitOn_append_cons_self_of_not_mem notIn rest
  · rw [split, List.length_append, List.length_cons]
    omega
  · intro isIn
    apply noNul
    rw [split]
    exact List.mem_append_right _ (List.mem_cons_of_mem _ isIn)

/-- The loop of `dir_namei`, which has passed the letters `passed` of the component it is in. -/
theorem scanBase_last (noNul : 0 ∉ path) (passed : List Byte) (noSlash : slash ∉ passed) :
    scanBase path (passed ++ path) passed.length =
      (((passed ++ path).splitOn slash).getLast (List.splitOn_ne_nil _ _),
        (((passed ++ path).splitOn slash).getLast (List.splitOn_ne_nil _ _)).length) := by
  induction path generalizing passed with
  | nil =>
    simp only [List.append_nil, List.splitOn_eq_singleton noSlash, List.getLast_singleton]
    rfl
  | cons c rest ih =>
    rw [List.mem_cons, not_or] at noNul
    unfold scanBase
    rw [if_neg (Ne.symm noNul.1)]
    by_cases here : c = slash
    · subst here
      rw [if_pos rfl]
      have next := ih noNul.2 [] List.not_mem_nil
      simp only [List.splitOn_append_cons_self_of_not_mem noSlash, List.getLast_cons (List.splitOn_ne_nil _ _)]
      exact next
    · rw [if_neg here]
      have noSlash' : slash ∉ passed ++ [c] := by
        rw [List.mem_append, List.mem_singleton, not_or]
        exact ⟨noSlash, Ne.symm here⟩
      have next := ih noNul.2 (passed ++ [c]) noSlash'
      simp only [List.append_assoc, List.singleton_append, List.length_append, List.length_singleton] at next
      exact next

/-- `name` and `namelen` are the last component; the leading `/` makes no difference. -/
theorem scanBase_components (noNul : 0 ∉ path) :
    scanBase path path 0 = ((components path).getLast (components_ne_nil path),
      ((components path).getLast (components_ne_nil path)).length) := by
  have whole := scanBase_last noNul [] List.not_mem_nil
  rw [List.nil_append] at whole
  rw [List.length_nil] at whole
  rw [whole]
  unfold components
  cases path with
  | nil => rfl
  | cons c rest =>
    by_cases here : c = slash
    · subst here
      have split := List.splitOn_append_cons_self_of_not_mem (List.not_mem_nil (a := slash)) rest
      rw [List.nil_append] at split
      simp only [split, List.getLast_cons (List.splitOn_ne_nil _ _), List.head?_cons, if_pos, List.tail_cons]
    · have other : ¬ (c :: rest).head? = some slash := fun same => here (Option.some.inj same)
      simp only [if_neg other]

end Scan

/-- What a task needs to walk: its own two directories, inodes with links, and a place for another inode. -/
structure Ready (w : Walk) (t : InodeTable) (root pwd : Nat) : Prop where
  cached : Cached t
  atRoot : w.root = some root
  atPwd : w.pwd = some pwd
  held : (t.inode root).count ≠ 0 ∧ (t.inode pwd).count ≠ 0
  device : (t.inode root).dev ≠ 0 ∧ (t.inode pwd).dev ≠ 0
  linked : ∀ num, (t.record num).nlinks ≠ 0
  free : ∃ k, k < nrInode ∧ (t.inode k).count = 0

/-- No `i_count` is at its end: besides the super block an inode has at most 64 open files, three references of each of
    64 tasks, and the few that calls hold. -/
def CountsSmall (t : InodeTable) : Prop := ∀ k, (t.inode k).count ≠ 65535

/-- The walk is at place `k`, with one reference to it. -/
structure At (t t' : InodeTable) (k : Nat) : Prop where
  kept : TableKept t t'
  device : (t'.inode k).dev ≠ 0
  count : ∀ j, (t'.inode j).count = if j = k then (t.inode k).count + 1 else (t.inode j).count

section Steps

variable {w : Walk} {t t' : InodeTable} {k : Nat}

theorem record_device (t : InodeTable) (num : BitVec 16) : (t.record num).dev = ramdisk := by
  unfold InodeTable.record
  split
  · rename_i k located
    exact (findInode_some located).1
  · rfl

theorem mayEnter_congr {a b : MInode} (same : SameAccess a b) (dev : a.dev = b.dev) : w.mayEnter a = w.mayEnter b := by
  unfold Walk.mayEnter permission
  rw [same.mode, same.uid, same.gid, same.nlinks, dev]

theorem succ_ne {count : BitVec 16} (small : count ≠ 65535) : count + 1 ≠ 0 := by
  intro zero
  apply small
  have same : count + 1 - 1 = (0 : BitVec 16) - 1 := by rw [zero]
  rw [BitVec.add_sub_cancel] at same
  exact same

theorem At.enter (located : At t t' k) : w.mayEnter (t'.inode k) = w.mayEnter (t.record (t'.inode k).num) := by
  have here := located.kept.cached.record_here located.device
  have access := located.kept.view (t'.inode k).num
  rw [here] at access
  apply mayEnter_congr access
  rw [record_device, (located.kept.cached.device k).resolve_left located.device]

theorem At.used (located : At t t' k) (small : CountsSmall t) (j : Nat) (used : (t.inode j).count ≠ 0) :
    (t'.inode j).count ≠ 0 := by
  rw [located.count]
  split
  · exact succ_ne (small k)
  · exact used

/-- The reference is given back. -/
theorem At.put (located : At t t' k) (small : CountsSmall t) (linked : ∀ num, (t.record num).nlinks ≠ 0)
    (release : Nat → InodeTable → Except Halt InodeTable) :
    ∃ t₁, InodeTable.iput release k t' = .ok t₁ ∧ TableKept t t₁ ∧ ∀ j, (t₁.inode j).count = (t.inode j).count := by
  have count := located.count k
  rw [if_pos rfl] at count
  have used : (t'.inode k).count ≠ 0 := by
    rw [count]
    exact succ_ne (small k)
  have here := located.kept.cached.record_here located.device
  have nlinks : (t'.inode k).nlinks ≠ 0 := by
    rw [← here, (located.kept.view _).nlinks]
    exact linked _
  rcases iput_drops release located.kept.cached used located.device nlinks with ⟨t₁, done, kept, counts⟩
  refine ⟨t₁, done, located.kept.trans kept (located.used small), ?_⟩
  intro j
  rw [counts]
  split
  · rename_i same
    rw [count, same]
    exact BitVec.add_sub_cancel ..
  · rename_i other
    rw [located.count, if_neg other]

/-- How a call that looks for a directory ends when it should come to inode `found`, or to none. -/
def Ends (t : InodeTable) (found : Option (BitVec 16)) (result : Except Halt (Option Nat × InodeTable)) : Prop :=
  match found with
  | none => ∃ t', result = .ok (none, t') ∧ TableKept t t' ∧ ∀ j, (t'.inode j).count = (t.inode j).count
  | some num => ∃ k t', result = .ok (some k, t') ∧ At t t' k ∧ (t'.inode k).num = num

variable (release : Nat → InodeTable → Except Halt InodeTable)

theorem At.giveUp (located : At t t' k) (small : CountsSmall t) (linked : ∀ num, (t.record num).nlinks ≠ 0) :
    Ends t none (putNone release k t') := by
  rcases located.put small linked release with ⟨t₁, done, kept, counts⟩
  refine ⟨t₁, ?_, kept, counts⟩
  unfold putNone
  rw [bind_ok done]

/-- One component after the other. -/
theorem getDirFrom_resolves (small : CountsSmall t) (linked : ∀ num, (t.record num).nlinks ≠ 0)
    (free : ∃ k, k < nrInode ∧ (t.inode k).count = 0) {fuel : Nat} (step : Nat) {path : List Byte}
    (long : path.length < fuel) (noNul : 0 ∉ path) (located : At t t' k) :
    Ends t (w.resolve t.record step (t'.inode k).num (path.splitOn slash)) (getDirFrom release w fuel step k path t') := by
  induction fuel generalizing step k path t' with
  | zero => exact absurd long (Nat.not_lt_zero _)
  | succ fuel ih =>
    have enter := located.enter (w := w)
    unfold getDirFrom
    cases may : w.mayEnter (t'.inode k) with
    | false =>
      rw [may] at enter
      rw [if_pos rfl]
      have stopped : w.resolve t.record step (t'.inode k).num (path.splitOn slash) = none := by
        rcases names : path.splitOn slash with _ | ⟨name, _ | ⟨next, rest⟩⟩ <;> simp [Walk.resolve, ← enter]
      rw [stopped]
      exact located.giveUp release small linked
    | true =>
      rw [may] at enter
      rw [if_neg (by decide)]
      rcases scanned : scanName path with ⟨n, _ | rest⟩
      · rw [scanName_end noNul scanned, Walk.resolve, ← enter, if_pos rfl]
        exact ⟨k, t', rfl, located, rfl⟩
      · rcases splitOn_scanName noNul scanned with ⟨split, shorter, noNul'⟩
        have more : w.resolve t.record step (t'.inode k).num (path.splitOn slash) =
            match w.findEntry (t'.inode k).num (path.take n) with
            | none => none
            | some inr => if w.gets step then w.resolve t.record (step + 1) inr (rest.splitOn slash) else none := by
          rw [split]
          rcases names : rest.splitOn slash with _ | ⟨next, names⟩
          · exact absurd names (List.splitOn_ne_nil _ _)
          · rw [Walk.resolve, ← enter, if_pos rfl]
        rw [more]
        dsimp only
        cases entry : w.findEntry (t'.inode k).num (path.take n) with
        | none => exact located.giveUp release small linked
        | some inr =>
          rcases located.put small linked release with ⟨t₁, done, kept, counts⟩
          dsimp only
          rw [bind_ok done]
          cases gets : w.gets step with
          | false => exact ⟨t₁, rfl, kept, counts⟩
          | true =>
            have free₁ : ∃ k, k < nrInode ∧ (t₁.inode k).count = 0 := by
              rcases free with ⟨j, inside, unused⟩
              refine ⟨j, inside, ?_⟩
              rw [counts]
              exact unused
            rcases iget_gets release kept.cached free₁ inr with ⟨k₂, t₂, got, arrived⟩
            have located₂ : At t t₂ k₂ := by
              refine ⟨kept.trans arrived.kept ?_, ?_, ?_⟩
              · intro j used
                rw [counts]
                exact used
              · rw [arrived.device]
                exact ramdisk_ne
              · intro j
                rw [arrived.count, counts, counts]
            have next := ih (step + 1) (show rest.length < fuel by omega) noNul' located₂
            rw [if_pos rfl, if_pos rfl, bind_ok got]
            rw [arrived.number] at next
            exact next

theorem hold_at (cached : Cached t) (device : (t.inode k).dev ≠ 0) : At t (t.hold k) k := by
  refine ⟨.setCount cached k _, ?_, ?_⟩
  · simp only [InodeTable.hold, InodeTable.setInode, Function.update_self]
    exact device
  · intro j
    simp only [InodeTable.hold, InodeTable.setInode, Function.update_apply]
    split <;> rfl

theorem hold_num (t : InodeTable) (k : Nat) : ((t.hold k).inode k).num = (t.inode k).num := by
  simp only [InodeTable.hold, InodeTable.setInode, Function.update_self]

theorem getDir_resolves {root pwd : Nat} (ready : Ready w t root pwd) (small : CountsSmall t) {path : List Byte}
    (noNul : 0 ∉ path) : Ends t (w.target t path) (getDir release w path t) := by
  unfold getDir Walk.target
  rw [ready.atRoot, ready.atPwd]
  dsimp only
  rw [if_neg ready.held.1, if_neg ready.held.2]
  cases path with
  | nil =>
    rw [if_pos rfl]
    exact ⟨t, rfl, .refl ready.cached, fun _ => rfl⟩
  | cons c rest =>
    rw [List.mem_cons, not_or] at noNul
    rw [if_neg (List.cons_ne_nil c rest)]
    dsimp only
    by_cases here : c = slash
    · have walked := getDirFrom_resolves (w := w) release small ready.linked ready.free 0
        (show rest.length < (c :: rest).length + 1 by rw [List.length_cons]; omega) noNul.2
        (hold_at ready.cached ready.device.1)
      rw [hold_num] at walked
      have first : (c :: rest).head? = some slash := congrArg some here
      rw [if_pos here, if_pos first]
      simp only [components, if_pos first, List.tail_cons]
      exact walked
    · have walked := getDirFrom_resolves (w := w) release small ready.linked ready.free 0
        (show (c :: rest).length < (c :: rest).length + 1 by omega) (by rw [List.mem_cons, not_or]; exact noNul)
        (hold_at ready.cached ready.device.2)
      rw [hold_num] at walked
      have other : ¬ (c :: rest).head? = some slash := fun same => here (Option.some.inj same)
      rw [if_neg here, if_pos (Ne.symm noNul.1), if_neg other]
      simp only [components, if_neg other]
      exact walked

theorem resolve_empty {see : BitVec 16 → MInode} {step : Nat} {num : BitVec 16} {names : List (List Byte)}
    (empty : [] ∈ names.dropLast) : w.resolve see step num names = none := by
  induction names generalizing step num with
  | nil => cases empty
  | cons name names ih =>
    cases names with
    | nil => cases empty
    | cons next rest =>
      rw [Walk.resolve]
      rw [List.dropLast_cons₂, List.mem_cons] at empty
      split
      · rcases empty with here | later
        · rw [← here]
          rfl
        · split
          · rfl
          · split
            · exact ih later
            · rfl
      · rfl

end Steps

/-- `dir_namei` of a path of letters other than NUL, while no `i_count` is at its end. -/
theorem dir_namei_resolves {w : Walk} {t : InodeTable} {root pwd : Nat} (ready : Ready w t root pwd)
    (small : CountsSmall t) (release : Nat → InodeTable → Except Halt InodeTable) {path : List Byte} (noNul : 0 ∉ path) :
    (∃ result, dirNamei release w path t = .ok result ∧ Resolves w t path result) ∧
    ([] ∈ (components path).dropLast → w.target t path = none) := by
  have walked := getDir_resolves release ready small noNul
  refine ⟨?_, ?_⟩
  · unfold dirNamei
    cases found : w.target t path with
    | none =>
      rw [found] at walked
      rcases walked with ⟨t', done, -, counts⟩
      rw [bind_ok done]
      exact ⟨(none, t'), rfl, found, counts⟩
    | some num =>
      rw [found] at walked
      rcases walked with ⟨k, t', done, located, same⟩
      rw [bind_ok done]
      refine ⟨(some (k, scanBase path path 0), t'), rfl, ?_⟩
      rw [scanBase_components noNul]
      refine ⟨?_, (located.kept.cached.device k).resolve_left located.device, rfl, rfl, ?_⟩
      · rw [found, same]
      · intro j
        have count := located.count j
        rw [count]
        split
        · rename_i here
          have bound := (t.inode k).count.isLt
          have below : (t.inode k).count.toNat ≠ 65535 := fun full => small k (BitVec.eq_of_toNat_eq full)
          rw [BitVec.toNat_add, here]
          change ((t.inode k).count.toNat + 1) % 65536 = _
          omega
        · rfl
  · intro empty
    unfold Walk.target
    split
    · rfl
    · split
      · rfl
      · exact resolve_empty empty

/-- A device of directories, with only the root directory in the table. -/
def dirsOnly (count : BitVec 16) : InodeTable where
  inode k := if k = 0 then { MInode.zero with mode := 0o040755, nlinks := 2, dev := ramdisk, num := 1, count := count } else MInode.zero
  last := 0
  stored _ := { MInode.zero with mode := 0o040755, nlinks := 2 }

/-- A user in the root directory, where every name is the one of inode 2. -/
def plainUser : Walk where
  caller := ⟨1000, 1000, 0, 1, 0⟩
  root := some 0
  pwd := some 0
  lookup _ _ := some 2
  gets _ := true

theorem dirsOnly_ready {count : BitVec 16} (held : count ≠ 0) : Ready plainUser (dirsOnly count) 0 0 := by
  have others (k : Nat) (used : ((dirsOnly count).inode k).dev ≠ 0) : k = 0 := by
    by_contra other
    simp only [dirsOnly, if_neg other] at used
    exact used rfl
  refine ⟨⟨?_, ?_, ?_, ?_, ?_, ?_⟩, rfl, rfl, ⟨held, held⟩, ⟨ramdisk_ne, ramdisk_ne⟩, ?_, ⟨1, by decide, rfl⟩⟩
  · intro k
    by_cases root : k = 0
    · subst k
      exact .inr rfl
    · simp only [dirsOnly, if_neg root]
      exact .inl rfl
  · intro k beyond
    by_contra used
    have root := others k used
    change 32 ≤ k at beyond
    omega
  · intro j k usedJ usedK _
    rw [others j usedJ, others k usedK]
  · intro k dirty
    simp only [dirsOnly] at dirty
    split at dirty <;> cases dirty
  · intro k used _
    rw [others k used]
    exact ⟨rfl, rfl, rfl, rfl⟩
  · intro k isPipe
    simp only [dirsOnly] at isPipe
    split at isPipe <;> cases isPipe
  · intro num
    unfold InodeTable.record
    split
    · rename_i k located
      have root := others k ((findInode_some located).1 ▸ ramdisk_ne)
      rw [root]
      exact show (2 : Byte) ≠ 0 by decide
    · exact show (2 : Byte) ≠ 0 by decide

/-- `/usr/bin`. -/
theorem usr_bin_resolves : ∃ result, dirNamei (fun _ t => .ok t) plainUser [47, 117, 115, 114, 47, 98, 105, 110] (dirsOnly 4) = .ok result ∧
    Resolves plainUser (dirsOnly 4) [47, 117, 115, 114, 47, 98, 105, 110] result := by
  refine (dir_namei_resolves (dirsOnly_ready (by decide)) ?_ _ (by decide)).1
  intro k
  simp only [dirsOnly]
  split <;> decide

end K210Linux.Fs
