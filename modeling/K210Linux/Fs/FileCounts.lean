import K210Linux.Fs.Files

namespace K210Linux.Fs

open RefCount

/-- All pairs of a task slot and a descriptor. -/
@[irreducible] def descriptors : Finset (Nat × Nat) := Finset.range nrTasks ×ˢ Finset.range nrOpen

theorem mem_descriptors {r : Nat × Nat} : r ∈ descriptors ↔ r.1 < nrTasks ∧ r.2 < nrOpen := by
  unfold descriptors
  exact Finset.mem_product.trans (and_congr Finset.mem_range Finset.mem_range)

theorem card_descriptors : descriptors.card = 1280 := by
  unfold descriptors
  simp only [Finset.card_product, Finset.card_range, nrTasks, nrOpen]

namespace Files

def target (s : Files) (r : Nat × Nat) : Option Nat := (s.task r.1).bind fun t => t.filp r.2

/-- The counts of the files are the numbers of descriptors that name them. -/
def Counted (s : Files) : Prop := ∀ f, (s.file f).count.toNat = refs descriptors s.target f

structure Wf (s : Files) : Prop where
  counted : s.Counted
  onExec : ∀ nr t, s.task nr = some t → ∀ fd, t.closeOnExec.getLsbD fd → fd < nrOpen ∧ t.filp fd ≠ none
  exited : ∀ nr t, s.task nr = some t → t.exited → ∀ fd, fd < nrOpen → t.filp fd = none
  slots : ∀ nr, s.task nr ≠ none → nr < nrTasks

end Files

theorem refs_le_descriptors (target : Nat × Nat → Option Nat) (f : Nat) : refs descriptors target f ≤ 1280 := by
  rw [← card_descriptors]
  exact Finset.card_filter_le _ _

theorem Files.Counted.lt {s : Files} (counted : s.Counted) (f : Nat) : (s.file f).count.toNat ≤ 1280 := by
  rw [counted f]
  exact refs_le_descriptors _ _

/-- One descriptor changes, and the counts with it. -/
theorem Files.Counted.change {s s' : Files} (counted : s.Counted) {nr fd : Nat} (slot : nr < nrTasks)
    (bound : fd < nrOpen) (same : ∀ x ∈ descriptors, x ≠ (nr, fd) → s'.target x = s.target x)
    (moved : ∀ f, (s'.file f).count.toNat + indicator (s.target (nr, fd) = some f) =
      (s.file f).count.toNat + indicator (s'.target (nr, fd) = some f)) : s'.Counted := by
  intro f
  have member : (nr, fd) ∈ descriptors := mem_descriptors.mpr ⟨slot, bound⟩
  have count := moved f
  rw [counted f, ← refs_change member same] at count
  exact Nat.add_right_cancel count

theorem toNat_succ {count : BitVec 16} (small : count.toNat ≤ 1280) : (count + 1).toNat = count.toNat + 1 := by
  rw [BitVec.toNat_add, show (1 : BitVec 16).toNat = 1 from rfl]
  omega

theorem toNat_pred {count : BitVec 16} (positive : count ≠ 0) : (count - 1).toNat + 1 = count.toNat := by
  have nonzero : count.toNat ≠ 0 := fun zero => positive (BitVec.eq_of_toNat_eq zero)
  have bound := count.isLt
  rw [BitVec.toNat_sub, show (1 : BitVec 16).toNat = 1 from rfl]
  omega

@[simp] theorem filp_setFilp (t : FileTask) (fd : Nat) (f : Option Nat) : (t.setFilp fd f).filp fd = f :=
  Function.update_self ..

theorem filp_setFilp_of_ne (t : FileTask) {fd i : Nat} (f : Option Nat) (other : i ≠ fd) :
    (t.setFilp fd f).filp i = t.filp i :=
  Function.update_of_ne other ..

theorem closeOnExec_keepOnExec (t : FileTask) (fd i : Nat) :
    (t.keepOnExec fd).closeOnExec.getLsbD i = (t.closeOnExec.getLsbD i && decide (i ≠ fd)) := by
  simp only [FileTask.keepOnExec, BitVec.getLsbD_and, BitVec.getLsbD_not, BitVec.getLsbD_twoPow]
  by_cases wide : i < 64
  · by_cases same : fd = i
    · simp [same, wide]
    · simp [same, wide, Ne.symm same]
  · simp [BitVec.getLsbD_of_ge t.closeOnExec i (by omega)]

theorem of_keepOnExec {t : FileTask} {fd i : Nat} (set : (t.keepOnExec fd).closeOnExec.getLsbD i) :
    i ≠ fd ∧ t.closeOnExec.getLsbD i := by
  rw [closeOnExec_keepOnExec, Bool.and_eq_true, decide_eq_true_eq] at set
  exact ⟨set.2, set.1⟩

theorem count_setFile (s : Files) (f g : Nat) (file : File) :
    ((s.setFile f file).file g).count = if g = f then file.count else (s.file g).count := by
  by_cases same : g = f
  · rw [same, if_pos rfl]
    exact congrArg File.count (Function.update_self ..)
  · rw [if_neg same]
    exact congrArg File.count (Function.update_of_ne same ..)

theorem count_setCount (s : Files) (f g : Nat) (count : BitVec 16) :
    ((s.setCount f count).file g).count = if g = f then count else (s.file g).count :=
  count_setFile ..

section Change

variable {s s' : Files} {t t' : FileTask} {fd : Nat}

/-- The current task changes at most one descriptor, and the counts follow. -/
theorem Files.Wf.change (wf : s.Wf) (here : s.task s.current = some t) (bound : fd < nrOpen)
    (task : s'.task = Function.update s.task s.current (some t'))
    (others : ∀ i, i ≠ fd → t'.filp i = t.filp i)
    (moved : ∀ f, (s'.file f).count.toNat + indicator (t.filp fd = some f) =
      (s.file f).count.toNat + indicator (t'.filp fd = some f))
    (onExec : ∀ i, t'.closeOnExec.getLsbD i → i < nrOpen ∧ t'.filp i ≠ none)
    (running : t'.exited = false) : s'.Wf := by
  have slot : s.current < nrTasks := wf.slots _ (by rw [here]; exact Option.some_ne_none _)
  refine ⟨?_, ?_, ?_, ?_⟩
  · have before : s.target (s.current, fd) = t.filp fd := by rw [Files.target, here, Option.bind_some]
    have after : s'.target (s.current, fd) = t'.filp fd := by
      rw [Files.target, task, Function.update_self, Option.bind_some]
    apply wf.counted.change slot bound
    · intro x _ other
      rw [Files.target, Files.target, task]
      by_cases same : x.1 = s.current
      · rw [same, Function.update_self, here, Option.bind_some, Option.bind_some]
        apply others
        intro equal
        exact other (Prod.ext same equal)
      · rw [Function.update_of_ne same]
    · rw [before, after]
      exact moved
  · intro nr u present
    rw [task] at present
    by_cases same : nr = s.current
    · rw [same, Function.update_self] at present
      cases present
      exact onExec
    · rw [Function.update_of_ne same] at present
      exact wf.onExec nr u present
  · intro nr u present
    rw [task] at present
    by_cases same : nr = s.current
    · rw [same, Function.update_self] at present
      cases present
      intro gone
      rw [running] at gone
      cases gone
    · rw [Function.update_of_ne same] at present
      exact wf.exited nr u present
  · intro nr present
    rw [task] at present
    by_cases same : nr = s.current
    · rw [same]
      exact slot
    · rw [Function.update_of_ne same] at present
      exact wf.slots nr present

/-- A call that leaves descriptors and counts alone. -/
theorem Files.Wf.of_same (wf : s.Wf) (task : s'.task = s.task) (count : ∀ f, (s'.file f).count = (s.file f).count) :
    s'.Wf := by
  refine ⟨?_, ?_, ?_, ?_⟩
  · intro f
    have same : s'.target = s.target := by
      funext r
      rw [Files.target, Files.target, task]
    rw [count f, same]
    exact wf.counted f
  · rw [task]
    exact wf.onExec
  · rw [task]
    exact wf.exited
  · rw [task]
    exact wf.slots

theorem Files.Wf.setFile (wf : s.Wf) {f : Nat} {file : File} (count : file.count = (s.file f).count) :
    (s.setFile f file).Wf := by
  refine Files.Wf.of_same wf rfl ?_
  intro g
  rw [count_setFile]
  split
  · rename_i same
    rw [count, same]
  · rfl

theorem freeFd_spec {arg : Nat} (found : freeFd t arg = some fd) : fd < nrOpen ∧ t.filp fd = none := by
  have inRange := List.mem_of_find?_eq_some found
  have free := List.find?_some found
  simp only [decide_eq_true_eq] at free
  exact ⟨List.mem_range.mp inRange, free.2⟩

theorem freeFile_spec {f : Nat} (found : freeFile s = some f) : (s.file f).count = 0 := by
  simpa using List.find?_some found

end Change

section Calls

variable {s : Files} {t : FileTask} {fd f : Nat}


/-- A free descriptor of the current task gets a file. -/
theorem Files.Wf.give (wf : s.Wf) (here : s.task s.current = some t) (running : t.exited = false)
    (bound : fd < nrOpen) (free : t.filp fd = none) (f : Nat) :
    ((s.setTask ((t.keepOnExec fd).setFilp fd (some f))).setCount f ((s.file f).count + 1)).Wf := by
  apply wf.change here bound rfl
  · intro i other
    exact filp_setFilp_of_ne _ _ other
  · intro g
    rw [count_setCount, filp_setFilp, free]
    by_cases same : g = f
    · rw [if_pos same, same, toNat_succ (wf.counted.lt f)]
      simp [indicator]
    · rw [if_neg same]
      simp [indicator, Ne.symm same]
      rfl
  · intro i set
    obtain ⟨other, old⟩ := of_keepOnExec set
    rw [filp_setFilp_of_ne _ _ other]
    exact wf.onExec _ _ here i old
  · exact running

/-- The bit of a free descriptor is cleared. -/
theorem Files.Wf.keep (wf : s.Wf) (here : s.task s.current = some t) (running : t.exited = false) (fd : Nat) :
    (s.setTask (t.keepOnExec fd)).Wf := by
  apply wf.change here (by decide : 0 < nrOpen) rfl
  · intro i _
    rfl
  · intro f
    rfl
  · intro i set
    exact wf.onExec _ _ here i (of_keepOnExec set).2
  · exact running

/-- What `sys_close` leaves to the current task. -/
structure Closed (s s' : Files) (t : FileTask) (fd : Nat) : Prop where
  wf : s'.Wf
  current : s'.current = s.current
  others : ∀ nr, nr ≠ s.current → s'.task nr = s.task nr
  own : ∃ t', s'.task s.current = some t' ∧ t'.exited = t.exited ∧ t'.leader = t.leader ∧
    (∀ i, i ≠ fd → t'.filp i = t.filp i) ∧ (fd < nrOpen → t'.filp fd = none)

theorem sysClose_closed (wf : s.Wf) (here : s.task s.current = some t) (running : t.exited = false) (fd : Nat) :
    ∃ reply, sysClose s t fd = some reply ∧ Closed s reply.files t fd := by
  by_cases bound : nrOpen ≤ fd
  · refine ⟨_, if_pos bound, wf, rfl, fun _ _ => rfl, t, here, rfl, rfl, fun _ _ => rfl, ?_⟩
    intro inside
    omega
  · rw [sysClose, if_neg bound]
    cases slot : (t.keepOnExec fd).filp fd with
    | none =>
      simp only [slot]
      refine ⟨_, rfl, wf.keep here running fd, rfl, ?_, t.keepOnExec fd, ?_, rfl, rfl, fun _ _ => rfl, fun _ => slot⟩
      · intro nr other
        exact Function.update_of_ne other ..
      · exact Function.update_self ..
    | some f =>
      simp only [slot]
      have named : 0 < (s.file f).count.toNat := by
        rw [wf.counted f]
        have inside : (s.current, fd) ∈ descriptors :=
          mem_descriptors.mpr ⟨wf.slots _ (by rw [here]; exact Option.some_ne_none _), not_le.mp bound⟩
        apply refs_pos inside
        rw [Files.target, here]
        exact slot
      have nonzero : (s.file f).count ≠ 0 := by
        intro zero
        rw [zero] at named
        cases named
      have same : ((s.setTask ((t.keepOnExec fd).setFilp fd none)).file f).count = (s.file f).count := rfl
      rw [if_neg (same ▸ nonzero)]
      refine ⟨_, rfl, ?_, rfl, ?_, (t.keepOnExec fd).setFilp fd none, ?_, rfl, rfl, ?_, ?_⟩
      · apply wf.change here (not_le.mp bound) rfl
        · intro i other
          exact filp_setFilp_of_ne _ _ other
        · intro g
          rw [count_setCount, filp_setFilp]
          have slot' : t.filp fd = some f := slot
          rw [slot']
          by_cases equal : g = f
          · rw [if_pos equal, equal, same]
            simpa [indicator] using toNat_pred nonzero
          · rw [if_neg equal]
            simp [indicator, Ne.symm equal]
            rfl
        · intro i set
          obtain ⟨other, old⟩ := of_keepOnExec set
          rw [filp_setFilp_of_ne _ _ other]
          exact wf.onExec _ _ here i old
        · exact running
      · intro nr other
        exact Function.update_of_ne other ..
      · exact Function.update_self ..
      · intro i other
        exact filp_setFilp_of_ne _ _ other
      · intro _
        exact filp_setFilp ..

theorem dupfd_wf (wf : s.Wf) (here : s.task s.current = some t) (running : t.exited = false) (fd arg : Nat) :
    (dupfd s t fd arg).files.Wf := by
  unfold dupfd
  split
  · exact wf
  · split
    · exact wf
    · rename_i f slot
      split
      · exact wf
      · split
        · exact wf
        · rename_i new found
          obtain ⟨bound, free⟩ := freeFd_spec found
          exact wf.give here running bound free f

theorem sysDup2_wf (wf : s.Wf) (here : s.task s.current = some t) (running : t.exited = false)
    (oldfd newfd : Nat) : ∃ reply, sysDup2 s t oldfd newfd = some reply ∧ reply.files.Wf := by
  obtain ⟨closed, closes, spec⟩ := sysClose_closed wf here running newfd
  obtain ⟨t', own, running', -⟩ := spec.own
  rw [← spec.current] at own
  refine ⟨{ dupfd closed.files t' oldfd newfd with put := closed.put }, ?_, ?_⟩
  · simp only [sysDup2, closes, own, Option.bind_eq_bind, Option.bind_some]
  · exact dupfd_wf spec.wf own (running'.trans running) oldfd newfd

theorem sysFcntl_wf (wf : s.Wf) (here : s.task s.current = some t) (running : t.exited = false) (fd cmd : Nat)
    (arg : BitVec 64) : (sysFcntl s t fd cmd arg).files.Wf := by
  unfold sysFcntl
  split
  · exact wf
  · rename_i bound
    split
    · exact wf
    · rename_i f slot
      split
      · exact dupfd_wf wf here running _ _
      · exact wf
      · split
        · apply wf.change here (by decide : 0 < nrOpen) rfl
          · intro i _
            rfl
          · intro g
            rfl
          · intro i set
            rw [BitVec.getLsbD_or, Bool.or_eq_true] at set
            rcases set with old | new
            · exact wf.onExec _ _ here i old
            · obtain rfl : fd = i := by
                rw [BitVec.getLsbD_twoPow, Bool.and_eq_true] at new
                exact of_decide_eq_true new.2
              exact ⟨not_le.mp bound, by rw [slot]; exact Option.some_ne_none _⟩
          · exact running
        · exact wf.keep here running fd
      · exact wf
      · exact wf.setFile rfl
      · exact wf

/-- A free descriptor was set aside for an unused file, and now has it or is free again. -/
theorem Files.Wf.reserve {s' : Files} {t' : FileTask} (wf : s.Wf) (here : s.task s.current = some t)
    (bound : fd < nrOpen) (free : t.filp fd = none) (unused : (s.file f).count = 0) (kept : Bool)
    (task : s'.task = Function.update s.task s.current (some t'))
    (filp : ∀ i, t'.filp i = if i = fd then if kept then some f else none else t.filp i)
    (exec : t'.closeOnExec = (t.keepOnExec fd).closeOnExec) (running : t'.exited = false)
    (count : ∀ g, (s'.file g).count = if g = f then if kept then 1 else 0 else (s.file g).count) : s'.Wf := by
  apply wf.change here bound task
  · intro i other
    rw [filp i, if_neg other]
  · intro g
    rw [filp fd, if_pos rfl, free, count g]
    by_cases same : g = f
    · subst same
      rw [if_pos rfl, unused]
      cases kept <;> simp [indicator]
    · cases kept <;> simp [indicator, same, Ne.symm same]
  · intro i set
    rw [exec] at set
    obtain ⟨other, old⟩ := of_keepOnExec set
    rw [filp i, if_neg other]
    exact wf.onExec _ _ here i old
  · exact running

theorem openFile_wf {s₁ : Files} {t₁ : FileTask} (wf : s.Wf) (here : s.task s.current = some t)
    (running : t.exited = false) (bound : fd < nrOpen) (free : t.filp fd = none) (unused : (s.file f).count = 0)
    (own : t₁ = (t.keepOnExec fd).setFilp fd (some f))
    (task : s₁.task = Function.update s.task s.current (some t₁)) (current : s₁.current = s.current)
    (count : ∀ g, (s₁.file g).count = if g = f then 1 else (s.file g).count) (flag : BitVec 16)
    (found : Except Int Opened) : (openFile s₁ t₁ fd f flag found).files.Wf := by
  have filp : ∀ i, t₁.filp i = if i = fd then some f else t.filp i := by
    intro i
    rw [own]
    by_cases same : i = fd
    · rw [same, filp_setFilp, if_pos rfl]
    · rw [filp_setFilp_of_ne _ _ same, if_neg same]
      rfl
  have undone : ((s₁.setTask (t₁.setFilp fd none)).setCount f 0).Wf := by
    have again : ((s₁.setTask (t₁.setFilp fd none)).setCount f 0).task =
        Function.update s.task s.current (some (t₁.setFilp fd none)) := by
      rw [← Function.update_idem, ← task, ← current]
      rfl
    refine wf.reserve here bound free unused false again ?_ (by rw [own]; rfl) (by rw [own]; exact running) ?_
    · intro i
      by_cases same : i = fd
      · rw [same, filp_setFilp, if_pos rfl]
        rfl
      · rw [filp_setFilp_of_ne _ _ same, filp i, if_neg same, if_neg same]
    · intro g
      rw [count_setCount]
      by_cases same : g = f
      · rw [if_pos same, if_pos same]
        rfl
      · rw [if_neg same, if_neg same]
        exact (count g).trans (if_neg same)
  cases found with
  | error e => exact undone
  | ok inode =>
    simp only [openFile]
    split
    · exact undone
    · have one : ∀ (s₂ : Files) (file : File), file.count = 1 → (∀ g, (s₂.file g).count = (s₁.file g).count) →
          ∀ g, ((s₂.setFile f file).file g).count = if g = f then if true then 1 else 0 else (s.file g).count := by
        intro s₂ file isOne same g
        rw [count_setFile]
        split
        · exact isOne
        · rename_i other
          exact (same g).trans ((count g).trans (if_neg other))
      have exec : t₁.closeOnExec = (t.keepOnExec fd).closeOnExec := by rw [own]; rfl
      have running₁ : t₁.exited = false := by rw [own]; exact running
      by_cases leads : isChr inode.mode ∧ major inode.zone = 4 ∧ t₁.leader ∧ t₁.tty < 0
      · rw [if_pos leads]
        have again : (s₁.setTask { t₁ with tty := minor inode.zone }).task =
            Function.update s.task s.current (some { t₁ with tty := minor inode.zone }) := by
          rw [← Function.update_idem, ← task, ← current]
          rfl
        exact wf.reserve here bound free unused true again filp exec running₁ (one _ _ rfl fun _ => rfl)
      · rw [if_neg leads]
        exact wf.reserve here bound free unused true task filp exec running₁ (one _ _ rfl fun _ => rfl)

theorem sysOpen_wf (wf : s.Wf) (here : s.task s.current = some t) (running : t.exited = false) (flag : BitVec 16)
    (found : Except Int Opened) : (sysOpen s t flag found).files.Wf := by
  unfold sysOpen
  cases free : freeFd t 0 with
  | none => exact wf
  | some fd =>
    obtain ⟨bound, isFree⟩ := freeFd_spec free
    simp only
    cases unused : freeFile (s.setTask (t.keepOnExec fd)) with
    | none => exact wf.keep here running fd
    | some f =>
      have zero : (s.file f).count = 0 := freeFile_spec unused
      refine openFile_wf wf here running bound isFree zero ?_ ?_ ?_ ?_ flag found
      · rfl
      · exact Function.update_idem ..
      · rfl
      · intro g
        rw [count_setCount]
        have same : ((s.setTask (t.keepOnExec fd)).file f).count = 0 := zero
        rw [same]
        rfl

/-- An unused file goes to a free descriptor. -/
theorem Files.Wf.attach {s' : Files} (wf : s.Wf) (here : s.task s.current = some t) (running : t.exited = false)
    (bound : fd < nrOpen) (free : t.filp fd = none) (unused : (s.file f).count = 0)
    (task : s'.task = Function.update s.task s.current (some (t.setFilp fd (some f))))
    (count : ∀ g, (s'.file g).count = if g = f then 1 else (s.file g).count) : s'.Wf := by
  apply wf.change here bound task
  · intro i other
    exact filp_setFilp_of_ne _ _ other
  · intro g
    rw [count g, free, filp_setFilp]
    by_cases same : g = f
    · subst same
      simp [indicator, unused]
    · simp [indicator, same, Ne.symm same]
  · intro i set
    obtain ⟨inside, present⟩ := wf.onExec _ _ here i set
    have other : i ≠ fd := by
      intro same
      rw [same] at present
      exact present free
    rw [filp_setFilp_of_ne _ _ other]
    exact ⟨inside, present⟩
  · exact running

theorem two_of_filter {n a b : Nat} {rest : List Nat} {p : Nat → Bool}
    (first : (List.range n).filter p = a :: b :: rest) : a < n ∧ b < n ∧ a ≠ b ∧ p a ∧ p b := by
  have isIn : ∀ x, x ∈ a :: b :: rest → x < n ∧ p x := by
    intro x inList
    rw [← first, List.mem_filter, List.mem_range] at inList
    exact inList
  have nodup : (a :: b :: rest).Nodup := first ▸ List.nodup_range.filter p
  have left := isIn a (by simp)
  have right := isIn b (by simp)
  refine ⟨left.1, right.1, ?_, left.2, right.2⟩
  intro same
  simp [same] at nodup

theorem sysPipe_wf (wf : s.Wf) (here : s.task s.current = some t) (running : t.exited = false)
    (inode : Option Nat) : (sysPipe s t inode).1.files.Wf := by
  unfold sysPipe
  split
  · rename_i f₀ f₁ _ fd₀ fd₁ _ i files fds
    obtain ⟨-, -, apart, unused₀, unused₁⟩ := two_of_filter files
    obtain ⟨bound₀, bound₁, apart', free₀, free₁⟩ := two_of_filter fds
    simp only [decide_eq_true_eq] at unused₀ unused₁ free₀ free₁
    let s₁ := (s.setTask (t.setFilp fd₀ (some f₀))).setFile f₀
      { s.file f₀ with mode := 1, count := 1, inode := some i, pos := 0 }
    have wf₁ : s₁.Wf := wf.attach here running bound₀ free₀ unused₀ rfl fun g => count_setFile ..
    have here₁ : s₁.task s₁.current = some (t.setFilp fd₀ (some f₀)) := Function.update_self ..
    refine wf₁.attach (f := f₁) here₁ running bound₁ ?_ ?_ ?_ ?_
    · rw [filp_setFilp_of_ne _ _ apart'.symm]
      exact free₁
    · exact (count_setFile ..).trans ((if_neg apart.symm).trans unused₁)
    · exact (Function.update_idem ..).symm
    · intro g
      exact count_setFile ..
  · exact wf

section Fork

variable {nr : Nat}

theorem countChild_task (s : Files) (filp : Nat → Option Nat) (n : Nat) :
    (countChild s filp n).task = s.task ∧ (countChild s filp n).current = s.current := by
  induction n with
  | zero => exact ⟨rfl, rfl⟩
  | succ n ih =>
    rw [countChild]
    split
    · exact ih
    · exact ih

/-- A task with only the first `n` of its descriptors. -/
def FileTask.firstFds (t : FileTask) (n : Nat) : FileTask :=
  { t with filp := fun fd => if fd < n then t.filp fd else none }

/-- The child has been counted for its first `n` descriptors. -/
theorem countChild_counted (child : FileTask) (s' : Files) (wf : s.Wf) (slot : nr < nrTasks)
    (empty : s.task nr = none) (file : s'.file = s.file) {n : Nat} (bound : n ≤ nrOpen) :
    Files.Counted { countChild s' child.filp n with
      task := Function.update s.task nr (some (child.firstFds n)) } := by
  induction n with
  | zero =>
    intro f
    simp only [countChild, file]
    rw [wf.counted f]
    apply Eq.symm
    apply refs_congr
    intro x _
    rw [Files.target, Files.target]
    by_cases same : x.1 = nr
    · simp [same, empty, FileTask.firstFds]
    · simp [same]
  | succ n ih =>
    apply (ih (by omega)).change slot (bound : n < nrOpen)
    · intro x _ other
      rw [Files.target, Files.target]
      by_cases same : x.1 = nr
      · have different : x.2 ≠ n := fun equal => other (Prod.ext same equal)
        have iff : x.2 ≤ n ↔ x.2 < n := by omega
        simp [same, FileTask.firstFds, iff]
      · simp [same]
    · intro f
      have small : ((countChild s' child.filp n).file f).count.toNat ≤ 1280 := (ih (by omega)).lt f
      have before : (Files.target { countChild s' child.filp n with
          task := Function.update s.task nr (some (child.firstFds n)) } (nr, n)) = none := by
        simp [Files.target, FileTask.firstFds]
      have after : (Files.target { countChild s' child.filp (n + 1) with
          task := Function.update s.task nr (some (child.firstFds (n + 1))) } (nr, n)) = child.filp n := by
        simp [Files.target, FileTask.firstFds]
      rw [before, after]
      simp only [countChild]
      cases child.filp n with
      | none => rfl
      | some g =>
        simp only [count_setCount]
        by_cases same : f = g
        · subst same
          rw [if_pos rfl, toNat_succ small]
          simp [indicator]
        · simp [indicator, same, Ne.symm same]

theorem copyProcess_wf (wf : s.Wf) (here : s.task s.current = some t) (running : t.exited = false)
    (slot : nr < nrTasks) (empty : s.task nr = none) : (copyProcess s t nr).Wf := by
  let child : FileTask := { t with leader := false }
  have task : (copyProcess s t nr).task = Function.update s.task nr (some child) := (countChild_task ..).1
  have cases : ∀ i u, (copyProcess s t nr).task i = some u → u = child ∨ s.task i = some u := by
    intro i u present
    rw [task] at present
    by_cases same : i = nr
    · rw [same, Function.update_self] at present
      exact .inl (Option.some.inj present).symm
    · rw [Function.update_of_ne same] at present
      exact .inr present
  refine ⟨?_, ?_, ?_, ?_⟩
  · intro f
    have counted := countChild_counted child { s with task := Function.update s.task nr (some child) } wf slot empty
      rfl (le_refl nrOpen)
    refine (counted f).trans ?_
    apply refs_congr
    intro x inside
    rw [mem_descriptors] at inside
    rw [Files.target, Files.target, task]
    by_cases same : x.1 = nr
    · simp [same, FileTask.firstFds, inside.2]
    · simp [same]
  · intro i u present
    rcases cases i u present with rfl | old
    · intro fd set
      exact wf.onExec _ _ here fd set
    · exact wf.onExec i u old
  · intro i u present
    rcases cases i u present with rfl | old
    · intro gone
      rw [show child.exited = t.exited from rfl, running] at gone
      cases gone
    · exact wf.exited i u old
  · intro i present
    rw [task] at present
    by_cases same : i = nr
    · rw [same]
      exact slot
    · rw [Function.update_of_ne same] at present
      exact wf.slots i present

end Fork

section Loops

/-- The current task after a loop that closes the first `n` descriptors that `closes` picks. -/
structure ClosedSome (closes : FileTask → Nat → Bool) (s s' : Files) (t' : FileTask) (n : Nat) : Prop where
  wf : s'.Wf
  current : s'.current = s.current
  own : s'.task s.current = some t'
  running : t'.exited = false
  done : ∀ i, i < n → i < nrOpen → t'.filp i = none ∨ ∃ u : FileTask, closes u i = false ∧ u.filp i = t'.filp i

theorem closeEach_closed (closes : FileTask → Nat → Bool) (wf : s.Wf) (here : s.task s.current = some t)
    (running : t.exited = false) (n : Nat) :
    ∃ s' t', closeEach closes s n = some s' ∧ ClosedSome closes s s' t' n := by
  induction n with
  | zero => exact ⟨s, t, rfl, wf, rfl, here, running, by omega⟩
  | succ n ih =>
    obtain ⟨s₁, t₁, loop, closed⟩ := ih
    have here₁ : s₁.task s₁.current = some t₁ := by rw [closed.current]; exact closed.own
    have step : closeEach closes s (n + 1) =
        if closes t₁ n then (sysClose s₁ t₁ n).map Reply.files else some s₁ := by
      simp only [closeEach, loop, here₁, Option.bind_eq_bind, Option.bind_some]
    rw [step]
    cases picked : closes t₁ n with
    | false =>
      refine ⟨s₁, t₁, rfl, closed.wf, closed.current, closed.own, closed.running, ?_⟩
      intro i le inside
      by_cases last : i = n
      · subst last
        exact .inr ⟨t₁, picked, rfl⟩
      · exact closed.done i (by omega) inside
    | true =>
      obtain ⟨reply, closes₁, spec⟩ := sysClose_closed closed.wf here₁ closed.running n
      obtain ⟨t₂, own, running₂, -, others, gone⟩ := spec.own
      rw [if_pos rfl, closes₁, Option.map_some]
      refine ⟨_, t₂, rfl, spec.wf, spec.current.trans closed.current, ?_, running₂.trans closed.running, ?_⟩
      · rw [← closed.current]
        exact own
      · intro i le inside
        by_cases last : i = n
        · subst last
          exact .inl (gone inside)
        · rw [others i last]
          exact closed.done i (by omega) inside

/-- A slot of the task table gets a task with the same descriptors, or none. -/
theorem Files.Wf.retask {s' : Files} (wf : s.Wf) {nr : Nat} {u : Option FileTask} (slot : nr < nrTasks)
    (task : s'.task = Function.update s.task nr u) (count : ∀ f, (s'.file f).count = (s.file f).count)
    (same : ∀ fd, fd < nrOpen → (u.bind fun t => t.filp fd) = (s.task nr).bind fun t => t.filp fd)
    (onExec : ∀ t, u = some t → ∀ fd, t.closeOnExec.getLsbD fd → fd < nrOpen ∧ t.filp fd ≠ none)
    (exited : ∀ t, u = some t → t.exited → ∀ fd, fd < nrOpen → t.filp fd = none) : s'.Wf := by
  refine ⟨?_, ?_, ?_, ?_⟩
  · intro f
    rw [count f, wf.counted f]
    apply Eq.symm
    apply refs_congr
    intro x inside
    rw [Files.target, Files.target, task]
    by_cases here : x.1 = nr
    · rw [here, Function.update_self]
      exact same x.2 (mem_descriptors.mp inside).2
    · rw [Function.update_of_ne here]
  · intro i t present
    rw [task] at present
    by_cases here : i = nr
    · rw [here, Function.update_self] at present
      exact onExec t present
    · rw [Function.update_of_ne here] at present
      exact wf.onExec i t present
  · intro i t present
    rw [task] at present
    by_cases here : i = nr
    · rw [here, Function.update_self] at present
      exact exited t present
    · rw [Function.update_of_ne here] at present
      exact wf.exited i t present
  · intro i present
    rw [task] at present
    by_cases here : i = nr
    · rw [here]
      exact slot
    · rw [Function.update_of_ne here] at present
      exact wf.slots i present

theorem closeOnExec_wf (wf : s.Wf) (here : s.task s.current = some t) (running : t.exited = false) :
    ∃ s', closeOnExec s = some s' ∧ s'.Wf := by
  obtain ⟨s₁, t₁, loop, closed⟩ := closeEach_closed (fun t i => t.closeOnExec.getLsbD i) wf here running nrOpen
  have here₁ : s₁.task s₁.current = some t₁ := by rw [closed.current]; exact closed.own
  refine ⟨s₁.setTask { t₁ with closeOnExec := 0 }, ?_, ?_⟩
  · simp only [closeOnExec, loop, here₁, Option.bind_eq_bind, Option.bind_some]
  · apply closed.wf.change here₁ (by decide : 0 < nrOpen) rfl
    · intro i _
      rfl
    · intro f
      rfl
    · intro i set
      simp at set
    · exact closed.running

theorem doExit_wf (wf : s.Wf) (here : s.task s.current = some t) (running : t.exited = false) :
    ∃ s', doExit s = some s' ∧ s'.Wf := by
  obtain ⟨s₁, t₁, loop, closed⟩ := closeEach_closed (fun t i => (t.filp i).isSome) wf here running nrOpen
  have here₁ : s₁.task s₁.current = some t₁ := by rw [closed.current]; exact closed.own
  have gone : ∀ i, i < nrOpen → t₁.filp i = none := by
    intro i inside
    rcases closed.done i inside inside with none | ⟨u, notOpen, same⟩
    · exact none
    · rw [← same]
      simpa using notOpen
  refine ⟨s₁.setTask { t₁ with exited := true }, ?_, ?_⟩
  · simp only [doExit, loop, here₁, Option.bind_eq_bind, Option.bind_some]
  · apply closed.wf.retask (closed.wf.slots s₁.current (by rw [here₁]; exact Option.some_ne_none _)) rfl
    · intro f
      rfl
    · intro fd _
      rw [here₁]
      rfl
    · intro u same fd set
      cases same
      exact closed.wf.onExec _ _ here₁ fd set
    · intro u same _
      cases same
      exact gone

theorem Files.Wf.release {nr : Nat} (wf : s.Wf) (present : s.task nr = some t) (exited : t.exited) :
    Files.Wf { s with task := Function.update s.task nr none } := by
  apply wf.retask (wf.slots nr (by rw [present]; exact Option.some_ne_none _)) rfl
  · intro f
    rfl
  · intro fd bound
    rw [present]
    exact (wf.exited nr t present exited fd bound).symm
  · intro u same
    cases same
  · intro u same
    cases same

end Loops

end Calls

/-- One of the calls, by the current task, a switch to another task, or the release of a dead one. -/
inductive FileStep (s : Files) : Files → Prop
  | opened {t : FileTask} (here : s.task s.current = some t) (running : t.exited = false) (flag : BitVec 16)
      (found : Except Int Opened) : FileStep s (sysOpen s t flag found).files
  | close {t : FileTask} {reply : Reply} (here : s.task s.current = some t) (running : t.exited = false) (fd : Nat)
      (call : sysClose s t fd = some reply) : FileStep s reply.files
  | dup {t : FileTask} (here : s.task s.current = some t) (running : t.exited = false) (fd : Nat) :
      FileStep s (sysDup s t fd).files
  | dup2 {t : FileTask} {reply : Reply} (here : s.task s.current = some t) (running : t.exited = false)
      (oldfd newfd : Nat) (call : sysDup2 s t oldfd newfd = some reply) : FileStep s reply.files
  | fcntl {t : FileTask} (here : s.task s.current = some t) (running : t.exited = false) (fd cmd : Nat)
      (arg : BitVec 64) : FileStep s (sysFcntl s t fd cmd arg).files
  | pipe {t : FileTask} (here : s.task s.current = some t) (running : t.exited = false) (inode : Option Nat) :
      FileStep s (sysPipe s t inode).1.files
  | fork {t : FileTask} {nr : Nat} (here : s.task s.current = some t) (running : t.exited = false)
      (slot : nr < nrTasks) (empty : s.task nr = none) : FileStep s (copyProcess s t nr)
  | exec {t : FileTask} {s' : Files} (here : s.task s.current = some t) (running : t.exited = false)
      (call : closeOnExec s = some s') : FileStep s s'
  | exit {t : FileTask} {s' : Files} (here : s.task s.current = some t) (running : t.exited = false)
      (call : doExit s = some s') : FileStep s s'
  | switch {nr : Nat} (present : s.task nr ≠ none) : FileStep s { s with current := nr }
  | release {nr : Nat} {t : FileTask} (present : s.task nr = some t) (exited : t.exited) :
      FileStep s { s with task := Function.update s.task nr none }

/-- No file is open. -/
structure Files.Boot (s : Files) : Prop where
  count : ∀ f, (s.file f).count = 0
  filp : ∀ nr t, s.task nr = some t → (∀ fd, t.filp fd = none) ∧ t.closeOnExec = 0
  slots : ∀ nr, s.task nr ≠ none → nr < nrTasks

theorem Files.Boot.wf {s : Files} (boot : s.Boot) : s.Wf := by
  refine ⟨?_, ?_, ?_, boot.slots⟩
  · intro f
    rw [boot.count f]
    apply Eq.symm
    rw [show (0 : BitVec 16).toNat = 0 from rfl, refs_eq_zero]
    intro r _ points
    obtain ⟨t, present, slot⟩ := Option.bind_eq_some_iff.mp points
    rw [(boot.filp _ t present).1] at slot
    cases slot
  · intro nr t present fd set
    rw [(boot.filp nr t present).2] at set
    simp at set
  · intro nr t present _ fd _
    exact (boot.filp nr t present).1 fd

theorem FileStep.wf {s s' : Files} (step : FileStep s s') (wf : s.Wf) : s'.Wf := by
  cases step with
  | opened here running flag found => exact sysOpen_wf wf here running flag found
  | close here running fd call =>
    obtain ⟨reply, closes, closed⟩ := sysClose_closed wf here running fd
    obtain rfl := Option.some.inj (closes.symm.trans call)
    exact closed.wf
  | dup here running fd => exact dupfd_wf wf here running fd 0
  | dup2 here running oldfd newfd call =>
    obtain ⟨reply, dups, wf'⟩ := sysDup2_wf wf here running oldfd newfd
    obtain rfl := Option.some.inj (dups.symm.trans call)
    exact wf'
  | fcntl here running fd cmd arg => exact sysFcntl_wf wf here running fd cmd arg
  | pipe here running inode => exact sysPipe_wf wf here running inode
  | fork here running slot empty => exact copyProcess_wf wf here running slot empty
  | exec here running call =>
    obtain ⟨s₁, execs, wf'⟩ := closeOnExec_wf wf here running
    obtain rfl := Option.some.inj (execs.symm.trans call)
    exact wf'
  | exit here running call =>
    obtain ⟨s₁, exits, wf'⟩ := doExit_wf wf here running
    obtain rfl := Option.some.inj (exits.symm.trans call)
    exact wf'
  | switch present => exact ⟨wf.counted, wf.onExec, wf.exited, wf.slots⟩
  | release present exited => exact wf.release present exited

/-- In every state between calls the count of a file is the number of descriptors that name it, and a
    descriptor with its close-on-exec bit set is open. -/
theorem file_counts_exact {s s' : Files} (boot : s.Boot) (run : Relation.ReflTransGen FileStep s s') :
    (∀ f, (s'.file f).count.toNat = (descriptors.filter fun r => s'.target r = some f).card) ∧
    ∀ nr t, s'.task nr = some t → ∀ fd, t.closeOnExec.getLsbD fd → fd < nrOpen ∧ t.filp fd ≠ none := by
  have wf : s'.Wf := by
    induction run with
    | refl => exact boot.wf
    | tail _ step ih => exact step.wf ih
  exact ⟨wf.counted, wf.onExec⟩

/-- The idle task, with nothing open. -/
def bootTask : FileTask := ⟨fun _ => none, 0, -1, false, 0, false⟩

def bootFiles : Files where
  file := fun _ => ⟨0, 0, 0, none, 0⟩
  task := fun nr => if nr = 0 then some bootTask else none
  current := 0
  ttyPgrp := fun _ => 0

theorem bootFiles_boot : bootFiles.Boot where
  count f := rfl
  filp nr t present := by
    simp only [bootFiles] at present
    split at present
    · cases present
      exact ⟨fun _ => rfl, rfl⟩
    · cases present
  slots nr present := by
    by_contra outside
    simp only [bootFiles] at present
    split at present
    · rename_i zero
      exact outside (zero ▸ by decide)
    · exact present rfl

/-- A pipe, and a child that has both ends of it too. -/
theorem piped_and_forked : ∃ s, Relation.ReflTransGen FileStep bootFiles s ∧ (s.file 0).count = 2 ∧
    (∀ f, (s.file f).count.toNat = (descriptors.filter fun r => s.target r = some f).card) ∧
    ∀ nr t, s.task nr = some t → ∀ fd, t.closeOnExec.getLsbD fd → fd < nrOpen ∧ t.filp fd ≠ none := by
  have piped : FileStep bootFiles (sysPipe bootFiles bootTask (some 3)).1.files := .pipe rfl rfl (some 3)
  have forked : FileStep (sysPipe bootFiles bootTask (some 3)).1.files
      (copyProcess (sysPipe bootFiles bootTask (some 3)).1.files
        ((bootTask.setFilp 0 (some 0)).setFilp 1 (some 1)) 1) := .fork rfl rfl (by decide) rfl
  have run := Relation.ReflTransGen.tail (.single piped) forked
  exact ⟨_, run, by decide, file_counts_exact bootFiles_boot run⟩

end K210Linux.Fs
