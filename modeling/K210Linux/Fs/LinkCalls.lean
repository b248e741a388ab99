import K210Linux.Fs.LinkRun

namespace K210Linux.Fs

open Outcome

variable {fs fs' : FileSystem} {late n : Nat} {m m' : Mount} {stale : Nat → Block} {caller : Caller}
  {dir : BitVec 16} {name : List Byte}

/-- The new entry of an inode whose count already has it. -/
theorem Created.entered {m₁ : Mount} {inr : BitVec 16} {inode : MInode} {i : Nat} {p : Nat × Nat}
    (created : Created m m₁ inr inode) (count : inode.count ≠ 0) (nlinks : inode.nlinks = 1)
    (isIn : dir.toNat ∈ directories m.fs) (entered : Entered m₁.fs fs dir.toNat i p)
    (few : entriesOf m₁.fs dir.toNat ≤ 64)
    (free : i < entriesOf m₁.fs dir.toNat → entryInode (m₁.fs.disk p.1) p.2 = 0) : Linked (storeEntry fs p inr) := by
  have isIn₁ := (created.dirs _ isIn).1
  have links_eq := entered.links_add created.linked isIn₁ free created.positive
  have own : (m₁.fs.inode inr.toNat).nlinks.toNat = Fs.links m₁.fs inr.toNat + 1 := by
    rw [created.own, nlinks, created.links, created.unnamed]
    rfl
  apply entered.linked created.linked isIn₁ (.inl few)
  · intro n used
    rcases used with counted | named
    · left
      change (fs.inode n).count ≠ 0 at counted
      by_cases here : n = dir.toNat
      · rw [here] at counted ⊢
        rwa [← entered.count]
      · rwa [← entered.others n here]
    · rw [links_eq] at named
      by_cases here : n = inr.toNat
      · left
        rw [here, created.own]
        exact count
      · rw [if_neg here] at named
        exact .inr named
  · intro n small _ used notDir
    rw [links_eq]
    by_cases here : n = inr.toNat
    · rw [if_pos here, here]
      exact own
    · rw [if_neg here]
      exact created.linked.counted n small here used notDir
  · intro n _ some
    rw [links_eq] at some
    by_cases here : n = inr.toNat
    · intro zero
      rw [here] at zero
      rw [zero] at own
      exact absurd own (by simp)
    · rw [if_neg here] at some
      exact created.linked.named n here some

/-- `open_namei` for a new name. -/
theorem openNew_good {flag : BitVec 32} {mode : BitVec 16} {value : Int × Option (BitVec 16)}
    (good : Good noInode m) (isIn : dir.toNat ∈ directories m.fs)
    (few : ((m.fs.inode dir.toNat).zone 0).toNat ≠ 0 → name.take nameLen ≠ [] → entriesOf m.fs dir.toNat ≤ 64)
    (numbered : flag &&& oCreat ≠ 0 → Numbered m.fs)
    (run : openNew m stale caller dir name flag mode = .ok (value, m')) : Good noInode m' := by
  unfold openNew at run
  split at run
  · exact putAnd_good good (toNat_ne_noInode _) run
  · rename_i create
    split at run
    · exact putAnd_good good (toNat_ne_noInode _) run
    · rcases of_bind run with ⟨⟨new, m₁⟩, made, run₁⟩
      rcases create_cases good.linked (numbered create) made (fun _ => rfl) (fun _ _ => rfl) with
        ⟨none, same⟩ | ⟨inr, inode, some, count, nlinks, size, created⟩
      · subst none same
        exact putAnd_good good (toNat_ne_noInode _) run₁
      · subst some
        have isIn₁ := created.dirs _ isIn
        have owner := created.others _ isIn₁.2
        have few₁ : ((m₁.fs.inode dir.toNat).zone 0).toNat ≠ 0 → name.take nameLen ≠ [] →
            entriesOf m₁.fs dir.toNat ≤ 64 := by
          unfold entriesOf
          rw [owner]
          exact few
        rcases of_bind run₁ with ⟨⟨place, fs₂⟩, add, run₂⟩
        rcases addEntry_cases created.linked isIn₁.1 few₁ add with ⟨none, marked⟩ | ⟨p, i, some, entered, few₂, free⟩
        · subst none
          -- the inode is given up again
          have linked₂ := marked.linked created.linked
          have own : fs₂.inode inr.toNat = { inode with uid := caller.euid, mode := mode, dirt := true } := by
            rw [marked.inode]
            exact created.own
          have unnamed : links fs₂ inr.toNat = 0 := by
            rw [marked.links created.linked, created.links]
            exact created.unnamed
          have zero : (fs₂.inode inr.toNat).nlinks - 1 = 0 := by
            rw [own]
            change inode.nlinks - 1 = 0
            rw [nlinks]
            rfl
          have fixed : Linked (fs₂.setInode inr.toNat { fs₂.inode inr.toNat with
              nlinks := (fs₂.inode inr.toNat).nlinks - 1 }) := by
            apply linked₂.recount
            · rfl
            · rfl
            · rfl
            · rfl
            · intro _
              refine ⟨zero, ?_⟩
              rw [own]
              exact size
            · intro _
              rw [unnamed]
              exact congrArg BitVec.toNat zero
            · exact fun named => absurd unnamed named
          exact putBothAnd_good ⟨fixed, created.freed ▸ good.freed⟩ (toNat_ne_noInode _) (toNat_ne_noInode _) run₂
        · subst some
          have counted : inode.count ≠ 0 := by
            rw [count]
            decide
          have linked₂ := created.entered counted nlinks isIn entered few₂ free
          exact putAnd_good ⟨linked₂, created.freed ▸ good.freed⟩ (toNat_ne_noInode _) run₂

/-- `open_namei` for an old name. -/
theorem openOld_good {flag : BitVec 32} {place : Nat × Nat} {value : Int × Option (BitVec 16)}
    (good : Good noInode m) (isIn : dir.toNat ∈ directories m.fs) (named : links m.fs (m.entry place).toNat ≠ 0)
    (run : openOld m stale caller dir place flag = .ok (value, m')) : Good noInode m' := by
  rcases of_bind run with ⟨m₁, put, run₁⟩
  rcases iput_dir isIn put with ⟨touch, freed, _⟩
  have good₁ : Good noInode m₁ := ⟨touch.linked good.linked, freed ▸ good.freed⟩
  split at run₁
  · cases run₁
    exact good₁
  · have used : InUse m₁.fs (m.entry place).toNat := .inr (by rwa [touch.links])
    have touch₂ := iget_touch (m := m₁) (m.entry place) (.inl used)
    have good₂ : Good noInode (iget m₁ (m.entry place)) := good₁.touch touch₂
    have used₂ : InUse (iget m₁ (m.entry place)).fs (m.entry place).toNat := .inr (by rwa [touch₂.links, touch.links])
    dsimp only at run₁
    split at run₁
    · exact putAnd_good good₂ (toNat_ne_noInode _) run₁
    · have touch₃ : Touch (iget m₁ (m.entry place)).fs ((iget m₁ (m.entry place)).fs.setInode (m.entry place).toNat
          { (iget m₁ (m.entry place)).fs.inode (m.entry place).toNat with atime := caller.time }) :=
        Touch.setInode rfl rfl rfl rfl fun _ => .inl used₂
      have good₃ := good₂.touch touch₃
      split at run₁
      · rcases of_bind run₁ with ⟨fs₄, cut, last⟩
        cases last
        have used₃ : InUse ((iget m₁ (m.entry place)).fs.setInode (m.entry place).toNat
            { (iget m₁ (m.entry place)).fs.inode (m.entry place).toNat with atime := caller.time })
            (m.entry place).toNat := .inr (by rwa [touch₃.links, touch₂.links, touch.links])
        rcases truncate_cut good₃.linked used₃ cut with ⟨zones, cut⟩
        exact ⟨cut.linked good₃.linked, good₃.freed⟩
      · cases run₁
        exact good₃

theorem openNamei_good {flag : BitVec 32} {mode : BitVec 16} {value : Int × Option (BitVec 16)}
    (good : Good noInode m) (isIn : dir.toNat ∈ directories m.fs)
    (inBlock : name ≠ [] → InBlock m.fs dir.toNat (dir = caller.root) name)
    (numbered : flag &&& oCreat ≠ 0 → findEntry m.fs dir.toNat (dir = caller.root) name = .ok none → Numbered m.fs)
    (run : openNamei m stale caller dir name flag mode = .ok (value, m')) : Good noInode m' := by
  unfold openNamei at run
  dsimp only at run
  generalize flags : (if flag &&& oTrunc ≠ 0 ∧ flag &&& oAccMode = 0 then flag ||| oWrOnly else flag) = flag' at run
  have creates : flag' &&& oCreat ≠ 0 → flag &&& oCreat ≠ 0 := by
    intro set
    rw [← flags] at set
    split at set
    · intro clear
      apply set
      have other : oWrOnly &&& oCreat = 0 := by decide
      rw [BitVec.and_comm, BitVec.and_or_distrib_left, BitVec.and_comm, clear, BitVec.and_comm, other]
      rfl
    · exact set
  have touch := iget_touch (m := m) dir (.inr isIn)
  have good₁ : Good noInode (iget m dir) := good.touch touch
  have isIn₁ : dir.toNat ∈ directories (iget m dir).fs := by rwa [touch.directories]
  split at run
  · split at run
    · cases run
      exact good₁
    · exact putAnd_good good₁ (toNat_ne_noInode _) run
  · rename_i named
    rcases of_bind run with ⟨found, find, rest⟩
    rcases findEntry_cases (touch.inBlock (inBlock named)) find with ⟨j, some, small, below, present, live⟩ | ⟨none, few⟩
    · subst some
      have names := (found_used good₁.linked isIn₁ small below present live).2
      exact openOld_good good₁ isIn₁ names rest
    · subst none
      rw [findEntry_congr touch] at find
      exact openNew_good good₁ isIn₁ few (fun set => touch.numbered (numbered (creates set) find)) rest

theorem mknodNew_good {mode dev : BitVec 16} {value : Int} (good : Good noInode m)
    (isIn : dir.toNat ∈ directories m.fs)
    (few : ((m.fs.inode dir.toNat).zone 0).toNat ≠ 0 → name.take nameLen ≠ [] → entriesOf m.fs dir.toNat ≤ 64)
    (numbered : Numbered m.fs) (run : mknodNew m stale caller dir name mode dev = .ok (value, m')) :
    Good noInode m' := by
  rcases of_bind run with ⟨⟨new, m₁⟩, made, run₁⟩
  -- only a device has its number in the first zone
  have zone : isReg mode ∨ isDir mode → ¬ (isBlk mode ∨ isChr mode) := by
    unfold isReg isDir isBlk isChr
    intro either
    simp only [decide_eq_true_eq] at either ⊢
    rcases either with same | same
    · rw [same]
      decide
    · rw [same]
      decide
  rcases create_cases good.linked numbered made (fun _ => rfl) (fun inode either => if_neg (zone either)) with
    ⟨none, same⟩ | ⟨inr, inode, some, count, nlinks, size, created⟩
  · subst none same
    exact putAnd_good good (toNat_ne_noInode _) run₁
  · subst some
    have isIn₁ := created.dirs _ isIn
    have owner := created.others _ isIn₁.2
    have few₁ : ((m₁.fs.inode dir.toNat).zone 0).toNat ≠ 0 → name.take nameLen ≠ [] →
        entriesOf m₁.fs dir.toNat ≤ 64 := by
      unfold entriesOf
      rw [owner]
      exact few
    have ownSize : (m₁.fs.inode inr.toNat).size = 0 := by
      rw [created.own]
      exact size
    rcases of_bind run₁ with ⟨⟨place, fs₂⟩, add, run₂⟩
    rcases addEntry_cases created.linked isIn₁.1 few₁ add with ⟨none, marked⟩ | ⟨p, i, some, entered, few₂, free⟩
    · subst none
      rcases of_bind run₂ with ⟨m₃, put, last⟩
      have isIn₂ : dir.toNat ∈ directories fs₂ := by
        rw [marked.directories]
        exact isIn₁.1
      rcases iput_dir (m := ⟨fs₂, m₁.freed⟩) isIn₂ put with ⟨touch, freed, others⟩
      have linked₃ := touch.linked (marked.linked created.linked)
      have unnamed : links m₃.fs inr.toNat = 0 := by
        rw [touch.links]
        change links fs₂ inr.toNat = 0
        rw [marked.links created.linked, created.links]
        exact created.unnamed
      have fixed : Linked (m₃.fs.setInode inr.toNat { m₃.fs.inode inr.toNat with nlinks := 0 }) := by
        apply linked₃.recount
        · rfl
        · rfl
        · rfl
        · rfl
        · intro _
          refine ⟨rfl, ?_⟩
          rw [touch.size]
          change (fs₂.inode inr.toNat).size = 0
          rw [marked.inode]
          exact ownSize
        · intro _
          rw [unnamed]
          rfl
        · exact fun named => absurd unnamed named
      refine putAnd_good ⟨fixed, ?_⟩ (toNat_ne_noInode _) last
      change ∀ x ∈ m₃.freed, links x.1 x.2 = 0
      rw [freed]
      change ∀ x ∈ m₁.freed, links x.1 x.2 = 0
      rw [created.freed]
      exact good.freed
    · subst some
      have linked₂ := created.entered (by rw [show (_ : BitVec 16) = 1 from count]; decide) nlinks isIn entered few₂ free
      exact putBothAnd_good ⟨linked₂, created.freed ▸ good.freed⟩ (toNat_ne_noInode _) (toNat_ne_noInode _) run₂

theorem sysMknod_good {mode dev : BitVec 16} {value : Int} (good : Good noInode m)
    (isIn : dir.toNat ∈ directories m.fs) (inBlock : name ≠ [] → InBlock m.fs dir.toNat (dir = caller.root) name)
    (numbered : findEntry m.fs dir.toNat (dir = caller.root) name = .ok none → Numbered m.fs)
    (run : sysMknod m stale caller dir name mode dev = .ok (value, m')) : Good noInode m' := by
  unfold sysMknod at run
  have touch := iget_touch (m := m) dir (.inr isIn)
  have good₁ : Good noInode (iget m dir) := good.touch touch
  have isIn₁ : dir.toNat ∈ directories (iget m dir).fs := by rwa [touch.directories]
  split at run
  · cases run
    exact good
  · dsimp only at run
    split at run
    · exact putAnd_good good₁ (toNat_ne_noInode _) run
    · rename_i named
      split at run
      · exact putAnd_good good₁ (toNat_ne_noInode _) run
      · rcases of_bind run with ⟨found, find, rest⟩
        rcases findEntry_cases (touch.inBlock (inBlock named)) find with ⟨j, some, _⟩ | ⟨none, few⟩
        · subst some
          exact putAnd_good good₁ (toNat_ne_noInode _) rest
        · subst none
          rw [findEntry_congr touch] at find
          exact mknodNew_good good₁ isIn₁ few (touch.numbered (numbered find)) rest

/-- `sys_unlink` for a name that was found. -/
theorem unlinkEntry_good {j : Nat} {value : Int} (good : Good noInode m) (isIn : dir.toNat ∈ directories m.fs)
    (small : j < 64) (below : j < entriesOf m.fs dir.toNat) (present : ((m.fs.inode dir.toNat).zone 0).toNat ≠ 0)
    (live : entryInode (dirBlock m.fs dir.toNat) j ≠ 0)
    (run : unlinkEntry m stale caller dir (((m.fs.inode dir.toNat).zone 0).toNat, j) = .ok (value, m')) :
    Good noInode m' := by
  rcases found_used good.linked isIn small below present live with ⟨number, named⟩
  have inr_ne : m.entry (((m.fs.inode dir.toNat).zone 0).toNat, j) ≠ 0 := live
  unfold unlinkEntry at run
  dsimp only at run
  generalize m.entry (((m.fs.inode dir.toNat).zone 0).toNat, j) = inr at *
  have touch := iget_touch (m := m) inr (.inl (.inr named))
  have good₁ : Good noInode (iget m inr) := good.touch touch
  split at run
  · exact putBothAnd_good good₁ (toNat_ne_noInode _) (toNat_ne_noInode _) run
  · split at run
    · exact putBothAnd_good good₁ (toNat_ne_noInode _) (toNat_ne_noInode _) run
    · rename_i notDir
      have isIn₁ : dir.toNat ∈ directories (iget m inr).fs := by rwa [touch.directories]
      have below₁ : j < entriesOf (iget m inr).fs dir.toNat := by rwa [touch.entriesOf]
      have present₁ : (((iget m inr).fs.inode dir.toNat).zone 0).toNat ≠ 0 := by rwa [touch.zone]
      have entered := Entered.here good₁.linked isIn₁ present₁ small below₁
      rw [touch.zone] at entered
      have number₁ : entryNumber (iget m inr).fs dir.toNat j = inr.toNat := by
        rw [← number]
        unfold entryNumber entryBlock
        rw [touch.zoneOf, touch.disk]
      have links_eq := entered.links_clear good₁.linked isIn₁ below₁ number₁ inr_ne
      have named₁ : links (iget m inr).fs inr.toNat ≠ 0 := by rwa [touch.links]
      have old : ((iget m inr).fs.inode inr.toNat).nlinks.toNat = links (iget m inr).fs inr.toNat :=
        good₁.linked.counted _ inr.isLt (toNat_ne_noInode _) (.inr named₁) notDir
      have nlinks : ((iget m inr).fs.inode inr.toNat).nlinks ≠ 0 := good₁.linked.named _ (toNat_ne_noInode _) named₁
      have cleared : LinkedBut inr.toNat
          (storeEntry (iget m inr).fs (((m.fs.inode dir.toNat).zone 0).toNat, j) 0) := by
        apply entered.linked good₁.linked isIn₁ (.inr below₁)
        · intro n used
          rcases used with counted | named'
          · exact .inl counted
          · right
            intro none
            rw [links_eq, none] at named'
            exact named' (Nat.zero_sub _)
        · intro n small' other used notDir'
          rw [links_eq, if_neg other, Nat.sub_zero]
          exact good₁.linked.counted n small' (ne_of_lt small') used notDir'
        · intro n other some
          rw [links_eq, if_neg other, Nat.sub_zero] at some
          have small' : n < noInode := by
            by_contra large
            exact some (links_large _ (not_lt.mp large))
          exact good₁.linked.named n (ne_of_lt small') some
      rw [if_neg nlinks] at run
      have less : (((iget m inr).fs.inode inr.toNat).nlinks - 1).toNat =
          links (storeEntry (iget m inr).fs (((m.fs.inode dir.toNat).zone 0).toNat, j) 0) inr.toNat := by
        rw [links_eq, if_pos rfl, BitVec.toNat_sub, old, show (1 : BitVec 8).toNat = 1 from rfl]
        have bound := ((iget m inr).fs.inode inr.toNat).nlinks.isLt
        omega
      have fixed : Linked ((storeEntry (iget m inr).fs (((m.fs.inode dir.toNat).zone 0).toNat, j) 0).setInode inr.toNat
          { (iget m inr).fs.inode inr.toNat with
            nlinks := ((iget m inr).fs.inode inr.toNat).nlinks - 1, dirt := true, ctime := caller.time }) := by
        apply cleared.recount
        · rfl
        · rfl
        · rfl
        · rfl
        · exact fun isDir' => absurd isDir' notDir
        · exact fun _ => less
        · intro some zero
          apply some
          rw [← less]
          exact congrArg BitVec.toNat zero
      refine putBothAnd_good ⟨?_, ?_⟩ (toNat_ne_noInode _) (toNat_ne_noInode _) run
      · exact fixed
      · exact good₁.freed

theorem sysUnlink_good {value : Int} (good : Good noInode m) (isIn : dir.toNat ∈ directories m.fs)
    (inBlock : name ≠ [] → InBlock m.fs dir.toNat (dir = caller.root) name)
    (run : sysUnlink m stale caller dir name = .ok (value, m')) : Good noInode m' := by
  unfold sysUnlink at run
  have touch := iget_touch (m := m) dir (.inr isIn)
  have good₁ : Good noInode (iget m dir) := good.touch touch
  have isIn₁ : dir.toNat ∈ directories (iget m dir).fs := by rwa [touch.directories]
  dsimp only at run
  split at run
  · exact putAnd_good good₁ (toNat_ne_noInode _) run
  · rename_i named
    split at run
    · exact putAnd_good good₁ (toNat_ne_noInode _) run
    · rcases of_bind run with ⟨found, find, rest⟩
      rcases findEntry_cases (touch.inBlock (inBlock named)) find with
        ⟨j, some, small, below, present, live⟩ | ⟨none, _⟩
      · subst some
        exact unlinkEntry_good good₁ isIn₁ small below present live rest
      · subst none
        exact putAnd_good good₁ (toNat_ne_noInode _) rest

/-- `namei` only counts an inode in use. -/
theorem namei_cases (linked : Linked m.fs) (isIn : dir.toNat ∈ directories m.fs)
    (inBlock : name ≠ [] → InBlock m.fs dir.toNat (dir = caller.root) name) {found : Option (BitVec 16)}
    (run : namei m stale caller dir name = .ok (found, m')) :
    Touch m.fs m'.fs ∧ m'.freed = m.freed ∧ ∀ inr, found = some inr →
      inr.toNat ∈ directories m.fs ∨ links m.fs inr.toNat ≠ 0 ∧ (m'.fs.inode inr.toNat).num = inr ∧
        ∃ place, findEntry m.fs dir.toNat (dir = caller.root) name = .ok (some place) ∧ m.entry place = inr := by
  have touch := iget_touch (m := m) dir (.inr isIn)
  have isIn₁ : dir.toNat ∈ directories (iget m dir).fs := by rwa [touch.directories]
  unfold namei at run
  dsimp only at run
  split at run
  · cases run
    refine ⟨touch, rfl, ?_⟩
    intro inr same
    cases same
    exact .inl isIn
  · rename_i named
    rcases of_bind run with ⟨place, find, rest⟩
    rcases findEntry_cases (touch.inBlock (inBlock named)) find with
      ⟨j, some, small, below, present, live⟩ | ⟨none, _⟩
    · subst some
      have names := (found_used (touch.linked linked) isIn₁ small below present live).2
      rw [findEntry_congr touch] at find
      have same : (iget m dir).entry ((((iget m dir).fs.inode dir.toNat).zone 0).toNat, j) =
          m.entry ((((iget m dir).fs.inode dir.toNat).zone 0).toNat, j) := by
        unfold Mount.entry
        rw [touch.disk]
      dsimp only at rest
      rw [same] at rest names
      generalize (((iget m dir).fs.inode dir.toNat).zone 0).toNat = z at *
      rcases of_bind rest with ⟨m₁, put, last⟩
      cases last
      rcases iput_dir isIn₁ put with ⟨touch₁, freed, _⟩
      have names₁ : links m₁.fs (m.entry (z, j)).toNat ≠ 0 := by rwa [touch₁.links]
      have touch₂ := iget_touch (m := m₁) (m.entry (z, j)) (.inl (.inr names₁))
      have touch₃ : Touch (iget m₁ (m.entry (z, j))).fs ((iget m₁ (m.entry (z, j))).fs.setInode (m.entry (z, j)).toNat
          { (iget m₁ (m.entry (z, j))).fs.inode (m.entry (z, j)).toNat with atime := caller.time, dirt := true }) :=
        Touch.setInode rfl rfl rfl rfl fun _ => .inl (.inr (by rwa [touch₂.links]))
      refine ⟨((touch.trans touch₁).trans touch₂).trans touch₃, freed, ?_⟩
      intro inr found
      cases found
      right
      rw [touch.links] at names
      refine ⟨names, ?_, _, find, rfl⟩
      simp only [Mount.setInode, FileSystem.setInode, Function.update_self, iget]
    · subst none
      rcases of_bind rest with ⟨m₁, put, last⟩
      cases last
      rcases iput_dir isIn₁ put with ⟨touch₁, freed, _⟩
      exact ⟨touch.trans touch₁, freed, fun inr found => by cases found⟩

/-- `sys_link` adds an entry, and then the link. -/
theorem linkNew_good {old : BitVec 16} {value : Int} (good : Good noInode m) (isIn : dir.toNat ∈ directories m.fs)
    (few : ((m.fs.inode dir.toNat).zone 0).toNat ≠ 0 → name.take nameLen ≠ [] → entriesOf m.fs dir.toNat ≤ 64)
    (notDir : ¬ isDir (m.fs.inode old.toNat).mode) (named : links m.fs old.toNat ≠ 0)
    (num : (m.fs.inode old.toNat).num = old) (room : (m.fs.inode old.toNat).nlinks ≠ 255)
    (run : linkNew m stale caller old dir name = .ok (value, m')) : Good noInode m' := by
  have positive : old ≠ 0 := by
    intro zero
    rw [zero] at named
    exact named (links_zero _)
  have apart : old.toNat ≠ dir.toNat := fun same => notDir (same ▸ (mem_directories.mp isIn).2.1)
  rcases of_bind run with ⟨⟨place, fs₁⟩, add, rest⟩
  rcases addEntry_cases good.linked isIn few add with ⟨none, marked⟩ | ⟨p, i, some, entered, few₁, free⟩
  · subst none
    have kept : Good noInode ⟨fs₁, m.freed⟩ := ⟨marked.linked good.linked, good.freed⟩
    exact putBothAnd_good kept (toNat_ne_noInode _) (toNat_ne_noInode _) rest
  · subst some
    rcases of_bind rest with ⟨m₂, put, last⟩
    have number : (fs₁.inode old.toNat).num = old := by
      rw [entered.others _ apart]
      exact num
    dsimp only at put
    rw [number] at put
    have links_eq := entered.links_add good.linked isIn free positive
    have linked₁ : LinkedBut old.toNat (storeEntry fs₁ p old) := by
      apply entered.linked good.linked isIn (.inl few₁)
      · intro n used
        rcases used with counted | named'
        · left
          change (fs₁.inode n).count ≠ 0 at counted
          by_cases here : n = dir.toNat
          · rw [here] at counted ⊢
            rwa [← entered.count]
          · rwa [← entered.others n here]
        · right
          rw [links_eq] at named'
          by_cases here : n = old.toNat
          · rw [here]
            exact named
          · rwa [if_neg here] at named'
      · intro n small other used notDir'
        rw [links_eq, if_neg other]
        exact good.linked.counted n small (ne_of_lt small) used notDir'
      · intro n other some
        rw [links_eq, if_neg other] at some
        have small : n < noInode := by
          by_contra large
          exact some (links_large _ (not_lt.mp large))
        exact good.linked.named n (ne_of_lt small) some
    have isIn₁ : dir.toNat ∈ directories (storeEntry fs₁ p old) := by
      rw [entered.directories]
      exact isIn
    rcases iput_dir (m := ⟨storeEntry fs₁ p old, m.freed⟩) isIn₁ put with ⟨touch, freed, others⟩
    have linked₂ := touch.linked linked₁
    have mode : (m₂.fs.inode old.toNat).mode = (m.fs.inode old.toNat).mode := by
      rw [others _ apart]
      exact congrArg MInode.mode (entered.others _ apart)
    have nlinks : (m₂.fs.inode old.toNat).nlinks = (m.fs.inode old.toNat).nlinks := by
      rw [others _ apart]
      exact congrArg MInode.nlinks (entered.others _ apart)
    have counted : (m.fs.inode old.toNat).nlinks.toNat = links m.fs old.toNat :=
      good.linked.counted _ old.isLt (toNat_ne_noInode _) (.inr named) notDir
    have more : ((m₂.fs.inode old.toNat).nlinks + 1).toNat = links m₂.fs old.toNat := by
      have links₁ : links m₂.fs old.toNat = links m.fs old.toNat + 1 := by
        rw [touch.links]
        change links (storeEntry fs₁ p old) old.toNat = _
        rw [links_eq, if_pos rfl]
      have bound : (m.fs.inode old.toNat).nlinks.toNat ≠ 255 := fun same => room (BitVec.eq_of_toNat_eq same)
      have small := (m.fs.inode old.toNat).nlinks.isLt
      rw [links₁, nlinks, BitVec.toNat_add, show (1 : BitVec 8).toNat = 1 from rfl]
      omega
    have fixed : Linked (m₂.fs.setInode old.toNat { m₂.fs.inode old.toNat with
        nlinks := (m₂.fs.inode old.toNat).nlinks + 1, ctime := caller.time, dirt := true }) := by
      apply linked₂.recount
      · rfl
      · rfl
      · rfl
      · rfl
      · intro isDir'
        rw [mode] at isDir'
        exact absurd isDir' notDir
      · exact fun _ => more
      · intro some zero
        apply some
        rw [← more]
        exact congrArg BitVec.toNat zero
    refine putAnd_good ⟨fixed, ?_⟩ (toNat_ne_noInode _) last
    change ∀ x ∈ m₂.freed, links x.1 x.2 = 0
    rw [freed]
    exact good.freed

theorem sysLink_good {oldDir : BitVec 16} {oldName : List Byte} {value : Int} (good : Good noInode m)
    (isIn : oldDir.toNat ∈ directories m.fs) (isIn' : dir.toNat ∈ directories m.fs)
    (inBlock : oldName ≠ [] → InBlock m.fs oldDir.toNat (oldDir = caller.root) oldName)
    (inBlock' : name ≠ [] → InBlock m.fs dir.toNat (dir = caller.root) name)
    (room : ∀ place, findEntry m.fs oldDir.toNat (oldDir = caller.root) oldName = .ok (some place) →
      findEntry m.fs dir.toNat (dir = caller.root) name = .ok none →
      ¬ isDir (m.fs.inode (m.entry place).toNat).mode → (m.fs.inode (m.entry place).toNat).nlinks ≠ 255)
    (run : sysLink m stale caller oldDir oldName dir name = .ok (value, m')) : Good noInode m' := by
  rcases of_bind run with ⟨⟨found, m₁⟩, find, run₁⟩
  rcases namei_cases good.linked isIn inBlock find with ⟨touch, freed, names⟩
  have good₁ : Good noInode m₁ := ⟨touch.linked good.linked, freed ▸ good.freed⟩
  cases found with
  | none =>
    cases run₁
    exact good₁
  | some old =>
    dsimp only at run₁
    split at run₁
    · exact putAnd_good good₁ (toNat_ne_noInode _) run₁
    · rename_i notDir
      have isIn₁ : dir.toNat ∈ directories m₁.fs := by rwa [touch.directories]
      have touch₂ := iget_touch (m := m₁) dir (.inr isIn₁)
      have good₂ : Good noInode (iget m₁ dir) := good₁.touch touch₂
      have isIn₂ : dir.toNat ∈ directories (iget m₁ dir).fs := by rwa [touch₂.directories]
      have both := touch.trans touch₂
      split at run₁
      · exact putBothAnd_good good₂ (toNat_ne_noInode _) (toNat_ne_noInode _) run₁
      · rename_i some
        split at run₁
        · exact putBothAnd_good good₂ (toNat_ne_noInode _) (toNat_ne_noInode _) run₁
        · split at run₁
          · exact putBothAnd_good good₂ (toNat_ne_noInode _) (toNat_ne_noInode _) run₁
          · rcases of_bind run₁ with ⟨place, find₂, rest⟩
            rcases findEntry_cases (both.inBlock (inBlock' some)) find₂ with ⟨j, found₂, _⟩ | ⟨none, few⟩
            · subst found₂
              exact putBothAnd_good good₂ (toNat_ne_noInode _) (toNat_ne_noInode _) rest
            · subst none
              rw [findEntry_congr both] at find₂
              have notDir₀ : ¬ isDir (m.fs.inode old.toNat).mode := by rwa [← touch.mode]
              rcases names old rfl with dir_ | ⟨named, num, place, found₀, entry⟩
              · exact absurd (mem_directories.mp dir_).2.1 notDir₀
              · have apart : old.toNat ≠ dir.toNat := fun same => notDir₀ (same ▸ (mem_directories.mp isIn').2.1)
                have nlinks := room place found₀ find₂
                rw [entry] at nlinks
                refine linkNew_good good₂ isIn₂ few ?_ ?_ ?_ ?_ rest
                · rwa [both.mode]
                · rwa [both.links]
                · have same : (iget m₁ dir).fs.inode old.toNat = m₁.fs.inode old.toNat := Function.update_of_ne apart ..
                  rw [same]
                  exact num
                · rw [both.nlinks]
                  exact nlinks notDir₀

end K210Linux.Fs
