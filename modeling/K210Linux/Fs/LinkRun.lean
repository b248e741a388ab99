import K210Linux.Fs.LinkEntries

namespace K210Linux.Fs

open Outcome

variable {fs fs' : FileSystem} {late n : Nat} {m m' : Mount} {stale : Nat → Block} {caller : Caller}
  {dir : BitVec 16} {name : List Byte}

section Lookup

/-- The lookup ends before it reads behind the first block of the directory. -/
def InBlock (fs : FileSystem) (dir : Nat) (atRoot : Bool) (name : List Byte) : Prop :=
  entriesOf fs dir ≤ 64 ∨ ∃ j, j < 64 ∧ matchEntry (lookedUp atRoot name) (dirBlock fs dir) j = true

/-- The bits of number 0 and of every inode in use are set, so that `new_inode` hands out another number. -/
structure Numbered (fs : FileSystem) : Prop where
  zero : imapBit fs.sb 0 = true
  used : ∀ n, n ≤ fs.sb.ninodes.toNat → InUse fs n ∨ n ∈ directories fs → imapBit fs.sb n = true

theorem findLoop_found (fs : FileSystem) (dir : Nat) (name : List Byte) {entries i j z fuel : Nat} (present : z ≠ 0)
    (start : i ≤ j) (inBlock : j < 64) (inside : j < entries) (matched : matchEntry name (fs.disk z) j = true)
    (enough : j - i < fuel) : ∃ j', j' ≤ j ∧ matchEntry name (fs.disk z) j' = true ∧
      findLoop fs dir entries name i i z fuel = .ok (some (z, j')) := by
  induction fuel generalizing i with
  | zero => omega
  | succ fuel ih =>
    unfold findLoop
    rw [if_neg (by omega), if_neg present, if_neg (by omega)]
    by_cases here : matchEntry name (fs.disk z) i = true
    · exact ⟨i, start, here, if_pos here⟩
    · have other : i ≠ j := fun same => here (same ▸ matched)
      rw [if_neg here]
      exact ih (by omega) (by omega)

theorem live_of_matchEntry {block : Block} {j : Nat} (matched : matchEntry name block j = true) :
    entryInode block j ≠ 0 := by
  intro dead
  unfold matchEntry at matched
  rw [if_pos (.inl dead)] at matched
  cases matched

/-- What `find_entry` returns as long as it stays in the first block. -/
theorem findEntry_cases {d : Nat} {atRoot : Bool} (inBlock : InBlock fs d atRoot name) {r : Option (Nat × Nat)}
    (run : findEntry fs d atRoot name = .ok r) :
    (∃ j, r = some (((fs.inode d).zone 0).toNat, j) ∧ j < 64 ∧ j < entriesOf fs d ∧ ((fs.inode d).zone 0).toNat ≠ 0 ∧
      entryInode (dirBlock fs d) j ≠ 0) ∨
    (r = none ∧ (((fs.inode d).zone 0).toNat ≠ 0 → name.take nameLen ≠ [] → entriesOf fs d ≤ 64)) := by
  unfold findEntry at run
  dsimp only at run
  by_cases called : name.take nameLen = [] ∨ ((fs.inode d).zone 0).toNat = 0
  · rw [if_pos called] at run
    cases run
    exact .inr ⟨rfl, fun present named => absurd called (not_or.mpr ⟨named, present⟩)⟩
  · rw [if_neg called] at run
    rw [not_or] at called
    by_cases few : entriesOf fs d ≤ 64
    · rcases findLoop_cases fs d (lookedUp atRoot name) (Nat.le_succ_of_le few) called.2 (Nat.zero_le _)
        (Nat.lt_succ_self _) with ⟨j, _, below, matched, found⟩ | ⟨_, missed⟩
      · have result := found.symm.trans run
        cases result
        exact .inl ⟨j, rfl, by omega, below, called.2, live_of_matchEntry matched⟩
      · have result := missed.symm.trans run
        cases result
        exact .inr ⟨rfl, fun _ _ => few⟩
    · rcases inBlock.resolve_left few with ⟨j, small, matched⟩
      have inside : j < entriesOf fs d := by omega
      rcases findLoop_found fs d (lookedUp atRoot name) (i := 0) called.2 (Nat.zero_le _) small inside matched
        (Nat.lt_succ_of_lt inside) with ⟨j', le, matched', found⟩
      have result := found.symm.trans run
      cases result
      exact .inl ⟨j', rfl, by omega, by omega, called.2, live_of_matchEntry matched'⟩

theorem Touch.entriesOf (touch : Touch fs fs') (d : Nat) : Fs.entriesOf fs' d = Fs.entriesOf fs d := by
  unfold Fs.entriesOf
  rw [touch.size]

theorem Touch.dirBlock (touch : Touch fs fs') (d : Nat) : Fs.dirBlock fs' d = Fs.dirBlock fs d := by
  unfold Fs.dirBlock
  rw [touch.zone, touch.disk]

theorem Touch.inBlock {d : Nat} {atRoot : Bool} (touch : Touch fs fs') (inBlock : InBlock fs d atRoot name) :
    InBlock fs' d atRoot name := by
  unfold InBlock
  rw [touch.entriesOf, touch.dirBlock]
  exact inBlock

theorem Touch.numbered (touch : Touch fs fs') (numbered : Numbered fs) : Numbered fs' where
  zero := by
    rw [touch.sb]
    exact numbered.zero
  used n small either := by
    rw [touch.sb] at small ⊢
    apply numbered.used n small
    rcases either with used | dir
    · exact touch.inUse used
    · exact .inr (touch.directories ▸ dir)

theorem findEntry_congr (touch : Touch fs fs') (d : Nat) (atRoot : Bool) :
    findEntry fs' d atRoot name = findEntry fs d atRoot name := by
  have bmaps : ∀ k, bmap fs' d k = bmap fs d k := by
    intro k
    by_cases small : k < bigBlock
    · rw [bmap_eq fs' d small, bmap_eq fs d small, touch.zoneOf]
    · rw [bmap_big fs' d (not_lt.mp small), bmap_big fs d (not_lt.mp small)]
  have loops : ∀ entries key i j z fuel, findLoop fs' d entries key i j z fuel = findLoop fs d entries key i j z fuel := by
    intro entries key i j z fuel
    induction fuel generalizing i j z with
    | zero => rfl
    | succ fuel ih =>
      unfold findLoop
      simp only [bmaps, touch.disk, ih]
  unfold findEntry
  simp only [loops, touch.size, touch.zone]

end Lookup

section Entry

/-- An entry that was found names an inode in use. -/
theorem found_used {late d j : Nat} (linked : LinkedBut late m.fs) (isIn : d ∈ directories m.fs) (small : j < 64)
    (below : j < entriesOf m.fs d) (present : ((m.fs.inode d).zone 0).toNat ≠ 0)
    (live : entryInode (dirBlock m.fs d) j ≠ 0) :
    entryNumber m.fs d j = (m.entry (((m.fs.inode d).zone 0).toNat, j)).toNat ∧
      links m.fs (m.entry (((m.fs.inode d).zone 0).toNat, j)).toNat ≠ 0 := by
  have number : entryNumber m.fs d j = (m.entry (((m.fs.inode d).zone 0).toNat, j)).toNat := by
    have block := (Entered.here linked isIn present small below).blockRef
    have first : j / dirEntriesPerBlock = 0 ∧ j % dirEntriesPerBlock = j := by
      rw [dirEntriesPerBlock]
      omega
    rw [first.1] at block
    unfold entryNumber entryBlock
    rw [first.1, first.2, block]
    exact if_neg present
  refine ⟨number, ?_⟩
  have nonzero : (m.entry (((m.fs.inode d).zone 0).toNat, j)).toNat ≠ 0 :=
    fun zero => live (BitVec.eq_of_toNat_eq zero)
  have isIn' : (⟨d, j⟩ : Σ _ : Nat, Nat) ∈ liveEntries m.fs (m.entry (((m.fs.inode d).zone 0).toNat, j)).toNat :=
    mem_liveEntries.mpr ⟨isIn, below, nonzero, number⟩
  exact Finset.card_ne_zero_of_mem isIn'

theorem toNat_ne_noInode (nr : BitVec 16) : nr.toNat ≠ noInode := by
  have small := nr.isLt
  unfold noInode
  omega

end Entry

section New

variable {inode : MInode} {sb : SuperBlock}

/-- An inode that was not in use gets new contents; its count is still to be matched by an entry. -/
theorem LinkedBut.replace (linked : Linked fs) (notDir : n ∉ directories fs)
    (zmap : sb.zmap = fs.sb.zmap) (firstdatazone : sb.firstdatazone = fs.sb.firstdatazone) (size : inode.size = 0)
    (empty : isReg inode.mode ∨ isDir inode.mode → ∀ s, s < 9 → inode.zone s = 0) :
    LinkedBut n (FileSystem.setInode { fs with sb := sb } n inode) ∧
      (∀ n', links (FileSystem.setInode { fs with sb := sb } n inode) n' = links fs n') ∧
      ∀ d ∈ directories fs, d ∈ directories (FileSystem.setInode { fs with sb := sb } n inode) := by
  generalize after : FileSystem.setInode { fs with sb := sb } n inode = fs'
  have own : fs'.inode n = inode := by
    rw [← after]
    exact Function.update_self ..
  have others : ∀ n', n' ≠ n → fs'.inode n' = fs.inode n' := by
    intro n' other
    rw [← after]
    exact Function.update_of_ne other ..
  have disk : fs'.disk = fs.disk := by rw [← after]; rfl
  have apart : ∀ d ∈ directories fs, d ≠ n := fun d isIn same => notDir (same ▸ isIn)
  have dirs : ∀ d, d ≠ n → (d ∈ directories fs' ↔ d ∈ directories fs) := by
    intro d other
    rw [mem_directories, mem_directories, others d other]
  have kept : ∀ n', n' ≠ n → Kept fs fs' n' := by
    intro n' other
    exact ⟨by rw [others n' other], fun b _ => by rw [disk]⟩
  have links_eq : ∀ n', links fs' n' = links fs n' := by
    intro n'
    unfold links
    congr 1
    ext e
    rw [mem_liveEntries, mem_liveEntries]
    by_cases here : e.1 = n
    · have none : entriesOf fs' e.1 = 0 := by
        unfold entriesOf
        rw [here, own, size]
        rfl
      rw [none]
      constructor
      · intro all
        exact absurd all.2.1 (Nat.not_lt_zero _)
      · intro all
        exact absurd here (apart _ all.1)
    · rw [dirs _ here]
      apply and_congr_right
      intro isIn
      have count : entriesOf fs' e.1 = entriesOf fs e.1 := by
        unfold entriesOf
        rw [others _ here]
      rw [count]
      apply and_congr_right
      intro below
      have bound := (linked.sizes _ isIn).2
      rw [(kept _ here).entryNumber (by omega)]
  have inUse : ∀ n', n' ≠ n → (InUse fs' n' ↔ InUse fs n') := by
    intro n' other
    unfold InUse
    rw [others n' other, links_eq]
  have live : ∀ n', n' ≠ n → Live fs' n' → Live fs n' := by
    intro n' other either
    rcases either with dir | ⟨reg, used⟩
    · exact .inl ((dirs n' other).mp dir)
    · rw [others n' other] at reg
      exact .inr ⟨reg, (inUse n' other).mp used⟩
  have none : Live fs' n → ∀ r : Ref, r.Valid → r.ino = n → fs'.zoneOf r = 0 := by
    intro either r valid here
    apply zoneOf_empty _ r valid here
    rw [own]
    apply empty
    rcases either with dir | ⟨reg, _⟩
    · have mode := (mem_directories.mp dir).2.1
      rw [own] at mode
      exact .inr mode
    · rw [own] at reg
      exact .inl reg
  have sb_ : fs'.sb = sb := by rw [← after]; rfl
  have zones := linked.zones fs' (by
    intro r valid live' some
    by_cases here : r.ino = n
    · exact absurd (none (here ▸ live') r valid here) some
    · have same := (kept _ here).zoneOf r valid rfl
      rw [same] at some
      have used := linked.used r valid (live _ here live') some
      unfold zoneUsed at used ⊢
      rw [sb_, zmap, firstdatazone]
      exact ⟨live _ here live', same, used⟩)
  refine ⟨⟨?_, ?_, zones.1, zones.2, ?_, ?_⟩, links_eq, fun d isIn => (dirs d (apart d isIn)).mpr isIn⟩
  · rw [sb_, zmap]
    exact linked.first
  · intro d isIn
    by_cases here : d = n
    · have none : entriesOf fs' d = 0 := by
        unfold entriesOf
        rw [here, own, size]
        rfl
      rw [none, here, own, size]
      exact ⟨rfl, Nat.zero_le _⟩
    · unfold entriesOf
      rw [others d here]
      exact linked.sizes d ((dirs d here).mp isIn)
  · intro n' small other used notDir'
    rw [others n' other] at notDir' ⊢
    rw [links_eq]
    exact linked.counted n' small (ne_of_lt small) ((inUse n' other).mp used) notDir'
  · intro n' other some
    rw [links_eq] at some
    rw [others n' other]
    have small : n' < noInode := by
      by_contra large
      exact some (links_large fs (not_lt.mp large))
    exact linked.named n' (ne_of_lt small) some

/-- The count of the inode that is late gets its value. A directory can only lose its links, and only an
    empty one does here. -/
theorem LinkedBut.recount (linked : LinkedBut n fs) (mode : inode.mode = (fs.inode n).mode)
    (size : inode.size = (fs.inode n).size) (zone : inode.zone = (fs.inode n).zone)
    (count : inode.count = (fs.inode n).count)
    (dir : isDir (fs.inode n).mode → inode.nlinks = 0 ∧ (fs.inode n).size = 0)
    (counted : ¬ isDir (fs.inode n).mode → inode.nlinks.toNat = links fs n)
    (named : links fs n ≠ 0 → inode.nlinks ≠ 0) : Linked (fs.setInode n inode) := by
  generalize after : fs.setInode n inode = fs'
  have own : fs'.inode n = inode := by
    rw [← after]
    exact Function.update_self ..
  have others : ∀ n', n' ≠ n → fs'.inode n' = fs.inode n' := by
    intro n' other
    rw [← after]
    exact Function.update_of_ne other ..
  have disk : fs'.disk = fs.disk := by rw [← after]; rfl
  have sb_ : fs'.sb = fs.sb := by rw [← after]; rfl
  have field : ∀ {α : Type} (f : MInode → α), f inode = f (fs.inode n) → ∀ n', f (fs'.inode n') = f (fs.inode n') := by
    intro α f same n'
    by_cases here : n' = n
    · rw [here, own, same]
    · rw [others n' here]
  have mode' := field MInode.mode mode
  have size' := field MInode.size size
  have count' : ∀ d, entriesOf fs' d = entriesOf fs d := by
    intro d
    unfold entriesOf
    rw [size']
  have kept : ∀ n', Kept fs fs' n' := fun n' => ⟨field MInode.zone zone n', fun b _ => by rw [disk]⟩
  have fewer : ∀ d, d ∈ directories fs' → d ∈ directories fs := by
    intro d isIn
    by_cases here : d = n
    · have facts := mem_directories.mp isIn
      rw [mode', here, own] at facts
      exact absurd (dir facts.2.1).1 facts.2.2
    · rw [mem_directories, others d here] at isIn
      exact mem_directories.mpr isIn
  have links_eq : ∀ n', links fs' n' = links fs n' := by
    intro n'
    unfold links
    congr 1
    ext e
    rw [mem_liveEntries, mem_liveEntries, count']
    constructor
    · intro all
      have bound := (linked.sizes _ (fewer _ all.1)).2
      rw [(kept _).entryNumber (by omega)] at all
      exact ⟨fewer _ all.1, all.2⟩
    · intro all
      have bound := (linked.sizes _ all.1).2
      rw [(kept _).entryNumber (by omega)]
      refine ⟨?_, all.2⟩
      have facts := mem_directories.mp all.1
      by_cases here : e.1 = n
      · rw [here] at facts all
        have none := (dir facts.2.1).2
        have empty : entriesOf fs n = 0 := by
          unfold entriesOf
          rw [none]
          rfl
        rw [empty] at all
        exact absurd all.2.1 (Nat.not_lt_zero _)
      · rw [mem_directories, others _ here]
        exact facts
  have inUse : ∀ n', InUse fs' n' ↔ InUse fs n' := by
    intro n'
    unfold InUse
    rw [field MInode.count count, links_eq]
  have live : ∀ n', Live fs' n' → Live fs n' := by
    intro n' either
    rcases either with isIn | ⟨reg, used⟩
    · exact .inl (fewer n' isIn)
    · rw [mode'] at reg
      exact .inr ⟨reg, (inUse n').mp used⟩
  have zones := linked.zones fs' (by
    intro r valid live' some
    have same := (kept _).zoneOf r valid rfl
    rw [same] at some
    rw [sb_]
    exact ⟨live _ live', same, linked.used r valid (live _ live') some⟩)
  constructor
  · rw [sb_]
    exact linked.first
  · intro d isIn
    rw [count', size']
    exact linked.sizes d (fewer d isIn)
  · exact zones.1
  · exact zones.2
  · intro n' small _ used notDir
    rw [mode'] at notDir
    rw [links_eq]
    by_cases here : n' = n
    · subst here
      rw [own]
      exact counted notDir
    · rw [others n' here]
      exact linked.counted n' small here ((inUse n').mp used) notDir
  · intro n' _ some
    rw [links_eq] at some
    by_cases here : n' = n
    · subst here
      rw [own]
      exact named some
    · rw [others n' here]
      exact linked.named n' here some

/-- What `new_inode` hands out when the bitmap is right. -/
structure Created (m m' : Mount) (inr : BitVec 16) (inode : MInode) : Prop where
  linked : LinkedBut inr.toNat m'.fs
  freed : m'.freed = m.freed
  positive : inr ≠ 0
  own : m'.fs.inode inr.toNat = inode
  others : ∀ n, n ≠ inr.toNat → m'.fs.inode n = m.fs.inode n
  disk : m'.fs.disk = m.fs.disk
  dirs : ∀ d ∈ directories m.fs, d ∈ directories m'.fs ∧ d ≠ inr.toNat
  links : ∀ n, links m'.fs n = Fs.links m.fs n
  unnamed : Fs.links m.fs inr.toNat = 0

theorem create_cases (linked : Linked m.fs) (numbered : Numbered m.fs) {init : MInode → MInode}
    {new : Option (BitVec 16)} (run : m.create caller init = .ok (new, m'))
    (size : ∀ inode, (init inode).size = inode.size)
    (zone : ∀ inode, isReg (init inode).mode ∨ isDir (init inode).mode → (init inode).zone = inode.zone) :
    (new = none ∧ m' = m) ∨ ∃ inr inode, new = some inr ∧ inode.count = 1 ∧ inode.nlinks = 1 ∧ inode.size = 0 ∧
      Created m m' inr (init inode) := by
  rcases of_bind run with ⟨⟨found, sb⟩, call, rest⟩
  cases found with
  | none =>
    left
    cases rest
    refine ⟨rfl, ?_⟩
    have same : sb = m.fs.sb := (newInode_parts call).1 rfl
    rw [same]
  | some inode =>
    right
    cases rest
    have fresh : inode = freshInode m.fs.sb.dev inode.num ⟨caller.euid, caller.egid.setWidth 8, caller.time⟩ ∧
        sb.zmap = m.fs.sb.zmap ∧ sb.firstdatazone = m.fs.sb.firstdatazone := (newInode_parts call).2 inode rfl
    have bits : 1 ≤ inode.num.toNat ∧ inode.num.toNat ≤ m.fs.sb.ninodes.toNat ∧ imapBit m.fs.sb inode.num.toNat = false := by
      have number := newInode_number numbered.zero call
      exact ⟨number.1, number.2.1, number.2.2.1⟩
    have unused : ¬ (InUse m.fs inode.num.toNat ∨ inode.num.toNat ∈ directories m.fs) := by
      intro used
      have set := numbered.used _ bits.2.1 used
      rw [bits.2.2] at set
      cases set
    rw [not_or] at unused
    have empty : (init inode).size = 0 := by
      rw [size, fresh.1]
      rfl
    rcases linked.replace unused.2 fresh.2.1 fresh.2.2 empty (by
      intro either s _
      rw [zone inode either, fresh.1]
      rfl) with ⟨linked', links_eq, dirs⟩
    refine ⟨inode.num, inode, rfl, by rw [fresh.1]; rfl, by rw [fresh.1]; rfl, by rw [fresh.1]; rfl, linked', rfl, ?_,
      Function.update_self .., fun n other => Function.update_of_ne other .., rfl, ?_, links_eq, ?_⟩
    · intro zero
      have := bits.1
      rw [zero] at this
      exact absurd this (by decide)
    · intro d isIn
      exact ⟨dirs d isIn, fun same => unused.2 (same ▸ isIn)⟩
    · by_contra some
      exact unused.1 (.inr some)

end New

end K210Linux.Fs
