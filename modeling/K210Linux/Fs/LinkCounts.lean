import K210Linux.Fs.DirectoryRun
import K210Linux.Fs.InodeNumbers
import K210Linux.Fs.Links

namespace K210Linux.Fs

open Outcome

variable {fs fs₁ fs' : FileSystem}

/-- The directories of the device; an inode without links is a free one. -/
@[irreducible] def directories (fs : FileSystem) : Finset Nat :=
  (Finset.range 65536).filter fun d => isDir (fs.inode d).mode = true ∧ (fs.inode d).nlinks ≠ 0

/-- The inode that entry `i` of a directory names, 0 for one in a hole. -/
def entryNumber (fs : FileSystem) (d i : Nat) : Nat :=
  if fs.zoneOf (blockRef d (i / dirEntriesPerBlock)) = 0 then 0
  else (entryInode (entryBlock fs d i) (i % dirEntriesPerBlock)).toNat

/-- The live entries that name an inode, by directory and index. -/
def liveEntries (fs : FileSystem) (n : Nat) : Finset (Σ _ : Nat, Nat) :=
  (directories fs).sigma fun d =>
    (Finset.range (entriesOf fs d)).filter fun i => n ≠ 0 ∧ entryNumber fs d i = n

def links (fs : FileSystem) (n : Nat) : Nat := (liveEntries fs n).card

def InUse (fs : FileSystem) (n : Nat) : Prop := (fs.inode n).count ≠ 0 ∨ links fs n ≠ 0

/-- The inodes whose zones the calls can reach. -/
def Live (fs : FileSystem) (n : Nat) : Prop := n ∈ directories fs ∨ isReg (fs.inode n).mode = true ∧ InUse fs n

/-- The first number that is too large for an inode. -/
def noInode : Nat := 65536

/-- Link counts match the entries, but for the inode `late`, whose count the call at hand has still to change. -/
structure LinkedBut (late : Nat) (fs : FileSystem) : Prop where
  first : mapBit fs.sb.zmap 0 = true
  sizes : ∀ d ∈ directories fs, (fs.inode d).size.toNat = 16 * entriesOf fs d ∧
    entriesOf fs d ≤ dirEntriesPerBlock * bigBlock
  once : ∀ r r' : Ref, r.Valid → r'.Valid → Live fs r.ino → Live fs r'.ino → fs.zoneOf r = fs.zoneOf r' →
    fs.zoneOf r ≠ 0 → r = r'
  used : ∀ r : Ref, r.Valid → Live fs r.ino → fs.zoneOf r ≠ 0 → zoneUsed fs.sb (fs.zoneOf r)
  counted : ∀ n, n < noInode → n ≠ late → InUse fs n → ¬ isDir (fs.inode n).mode →
    (fs.inode n).nlinks.toNat = links fs n
  named : ∀ n, n ≠ late → links fs n ≠ 0 → (fs.inode n).nlinks ≠ 0

abbrev Linked (fs : FileSystem) : Prop := LinkedBut noInode fs

theorem mem_directories {d : Nat} :
    d ∈ directories fs ↔ d < 65536 ∧ isDir (fs.inode d).mode = true ∧ (fs.inode d).nlinks ≠ 0 := by
  rw [directories, Finset.mem_filter, Finset.mem_range]

theorem mem_liveEntries {n : Nat} {e : Σ _ : Nat, Nat} : e ∈ liveEntries fs n ↔
    e.1 ∈ directories fs ∧ e.2 < entriesOf fs e.1 ∧ n ≠ 0 ∧ entryNumber fs e.1 e.2 = n := by
  rw [liveEntries, Finset.mem_sigma, Finset.mem_filter, Finset.mem_range]

theorem links_zero (fs : FileSystem) : links fs 0 = 0 := by
  unfold links
  rw [Finset.card_eq_zero, Finset.eq_empty_iff_forall_notMem]
  intro e isIn
  exact (mem_liveEntries.mp isIn).2.2.1 rfl

theorem links_large {n : Nat} (fs : FileSystem) (large : noInode ≤ n) : links fs n = 0 := by
  unfold links
  rw [Finset.card_eq_zero, Finset.eq_empty_iff_forall_notMem]
  intro e isIn
  have number := (mem_liveEntries.mp isIn).2.2.2
  unfold entryNumber at number
  unfold noInode at large
  split at number
  · omega
  · have small := (entryInode (entryBlock fs e.1 e.2) (e.2 % dirEntriesPerBlock)).isLt
    omega

theorem directories_congr (same : ∀ n, isDir (fs'.inode n).mode = isDir (fs.inode n).mode)
    (nlinks : ∀ n, isDir (fs.inode n).mode → (fs'.inode n).nlinks = (fs.inode n).nlinks) :
    directories fs' = directories fs := by
  ext d
  rw [mem_directories, mem_directories, same]
  apply and_congr_right'
  apply and_congr_right
  intro dir
  rw [nlinks d dir]

theorem links_congr (dirs : directories fs' = directories fs)
    (entries : ∀ d ∈ directories fs, entriesOf fs' d = entriesOf fs d ∧
      ∀ i, i < entriesOf fs d → entryNumber fs' d i = entryNumber fs d i) (n : Nat) : links fs' n = links fs n := by
  unfold links
  congr 1
  ext e
  rw [mem_liveEntries, mem_liveEntries, dirs]
  apply and_congr_right
  intro isIn
  rw [(entries _ isIn).1]
  apply and_congr_right
  intro below
  rw [(entries _ isIn).2 _ below]

section Kept

variable {n : Nat}

/-- The tree of an inode is the same. -/
structure Kept (fs fs' : FileSystem) (n : Nat) : Prop where
  zone : (fs'.inode n).zone = (fs.inode n).zone
  disk : ∀ b, ZoneIn fs n b → fs'.disk b = fs.disk b

theorem Kept.zoneOf (kept : Kept fs fs' n) (r : Ref) (valid : r.Valid) (own : r.ino = n) :
    fs'.zoneOf r = fs.zoneOf r := by
  rcases r with ⟨ino, slot, path⟩
  change ino = n at own
  subst own
  induction path with
  | nil =>
    change ((fs'.inode ino).zone slot).toNat = ((fs.inode ino).zone slot).toNat
    rw [kept.zone]
  | cons k path ih =>
    rw [zoneOf_cons, zoneOf_cons, ih valid.parent]
    by_cases none : fs.zoneOf ⟨ino, slot, path⟩ = 0
    · rw [if_pos none, if_pos none]
    · rw [if_neg none, if_neg none, kept.disk _ ⟨_, valid.parent, rfl, rfl, none⟩]

theorem blockRef_ino (ino block : Nat) : (blockRef ino block).ino = ino := by
  unfold blockRef
  split
  · rfl
  · split <;> rfl

theorem Kept.entryNumber (kept : Kept fs fs' n) {i : Nat} (bound : i < dirEntriesPerBlock * bigBlock) :
    entryNumber fs' n i = entryNumber fs n i := by
  have block : i / dirEntriesPerBlock < bigBlock := Nat.div_lt_of_lt_mul bound
  have valid := (blockRef_leaf n block).toValid
  have same := kept.zoneOf _ valid (blockRef_ino ..)
  unfold Fs.entryNumber entryBlock
  rw [same]
  by_cases none : fs.zoneOf (blockRef n (i / dirEntriesPerBlock)) = 0
  · rw [if_pos none, if_pos none]
  · rw [if_neg none, if_neg none, kept.disk _ ⟨_, valid, blockRef_ino .., rfl, none⟩]

end Kept

/-- Directories that keep their trees and sizes keep the links to everything. -/
theorem links_of_kept {late : Nat} (linked : LinkedBut late fs) (dirs : directories fs' = directories fs)
    (kept : ∀ d ∈ directories fs, Kept fs fs' d ∧ (fs'.inode d).size = (fs.inode d).size) (n : Nat) :
    links fs' n = links fs n := by
  apply links_congr dirs
  intro d isIn
  have size := (linked.sizes d isIn).2
  refine ⟨?_, ?_⟩
  · unfold entriesOf
    rw [(kept d isIn).2]
  · intro i below
    exact (kept d isIn).1.entryNumber (by omega)

/-- Zones stay apart and marked if no inode that is live gets new ones. -/
theorem LinkedBut.zones {late : Nat} (linked : LinkedBut late fs) (fs' : FileSystem)
    (kept : ∀ r : Ref, r.Valid → Live fs' r.ino → fs'.zoneOf r ≠ 0 →
      Live fs r.ino ∧ fs'.zoneOf r = fs.zoneOf r ∧ zoneUsed fs'.sb (fs.zoneOf r)) :
    (∀ r r' : Ref, r.Valid → r'.Valid → Live fs' r.ino → Live fs' r'.ino → fs'.zoneOf r = fs'.zoneOf r' →
      fs'.zoneOf r ≠ 0 → r = r') ∧
    (∀ r : Ref, r.Valid → Live fs' r.ino → fs'.zoneOf r ≠ 0 → zoneUsed fs'.sb (fs'.zoneOf r)) := by
  constructor
  · intro r r' valid valid' live live' same some
    have some' : fs'.zoneOf r' ≠ 0 := by rwa [← same]
    rcases kept r valid live some with ⟨old, zone, _⟩
    rcases kept r' valid' live' some' with ⟨old', zone', _⟩
    apply linked.once r r' valid valid' old old'
    · rw [← zone, ← zone', same]
    · rwa [← zone]
  · intro r valid live some
    rcases kept r valid live some with ⟨_, zone, used⟩
    rwa [zone]

section Touch

variable {late n : Nat} {m m' : Mount} {stale : Nat → Block} {time : BitVec 32}

/-- Nothing changed but the fields of inodes that say nothing about links and zones, and only inodes in use
    were counted up. -/
structure Touch (fs fs' : FileSystem) : Prop where
  sb : fs'.sb = fs.sb
  disk : fs'.disk = fs.disk
  mode : ∀ n, (fs'.inode n).mode = (fs.inode n).mode
  nlinks : ∀ n, (fs'.inode n).nlinks = (fs.inode n).nlinks
  size : ∀ n, (fs'.inode n).size = (fs.inode n).size
  zone : ∀ n, (fs'.inode n).zone = (fs.inode n).zone
  uses : ∀ n, (fs'.inode n).count ≠ 0 → InUse fs n ∨ n ∈ directories fs

theorem Touch.directories (touch : Touch fs fs') : directories fs' = directories fs :=
  directories_congr (fun n => by rw [touch.mode]) fun n _ => touch.nlinks n

theorem Touch.zoneOf (touch : Touch fs fs') (r : Ref) : fs'.zoneOf r = fs.zoneOf r :=
  FileSystem.zoneOf_congr (fun ino slot => by rw [touch.zone]) (fun b _ => congrFun touch.disk b) r

theorem Touch.links (touch : Touch fs fs') (n : Nat) : links fs' n = links fs n := by
  apply links_congr touch.directories
  intro d _
  refine ⟨?_, ?_⟩
  · unfold entriesOf
    rw [touch.size]
  · intro i _
    unfold entryNumber entryBlock
    rw [touch.zoneOf, touch.disk]

theorem Touch.inUse (touch : Touch fs fs') (used : InUse fs' n) : InUse fs n ∨ n ∈ Fs.directories fs := by
  rcases used with counted | named
  · exact touch.uses n counted
  · exact .inl (.inr (touch.links n ▸ named))

theorem Touch.live (touch : Touch fs fs') (live : Live fs' n) : Live fs n := by
  rcases live with dir | ⟨reg, used⟩
  · exact .inl (touch.directories ▸ dir)
  · rw [touch.mode] at reg
    rcases touch.inUse used with old | dir
    · exact .inr ⟨reg, old⟩
    · exact .inl dir

theorem Touch.linked (touch : Touch fs fs') (linked : LinkedBut late fs) : LinkedBut late fs' := by
  have zones := linked.zones fs' (by
    intro r valid live some
    rw [touch.zoneOf] at some
    rw [touch.sb]
    exact ⟨touch.live live, touch.zoneOf r, linked.used r valid (touch.live live) some⟩)
  constructor
  · rw [touch.sb]
    exact linked.first
  · intro d isIn
    rw [touch.directories] at isIn
    unfold entriesOf
    rw [touch.size]
    exact linked.sizes d isIn
  · exact zones.1
  · exact zones.2
  · intro n small other used notDir
    rw [touch.mode] at notDir
    rw [touch.nlinks, touch.links]
    rcases touch.inUse used with old | dir
    · exact linked.counted n small other old notDir
    · exact absurd (mem_directories.mp dir).2.1 notDir
  · intro n other some
    rw [touch.links] at some
    rw [touch.nlinks]
    exact linked.named n other some

theorem Touch.trans (one : Touch fs fs₁) (two : Touch fs₁ fs') : Touch fs fs' where
  sb := two.sb.trans one.sb
  disk := two.disk.trans one.disk
  mode n := (two.mode n).trans (one.mode n)
  nlinks n := (two.nlinks n).trans (one.nlinks n)
  size n := (two.size n).trans (one.size n)
  zone n := (two.zone n).trans (one.zone n)
  uses n counted := by
    rcases two.uses n counted with used | dir
    · exact one.inUse used
    · exact .inr (one.directories ▸ dir)

theorem Touch.setInode {inode : MInode} (mode : inode.mode = (fs.inode n).mode)
    (nlinks : inode.nlinks = (fs.inode n).nlinks) (size : inode.size = (fs.inode n).size)
    (zone : inode.zone = (fs.inode n).zone) (uses : inode.count ≠ 0 → InUse fs n ∨ n ∈ Fs.directories fs) :
    Touch fs (fs.setInode n inode) := by
  have at_ : ∀ {α : Type} (f : MInode → α), f inode = f (fs.inode n) → ∀ n',
      f ((fs.setInode n inode).inode n') = f (fs.inode n') := by
    intro α f same n'
    by_cases here : n' = n
    · subst here
      simp only [FileSystem.setInode, Function.update_self, same]
    · simp only [FileSystem.setInode, Function.update_of_ne here]
  constructor
  · rfl
  · rfl
  · exact at_ MInode.mode mode
  · exact at_ MInode.nlinks nlinks
  · exact at_ MInode.size size
  · exact at_ MInode.zone zone
  · intro n' counted
    by_cases here : n' = n
    · subst here
      apply uses
      simpa only [FileSystem.setInode, Function.update_self] using counted
    · left
      left
      simpa only [FileSystem.setInode, Function.update_of_ne here] using counted

theorem iget_touch (nr : BitVec 16) (used : InUse m.fs nr.toNat ∨ nr.toNat ∈ directories m.fs) :
    Touch m.fs (iget m nr).fs := Touch.setInode rfl rfl rfl rfl fun _ => used

end Touch

section Put

variable {late n : Nat} {m m' : Mount} {stale : Nat → Block} {time : BitVec 32}

/-- Link counts match, and `iput` freed no inode that was named. -/
structure Good (late : Nat) (m : Mount) : Prop where
  linked : LinkedBut late m.fs
  freed : ∀ x ∈ m.freed, links x.1 x.2 = 0

theorem Good.touch {fs : FileSystem} (good : Good late m) (touch : Touch m.fs fs) : Good late { m with fs := fs } :=
  ⟨touch.linked good.linked, good.freed⟩

theorem LinkedBut.onceIn (linked : LinkedBut late fs) (live : Live fs n) : OnceIn fs n :=
  fun r r' valid valid' own own' => linked.once r r' valid valid' (own ▸ live) (own' ▸ live)

theorem zoneOf_empty (slots : ∀ s, s < 9 → (fs.inode n).zone s = 0) (r : Ref) (valid : r.Valid) (own : r.ino = n) :
    fs.zoneOf r = 0 := by
  rcases r with ⟨ino, slot, path⟩
  change ino = n at own
  subst own
  induction path with
  | nil => exact congrArg BitVec.toNat (slots slot valid.slot)
  | cons k path ih =>
    rw [zoneOf_cons, if_pos (ih valid.parent)]

/-- What `truncate` leaves: the trees of the other inodes, and none of its own. -/
structure Cut (fs fs' : FileSystem) (n : Nat) (zones : Nat → Prop) : Prop where
  freed : Freed fs fs' zones
  apart : ∀ n' b, Live fs n' → n' ≠ n → ZoneIn fs n' b → ¬ zones b
  others : ∀ n', n' ≠ n → fs'.inode n' = fs.inode n'
  mode : (fs'.inode n).mode = (fs.inode n).mode
  nlinks : (fs'.inode n).nlinks = (fs.inode n).nlinks
  count : (fs'.inode n).count = (fs.inode n).count
  whole : ¬ isReg (fs.inode n).mode → fs' = fs
  slots : isReg (fs.inode n).mode → ∀ s, s < 9 → (fs'.inode n).zone s = 0

theorem truncate_cut (linked : LinkedBut late fs) (used : InUse fs n) (run : truncate fs stale n time = .ok fs') :
    ∃ zones, Cut fs fs' n zones := by
  by_cases reg : isReg (fs.inode n).mode
  · have live : Live fs n := .inr ⟨reg, used⟩
    have cut := truncate_spec reg (linked.onceIn live) run
    refine ⟨ZoneIn fs n, cut.freed, ?_, cut.others, ?_, ?_, ?_, fun other => absurd reg other, fun _ => cut.slots⟩
    · intro n' b live' other inside inside'
      rcases inside with ⟨r, valid, own, zone, some⟩
      rcases inside' with ⟨r', valid', own', zone', _⟩
      rw [← zone] at some
      have same := linked.once r r' valid valid' (own ▸ live') (own' ▸ live) (zone.trans zone'.symm) some
      rw [same] at own
      exact other (own.symm.trans own')
    · rw [cut.own]
    · rw [cut.own]
    · rw [cut.own]
  · rw [truncate_other reg] at run
    cases run
    exact ⟨fun _ => False, Freed.refl _ _, fun _ _ _ _ _ => not_false, fun _ _ => rfl, rfl, rfl, rfl,
      fun _ => rfl, fun isReg => absurd isReg reg⟩

theorem Cut.kept {zones : Nat → Prop} {n' : Nat} (cut : Cut fs fs' n zones) (live : Live fs n') (other : n' ≠ n) :
    Kept fs fs' n' where
  zone := by rw [cut.others n' other]
  disk b inside := cut.freed.disk b (cut.apart n' b live other inside)

theorem Cut.zoneUsed {zones : Nat → Prop} (cut : Cut fs fs' n zones) (linked : LinkedBut late fs) {r : Ref}
    (valid : r.Valid) (live : Live fs r.ino) (other : r.ino ≠ n) (some : fs.zoneOf r ≠ 0) :
    zoneUsed fs'.sb (fs.zoneOf r) :=
  cut.freed.used _ (cut.apart r.ino _ live other ⟨r, valid, rfl, rfl, some⟩) (linked.used r valid live some)

/-- `truncate` by `open_namei`. -/
theorem Cut.linked {zones : Nat → Prop} (cut : Cut fs fs' n zones) (linked : LinkedBut late fs) :
    LinkedBut late fs' := by
  by_cases reg : isReg (fs.inode n).mode
  · have notDir := not_isDir_of_isReg reg
    have outside : n ∉ directories fs := fun isIn => notDir (mem_directories.mp isIn).2.1
    have field : ∀ {α : Type} (f : MInode → α), f (fs'.inode n) = f (fs.inode n) → ∀ n',
        f (fs'.inode n') = f (fs.inode n') := by
      intro α f same n'
      by_cases here : n' = n
      · rw [here, same]
      · rw [cut.others n' here]
    have mode := field MInode.mode cut.mode
    have nlinks := field MInode.nlinks cut.nlinks
    have dirs : directories fs' = directories fs := directories_congr (fun n' => by rw [mode]) fun n' _ => nlinks n'
    have apart : ∀ d ∈ directories fs, d ≠ n := fun d isIn same => outside (same ▸ isIn)
    have links_eq := links_of_kept linked dirs fun d isIn =>
      ⟨cut.kept (.inl isIn) (apart d isIn), by rw [cut.others d (apart d isIn)]⟩
    have inUse : ∀ n', InUse fs' n' ↔ InUse fs n' := by
      intro n'
      unfold InUse
      rw [field MInode.count cut.count, links_eq]
    have live : ∀ n', Live fs' n' ↔ Live fs n' := by
      intro n'
      unfold Live
      rw [dirs, mode, inUse]
    have zones := linked.zones fs' (by
      intro r valid live' some
      have old := (live _).mp live'
      by_cases own : r.ino = n
      · exact absurd (zoneOf_empty (cut.slots reg) r valid own) some
      · have same := (cut.kept old own).zoneOf r valid rfl
        rw [same] at some
        exact ⟨old, same, cut.zoneUsed linked valid old own some⟩)
    constructor
    · exact cut.freed.first linked.first
    · intro d isIn
      rw [dirs] at isIn
      unfold entriesOf
      rw [cut.others d (apart d isIn)]
      exact linked.sizes d isIn
    · exact zones.1
    · exact zones.2
    · intro n' small other used notDir
      rw [mode] at notDir
      rw [nlinks, links_eq]
      exact linked.counted n' small other ((inUse n').mp used) notDir
    · intro n' other some
      rw [links_eq] at some
      rw [nlinks]
      exact linked.named n' other some
  · rw [cut.whole reg]
    exact linked

/-- An inode without links is truncated, and its slot cleared. -/
theorem Cut.linked_freed {zones : Nat → Prop} {sb : SuperBlock} (cut : Cut fs fs₁ n zones)
    (linked : LinkedBut late fs) (unlinked : (fs.inode n).nlinks = 0) (none : links fs n = 0)
    (zmap : sb.zmap = fs₁.sb.zmap) (firstdatazone : sb.firstdatazone = fs₁.sb.firstdatazone) :
    LinkedBut late { fs₁.setInode n .zero with sb := sb } := by
  have here : (fs₁.setInode n .zero).inode n = .zero := Function.update_self ..
  have others : ∀ n', n' ≠ n → (fs₁.setInode n .zero).inode n' = fs.inode n' := by
    intro n' other
    exact (Function.update_of_ne other ..).trans (cut.others n' other)
  have outside : n ∉ directories fs := fun isIn => (mem_directories.mp isIn).2.2 unlinked
  have apart : ∀ d ∈ directories fs, d ≠ n := fun d isIn same => outside (same ▸ isIn)
  have dirs : directories { fs₁.setInode n .zero with sb := sb } = directories fs := by
    ext d
    by_cases same : d = n
    · subst same
      constructor
      · intro isIn
        have dir := (mem_directories.mp isIn).2.2
        exact absurd (congrArg MInode.nlinks here) dir
      · exact fun isIn => absurd isIn outside
    · rw [mem_directories, mem_directories]
      change d < 65536 ∧ isDir ((fs₁.setInode n .zero).inode d).mode = true ∧
        ((fs₁.setInode n .zero).inode d).nlinks ≠ 0 ↔ _
      rw [others d same]
  have kept : ∀ n', Live fs n' → n' ≠ n → Kept fs { fs₁.setInode n .zero with sb := sb } n' := by
    intro n' live other
    exact ⟨congrArg MInode.zone (others n' other), (cut.kept live other).disk⟩
  have links_eq := links_of_kept linked dirs fun d isIn =>
    ⟨kept d (.inl isIn) (apart d isIn), congrArg MInode.size (others d (apart d isIn))⟩
  have inUse : ∀ n', InUse { fs₁.setInode n .zero with sb := sb } n' → n' ≠ n ∧ InUse fs n' := by
    intro n' used
    have other : n' ≠ n := by
      intro same
      subst same
      rcases used with counted | named
      · exact counted (congrArg MInode.count here)
      · exact named ((links_eq _).trans none)
    refine ⟨other, ?_⟩
    rcases used with counted | named
    · exact .inl (by rw [← others n' other]; exact counted)
    · exact .inr (by rw [← links_eq]; exact named)
  have live : ∀ n', Live { fs₁.setInode n .zero with sb := sb } n' → n' ≠ n ∧ Live fs n' := by
    intro n' live
    rcases live with dir | ⟨reg, used⟩
    · rw [dirs] at dir
      exact ⟨apart n' dir, .inl dir⟩
    · rcases inUse n' used with ⟨other, old⟩
      have mode : isReg ((fs₁.setInode n .zero).inode n').mode := reg
      rw [others n' other] at mode
      exact ⟨other, .inr ⟨mode, old⟩⟩
  have zones := linked.zones { fs₁.setInode n .zero with sb := sb } (by
    intro r valid live' some
    rcases live _ live' with ⟨other, old⟩
    have same := (kept _ old other).zoneOf r valid rfl
    rw [same] at some
    have used := cut.zoneUsed linked valid old other some
    unfold Fs.zoneUsed at used ⊢
    rw [zmap, firstdatazone]
    exact ⟨old, same, used⟩)
  constructor
  · change mapBit sb.zmap 0 = true
    rw [zmap]
    exact cut.freed.first linked.first
  · intro d isIn
    rw [dirs] at isIn
    have size := congrArg MInode.size (others d (apart d isIn))
    change ((fs₁.setInode n .zero).inode d).size = _ at size
    unfold entriesOf
    dsimp only
    rw [size]
    exact linked.sizes d isIn
  · exact zones.1
  · exact zones.2
  · intro n' small other used notDir
    rcases inUse n' used with ⟨apart', old⟩
    have inode := others n' apart'
    dsimp only at notDir ⊢
    rw [inode] at notDir ⊢
    rw [links_eq]
    exact linked.counted n' small other old notDir
  · intro n' other some
    rw [links_eq] at some
    have apart' : n' ≠ n := by
      intro same
      rw [same] at some
      exact some none
    have inode := others n' apart'
    dsimp only
    rw [inode]
    exact linked.named n' other some

/-- `iput` counts down, or frees an inode without links. -/
theorem iput_cases (run : iput m stale time n = .ok m') :
    (Touch m.fs m'.fs ∧ m'.freed = m.freed ∧ ∀ n', n' ≠ n → m'.fs.inode n' = m.fs.inode n') ∨
    ((m.fs.inode n).count ≠ 0 ∧ (m.fs.inode n).nlinks = 0 ∧ ∃ fs sb, truncate m.fs stale n time = .ok fs ∧
      freeInode fs.sb (fs.inode n) = .ok (.zero, sb) ∧
      m' = ⟨{ fs.setInode n .zero with sb := sb }, (m.fs, n) :: m.freed⟩) := by
  unfold iput at run
  dsimp only at run
  split at run
  · cases run
  · rename_i counted
    have touched : ∀ inode : MInode, (.ok (m.setInode n inode) : Except String Mount) = .ok m' →
        inode.mode = (m.fs.inode n).mode → inode.nlinks = (m.fs.inode n).nlinks →
        inode.size = (m.fs.inode n).size → inode.zone = (m.fs.inode n).zone →
        Touch m.fs m'.fs ∧ m'.freed = m.freed ∧ ∀ n', n' ≠ n → m'.fs.inode n' = m.fs.inode n' := by
      intro inode done mode nlinks size zone
      cases done
      exact ⟨Touch.setInode mode nlinks size zone fun _ => .inl (.inl counted), rfl,
        fun n' other => Function.update_of_ne other ..⟩
    split at run
    · left
      split at run
      · exact touched _ run rfl rfl rfl rfl
      · exact touched _ run rfl rfl rfl rfl
    · split at run
      · exact .inl (touched _ run rfl rfl rfl rfl)
      · split at run
        · rename_i unlinked
          right
          rcases of_bind run with ⟨fs, cut, run₁⟩
          rcases of_bind run₁ with ⟨⟨inode, sb⟩, freed, last⟩
          rcases freeInode_parts freed with ⟨zero, _⟩
          subst zero
          exact ⟨counted, unlinked, fs, sb, cut, freed, (Except.ok.inj last).symm⟩
        · exact .inl (touched _ run rfl rfl rfl rfl)

/-- `iput` on a directory counts down. -/
theorem iput_dir (isIn : n ∈ directories m.fs) (run : iput m stale time n = .ok m') :
    Touch m.fs m'.fs ∧ m'.freed = m.freed ∧ ∀ n', n' ≠ n → m'.fs.inode n' = m.fs.inode n' := by
  rcases iput_cases run with touched | ⟨_, unlinked, _⟩
  · exact touched
  · exact absurd unlinked (mem_directories.mp isIn).2.2

theorem iput_good (good : Good late m) (other : n ≠ late) (run : iput m stale time n = .ok m') : Good late m' := by
  rcases iput_cases run with ⟨touch, freed, _⟩ | ⟨counted, unlinked, fs, sb, cut, free, done⟩
  · refine ⟨touch.linked good.linked, ?_⟩
    rw [freed]
    exact good.freed
  · subst done
    have none : links m.fs n = 0 := by
      by_contra some
      exact good.linked.named n other some unlinked
    rcases truncate_cut good.linked (.inl counted) cut with ⟨zones, cut⟩
    rcases freeInode_parts free with ⟨_, zmap, firstdatazone⟩
    refine ⟨cut.linked_freed good.linked unlinked none zmap firstdatazone, ?_⟩
    intro x isIn
    rcases List.mem_cons.mp isIn with here | before
    · rw [here]
      exact none
    · exact good.freed x before

theorem putAnd_good {α : Type} {value value' : α} {ino : BitVec 16} (good : Good late m) (other : ino.toNat ≠ late)
    (run : putAnd m stale time ino value = .ok (value', m')) : Good late m' := by
  rcases of_bind run with ⟨m₁, put, last⟩
  cases last
  exact iput_good good other put

theorem putBothAnd_good {α : Type} {value value' : α} {ino ino' : BitVec 16} (good : Good late m)
    (other : ino.toNat ≠ late) (other' : ino'.toNat ≠ late)
    (run : putBothAnd m stale time ino ino' value = .ok (value', m')) : Good late m' := by
  rcases of_bind run with ⟨m₁, put, rest⟩
  exact putAnd_good (iput_good good other put) other' rest

end Put

end K210Linux.Fs
