import K210Linux.Fs.LinkCalls

namespace K210Linux.Fs

open Outcome

/-- The calls, each with the directory that `dir_namei` returned and the rest of the path. -/
inductive LinkCall
  | opening (dir : BitVec 16) (name : List Byte) (flag : BitVec 32) (mode : BitVec 16)
  | mknod (dir : BitVec 16) (name : List Byte) (mode dev : BitVec 16)
  | link (oldDir : BitVec 16) (oldName : List Byte) (dir : BitVec 16) (name : List Byte)
  | unlink (dir : BitVec 16) (name : List Byte)
  | iput (ino : BitVec 16)

namespace LinkCall

def run (m : Mount) (stale : Nat → Block) (caller : Caller) : LinkCall → Except String Mount
  | .opening dir name flag mode => (openNamei m stale caller dir name flag mode).map Prod.snd
  | .mknod dir name mode dev => (sysMknod m stale caller dir name mode dev).map Prod.snd
  | .link oldDir oldName dir name => (sysLink m stale caller oldDir oldName dir name).map Prod.snd
  | .unlink dir name => (sysUnlink m stale caller dir name).map Prod.snd
  | .iput ino => Fs.iput m stale caller.time ino.toNat

/-- `dir_namei` returns directories. -/
def InDirectories (fs : FileSystem) : LinkCall → Prop
  | .opening dir _ _ _ | .mknod dir _ _ _ | .unlink dir _ => dir.toNat ∈ directories fs
  | .link oldDir _ dir _ => oldDir.toNat ∈ directories fs ∧ dir.toNat ∈ directories fs
  | .iput _ => True

/-- The name is looked up in the first block of the directory. -/
def LooksInBlock (fs : FileSystem) (caller : Caller) (dir : BitVec 16) (name : List Byte) : Prop :=
  name ≠ [] → InBlock fs dir.toNat (dir = caller.root) name

def Missing (fs : FileSystem) (caller : Caller) (dir : BitVec 16) (name : List Byte) : Prop :=
  findEntry fs dir.toNat (dir = caller.root) name = .ok none

/-- The call stays clear of the three defects: lookups behind a block, a bitmap that `free_inode` spoiled, and
    the 256th link. -/
def Safe (fs : FileSystem) (caller : Caller) : LinkCall → Prop
  | .opening dir name flag _ => LooksInBlock fs caller dir name ∧
      (flag &&& oCreat ≠ 0 → Missing fs caller dir name → Numbered fs)
  | .mknod dir name _ _ => LooksInBlock fs caller dir name ∧ (Missing fs caller dir name → Numbered fs)
  | .link oldDir oldName dir name => LooksInBlock fs caller oldDir oldName ∧ LooksInBlock fs caller dir name ∧
      ∀ place, findEntry fs oldDir.toNat (oldDir = caller.root) oldName = .ok (some place) →
        Missing fs caller dir name →
        ¬ isDir (fs.inode (entryInode (fs.disk place.1) place.2).toNat).mode →
        (fs.inode (entryInode (fs.disk place.1) place.2).toNat).nlinks ≠ 255
  | .unlink dir name => LooksInBlock fs caller dir name
  | .iput _ => True

end LinkCall

/-- One call that returns. `cond` is what must hold before it. -/
inductive LinkStep (cond : FileSystem → Caller → LinkCall → Prop) : Mount → Mount → Prop
  | call {m m' : Mount} (stale : Nat → Block) (caller : Caller) (c : LinkCall) (dirs : c.InDirectories m.fs)
      (safe : cond m.fs caller c) (run : c.run m stale caller = .ok m') : LinkStep cond m m'

/-- Link counts match the live entries, and no inode that one still named was freed. -/
structure LinksMatch (m : Mount) : Prop where
  counts : ∀ n, n < noInode → InUse m.fs n → ¬ isDir (m.fs.inode n).mode →
    (m.fs.inode n).nlinks.toNat = links m.fs n
  freed : ∀ x ∈ m.freed, links x.1 x.2 = 0

theorem LinkStep.good {m m' : Mount} (step : LinkStep LinkCall.Safe m m') (good : Good noInode m) :
    Good noInode m' := by
  cases step with
  | call stale caller c dirs safe run =>
    cases c with
    | opening dir name flag mode =>
      rcases of_map run with ⟨⟨value, m₁⟩, call, same⟩
      subst same
      exact openNamei_good good dirs safe.1 safe.2 call
    | mknod dir name mode dev =>
      rcases of_map run with ⟨⟨value, m₁⟩, call, same⟩
      subst same
      exact sysMknod_good good dirs safe.1 safe.2 call
    | link oldDir oldName dir name =>
      rcases of_map run with ⟨⟨value, m₁⟩, call, same⟩
      subst same
      exact sysLink_good good dirs.1 dirs.2 safe.1 safe.2.1 safe.2.2 call
    | unlink dir name =>
      rcases of_map run with ⟨⟨value, m₁⟩, call, same⟩
      subst same
      exact sysUnlink_good good dirs safe call
    | iput ino => exact iput_good good (toNat_ne_noInode _) run

theorem link_counts_match {fs : FileSystem} {m : Mount} (linked : Linked fs)
    (run : Relation.ReflTransGen (LinkStep LinkCall.Safe) ⟨fs, []⟩ m) : LinksMatch m := by
  have good : Good noInode m := by
    induction run with
    | refl => exact ⟨linked, fun x isIn => absurd isIn List.not_mem_nil⟩
    | tail _ step ih => exact step.good ih
  exact ⟨fun n small => good.linked.counted n small (ne_of_lt small), good.freed⟩

section Crowded

/-- The inode that entry `j` of directory `d` names: the root 1 has the directories 2 to 6, and every other
    entry is a link to inode 9. -/
def crowdedNumber (d j : Nat) : Nat := if j = 0 then d else if j = 1 then 1 else if d = 1 then j else 9

def crowdedEntries (d : Nat) : Nat := if d = 1 then 7 else if d = 6 then 9 else 64

def crowdedBlock (d : Nat) : Block := fun i =>
  if i % 16 = 0 then BitVec.ofNat 8 (crowdedNumber d (i / 16))
  else if i % 16 = 2 then if i / 16 ≤ 1 then dot else BitVec.ofNat 8 (64 + i / 16)
  else if i % 16 = 3 ∧ i / 16 = 1 then dot else 0

/-- A device with 255 links to one file. -/
def crowded : FileSystem where
  sb := { blankDevice.sb with
    imap := fun i => if i = 0 then some ⟨fun k => if k = 0 then 0x7F else if k = 1 then 2 else 0, false⟩ else none
    zmap := fun i => if i = 0 then
      some ⟨fun k => if k = 0 then 1 else if k = 1 then 0xF0 else if k = 2 then 3 else 0, false⟩ else none }
  disk := fun b => if 20 < b ∧ b < 27 then crowdedBlock (b - 20) else fun _ => 0
  inode := fun n =>
    if 0 < n ∧ n < 7 then { MInode.zero with
      mode := 0o040777, nlinks := 2, size := BitVec.ofNat 32 (16 * crowdedEntries n)
      zone := fun s => if s = 0 then BitVec.ofNat 16 (20 + n) else 0 }
    else if n = 9 then { MInode.zero with mode := 0o100644, nlinks := 255 } else MInode.zero

def rootCaller : Caller := ⟨0, 0, 0, 1, 0⟩

theorem crowded_inode {n : Nat} (small : 0 < n ∧ n < 7) : crowded.inode n = { MInode.zero with
    mode := 0o040777, nlinks := 2, size := BitVec.ofNat 32 (16 * crowdedEntries n)
    zone := fun s => if s = 0 then BitVec.ofNat 16 (20 + n) else 0 } := if_pos small

theorem crowded_file : crowded.inode 9 = { MInode.zero with mode := 0o100644, nlinks := 255 } := rfl

theorem crowded_unused {n : Nat} (other : ¬ (0 < n ∧ n < 7)) (notFile : n ≠ 9) : crowded.inode n = .zero :=
  (if_neg other).trans (if_neg notFile)

theorem mem_crowded {d : Nat} : d ∈ directories crowded ↔ 0 < d ∧ d < 7 := by
  rw [mem_directories]
  by_cases small : 0 < d ∧ d < 7
  · rw [crowded_inode small]
    constructor
    · exact fun _ => small
    · exact fun _ => ⟨by omega, (by decide : isDir 0o040777 = true), (by decide : (2 : Byte) ≠ 0)⟩
  · by_cases file : d = 9
    · subst file
      rw [crowded_file]
      constructor
      · exact fun facts => absurd facts.2.1 (by decide)
      · exact fun facts => absurd facts small
    · rw [crowded_unused small file]
      constructor
      · exact fun facts => absurd facts.2.1 (by decide)
      · exact fun facts => absurd facts small

theorem crowded_entriesOf {d : Nat} (small : 0 < d ∧ d < 7) :
    entriesOf crowded d = crowdedEntries d ∧ (crowded.inode d).size.toNat = 16 * crowdedEntries d ∧
      crowdedEntries d ≤ 64 := by
  have few : crowdedEntries d ≤ 64 := by
    unfold crowdedEntries
    split_ifs <;> omega
  have size : (crowded.inode d).size.toNat = 16 * crowdedEntries d := by
    rw [crowded_inode small]
    change (BitVec.ofNat 32 (16 * crowdedEntries d)).toNat = _
    rw [BitVec.toNat_ofNat]
    omega
  refine ⟨?_, size, few⟩
  unfold entriesOf
  rw [size]
  omega

/-- Only the directories have zones, one each. -/
theorem crowded_zoneOf (r : Ref) (valid : r.Valid) (some : crowded.zoneOf r ≠ 0) :
    (0 < r.ino ∧ r.ino < 7) ∧ r = ⟨r.ino, 0, []⟩ ∧ crowded.zoneOf r = 20 + r.ino := by
  rcases r with ⟨n, s, path⟩
  induction path with
  | nil =>
    change ((crowded.inode n).zone s).toNat ≠ 0 at some
    change _ ∧ _ ∧ ((crowded.inode n).zone s).toNat = _
    by_cases small : 0 < n ∧ n < 7
    · rw [crowded_inode small] at some ⊢
      dsimp only at some ⊢
      by_cases first : s = 0
      · subst first
        refine ⟨small, rfl, ?_⟩
        rw [if_pos rfl, BitVec.toNat_ofNat]
        omega
      · rw [if_neg first] at some
        exact absurd rfl some
    · by_cases file : n = 9
      · subst file
        exact absurd rfl some
      · rw [crowded_unused small file] at some
        exact absurd rfl some
  | cons k path ih =>
    rw [zoneOf_cons] at some
    by_cases none : crowded.zoneOf ⟨n, s, path⟩ = 0
    · rw [if_pos none] at some
      exact absurd rfl some
    · -- a direct zone has no entries
      have slot := (Ref.mk.inj (ih valid.parent none).2.1).2.1
      have length := valid.length
      simp only [slot, depth, List.length_cons] at length
      omega

theorem crowded_entryNumber {d i : Nat} (small : 0 < d ∧ d < 7) (below : i < 64) :
    entryNumber crowded d i = crowdedNumber d i := by
  have block : i / dirEntriesPerBlock = 0 ∧ i % dirEntriesPerBlock = i := by
    rw [dirEntriesPerBlock]
    omega
  have zone : crowded.zoneOf (blockRef d 0) = 20 + d := by
    change ((crowded.inode d).zone 0).toNat = _
    rw [crowded_inode small]
    change (BitVec.ofNat 16 (20 + d)).toNat = _
    rw [BitVec.toNat_ofNat]
    omega
  have disk : crowded.disk (20 + d) = crowdedBlock d := by
    change (if 20 < 20 + d ∧ 20 + d < 27 then crowdedBlock (20 + d - 20) else fun _ => 0) = _
    rw [if_pos (by omega), Nat.add_sub_cancel_left]
  unfold entryNumber entryBlock
  rw [block.1, block.2, zone, if_neg (by omega), disk]
  have low : crowdedBlock d (16 * i) = BitVec.ofNat 8 (crowdedNumber d i) := by
    unfold crowdedBlock
    rw [if_pos (by omega), Nat.mul_div_cancel_left _ (by decide)]
  have high : crowdedBlock d (16 * i + 1) = 0 := by
    unfold crowdedBlock
    rw [if_neg (by omega), if_neg (by omega), if_neg (by omega)]
  have bound : crowdedNumber d i < 256 := by
    unfold crowdedNumber
    split_ifs <;> omega
  unfold entryInode
  rw [low, high, BitVec.toNat_append, BitVec.toNat_ofNat]
  have zero : (0 : Byte).toNat = 0 := rfl
  rw [zero, Nat.zero_shiftLeft, Nat.zero_or]
  omega

theorem crowded_links {n : Nat} (some : links crowded n ≠ 0) : 0 < n ∧ n < 7 ∨ n = 9 := by
  rcases Finset.card_pos.mp (Nat.pos_of_ne_zero some) with ⟨e, isIn⟩
  rcases mem_liveEntries.mp isIn with ⟨dir, below, _, number⟩
  have small := mem_crowded.mp dir
  have facts := crowded_entriesOf small
  rw [crowded_entryNumber small (by omega)] at number
  rw [facts.1] at below
  unfold crowdedNumber at number
  unfold crowdedEntries at below
  split_ifs at number below <;> omega

theorem crowded_links_file : links crowded 9 = 255 := by
  have dirs : directories crowded = Finset.Icc 1 6 := by
    ext d
    rw [mem_crowded, Finset.mem_Icc]
    omega
  have entries : ∀ d ∈ Finset.Icc 1 6,
      ((Finset.range (entriesOf crowded d)).filter fun i => 9 ≠ 0 ∧ entryNumber crowded d i = 9).card =
        ((Finset.range (crowdedEntries d)).filter fun i => crowdedNumber d i = 9).card := by
    intro d isIn
    have small : 0 < d ∧ d < 7 := by
      rw [Finset.mem_Icc] at isIn
      omega
    have facts := crowded_entriesOf small
    rw [facts.1]
    congr 1
    apply Finset.filter_congr
    intro i inside
    have below := Finset.mem_range.mp inside
    rw [crowded_entryNumber small (by omega)]
    simp
  unfold links liveEntries
  rw [Finset.card_sigma, dirs, Finset.sum_congr rfl entries]
  decide

theorem crowded_wf : crowded.Wf := by
  constructor
  · decide
  · intro r r' valid valid' same some
    have here := crowded_zoneOf r valid some
    have there := crowded_zoneOf r' valid' (same ▸ some)
    have own : r.ino = r'.ino := by
      have := here.2.2
      have := there.2.2
      omega
    rw [here.2.1, there.2.1, own]
  · intro r valid some
    rcases crowded_zoneOf r valid some with ⟨small, _, zone⟩
    rw [zone]
    rcases small with ⟨positive, below⟩
    generalize r.ino = n at *
    interval_cases n <;> exact ⟨by decide, by decide⟩

theorem crowded_linked : Linked crowded := by
  have inUse : ∀ n, InUse crowded n → 0 < n ∧ n < 7 ∨ n = 9 := by
    intro n either
    rcases either with counted | named
    · by_contra other
      rw [not_or] at other
      rw [crowded_unused other.1 other.2] at counted
      exact counted rfl
    · exact crowded_links named
  constructor
  · exact crowded_wf.first
  · intro d isIn
    have facts := crowded_entriesOf (mem_crowded.mp isIn)
    rw [facts.1]
    exact ⟨facts.2.1, facts.2.2.trans (by decide)⟩
  · intro r r' valid valid' _ _ same some
    exact crowded_wf.once r r' valid valid' same some
  · intro r valid _ some
    exact crowded_wf.used r valid some
  · intro n _ _ used notDir
    rcases inUse n used with small | file
    · rw [crowded_inode small] at notDir
      exact absurd (by decide : isDir 0o040777 = true) notDir
    · subst file
      rw [crowded_links_file]
      rfl
  · intro n _ some
    rcases crowded_links some with small | file
    · rw [crowded_inode small]
      exact (by decide : (2 : Byte) ≠ 0)
    · subst file
      decide

/-- The 256th link: the count is 0 then, and the file is freed. -/
theorem crowded_link : ((sysLink ⟨crowded, []⟩ (fun _ _ => 0) rootCaller 2 [66] 6 [90]).map fun r =>
    ((r.1, isDir (r.2.fs.inode 2).mode, (r.2.fs.inode 2).nlinks, entriesOf r.2.fs 2),
      entryNumber r.2.fs 2 2, isDir (r.2.fs.inode 9).mode, (r.2.fs.inode 9).nlinks)) =
    .ok ((0, true, 2, 64), 9, false, 0) := by
  decide +kernel

theorem links_overflow : ∃ fs m, Linked fs ∧
    Relation.ReflTransGen (LinkStep fun _ _ _ => True) ⟨fs, []⟩ m ∧ ¬ LinksMatch m := by
  rcases of_map crowded_link with ⟨⟨value, m⟩, call, facts⟩
  simp only [Prod.mk.injEq] at facts
  rcases facts with ⟨⟨_, dir, nlinks, count⟩, number, notDir, none⟩
  have run : LinkCall.run ⟨crowded, []⟩ (fun _ _ => 0) rootCaller (.link 2 [66] 6 [90]) = .ok m := by
    unfold LinkCall.run
    dsimp only
    rw [call]
    rfl
  have dirs : (LinkCall.link 2 [66] 6 [90]).InDirectories crowded :=
    ⟨mem_crowded.mpr (by decide), mem_crowded.mpr (by decide)⟩
  refine ⟨crowded, m, crowded_linked, .single (.call _ _ _ dirs trivial run), ?_⟩
  intro matches_
  have isIn : (⟨2, 2⟩ : Σ _ : Nat, Nat) ∈ liveEntries m.fs 9 := by
    refine mem_liveEntries.mpr ⟨mem_directories.mpr ⟨by decide, dir, ?_⟩, ?_, by decide, number⟩
    · rw [nlinks]
      decide
    · change 2 < entriesOf m.fs 2
      rw [count]
      decide
  have named : links m.fs 9 ≠ 0 := Finset.card_ne_zero_of_mem isIn
  have equal := matches_.counts 9 (by decide) (.inr named) (by rw [notDir]; decide)
  rw [none] at equal
  exact named equal.symm

theorem crowded_unlink_matches : ∃ m, LinkCall.run ⟨crowded, []⟩ (fun _ _ => 0) rootCaller (.unlink 2 [66]) = .ok m ∧
    LinksMatch m := by
  have returns : ((sysUnlink ⟨crowded, []⟩ (fun _ _ => 0) rootCaller 2 [66]).map Prod.fst) = .ok 0 := by
    decide +kernel
  rcases of_map returns with ⟨⟨value, m⟩, call, _⟩
  have run : LinkCall.run ⟨crowded, []⟩ (fun _ _ => 0) rootCaller (.unlink 2 [66]) = .ok m := by
    unfold LinkCall.run
    dsimp only
    rw [call]
    rfl
  have dirs : (LinkCall.unlink 2 [66]).InDirectories crowded := mem_crowded.mpr (by decide)
  have safe : (LinkCall.unlink 2 [66]).Safe crowded rootCaller := by
    intro _
    left
    change entriesOf crowded 2 ≤ 64
    rw [(crowded_entriesOf (by decide)).1]
    decide
  exact ⟨m, run, link_counts_match crowded_linked (.single (.call _ _ _ dirs safe run))⟩

end Crowded

end K210Linux.Fs
