import K210Linux.Buffer.ReadBack

/-! The calls that find clean buffers do without `sync_dev`. -/

namespace K210Linux.Buffer

open Outcome K210Linux.Lib
open K210Linux.Fs (Block Byte storeUser)

variable {s s₁ s₂ s' : Drive} {i j : Nat} {x : BitVec 64} {asked : BitVec 64 → Prop}

/-- The clean buffers that nobody uses. -/
def Drive.idle (s : Drive) : Finset Nat :=
  (Finset.range s.cache.nrBuffers).filter fun i => (s.cache.head i).count = 0 ∧ (s.cache.head i).dirt = false

theorem mem_idle : i ∈ s.idle ↔ i < s.cache.nrBuffers ∧ (s.cache.head i).count = 0 ∧ (s.cache.head i).dirt = false := by
  rw [Drive.idle, Finset.mem_filter, Finset.mem_range]

theorem spare_idle (s : Drive) : (s.spare fun _ => false) = s.idle := by
  ext i
  rw [mem_spare, mem_idle]
  simp only [Bool.false_eq_true, or_false]

/-- Nothing is written to the ramdisk, no inode changes, and what is dirty stays as it is, but for the blocks asked for. -/
structure Calm (asked : BitVec 64 → Prop) (s s' : Drive) : Prop where
  drive : ∃ cache, s' = { s with cache }
  linked : Linked s'
  nr : s'.cache.nrBuffers = s.cache.nrBuffers
  count : ∀ j, (s'.cache.head j).count = (s.cache.head j).count
  lock : ∀ j, (s'.cache.head j).lock = (s.cache.head j).lock
  kept : ∀ j, (s.cache.head j).dirt = true → ¬ asked (s.cache.head j).blocknr → s'.cache.head j = s.cache.head j

theorem Calm.refl (asked : BitVec 64 → Prop) (linked : Linked s) : Calm asked s s :=
  ⟨⟨_, rfl⟩, linked, rfl, fun _ => rfl, fun _ => rfl, fun _ _ _ => rfl⟩

theorem Calm.trans (one : Calm asked s s₁) (two : Calm asked s₁ s') : Calm asked s s' where
  drive := by
    rcases one.drive with ⟨cache, rfl⟩
    rcases two.drive with ⟨cache', rfl⟩
    exact ⟨cache', rfl⟩
  linked := two.linked
  nr := two.nr.trans one.nr
  count j := (two.count j).trans (one.count j)
  lock j := (two.lock j).trans (one.lock j)
  kept j dirt apart := by
    have same := one.kept j dirt apart
    rw [← same] at dirt apart
    rw [two.kept j dirt apart, same]

theorem Calm.geometry (calm : Calm asked s s') : s'.disk = s.disk ∧ s'.inode = s.inode ∧ s'.start = s.start ∧ s'.length = s.length := by
  rcases calm.drive with ⟨cache, rfl⟩
  exact ⟨rfl, rfl, rfl, rfl⟩

theorem Calm.mono {more : BitVec 64 → Prop} (calm : Calm asked s s') (wider : ∀ x, asked x → more x) : Calm more s s' :=
  ⟨calm.drive, calm.linked, calm.nr, calm.count, calm.lock, fun j dirt apart => calm.kept j dirt fun named => apart (wider _ named)⟩

/-- A call that only reads: it leaves as many clean buffers, and the valid ones in use. -/
structure Visited (asked : BitVec 64 → Prop) (s s' : Drive) : Prop extends Calm asked s s' where
  idle : s.idle ⊆ s'.idle
  held : ∀ j, (s.cache.head j).count ≠ 0 → (s.cache.head j).uptodate = true → s'.cache.head j = s.cache.head j

theorem Visited.refl (asked : BitVec 64 → Prop) (linked : Linked s) : Visited asked s s :=
  ⟨.refl asked linked, fun _ member => member, fun _ _ _ => rfl⟩

theorem Visited.trans (one : Visited asked s s₁) (two : Visited asked s₁ s') : Visited asked s s' := by
  refine ⟨one.toCalm.trans two.toCalm, one.idle.trans two.idle, ?_⟩
  intro j used valid
  have same := one.held j used valid
  rw [← same] at used valid
  rw [two.held j used valid, same]

/-- Buffer `i` was got for block `x`, and has its user still. -/
structure Loaded (asked : BitVec 64 → Prop) (s s' : Drive) (i : Nat) (x : BitVec 64) : Prop where
  drive : ∃ cache, s' = { s with cache }
  linked : Linked s'
  nr : s'.cache.nrBuffers = s.cache.nrBuffers
  here : s'.Has i x
  source : s.Has i x ∨ i ∈ s.idle
  one : (s'.cache.head i).count = (s.cache.head i).count + 1
  count : ∀ j, j ≠ i → (s'.cache.head j).count = (s.cache.head j).count
  lock : ∀ j, (s'.cache.head j).lock = (s.cache.head j).lock
  idle : s.idle.erase i ⊆ s'.idle
  kept : ∀ j, j ≠ i → (s.cache.head j).dirt = true → ¬ asked (s.cache.head j).blocknr → s'.cache.head j = s.cache.head j
  held : ∀ j, j ≠ i → (s.cache.head j).count ≠ 0 → (s.cache.head j).uptodate = true → s'.cache.head j = s.cache.head j

theorem getblk_loaded (linked : Linked s) (unlocked : ∀ i, (s.cache.head i).lock = false)
    (room : (∃ i, s.Has i x) ∨ s.idle.Nonempty) (asked : BitVec 64 → Prop) (fuel : Nat) :
    ∃ i s', s.getblk (fuel + 2) ramdisk x = .ok (i, s') ∧ Loaded asked s s' i x ∧
      (s.Has i x → s'.cache.head i = { s.cache.head i with count := (s.cache.head i).count + 1 }) ∧
      (¬ s.Has i x → (s'.cache.head i).uptodate = false ∧ (s'.cache.head i).dirt = false) := by
  rw [← spare_idle] at room
  rcases getblkWith_got (Drive.syncDev (fuel + 2)) linked room unlocked fuel with ⟨i, s', got, effect⟩
  have linked' : Linked s' := by
    have moves : Moves (fun _ _ => True) True s s' := (getblk_moves (syncDev_moves (fuel + 2)) linked (.inl trivial) got).1
    exact linked.moves moves
  refine ⟨i, s', got, ?_, ?_, ?_⟩
  · refine ⟨effect.drive, linked', effect.geometry.2.2.2.2.2, effect.here, ?_, effect.count, ?_, ?_, ?_, ?_, ?_⟩
    · rw [← spare_idle]
      exact effect.head.imp And.left fun taken => taken.2.1
    · exact fun j other => congrArg BufferHead.count (effect.others other)
    · intro j
      by_cases here : j = i
      · rw [here]
        exact effect.lock
      · rw [effect.others here]
    · intro j member
      rcases Finset.mem_erase.1 member with ⟨other, before⟩
      rw [mem_idle, effect.others other, effect.geometry.2.2.2.2.2]
      exact mem_idle.1 before
    · exact fun j other _ _ => effect.others other
    · exact fun j other _ _ => effect.others other
  · intro has
    rcases effect.head with ⟨-, only⟩ | ⟨missing, -⟩
    · exact only.self
    · exact absurd has (missing i)
  · intro new
    rcases effect.head with ⟨has, -⟩ | ⟨missing, -, only⟩
    · exact absurd has new
    · rw [only.self]
      exact ⟨rfl, rfl⟩

theorem Loaded.setHead (loaded : Loaded asked s s₁ i x) {head : BufferHead} (dev : head.dev = (s₁.cache.head i).dev)
    (blocknr : head.blocknr = (s₁.cache.head i).blocknr) (count : head.count = (s₁.cache.head i).count)
    (lock : head.lock = (s₁.cache.head i).lock) : Loaded asked s (s₁.setHead i head) i x := by
  have heads (j : Nat) : (s₁.setHead i head).cache.head j = if j = i then head else s₁.cache.head j := by
    simp only [Drive.setHead, Cache.setHead, Function.update_apply]
  refine ⟨?_, loaded.linked.setHead dev blocknr, loaded.nr, (has_setHead _ dev blocknr).2 loaded.here, loaded.source, ?_, ?_, ?_, ?_, ?_, ?_⟩
  · rcases loaded.drive with ⟨cache, rfl⟩
    exact ⟨_, rfl⟩
  · rw [heads, if_pos rfl, count]
    exact loaded.one
  · intro j other
    rw [heads, if_neg other]
    exact loaded.count j other
  · intro j
    rw [heads]
    split
    · rename_i here
      rw [here, lock]
      exact loaded.lock i
    · exact loaded.lock j
  · intro j member
    have before := mem_idle.1 (loaded.idle member)
    rw [mem_idle, heads, if_neg (Finset.mem_erase.1 member).1]
    exact before
  · intro j other
    rw [heads, if_neg other]
    exact loaded.kept j other
  · intro j other
    rw [heads, if_neg other]
    exact loaded.held j other

/-- What a request to read does. -/
theorem load_cases (device : (s.cache.head i).dev = ramdisk) :
    ((s.cache.head i).uptodate = true ∧ (if (s.cache.head i).uptodate then s else s.llRwBlock false i) = s) ∨
      ((s.cache.head i).uptodate = false ∧ ∃ uptodate data, (if (s.cache.head i).uptodate then s else s.llRwBlock false i) =
        s.setHead i { s.cache.head i with dirt := false, uptodate, data } ∧
        (s.serves (s.cache.head i).blocknr = true → uptodate = true ∧ data = s.disk (place (s.cache.head i).blocknr))) := by
  cases fresh : (s.cache.head i).uptodate with
  | true => exact .inl ⟨rfl, rfl⟩
  | false =>
    right
    have major : ¬ (s.cache.head i).dev.toNat / 256 ≠ 1 := by
      rw [device]
      decide
    refine ⟨rfl, ?_⟩
    rw [if_neg (by decide)]
    cases served : s.serves (s.cache.head i).blocknr with
    | true =>
      refine ⟨true, s.disk (place (s.cache.head i).blocknr), ?_, fun _ => ⟨rfl, rfl⟩⟩
      simp only [Drive.llRwBlock, fresh, major, refuses_ramdisk device, served, Bool.false_eq_true, Bool.not_false,
        Bool.not_true, Bool.and_false, Bool.false_and, Bool.or_self, if_false]
    | false =>
      refine ⟨false, (s.cache.head i).data, ?_, fun yes => by cases yes⟩
      simp only [Drive.llRwBlock, fresh, major, refuses_ramdisk device, served, Bool.false_eq_true, Bool.not_false,
        Bool.and_false, Bool.false_and, Bool.or_self, if_false, if_true]

theorem Loaded.load (loaded : Loaded asked s s₁ i x) :
    Loaded asked s (if (s₁.cache.head i).uptodate then s₁ else s₁.llRwBlock false i) i x := by
  rcases load_cases loaded.here.2.1 with ⟨-, same⟩ | ⟨-, uptodate, data, same, -⟩
  · rw [same]
    exact loaded
  · rw [same]
    exact loaded.setHead rfl rfl rfl rfl

/-- The buffer is given back, with what was made of it. -/
theorem Loaded.calm (loaded : Loaded asked s s₁ i x) (named : asked x) :
    Calm asked s (s₁.setHead i { s₁.cache.head i with count := (s₁.cache.head i).count - 1 }) := by
  have heads (j : Nat) : (s₁.setHead i { s₁.cache.head i with count := (s₁.cache.head i).count - 1 }).cache.head j =
      if j = i then { s₁.cache.head i with count := (s₁.cache.head i).count - 1 } else s₁.cache.head j := by
    simp only [Drive.setHead, Cache.setHead, Function.update_apply]
  refine ⟨?_, loaded.linked.setHead rfl rfl, loaded.nr, ?_, ?_, ?_⟩
  · rcases loaded.drive with ⟨cache, rfl⟩
    exact ⟨_, rfl⟩
  · intro j
    rw [heads]
    split
    · rename_i here
      rw [here]
      change (s₁.cache.head i).count - 1 = _
      rw [loaded.one]
      exact BitVec.add_sub_cancel ..
    · rename_i other
      exact loaded.count j other
  · intro j
    rw [heads]
    split
    · rename_i here
      rw [here]
      exact loaded.lock i
    · exact loaded.lock j
  · intro j dirt apart
    have other : j ≠ i := by
      rintro rfl
      rcases loaded.source with has | idle
      · rw [has.2.2] at apart
        exact apart named
      · rw [(mem_idle.1 idle).2.2] at dirt
        cases dirt
    rw [heads, if_neg other]
    exact loaded.kept j other dirt apart

/-- After a request to read, the call has left no trace. -/
theorem Loaded.visited (loaded : Loaded asked s s₁ i x) (named : asked x)
    (clean : i ∈ s.idle → (s₁.cache.head i).dirt = false)
    (same : s.Has i x → (s.cache.head i).uptodate = true →
      s₁.cache.head i = { s.cache.head i with count := (s.cache.head i).count + 1 }) :
    Visited asked s (s₁.setHead i { s₁.cache.head i with count := (s₁.cache.head i).count - 1 }) := by
  have calm := loaded.calm named
  have heads (j : Nat) : (s₁.setHead i { s₁.cache.head i with count := (s₁.cache.head i).count - 1 }).cache.head j =
      if j = i then { s₁.cache.head i with count := (s₁.cache.head i).count - 1 } else s₁.cache.head j := by
    simp only [Drive.setHead, Cache.setHead, Function.update_apply]
  refine ⟨calm, ?_, ?_⟩
  · intro j member
    have before := mem_idle.1 member
    rw [mem_idle, calm.count, calm.nr, heads]
    refine ⟨before.1, before.2.1, ?_⟩
    split
    · rename_i here
      subst here
      exact clean member
    · rename_i other
      exact (mem_idle.1 (loaded.idle (Finset.mem_erase.2 ⟨other, member⟩))).2.2
  · intro j used valid
    rw [heads]
    split
    · rename_i here
      subst here
      rcases loaded.source with has | idle
      · have back : (s₁.cache.head j).count - 1 = (s.cache.head j).count := by
          rw [loaded.one]
          exact BitVec.add_sub_cancel ..
        rw [back, same has valid]
      · exact absurd (mem_idle.1 idle).2.1 used
    · rename_i other
      exact loaded.held j other used valid

theorem Loaded.ahead (loaded : Loaded asked s s₁ i x) (visited : Visited asked s₁ s') (used : (s₁.cache.head i).count ≠ 0)
    (valid : (s₁.cache.head i).uptodate = true) : Loaded asked s s' i x ∧ s'.cache.head i = s₁.cache.head i := by
  have here := visited.held i used valid
  refine ⟨⟨?_, visited.linked, visited.nr.trans loaded.nr, ?_, loaded.source, ?_, ?_, ?_, ?_, ?_, ?_⟩, here⟩
  · rcases loaded.drive with ⟨cache, rfl⟩
    rcases visited.drive with ⟨cache', rfl⟩
    exact ⟨cache', rfl⟩
  · rw [Drive.Has, here, visited.nr]
    exact loaded.here
  · rw [here]
    exact loaded.one
  · exact fun j other => (visited.count j).trans (loaded.count j other)
  · exact fun j => (visited.lock j).trans (loaded.lock j)
  · exact loaded.idle.trans visited.idle
  · intro j other dirt apart
    have same := loaded.kept j other dirt apart
    rw [← same] at dirt apart
    rw [visited.kept j dirt apart, same]
  · intro j other inUse fresh
    have same := loaded.held j other inUse fresh
    rw [← same] at inUse fresh
    rw [visited.held j inUse fresh, same]

/-- Read ahead returns while a buffer is clean and unused. -/
theorem readAhead_visited {ahead : List (BitVec 32)} (linked : Linked s) (unlocked : ∀ i, (s.cache.head i).lock = false)
    (room : s.idle.Nonempty) (named : ∀ n ∈ ahead, asked (n.signExtend 64)) (fuel : Nat) :
    ∃ s', Drive.readAhead (fuel + 2) ramdisk ahead s = .ok s' ∧ Visited asked s s' := by
  induction ahead generalizing s with
  | nil => exact ⟨s, rfl, .refl asked linked⟩
  | cons first rest ih =>
    rw [Drive.readAhead]
    split
    · exact ⟨s, rfl, .refl asked linked⟩
    · rcases getblk_loaded linked unlocked (.inr room) asked fuel with ⟨tmp, s₁, got, loaded, cached, taken⟩
      rw [bind_ok got]
      have clean : tmp ∈ s.idle →
          ((if (s₁.cache.head tmp).uptodate then s₁ else s₁.llRwBlock false tmp).cache.head tmp).dirt = false := by
        intro member
        rcases load_cases loaded.here.2.1 with ⟨-, same⟩ | ⟨-, uptodate, data, same, -⟩
        · rw [same]
          by_cases has : s.Has tmp (first.signExtend 64)
          · rw [cached has]
            exact (mem_idle.1 member).2.2
          · exact (taken has).2
        · rw [same]
          simp only [Drive.setHead, Cache.setHead, Function.update_self]
      have same : s.Has tmp (first.signExtend 64) → (s.cache.head tmp).uptodate = true →
          (if (s₁.cache.head tmp).uptodate then s₁ else s₁.llRwBlock false tmp).cache.head tmp =
            { s.cache.head tmp with count := (s.cache.head tmp).count + 1 } := by
        intro has valid
        have fresh : (s₁.cache.head tmp).uptodate = true := by
          rw [cached has]
          exact valid
        rw [if_pos fresh]
        exact cached has
      have read := loaded.load
      simp only
      generalize (if (s₁.cache.head tmp).uptodate then s₁ else s₁.llRwBlock false tmp) = s₂ at clean same read
      have visited := read.visited (named first (List.mem_cons_self ..)) clean same
      rcases ih visited.linked (fun i => (visited.lock i).trans (unlocked i)) (room.mono visited.idle)
        (fun n member => named n (List.mem_cons_of_mem _ member)) with ⟨s', done, rest'⟩
      exact ⟨s', done, visited.trans rest'⟩

/-- `breada` returns while two buffers are clean and unused. -/
theorem breada_loaded (asked : BitVec 64 → Prop) {first : BitVec 32} (ahead : List (BitVec 32)) (linked : Linked s)
    (unlocked : ∀ i, (s.cache.head i).lock = false) (counts : ∀ i, (s.cache.head i).count ≠ 255) (room : 2 ≤ s.idle.card)
    (served : s.serves (first.signExtend 64) = true) (named : ∀ n ∈ ahead, asked (n.signExtend 64)) (fuel : Nat) :
    ∃ i s', s.breada (fuel + 2) ramdisk first ahead = .ok (some i, s') ∧ Loaded asked s s' i (first.signExtend 64) ∧
      (s'.cache.head i).uptodate = true ∧
      (i ∈ s.idle → (s'.cache.head i).dirt = false) ∧
      (s.Has i (first.signExtend 64) → (s.cache.head i).uptodate = true →
        s'.cache.head i = { s.cache.head i with count := (s.cache.head i).count + 1 }) ∧
      ((s.Has i (first.signExtend 64) → (s.cache.head i).uptodate = false) →
        (s'.cache.head i).data = s.disk (place (first.signExtend 64))) := by
  have some : s.idle.Nonempty := Finset.card_pos.1 (by omega)
  rcases getblk_loaded linked unlocked (.inr some) asked fuel with ⟨i, s₁, got, loaded, cached, taken⟩
  have disk : s₁.disk = s.disk ∧ ∀ x, s₁.serves x = s.serves x := by
    rcases loaded.drive with ⟨cache, rfl⟩
    exact ⟨rfl, fun _ => rfl⟩
  let s₂ := if (s₁.cache.head i).uptodate then s₁ else s₁.llRwBlock false i
  have read : Loaded asked s s₂ i (first.signExtend 64) := loaded.load
  have head : (s₂.cache.head i).uptodate = true ∧ (i ∈ s.idle → (s₂.cache.head i).dirt = false) ∧
      (s.Has i (first.signExtend 64) → (s.cache.head i).uptodate = true →
        s₂.cache.head i = { s.cache.head i with count := (s.cache.head i).count + 1 }) ∧
      ((s.Has i (first.signExtend 64) → (s.cache.head i).uptodate = false) →
        (s₂.cache.head i).data = s.disk (place (first.signExtend 64))) := by
    rcases load_cases loaded.here.2.1 with ⟨fresh, same⟩ | ⟨stale, uptodate, data, same, transferred⟩
    · change s₂ = s₁ at same
      rw [same]
      refine ⟨fresh, ?_, fun has _ => cached has, ?_⟩
      · intro member
        by_cases has : s.Has i (first.signExtend 64)
        · rw [cached has]
          exact (mem_idle.1 member).2.2
        · exact (taken has).2
      · intro none
        by_cases has : s.Has i (first.signExtend 64)
        · rw [cached has] at fresh
          rw [none has] at fresh
          cases fresh
        · rw [(taken has).1] at fresh
          cases fresh
    · change s₂ = _ at same
      rcases transferred (by rw [loaded.here.2.2, disk.2]; exact served) with ⟨rfl, rfl⟩
      have self : s₂.cache.head i = { s₁.cache.head i with
          dirt := false, uptodate := true, data := s₁.disk (place (s₁.cache.head i).blocknr) } := by
        rw [same]
        simp only [Drive.setHead, Cache.setHead, Function.update_self]
      rw [self]
      refine ⟨rfl, fun _ => rfl, ?_, ?_⟩
      · intro has valid
        rw [cached has, valid] at stale
        cases stale
      · intro _
        simp only [loaded.here.2.2, disk.1]
  have used : (s₂.cache.head i).count ≠ 0 := by
    rw [read.one]
    intro wrapped
    apply counts i
    bv_omega
  have left : s₂.idle.Nonempty := by
    have erased := Finset.pred_card_le_card_erase (s := s.idle) (a := i)
    have below := Finset.card_le_card read.idle
    exact Finset.card_pos.1 (by omega)
  rcases readAhead_visited read.linked (fun j => (read.lock j).trans (unlocked j)) left named fuel with ⟨s₃, done, visited⟩
  rcases read.ahead visited used head.1 with ⟨loaded₃, same⟩
  refine ⟨i, s₃, ?_, loaded₃, ?_⟩
  · unfold Drive.breada
    rw [bind_ok got]
    change (Drive.readAhead (fuel + 2) ramdisk ahead s₂ >>= _) = _
    rw [bind_ok done, if_pos (by rw [same]; exact head.1)]
  · rw [same]
    exact head

end K210Linux.Buffer
