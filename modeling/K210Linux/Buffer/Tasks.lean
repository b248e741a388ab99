import K210Linux.Lib.Run
import K210Linux.Buffer.Queues

namespace K210Linux.Buffer

open K210Linux.Lib

/-- The function that a lookup is part of. -/
inductive Caller where
  | getHashTable
  | getblk
  | bread
deriving DecidableEq

/-- Where a task is: outside, at the top of the loop of `get_hash_table` or at `repeat` in `getblk`, in one
    of the calls of `wait_on_buffer`, or in `sync_dev`. -/
inductive Phase where
  | idle
  | lookup (caller : Caller) (dev : BitVec 16) (block : BitVec 64)
  | found (caller : Caller) (dev : BitVec 16) (block : BitVec 64) (i : Nat)
  | chosen (caller : Caller) (dev : BitVec 16) (block : BitVec 64) (i : Nat)
  | syncing (caller : Caller) (dev : BitVec 16) (block : BitVec 64) (i : Nat)
  | reading (i : Nat)
  | releasing (i : Nat)

def Cache.setCount (c : Cache) (i : Nat) (count : BitVec 8) : Cache := c.setHead i { c.head i with count := count }

/-- What the caller does with the buffer: `bread` has it read unless it is up to date. -/
def Cache.returned (c : Cache) (caller : Caller) (i : Nat) : Phase :=
  if caller = .bread ∧ (c.head i).uptodate = false then .reading i else .idle

/-- A task goes on from one point where it can sleep to the next; `none` when it has to sleep on, or at a
    panic. -/
def Cache.turn (c : Cache) : Phase → Option (Phase × Cache)
  | .idle => none
  | .lookup caller dev block =>
    match c.findBuffer dev block with
    | some i => some (.found caller dev block i, c.setCount i ((c.head i).count + 1))
    | none =>
      if caller = .getHashTable then some (.idle, c)
      else
        match c.pick with
        | none => some (.lookup caller dev block, c)
        | some i => some (.chosen caller dev block i, c)
  | .found caller dev block i =>
    if (c.head i).lock then none
    else if (c.head i).dev = dev ∧ (c.head i).blocknr = block then some (c.returned caller i, c)
    else some (.lookup caller dev block, c.setCount i ((c.head i).count - 1))
  | .chosen caller dev block i =>
    if (c.head i).lock then none
    else if (c.head i).count ≠ 0 then some (.lookup caller dev block, c)
    else if (c.head i).dirt then some (.syncing caller dev block i, c)
    else if (c.findBuffer dev block).isSome then some (.lookup caller dev block, c)
    else (c.assign i dev block).map fun c => (c.returned caller i, c)
  | .syncing caller dev block i => some (.chosen caller dev block i, c)
  | .reading i =>
    if (c.head i).lock then none
    else if (c.head i).uptodate then some (.idle, c)
    else some (.releasing i, c)
  | .releasing i =>
    if (c.head i).lock then none
    else if (c.head i).count = 0 then none
    else some (.idle, c.setCount i ((c.head i).count - 1))

/-- The cache and the tasks that use it. -/
structure Pool where
  cache : Cache
  phase : Nat → Phase

/-- A call by a task, a task that goes on, or the driver, which locks and unlocks a buffer, moves its data
    and sets its flags. The reads and writes of `sync_inodes` inside `sync_dev` are calls like those of
    another task. -/
inductive PoolEvent where
  | find (task : Nat) (caller : Caller) (dev : BitVec 16) (block : BitVec 64)
  | brelse (task : Nat) (i : Nat)
  | turn (task : Nat)
  | driver (i : Nat) (uptodate dirt lock : Bool) (data : Fs.Block)

def Pool.step (e : PoolEvent) (s : Pool) : Option Pool :=
  match e with
  | .find task caller dev block =>
    match s.phase task with
    | .idle => some { s with phase := Function.update s.phase task (.lookup caller dev block) }
    | _ => none
  | .brelse task i =>
    match s.phase task with
    | .idle => some { s with phase := Function.update s.phase task (.releasing i) }
    | _ => none
  | .turn task =>
    (s.cache.turn (s.phase task)).map fun (phase, cache) =>
      { cache, phase := Function.update s.phase task phase }
  | .driver i uptodate dirt lock data =>
    some { s with cache := s.cache.setHead i { s.cache.head i with uptodate, dirt, lock, data } }

/-- Device numbers are not 0. -/
def OnDevice : PoolEvent → Pool → Prop
  | .find _ _ dev _, _ => dev ≠ 0
  | _, _ => True

/-- What a task in a lookup relies on. -/
def Phase.Fits (c : Cache) : Phase → Prop
  | .lookup _ dev _ => dev ≠ 0
  | .found _ dev _ _ => dev ≠ 0
  | .chosen _ dev _ i => dev ≠ 0 ∧ i < c.nrBuffers
  | .syncing _ dev _ i => dev ≠ 0 ∧ i < c.nrBuffers
  | _ => True

/-- The identity of every buffer in use stays. -/
def Held (c c' : Cache) : Prop :=
  ∀ i, 0 < (c.head i).count → (c'.head i).dev = (c.head i).dev ∧ (c'.head i).blocknr = (c.head i).blocknr

theorem Held.refl (c : Cache) : Held c c := fun _ _ => ⟨rfl, rfl⟩

theorem Held.setHead (c : Cache) {i : Nat} {head : BufferHead} (dev : head.dev = (c.head i).dev)
    (block : head.blocknr = (c.head i).blocknr) : Held c (c.setHead i head) := by
  intro j _
  simp only [Cache.setHead, Function.update_apply]
  split
  · rename_i here
    rw [here]
    exact ⟨dev, block⟩
  · exact ⟨rfl, rfl⟩

/-- What one turn of a task keeps. -/
theorem turn_kept {c c' : Cache} {phase phase' : Phase} {order : List Nat} {chain : Nat → List Nat}
    (queues : Queues c order chain) (fits : phase.Fits c) (turned : c.turn phase = some (phase', c')) :
    (∃ order chain, Queues c' order chain) ∧ c'.nrBuffers = c.nrBuffers ∧ Held c c' ∧ phase'.Fits c' := by
  have same (phase : Phase) (fits : phase.Fits c) :
      (∃ order chain, Queues c order chain) ∧ c.nrBuffers = c.nrBuffers ∧ Held c c ∧ phase.Fits c :=
    ⟨⟨order, chain, queues⟩, rfl, .refl c, fits⟩
  have counted (i : Nat) (count : BitVec 8) (phase : Phase) (fits : phase.Fits c) :
      (∃ order chain, Queues (c.setCount i count) order chain) ∧ (c.setCount i count).nrBuffers = c.nrBuffers ∧
        Held c (c.setCount i count) ∧ phase.Fits (c.setCount i count) := by
    refine ⟨⟨order, chain, queues.setHead rfl rfl⟩, rfl, .setHead c rfl rfl, ?_⟩
    cases phase <;> exact fits
  have back (c : Cache) (caller : Caller) (i : Nat) : (c.returned caller i).Fits c := by
    unfold Cache.returned
    split <;> trivial
  cases phase with
  | idle => cases turned
  | lookup caller dev block =>
    simp only [Cache.turn] at turned
    split at turned
    · cases turned
      exact counted _ _ _ fits
    · split at turned
      · cases turned
        exact same .idle trivial
      · split at turned
        · cases turned
          exact same _ fits
        · rename_i i picked
          cases turned
          exact same _ ⟨fits, (queues.pick picked).1⟩
  | found caller dev block i =>
    simp only [Cache.turn] at turned
    split_ifs at turned
    · cases turned
      exact same _ (back c caller i)
    · cases turned
      exact counted _ _ _ fits
  | chosen caller dev block i =>
    simp only [Cache.turn] at turned
    split_ifs at turned with locked counts dirty present
    · cases turned
      exact same _ fits.1
    · cases turned
      exact same _ fits
    · cases turned
      exact same _ fits.1
    · have missing : c.findBuffer dev block = none := by
        cases found : c.findBuffer dev block with
        | none => rfl
        | some i => simp [found] at present
      have new := queues.findBuffer block fits.1
      rw [missing] at new
      rcases queues.assign fits.2 fits.1 new with ⟨c₁, assigned, nr, heads, queues₁⟩
      rw [assigned] at turned
      cases turned
      refine ⟨⟨_, _, queues₁⟩, nr, ?_, back _ caller i⟩
      intro j used
      rw [heads, Function.update_of_ne]
      · exact ⟨rfl, rfl⟩
      · rintro rfl
        rw [not_not.1 counts] at used
        exact absurd used (by decide)
  | syncing caller dev block i =>
    cases turned
    exact same _ fits
  | reading i =>
    simp only [Cache.turn] at turned
    split_ifs at turned
    · cases turned
      exact same .idle trivial
    · cases turned
      exact same (.releasing i) trivial
  | releasing i =>
    simp only [Cache.turn] at turned
    split_ifs at turned
    cases turned
    exact counted _ _ .idle trivial

/-- The queues are in order, and every task is at a point that fits. -/
structure Pool.Sound (s : Pool) : Prop where
  queues : ∃ order chain, Queues s.cache order chain
  fits : ∀ task, (s.phase task).Fits s.cache

theorem Phase.Fits.congr {c c' : Cache} {phase : Phase} (fits : phase.Fits c) (nr : c'.nrBuffers = c.nrBuffers) :
    phase.Fits c' := by
  cases phase <;> simp only [Fits, nr] at fits ⊢ <;> exact fits

theorem Pool.Sound.enter {s : Pool} (sound : s.Sound) (task : Nat) (phase : Phase) (fits : phase.Fits s.cache) :
    Pool.Sound { s with phase := Function.update s.phase task phase } := by
  refine ⟨sound.queues, ?_⟩
  intro other
  simp only [Function.update_apply]
  split
  · exact fits
  · exact sound.fits other

/-- What one step keeps. -/
theorem Pool.Sound.step {s s' : Pool} {e : PoolEvent} (sound : s.Sound) (device : OnDevice e s)
    (stepped : s.step e = some s') : s'.Sound ∧ Held s.cache s'.cache := by
  rcases sound.queues with ⟨order, chain, queues⟩
  cases e with
  | find task caller dev block =>
    simp only [Pool.step] at stepped
    split at stepped
    · cases stepped
      exact ⟨sound.enter task (.lookup caller dev block) device, .refl _⟩
    · cases stepped
  | brelse task i =>
    simp only [Pool.step] at stepped
    split at stepped
    · cases stepped
      exact ⟨sound.enter task (.releasing i) trivial, .refl _⟩
    · cases stepped
  | turn task =>
    simp only [Pool.step, Option.map_eq_some_iff] at stepped
    rcases stepped with ⟨⟨phase, cache⟩, turned, rfl⟩
    rcases turn_kept queues (sound.fits task) turned with ⟨queues', nr, held, fits⟩
    refine ⟨⟨queues', ?_⟩, held⟩
    intro other
    simp only [Function.update_apply]
    split
    · exact fits
    · exact (sound.fits other).congr nr
  | driver i uptodate dirt lock data =>
    cases stepped
    refine ⟨⟨⟨order, chain, queues.setHead rfl rfl⟩, ?_⟩, .setHead _ rfl rfl⟩
    intro task
    exact (sound.fits task).congr rfl

/-- The pool after `buffer_init` made `n` buffers. -/
def Pool.boot (n : Nat) (blocknr : Nat → BitVec 64) (data : Nat → Fs.Block) : Pool where
  cache := bufferInit n blocknr data
  phase := fun _ => .idle

theorem Pool.Sound.boot {n : Nat} (room : 0 < n) (blocknr : Nat → BitVec 64) (data : Nat → Fs.Block) :
    (Pool.boot n blocknr data).Sound :=
  ⟨⟨_, _, bufferInit_queues room blocknr data⟩, fun _ => trivial⟩

/-- However tasks use the cache, its queues stay in order, and no buffer in use changes its block. -/
theorem buffer_queues_kept (n : Nat) (room : 0 < n) (blocknr : Nat → BitVec 64) (data : Nat → Fs.Block) (s : Pool)
    (run : Run Pool.step OnDevice (Pool.boot n blocknr data) s) :
    (∃ order chain, Queues s.cache order chain) ∧
      ∀ e s', OnDevice e s → s.step e = some s' → Held s.cache s'.cache := by
  have sound : s.Sound := run.invariant (Pool.Sound.boot room blocknr data) fun _ _ _ sound device stepped =>
    (sound.step device stepped).1
  exact ⟨sound.queues, fun e s' device stepped => (sound.step device stepped).2⟩

theorem only_buffer_queued :
    ∃ s, Run Pool.step OnDevice (Pool.boot 1 (fun _ => 0) fun _ _ => 0) s ∧
      (s.cache.head 0).dev = 0x0101 ∧ (s.cache.head 0).blocknr = 5 ∧ (s.cache.head 0).count = 1 ∧
      (∃ order chain, Queues s.cache order chain) ∧
      ∀ e s', OnDevice e s → s.step e = some s' → Held s.cache s'.cache := by
  have device : OnDevice (.find 0 .getblk 0x0101 5) (Pool.boot 1 (fun _ => 0) fun _ _ => 0) := by
    change (0x0101 : BitVec 16) ≠ 0
    decide
  have booted : Run Pool.step OnDevice (Pool.boot 1 (fun _ => 0) fun _ _ => 0)
      (Pool.boot 1 (fun _ => 0) fun _ _ => 0) := .start
  have asked := booted.next device rfl
  have chose := Run.next (e := PoolEvent.turn 0) asked trivial rfl
  have took := Run.next (e := PoolEvent.turn 0) chose trivial rfl
  exact ⟨_, took, rfl, rfl, rfl, buffer_queues_kept 1 (by decide) _ _ _ took⟩

end K210Linux.Buffer
