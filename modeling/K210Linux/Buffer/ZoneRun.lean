import K210Linux.Buffer.ZoneMap

namespace K210Linux.Buffer

open Outcome K210Linux.Lib
open K210Linux.Fs

/-- A device and the zones in use. -/
structure ZoneUse where
  device : Device
  used : Set Nat

/-- A call of `new_block` or `free_block`, or other work on the buffers in between. -/
inductive ZoneEvent where
  | newBlock (fuel : Nat)
  | freeBlock (z : Nat)
  | others (drive : Drive)

def ZoneUse.step (e : ZoneEvent) (s : ZoneUse) : Option ZoneUse :=
  match e with
  | .newBlock fuel =>
    match s.device.newBlock fuel with
    | .ok (z, device) => some { device, used := if z = 0 then s.used else insert z s.used }
    | .error _ => none
  | .freeBlock z =>
    match s.device.freeBlock z with
    | .ok device => some { device, used := s.used \ {z} }
    | .error _ => none
  | .others drive => some { s with device := { s.device with drive } }

/-- Only zones in use are freed, and the other users of the cache hold no buffers of zones. -/
def ZoneEvent.Proper (e : ZoneEvent) (s : ZoneUse) : Prop :=
  match e with
  | .newBlock _ => True
  | .freeBlock z => z ∈ s.used
  | .others drive => Linked drive ∧ Unheld { s.device with drive }

/-- What the bitmap and the cache keep: a zone other than 0 is in use just when its bit is set. -/
structure Accounted (s : ZoneUse) : Prop where
  first : mapBit s.device.sb.zmap 0 = true
  linked : Linked s.device.drive
  unheld : Unheld s.device
  used : ∀ z, z ∈ s.used ↔ z ≠ 0 ∧ InZones s.device z ∧ zoneBit s.device z = true

variable {s s' : ZoneUse} {z fuel : Nat}

/-- A call of `new_block` that returned. -/
structure Allocated (s s' : Device) (z : Nat) : Prop where
  sizes : s'.sb.firstdatazone = s.sb.firstdatazone ∧ s'.sb.nzones = s.sb.nzones
  intact : Intact s.drive s'.drive
  first : mapBit s'.sb.zmap 0 = true
  zone : z ≠ 0 → InZones s z ∧ zoneBit s z = false ∧ zoneBit s' z = true ∧ Zeroed s'.drive z
  bits : z ≠ 0 → ∀ n, n ≠ z + 1 - s.sb.firstdatazone.toNat → mapBit s'.sb.zmap n = mapBit s.sb.zmap n
  others : ∀ z', InZones s z' → z' ≠ z → zoneBit s' z' = zoneBit s z'

/-- The other zones of the device keep their bits. -/
theorem bitTaken_others {s : Device} {zmap : Nat → Option MapBlock} {n z' : Nat} (marked : BitTaken s.maps zmap n)
    (zone : InZones s z') (apart : z' + 1 - s.sb.firstdatazone.toNat ≠ n) :
    mapBit zmap (z' + 1 - s.sb.firstdatazone.toNat) = zoneBit s z' := by
  rw [marked.bits, decide_eq_false apart, Bool.or_false]
  rfl

theorem newBlock_allocated {s s' : Device} (first : mapBit s.sb.zmap 0 = true) (linked : Linked s.drive)
    (unheld : Unheld s) (call : s.newBlock fuel = .ok (z, s')) : Allocated s s' z := by
  have took := newBlock_taking s fuel
  rw [call] at took
  generalize reply : (Except.ok (z, s') : Except Halt (Nat × Device)) = result at took
  cases took with
  | halted next => cases reply
  | full aligned =>
    cases reply
    exact ⟨⟨rfl, rfl⟩, ⟨linked, .refl _⟩, first, fun some => absurd rfl some, fun some => absurd rfl some, fun _ _ _ => rfl⟩
  | @behind n zmap marked outside =>
    cases reply
    have stillFirst : mapBit zmap 0 = true := by
      rw [marked.bits]
      exact Bool.or_eq_true_iff.mpr (.inl first)
    refine ⟨⟨rfl, rfl⟩, ⟨linked, .refl _⟩, stillFirst, fun some => absurd rfl some, fun some => absurd rfl some, ?_⟩
    intro z' zone _
    apply bitTaken_others marked zone
    have low := zone.1
    have below := zone.2
    omega
  | @taken n z₁ zmap marked zone inside =>
    have positive := marked.positive first
    have number : z₁ + 1 - s.sb.firstdatazone.toNat = n := by omega
    have stillFirst : mapBit zmap 0 = true := by
      rw [marked.bits]
      exact Bool.or_eq_true_iff.mpr (.inl first)
    let taken : Device := { s with sb.zmap := zmap }
    have inZones : InZones taken z₁ := ⟨(by omega : s.sb.firstdatazone.toNat ≤ z₁), inside⟩
    have unheld' : Unheld taken := unheld
    change Except.ok (z, s') = taken.takeZone fuel z₁ at reply
    cases got : taken.drive.getblk fuel ramdisk (BitVec.ofNat 64 z₁) with
    | error halt =>
      rw [Device.takeZone, got] at reply
      cases reply
    | ok buffer =>
      rcases buffer with ⟨i, drive⟩
      rcases takeZone_spec (s := taken) linked unheld' inZones got with ⟨drive', done, intact, zeroed⟩
      rw [done] at reply
      cases reply
      have clear : zoneBit s z = false := by
        rw [zoneBit, number]
        exact marked.clear
      have set : mapBit zmap (z + 1 - s.sb.firstdatazone.toNat) = true := by
        rw [number, marked.bits, decide_eq_true rfl, Bool.or_true]
      refine ⟨⟨rfl, rfl⟩, intact, stillFirst, fun _ => ⟨inZones, clear, set, zeroed⟩, ?_, ?_⟩
      · intro _ m apart
        rw [number] at apart
        change mapBit zmap m = _
        rw [marked.bits, decide_eq_false apart, Bool.or_false]
        rfl
      · intro z' zone' apart
        apply bitTaken_others marked zone'
        have low := zone'.1
        omega

/-- Why a call of `new_block` does not return. -/
theorem newBlock_foreign_iff {s : Device} (first : mapBit s.sb.zmap 0 = true) (linked : Linked s.drive)
    (unheld : Unheld s) : (∀ halt, s.newBlock fuel = .error halt → Foreign halt) ↔ ¬ NextHalts s.sb := by
  have took := newBlock_taking s fuel
  generalize s.newBlock fuel = result at took
  cases took with
  | halted next => exact iff_of_false (fun foreign => (foreign _ rfl).1 rfl) (not_not_intro next)
  | full aligned =>
    refine iff_of_true ?_ aligned
    intro halt failed
    cases failed
  | behind marked outside =>
    refine iff_of_true ?_ marked.not_nextHalts
    intro halt failed
    cases failed
  | @taken n z zmap marked zone inside =>
    have positive := marked.positive first
    refine iff_of_true ?_ marked.not_nextHalts
    intro halt failed
    let taken : Device := { s with sb.zmap := zmap }
    change taken.takeZone fuel z = _ at failed
    cases got : taken.drive.getblk fuel ramdisk (BitVec.ofNat 64 z) with
    | error halt' =>
      rw [Device.takeZone, got] at failed
      cases failed
      exact getblk_foreign (syncDev_foreign fuel) got
    | ok buffer =>
      rcases buffer with ⟨i, drive⟩
      have inZones : InZones taken z := ⟨(by omega : s.sb.firstdatazone.toNat ≤ z), inside⟩
      have unheld' : Unheld taken := unheld
      rcases takeZone_spec (s := taken) linked unheld' inZones got with ⟨drive', done, -, -⟩
      rw [done] at failed
      cases failed

theorem step_accounted {e : ZoneEvent} (accounted : Accounted s) (proper : e.Proper s)
    (stepped : ZoneUse.step e s = some s') : Accounted s' := by
  rcases accounted with ⟨first, linked, unheld, used⟩
  cases e with
  | newBlock fuel =>
    simp only [ZoneUse.step] at stepped
    split at stepped
    · rename_i z device call
      cases stepped
      have allocated := newBlock_allocated first linked unheld call
      have zones (z' : Nat) : InZones device z' ↔ InZones s.device z' := by
        rw [InZones, InZones, allocated.sizes.1, allocated.sizes.2]
      refine ⟨allocated.first, allocated.intact.1, ?_, ?_⟩
      · intro i inside dev zone
        exact unheld.steady allocated.intact.2 i inside dev ((zones _).1 zone)
      · intro z'
        rw [zones]
        by_cases here : z' = z
        · subst z'
          by_cases zero : z = 0
          · simp only [zero, if_true, used, ne_eq, not_true_eq_false, false_and]
          · rcases allocated.zone zero with ⟨zone, -, set, -⟩
            simp only [zero, if_false, Set.mem_insert_iff, true_or, ne_eq, not_false_eq_true, zone, set, and_self]
        · have same : z' ∈ (if z = 0 then s.used else insert z s.used) ↔ z' ∈ s.used := by
            split
            · exact .rfl
            · simp only [Set.mem_insert_iff, here, false_or]
          rw [same, used]
          constructor
          · rintro ⟨positive, zone, set⟩
            exact ⟨positive, zone, (allocated.others z' zone here).trans set⟩
          · rintro ⟨positive, zone, set⟩
            exact ⟨positive, zone, (allocated.others z' zone here).symm.trans set⟩
    · cases stepped
  | freeBlock z =>
    have inUse : z ∈ s.used := proper
    rcases (used z).1 inUse with ⟨-, zone, marked⟩
    simp only [ZoneUse.step] at stepped
    split at stepped
    case h_2 => cases stepped
    rename_i device call
    cases stepped
    have aligned := freeBlock_aligned linked unheld zone call
    rcases freeBlock_spec linked unheld zone marked aligned with ⟨device', call', intact, firstdatazone, nzones, bits⟩
    obtain rfl := Except.ok.inj (call.symm.trans call')
    have zones (z' : Nat) : InZones device z' ↔ InZones s.device z' := by
      rw [InZones, InZones, firstdatazone, nzones]
    refine ⟨?_, intact.1, ?_, ?_⟩
    · have low := zone.1
      have apart : 0 ≠ z + 1 - s.device.sb.firstdatazone.toNat := by omega
      rw [bits, first, decide_eq_true apart]
      rfl
    · intro i inside dev inZones
      exact unheld.steady intact.2 i inside dev ((zones _).1 inZones)
    · intro z'
      have bit : zoneBit device z' = true ↔ zoneBit s.device z' = true ∧
          z' + 1 - s.device.sb.firstdatazone.toNat ≠ z + 1 - s.device.sb.firstdatazone.toNat := by
        rw [zoneBit, bits, firstdatazone, Bool.and_eq_true, decide_eq_true_eq, zoneBit]
      rw [zones, bit, Set.mem_sdiff, Set.mem_singleton_iff, used]
      constructor
      · rintro ⟨⟨positive, zone', set⟩, other⟩
        refine ⟨positive, zone', set, ?_⟩
        have low := zone.1
        have low' := zone'.1
        omega
      · rintro ⟨positive, zone', set, apart⟩
        refine ⟨⟨positive, zone', set⟩, ?_⟩
        rintro rfl
        exact apart rfl
  | others drive =>
    cases stepped
    exact ⟨first, proper.1, proper.2, used⟩

/-- The zones marked in the bitmap of a device that was mounted. -/
def markedZones (s : Device) : Set Nat := { z | z ≠ 0 ∧ InZones s z ∧ zoneBit s z = true }

/-- Zones are allocated and freed without mixing them up, as far as their bits can be reached. -/
theorem zone_allocation_safe {start : Device} (first : mapBit start.sb.zmap 0 = true) (linked : Linked start.drive)
    (unheld : Unheld start) (run : Run ZoneUse.step ZoneEvent.Proper ⟨start, markedZones start⟩ s) :
    (∀ fuel z device, s.device.newBlock fuel = .ok (z, device) → z ≠ 0 →
      InZones s.device z ∧ zoneBit s.device z = false ∧ zoneBit device z = true ∧ z ∉ s.used ∧ Zeroed device.drive z ∧
      ∀ n, n ≠ z + 1 - s.device.sb.firstdatazone.toNat → mapBit device.sb.zmap n = mapBit s.device.sb.zmap n) ∧
    (∀ fuel z device, s.device.newBlock fuel = .ok (z, device) →
      ∀ z', InZones s.device z' → z' ≠ z → zoneBit device z' = zoneBit s.device z') ∧
    (∀ fuel, (∀ halt, s.device.newBlock fuel = .error halt → Foreign halt) ↔ ¬ NextHalts s.device.sb) ∧
    ∀ z ∈ s.used, (∃ device, s.device.freeBlock z = .ok device ∧
      ∀ n, mapBit device.sb.zmap n =
        (mapBit s.device.sb.zmap n && decide (n ≠ z + 1 - s.device.sb.firstdatazone.toNat))) ↔
      BitAligned (z + 1 - s.device.sb.firstdatazone.toNat) := by
  have accounted : Accounted s := by
    refine run.invariant (I := Accounted) ⟨first, linked, unheld, fun _ => .rfl⟩ ?_
    intro e s s' before proper stepped
    exact step_accounted before proper stepped
  rcases accounted with ⟨first, linked, unheld, used⟩
  refine ⟨?_, ?_, ?_, ?_⟩
  · intro fuel z device call some
    have allocated := newBlock_allocated first linked unheld call
    rcases allocated.zone some with ⟨zone, clear, set, zeroed⟩
    refine ⟨zone, clear, set, ?_, zeroed, allocated.bits some⟩
    intro inUse
    have marked := ((used z).1 inUse).2.2
    rw [clear] at marked
    cases marked
  · intro fuel z device call
    exact (newBlock_allocated first linked unheld call).others
  · exact fun fuel => newBlock_foreign_iff first linked unheld
  · intro z inUse
    rcases (used z).1 inUse with ⟨-, zone, marked⟩
    constructor
    · rintro ⟨device, call, -⟩
      exact freeBlock_aligned linked unheld zone call
    · intro aligned
      rcases freeBlock_spec linked unheld zone marked aligned with ⟨device, call, -, -, -, bits⟩
      exact ⟨device, call, bits⟩

/-- A device with one zone bitmap, and the data zones 5 to 7. -/
def threeZones : Device where
  drive := oneBuffer.drive
  sb := {
    ninodes := 32, nzones := 8, imapBlocks := 1, zmapBlocks := 1, firstdatazone := 5, dev := ramdisk
    imap := fun _ => none
    zmap := fun i => if i = 0 then some ⟨fun k => if k = 0 then 3 else 0, false⟩ else none }

theorem threeZones_linked : Linked threeZones.drive := ⟨_, _, bufferInit_queues (by decide) _ _⟩

theorem third_zone_allocated :
    ∃ device, threeZones.newBlock 3 = .ok (6, device) ∧ zoneBit threeZones 6 = false ∧ zoneBit device 6 = true ∧
      Zeroed device.drive 6 := by
  have unheld : Unheld threeZones := fun _ _ _ _ => rfl
  have safe := (zone_allocation_safe (show mapBit threeZones.sb.zmap 0 = true by decide) threeZones_linked unheld
    .start).1
  have returns : (match threeZones.newBlock 3 with | .ok (z, _) => z == 6 | .error _ => false) = true := by decide +kernel
  split at returns
  · rename_i z device call
    have six : z = 6 := by simpa using returns
    subst z
    rcases safe 3 6 device call (by decide) with ⟨-, clear, set, -, zeroed, -⟩
    exact ⟨device, call, clear, set, zeroed⟩
  · cases returns

/-- The same device with ten data zones, of which the first eight are in use. -/
def eightUsed : Device where
  drive := threeZones.drive
  sb := { threeZones.sb with
    nzones := 15
    zmap := fun i => if i = 0 then some ⟨fun k => if k = 0 then 0xFF else if k = 1 then 1 else 0, false⟩ else none }

/-- The bit of zone 12 is bit 8, and the next one that `new_block` comes to is bit 9. -/
theorem misaligned_zone_halts : mapBit eightUsed.sb.zmap 0 = true ∧ Linked eightUsed.drive ∧ Unheld eightUsed ∧
    12 ∈ markedZones eightUsed ∧ eightUsed.freeBlock 12 = .error (.exception misaligned) ∧
    eightUsed.newBlock 3 = .error (.exception misaligned) :=
  ⟨by decide, threeZones_linked, fun _ _ _ _ => rfl, ⟨by decide, ⟨by decide, by decide⟩, by decide⟩, rfl, rfl⟩

end K210Linux.Buffer
