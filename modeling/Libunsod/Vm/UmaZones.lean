import Libunsod.Vm.UmaContents

/-!
Zones, slots and caches over all interleavings. As long as no constructor chooses the slot
of another one that has not marked it, every zone has a slot of its own and a thread's
cache never has items of two zones.
-/

namespace Libunsod.Vm

open Runs Uma
open Function (update_of_ne update_self)
open Uma

variable {uma next : Uma}

variable {zone : Nat}

variable {thread number : Nat}

structure Uma.Inv (uma : Uma) : Prop where
  slots : uma.Slots
  contents : uma.Contents

def Uma.OwnItems (uma : Uma) (thread number : Nat) : Prop :=
  ∀ slot, uma.threads thread = .exiting slot →
    ∀ item ∈ (uma.caches thread (uma.zones number).cacheidx).items, item.zone = number

def Uma.Apart (uma : Uma) : UmaStep → Prop
  | .choose _ => uma.Undisturbed
  | .freeFast thread zone _ | .freeLocked thread zone => uma.OwnItems thread zone
  | _ => True

theorem Uma.Inv.accessible (inv : uma.Inv) (may : (uma.threads thread).MayFree)
    (live : (uma.zones number).phase = .live) (own : uma.OwnItems thread number) :
    Accessible number (uma.caches thread (uma.zones number).cacheidx) (uma.zones number) := by
  refine ⟨fun item member => ?_, inv.contents.stocks number⟩
  cases phase : uma.threads thread with
  | unborn =>
    rw [phase] at may
    exact may.elim
  | running => exact inv.contents.own inv.slots phase live (.inr ⟨item, member, rfl⟩)
  | exiting slot => exact own slot phase item member

theorem Uma.Inv.access (inv : uma.Inv) {run : UmaCache → Zone → Access}
    (may : (uma.threads thread).MayFree) (live : (uma.zones number).phase = .live)
    (own : uma.OwnItems thread number)
    (ok : ∀ cache zone, Accessible number cache zone → (run cache zone).Ok number cache zone) :
    (uma.access thread number run).Inv := by
  have holds := ok _ _ (inv.accessible may live own)
  refine ⟨?_, inv.contents.access inv.slots may live holds⟩
  have moved := inv.slots.keep (by rw [holds.phase]; exact id) (by rw [holds.phase]) holds.cacheidx
    (fun still => holds.phase.symm.trans still)
  exact { moved with }

theorem Uma.Inv.advance (inv : uma.Inv) {zone : Zone} (owns : (uma.zones number).phase.Owns)
    (stillOwns : zone.phase.Owns) (cacheidx : zone.cacheidx = (uma.zones number).cacheidx)
    (live : zone.phase = .live → (uma.zones number).phase = .live)
    (holding : ∀ thread ∈ uma.tlsList, (uma.zones number).phase.Holding thread →
      zone.phase.Holding thread) (stocks : zone.Stocks number) : (uma.setZone number zone).Inv := by
  exact ⟨inv.slots.keep (fun _ => owns.allocated) (iff_of_true owns stillOwns) cacheidx live,
    inv.contents.setZone (fun thread listed _ holds => ⟨holding thread listed holds, cacheidx⟩)
      stocks⟩

theorem Uma.Contents.unheld (contents : uma.Contents) {after : Zone}
    (full : after.fullBucket = (uma.zones number).fullBucket)
    (free : after.freeBucket = (uma.zones number).freeBucket)
    (none : ∀ thread, ¬ (uma.zones number).phase.Holding thread) :
    (uma.setZone number after).Contents := by
  refine contents.setZone (fun thread _ _ holds => absurd holds (none thread)) ?_
  rw [Zone.Stocks, full, free]
  exact contents.stocks number

theorem Uma.Inv.choose (inv : uma.Inv) (unborn : (uma.zones zone).phase = .unborn)
    (undisturbed : uma.Undisturbed) : (uma.zoneCtorChoose zone).Inv := by
  refine ⟨inv.slots.choose unborn undisturbed, ?_⟩
  have none : ∀ thread, ¬ (uma.zones zone).phase.Holding thread := by
    intro thread
    rw [unborn]
    exact id
  unfold zoneCtorChoose
  split
  · exact inv.contents.unheld rfl rfl none
  · exact inv.contents.unheld rfl rfl none

theorem Uma.Inv.unmarked (inv : uma.Inv) (chosen : (uma.zones zone).phase = .chosen) :
    (uma.setPhase zone .dead).Inv ∧ (uma.zoneCtorMark zone).Inv := by
  have moved : ∀ phase, (uma.setPhase zone phase).Contents := by
    refine fun phase => inv.contents.unheld rfl rfl fun thread => ?_
    rw [chosen]
    exact id
  refine ⟨⟨inv.slots.kill ?_, moved .dead⟩, inv.slots.mark chosen, { moved .live with }⟩
  rw [chosen]
  exact id

theorem Uma.Inv.destroy (inv : uma.Inv) (live : (uma.zones zone).phase = .live) :
    (uma.zoneDtorFlag zone).Inv := by
  have moved : (uma.setPhase zone .inDtor).Contents :=
    inv.contents.setZone (fun _ _ _ _ => ⟨trivial, rfl⟩) (inv.contents.stocks zone)
  exact ⟨inv.slots.destroy live, { moved with }⟩

theorem Uma.Inv.release (inv : uma.Inv) (drained : (uma.zones zone).phase = .bucketsDrained) :
    (uma.zoneDtorRelease zone).Inv := by
  have moved : (uma.setPhase zone .dead).Contents := by
    refine inv.contents.unheld rfl rfl fun thread => ?_
    rw [drained]
    exact id
  exact ⟨inv.slots.release drained, { moved with }⟩

theorem Uma.Inv.drainEnter (inv : uma.Inv) (inDtor : (uma.zones zone).phase = .inDtor) :
    ({ uma.setPhase zone (.draining uma.tlsList) with listBusy := true } : Uma).Inv := by
  have owns : (uma.zones zone).phase.Owns := by
    rw [inDtor]
    trivial
  have moved : (uma.setPhase zone (.draining uma.tlsList)).Inv :=
    inv.advance owns trivial rfl (by rintro ⟨⟩) (fun _ listed _ => listed)
      (inv.contents.stocks zone)
  exact ⟨{ moved.slots with }, { moved.contents with }⟩

theorem Uma.Inv.drainNext (inv : uma.Inv) {rest : List Nat}
    (draining : (uma.zones zone).phase = .draining (thread :: rest)) :
    ((uma.cacheDrainOne zone thread).setPhase zone (.draining rest)).Inv := by
  refine ⟨?_, inv.contents.drainOne draining⟩
  have drained : (uma.cacheDrainOne zone thread).Slots := { inv.slots with }
  have phase : ((uma.cacheDrainOne zone thread).zones zone).phase = .draining (thread :: rest) :=
    draining
  rw [setPhase]
  refine drained.keep (fun _ => ?_) ?_ rfl (by rintro ⟨⟩)
  · rw [phase]
    rfl
  · rw [phase]
    exact Iff.rfl

theorem Uma.Inv.drainExit (inv : uma.Inv) (draining : (uma.zones zone).phase = .draining []) :
    ({ uma.setPhase zone .cachesDrained with listBusy := false } : Uma).Inv := by
  have owns : (uma.zones zone).phase.Owns := by
    rw [draining]
    trivial
  have moved : (uma.setPhase zone .cachesDrained).Inv := by
    refine inv.advance owns trivial rfl (by rintro ⟨⟩) (fun thread _ holds => ?_)
      (inv.contents.stocks zone)
    rw [draining] at holds
    cases holds
  exact ⟨{ moved.slots with }, { moved.contents with }⟩

theorem Uma.Inv.fill (inv : uma.Inv) (live : (uma.zones zone).phase = .live) (entries : Nat)
    (addresses : List Nat) : (uma.zoneAllocBucket zone entries addresses).Inv := by
  obtain ⟨bucketItems, stocks, phase, cacheidx⟩ := (inv.contents.stocks zone).takeFree entries
  have owns : (uma.zones zone).phase.Owns := by
    rw [live]
    trivial
  have kept : ∀ next : Zone, next.phase = (uma.zones zone).phase →
      next.cacheidx = (uma.zones zone).cacheidx → next.Stocks zone →
      (uma.setZone zone next).Inv := by
    intro next samePhase sameSlot nextStocks
    refine inv.advance owns (by rw [samePhase]; exact owns) sameSlot (fun _ => live)
      (fun thread _ holds => ?_) nextStocks
    rw [samePhase]
    exact holds
  unfold zoneAllocBucket
  dsimp only
  split
  · exact kept _ phase cacheidx stocks
  · refine kept _ phase cacheidx (stocks.addFull fun item member => ?_)
    rcases List.mem_append.mp member with new | old
    · obtain ⟨address, -, rfl⟩ := List.mem_map.mp new
      rfl
    · exact bucketItems item old

theorem Uma.Inv.step {step : UmaStep} (inv : uma.Inv) (move : umaMove uma step next)
    (apart : uma.Apart step) : next.Inv := by
  obtain ⟨enabled, rfl⟩ := move
  have runs : ∀ {thread : Nat} (zone : Nat), uma.threads thread = .running →
      (uma.threads thread).MayFree ∧ uma.OwnItems thread zone := by
    intro thread zone running
    rw [Uma.OwnItems, running]
    exact ⟨trivial, by rintro _ ⟨⟩⟩
  have emptied : ∀ zone : Nat, Zone.Stocks { uma.zones zone with fullBucket := [], freeBucket := [] }
      zone := fun _ _ member => by cases member
  cases step with
  | choose zone => exact inv.choose enabled apart
  | kegFail zone => exact (inv.unmarked enabled).1
  | mark zone => exact (inv.unmarked enabled).2
  | destroy zone => exact inv.destroy enabled
  | drainEnter zone => exact inv.drainEnter enabled.1
  | drainNext zone =>
    obtain ⟨thread, rest, draining⟩ := enabled
    simp only [Uma.step, draining]
    exact inv.drainNext draining
  | drainExit zone => exact inv.drainExit enabled
  | bucketDrain zone =>
    have phase : (uma.zones zone).phase = .cachesDrained := enabled
    refine inv.advance (by rw [phase]; trivial) trivial rfl (by rintro ⟨⟩) ?_ (emptied zone)
    intro thread _ holds
    rw [phase] at holds
    exact holds.elim
  | release zone => exact inv.release enabled
  | reclaim zone =>
    have phase : (uma.zones zone).phase = .live := enabled
    exact inv.advance (by rw [phase]; trivial) trivial rfl (fun _ => phase) (fun _ _ _ => trivial)
      (emptied zone)
  | threadStart thread =>
    exact ⟨{ inv.slots with }, inv.contents.threadStart enabled.1⟩
  | threadExit thread =>
    exact ⟨{ inv.slots with }, inv.contents.threadExit thread⟩
  | threadDrain thread =>
    obtain ⟨slot, -, exiting⟩ := enabled
    simp only [Uma.step, exiting]
    refine ⟨?_, inv.contents.threadDrain exiting⟩
    rcases tlsDrainOne_cases uma thread slot with same | ⟨number, same⟩
    · rw [same]
      exact { inv.slots with }
    · rw [same]
      exact { inv.slots with }
  | allocFast thread zone =>
    obtain ⟨may, own⟩ := runs zone enabled.1
    exact inv.access may enabled.2 own fun _ _ accessible => accessible.allocFast
  | allocLocked thread zone =>
    obtain ⟨may, own⟩ := runs zone enabled.1
    exact inv.access may enabled.2 own fun _ _ accessible => accessible.allocLocked
  | fill zone entries addresses => exact inv.fill enabled entries addresses
  | freeFast thread zone address =>
    exact inv.access enabled.1 enabled.2 apart fun _ _ accessible => accessible.freeFast rfl
  | freeLocked thread zone =>
    exact inv.access enabled.1 enabled.2 apart fun _ _ accessible => accessible.freeLocked
  | freeBucket zone entries =>
    have phase : (uma.zones zone).phase = .live := enabled
    have stocks : ((uma.zones zone).addFree (some ⟨entries, []⟩)).Stocks zone :=
      (inv.contents.stocks zone).addFree (by rintro _ ⟨⟩)
    have owns : (uma.zones zone).phase.Owns := by
      rw [phase]
      trivial
    exact inv.advance owns owns rfl (fun _ => phase) (fun _ _ holds => holds) stocks

structure Uma.Separated (uma : Uma) : Prop where
  distinct : ∀ zone other, (uma.zones zone).phase.Owns → (uma.zones other).phase.Owns →
    zone ≠ other → (uma.zones zone).cacheidx ≠ (uma.zones other).cacheidx
  bound : ∀ zone, (uma.zones zone).phase.Owns → (uma.zones zone).cacheidx < umaCacheTableSlots
  flagged : ∀ slot, (uma.slotFlags slot).inuse = true ↔
    ∃ zone, (uma.zones zone).phase.Owns ∧ (uma.zones zone).cacheidx = slot
  counted : ∃ owned : List Nat, owned.Nodup ∧
    (∀ slot, slot ∈ owned ↔ ∃ zone, (uma.zones zone).phase.Owns ∧
      (uma.zones zone).cacheidx = slot) ∧
    owned.length ≤ umaCacheTableSlots ∧
    uma.slotsAvailable = umaCacheTableSlots - owned.length
  single : ∀ thread slot, ∀ item ∈ (uma.caches thread slot).items,
    ∀ other ∈ (uma.caches thread slot).items, item.zone = other.zone

theorem Uma.Inv.separated (inv : uma.Inv) : uma.Separated := by
  obtain ⟨owned, nodup, member, count⟩ := inv.slots.counted
  refine ⟨fun zone other owns alsoOwns different same => ?_, fun zone owns => ?_,
    inv.slots.flagged, ⟨owned, nodup, fun slot => ?_, by omega, by omega⟩, inv.contents.single⟩
  · exact different (inv.slots.distinct zone other owns.allocated alsoOwns.allocated same)
  · exact inv.slots.bound zone owns.allocated
  · rw [member, inv.slots.flagged]

def apartMove (uma : Uma) (step : UmaStep) (next : Uma) : Prop :=
  umaMove uma step next ∧ uma.Apart step

/-- Every zone has a slot of its own and no cache holds items of two zones. -/
theorem umaZones_separated {labels : List UmaStep} {uma : Uma}
    (run : Run apartMove start labels uma) : uma.Separated := by
  have inv : uma.Inv := run.invariant Inv ⟨slots_start, contents_start⟩
    fun _ _ _ inv move => inv.step move.1 move.2
  exact inv.separated

theorem umaZones_two_zones :
    ∃ uma, Run apartMove start [.choose 0, .mark 0, .choose 1, .mark 1] uma ∧
      (uma.zones 0).cacheidx = 0 ∧ (uma.zones 1).cacheidx = 1 ∧ uma.slotsAvailable = 254 ∧
      uma.Separated := by
  have undisturbed : ((start.step (.choose 0)).step (.mark 0)).Undisturbed := by
    intro zone chosen
    by_cases first : zone = 0
    · rw [first] at chosen
      cases chosen
    · simp [Uma.step, zoneCtorMark, zoneCtorChoose, setFlags, setPhase,
        setZone, start, umaCacheTableSlots, first] at chosen
  have run : Run apartMove start [.choose 0, .mark 0, .choose 1, .mark 1] _ :=
    Allowed.run_and ⟨⟨rfl, by rintro _ ⟨⟩⟩, ⟨rfl, trivial⟩, ⟨rfl, undisturbed⟩, ⟨rfl, trivial⟩,
      trivial⟩
  exact ⟨_, run, rfl, rfl, rfl, umaZones_separated run⟩

theorem umaZones_shared_slot :
    ∃ uma, Run umaMove start [.choose 0, .choose 1, .mark 0, .mark 1, .threadStart 0,
        .freeLocked 0 0, .freeBucket 0 16, .freeLocked 0 0, .freeFast 0 0 5, .freeFast 0 1 6] uma ∧
      (uma.zones 0).phase = .live ∧ (uma.zones 1).phase = .live ∧
      (uma.zones 0).cacheidx = (uma.zones 1).cacheidx ∧
      uma.slotsAvailable = umaCacheTableSlots - 2 ∧
      (uma.caches 0 0).items = [⟨1, 6⟩, ⟨0, 5⟩] := by
  exact ⟨_, Allowed.run ⟨rfl, rfl, rfl, rfl, ⟨rfl, rfl⟩, ⟨trivial, rfl⟩, rfl, ⟨trivial, rfl⟩,
    ⟨trivial, rfl⟩, ⟨trivial, rfl⟩, trivial⟩, rfl, rfl, rfl, rfl, rfl⟩

end Libunsod.Vm
