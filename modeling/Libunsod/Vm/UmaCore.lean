import Libunsod.Base.Runs
import Mathlib.Data.List.Nodup
import Mathlib.Logic.Function.Basic

/-!
The zones of `uma_core.c` with per-thread caches. A zone that is not internal has a slot
of every thread's table of caches: `zone_ctor` chooses it in one section under `uma_mtx`
and marks it in a later one, and `zone_dtor` gives it back. Every section under a lock is
a step, as is every access of a thread to its own cache. A zone or thread number stands
for one creation, so it is not used again.
-/

namespace Libunsod.Vm

open Function (update)

def umaCacheTableSlots : Nat := 256

structure Item where
  zone : Nat
  address : Nat
  deriving DecidableEq

structure Bucket where
  entries : Nat
  items : List Item

structure UmaCache where
  freebucket : Option Bucket
  allocbucket : Option Bucket
  zone : Option Nat

inductive ZonePhase where
  | unborn
  | chosen
  | live
  | inDtor
  | draining (rest : List Nat)
  | cachesDrained
  | bucketsDrained
  | dead

def ZonePhase.allocated : ZonePhase → Bool
  | .unborn | .dead => false
  | _ => true

structure Zone where
  phase : ZonePhase
  cacheidx : Nat
  fullBucket : List Bucket
  freeBucket : List Bucket

structure SlotFlags where
  inuse : Bool
  indtor : Bool

inductive ThreadPhase where
  | unborn
  | running
  | exiting (slot : Nat)

/-- An exiting thread frees items when the `uz_fini` of a zone whose slot it drains does. -/
def ThreadPhase.MayFree : ThreadPhase → Prop
  | .unborn => False
  | .running => True
  | .exiting slot => slot < umaCacheTableSlots

structure Return where
  zone : Nat
  item : Item
  alive : Bool

structure Ledger where
  entered : List Item
  left : List Item
  returned : List Return

structure Uma where
  slotFlags : Nat → SlotFlags
  slotsAvailable : Nat
  zones : Nat → Zone
  threads : Nat → ThreadPhase
  tlsList : List Nat
  listBusy : Bool
  caches : Nat → Nat → UmaCache
  ledger : Nat → Nat → Ledger

def bucketItems : Option Bucket → List Item
  | none => []
  | some bucket => bucket.items

def Zone.addFree (zone : Zone) : Option Bucket → Zone
  | none => zone
  | some bucket => { zone with freeBucket := bucket :: zone.freeBucket }

def Zone.addFull (zone : Zone) : Option Bucket → Zone
  | none => zone
  | some bucket => { zone with fullBucket := bucket :: zone.fullBucket }

def Zone.takeFree (zone : Zone) (entries : Nat) : Bucket × Zone :=
  match zone.freeBucket with
  | [] => (⟨entries, []⟩, zone)
  | bucket :: rest => (bucket, { zone with freeBucket := rest })

namespace UmaCache

def empty : UmaCache := ⟨none, none, none⟩

def items (cache : UmaCache) : List Item :=
  bucketItems cache.freebucket ++ bucketItems cache.allocbucket

end UmaCache

structure Access where
  cache : UmaCache
  zone : Zone
  entered : List Item
  left : List Item

namespace Access

def unchanged (cache : UmaCache) (zone : Zone) : Access := ⟨cache, zone, [], []⟩

def allocFast (cache : UmaCache) (zone : Zone) : Access :=
  match cache.allocbucket with
  | none => unchanged cache zone
  | some bucket =>
      match bucket.items with
      | item :: rest =>
          ⟨{ cache with allocbucket := some { bucket with items := rest } }, zone, [], [item]⟩
      | [] =>
          match cache.freebucket with
          | none => unchanged cache zone
          | some other =>
              match other.items with
              | [] => unchanged cache zone
              | item :: rest =>
                  ⟨{ cache with
                      freebucket := some bucket
                      allocbucket := some { other with items := rest } }, zone, [], [item]⟩

def refill (cache : UmaCache) (zone : Zone) : Access :=
  let given := zone.addFree cache.allocbucket
  match given.fullBucket with
  | [] => ⟨{ cache with allocbucket := none }, given, [], bucketItems cache.allocbucket⟩
  | bucket :: rest =>
      ⟨{ cache with allocbucket := some bucket }, { given with fullBucket := rest },
        bucket.items, bucketItems cache.allocbucket⟩

def allocLocked (number : Nat) (cache : UmaCache) (zone : Zone) : Access :=
  let annotated := { cache with zone := some number }
  match cache.allocbucket with
  | none => refill annotated zone
  | some bucket =>
      if bucket.items.isEmpty && (bucketItems cache.freebucket).isEmpty then
        refill annotated zone
      else unchanged annotated zone

def push (item : Item) (cache : UmaCache) (bucket : Bucket) (zone : Zone) : Access :=
  ⟨{ cache with freebucket := some { bucket with items := item :: bucket.items } }, zone,
    [item], []⟩

def freeFast (item : Item) (cache : UmaCache) (zone : Zone) : Access :=
  match cache.freebucket with
  | none => unchanged cache zone
  | some bucket =>
      if bucket.items.length < bucket.entries then push item cache bucket zone
      else
        match cache.allocbucket with
        | none => unchanged cache zone
        | some other =>
            if other.items.length < bucket.items.length then
              let swapped := { cache with freebucket := some other, allocbucket := some bucket }
              if other.items.length < other.entries then push item swapped other zone
              else unchanged swapped zone
            else unchanged cache zone

def exchange (cache : UmaCache) (zone : Zone) : Access :=
  let given := zone.addFull cache.freebucket
  match given.freeBucket with
  | [] => ⟨{ cache with freebucket := none }, given, [], bucketItems cache.freebucket⟩
  | bucket :: rest =>
      ⟨{ cache with freebucket := some bucket }, { given with freeBucket := rest },
        bucket.items, bucketItems cache.freebucket⟩

def freeLocked (cache : UmaCache) (zone : Zone) : Access :=
  match cache.freebucket with
  | none => exchange cache zone
  | some bucket =>
      if bucket.items.length < bucket.entries then unchanged cache zone
      else
        match cache.allocbucket with
        | none => exchange cache zone
        | some other =>
            if other.items.length < bucket.items.length then unchanged cache zone
            else exchange cache zone

end Access

namespace Uma

def start : Uma where
  slotFlags _ := ⟨false, false⟩
  slotsAvailable := umaCacheTableSlots
  zones _ := ⟨.unborn, 0, [], []⟩
  threads _ := .unborn
  tlsList := []
  listBusy := false
  caches _ _ := UmaCache.empty
  ledger _ _ := ⟨[], [], []⟩

def setZone (uma : Uma) (number : Nat) (zone : Zone) : Uma :=
  { uma with zones := update uma.zones number zone }

def setPhase (uma : Uma) (number : Nat) (phase : ZonePhase) : Uma :=
  uma.setZone number { uma.zones number with phase := phase }

def setFlags (uma : Uma) (slot : Nat) (flags : SlotFlags) : Uma :=
  { uma with slotFlags := update uma.slotFlags slot flags }

def setCache (uma : Uma) (thread slot : Nat) (cache : UmaCache) (ledger : Ledger) : Uma :=
  { uma with
    caches := update uma.caches thread
      (update (uma.caches thread) slot cache)
    ledger := update uma.ledger thread
      (update (uma.ledger thread) slot ledger) }

def freeSlot (uma : Uma) : Option Nat :=
  (List.range umaCacheTableSlots).find? fun slot => !(uma.slotFlags slot).inuse

def zoneCtorChoose (uma : Uma) (number : Nat) : Uma :=
  if uma.slotsAvailable = 0 then uma.setPhase number .dead
  else
    uma.setZone number { uma.zones number with
      phase := .chosen
      cacheidx := uma.freeSlot.getD 0 }

def zoneCtorMark (uma : Uma) (number : Nat) : Uma :=
  { (uma.setPhase number .live).setFlags (uma.zones number).cacheidx ⟨true, false⟩ with
    slotsAvailable := (uma.slotsAvailable + 4294967295) % 4294967296 }

def zoneDtorFlag (uma : Uma) (number : Nat) : Uma :=
  let slot := (uma.zones number).cacheidx
  (uma.setPhase number .inDtor).setFlags slot { uma.slotFlags slot with indtor := true }

def zoneDtorRelease (uma : Uma) (number : Nat) : Uma :=
  { (uma.setPhase number .dead).setFlags (uma.zones number).cacheidx ⟨false, false⟩ with
    slotsAvailable := (uma.slotsAvailable + 1) % 4294967296 }

def drainInto (uma : Uma) (number : Nat) (cache : UmaCache) (ledger : Ledger) : Ledger :=
  { ledger with
    returned := ledger.returned ++ cache.items.map fun item =>
      ⟨number, item, (uma.zones number).phase.allocated⟩ }

def cacheDrainOne (uma : Uma) (number thread : Nat) : Uma :=
  let slot := (uma.zones number).cacheidx
  uma.setCache thread slot UmaCache.empty
    (uma.drainInto number (uma.caches thread slot) (uma.ledger thread slot))

def tlsDrainOne (uma : Uma) (thread slot : Nat) : Uma :=
  let cache := uma.caches thread slot
  match cache.zone with
  | some number =>
      if (uma.slotFlags slot).inuse && !(uma.slotFlags slot).indtor then
        uma.setCache thread slot { cache with freebucket := none, allocbucket := none }
          (uma.drainInto number cache (uma.ledger thread slot))
      else uma
  | none => uma

def access (uma : Uma) (thread number : Nat) (run : UmaCache → Zone → Access) : Uma :=
  let slot := (uma.zones number).cacheidx
  let result := run (uma.caches thread slot) (uma.zones number)
  let ledger := uma.ledger thread slot
  (uma.setZone number result.zone).setCache thread slot result.cache
    { ledger with
      entered := ledger.entered ++ result.entered
      left := ledger.left ++ result.left }

def zoneAllocBucket (uma : Uma) (number entries : Nat) (addresses : List Nat) : Uma :=
  let (bucket, zone) := (uma.zones number).takeFree entries
  let items := addresses.map (Item.mk number) ++ bucket.items
  if items.isEmpty then uma.setZone number zone
  else uma.setZone number (zone.addFull (some { bucket with items := items }))

def bucketCacheDrain (uma : Uma) (number : Nat) (phase : ZonePhase) : Uma :=
  uma.setZone number { uma.zones number with phase := phase, fullBucket := [], freeBucket := [] }

def setThread (uma : Uma) (thread : Nat) (phase : ThreadPhase) (list : List Nat) : Uma :=
  { uma with threads := update uma.threads thread phase, tlsList := list }

end Uma

inductive UmaStep where
  | choose (zone : Nat)
  | kegFail (zone : Nat)
  | mark (zone : Nat)
  | destroy (zone : Nat)
  | drainEnter (zone : Nat)
  | drainNext (zone : Nat)
  | drainExit (zone : Nat)
  | bucketDrain (zone : Nat)
  | release (zone : Nat)
  | reclaim (zone : Nat)
  | threadStart (thread : Nat)
  | threadExit (thread : Nat)
  | threadDrain (thread : Nat)
  | allocFast (thread zone : Nat)
  | allocLocked (thread zone : Nat)
  | fill (zone entries : Nat) (addresses : List Nat)
  | freeFast (thread zone address : Nat)
  | freeLocked (thread zone : Nat)
  | freeBucket (zone entries : Nat)

namespace Uma

def Enabled (uma : Uma) : UmaStep → Prop
  | .choose zone => (uma.zones zone).phase = .unborn
  | .kegFail zone | .mark zone => (uma.zones zone).phase = .chosen
  | .drainEnter zone => (uma.zones zone).phase = .inDtor ∧ uma.listBusy = false
  | .drainNext zone => ∃ thread rest, (uma.zones zone).phase = .draining (thread :: rest)
  | .drainExit zone => (uma.zones zone).phase = .draining []
  | .bucketDrain zone => (uma.zones zone).phase = .cachesDrained
  | .release zone => (uma.zones zone).phase = .bucketsDrained
  | .destroy zone | .reclaim zone | .fill zone .. | .freeBucket zone _ =>
      (uma.zones zone).phase = .live
  | .threadStart thread => uma.threads thread = .unborn ∧ uma.listBusy = false
  | .threadExit thread => uma.threads thread = .running ∧ uma.listBusy = false
  | .threadDrain thread => ∃ slot < umaCacheTableSlots, uma.threads thread = .exiting slot
  | .allocFast thread zone | .allocLocked thread zone =>
      uma.threads thread = .running ∧ (uma.zones zone).phase = .live
  | .freeFast thread zone _ | .freeLocked thread zone =>
      (uma.threads thread).MayFree ∧ (uma.zones zone).phase = .live

def step (uma : Uma) : UmaStep → Uma
  | .choose zone => uma.zoneCtorChoose zone
  | .kegFail zone => uma.setPhase zone .dead
  | .mark zone => uma.zoneCtorMark zone
  | .destroy zone => uma.zoneDtorFlag zone
  | .drainEnter zone => { uma.setPhase zone (.draining uma.tlsList) with listBusy := true }
  | .drainNext zone =>
      match (uma.zones zone).phase with
      | .draining (thread :: rest) =>
          (uma.cacheDrainOne zone thread).setPhase zone (.draining rest)
      | _ => uma
  | .drainExit zone => { uma.setPhase zone .cachesDrained with listBusy := false }
  | .bucketDrain zone => uma.bucketCacheDrain zone .bucketsDrained
  | .release zone => uma.zoneDtorRelease zone
  | .reclaim zone => uma.bucketCacheDrain zone .live
  | .threadStart thread => uma.setThread thread .running (uma.tlsList ++ [thread])
  | .threadExit thread => uma.setThread thread (.exiting 0) (uma.tlsList.erase thread)
  | .threadDrain thread =>
      match uma.threads thread with
      | .exiting slot =>
          (uma.tlsDrainOne thread slot).setThread thread (.exiting (slot + 1)) uma.tlsList
      | _ => uma
  | .allocFast thread zone => uma.access thread zone Access.allocFast
  | .allocLocked thread zone => uma.access thread zone (Access.allocLocked zone)
  | .fill zone entries addresses => uma.zoneAllocBucket zone entries addresses
  | .freeFast thread zone address => uma.access thread zone (Access.freeFast ⟨zone, address⟩)
  | .freeLocked thread zone => uma.access thread zone Access.freeLocked
  | .freeBucket zone entries =>
      uma.setZone zone ((uma.zones zone).addFree (some ⟨entries, []⟩))

end Uma

def umaMove : Uma → UmaStep → Uma → Prop := Runs.Guarded Uma.Enabled Uma.step

end Libunsod.Vm
