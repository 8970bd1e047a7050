import Libunsod.Vm.UmaSlots

/-!
What the caches of the threads and the bucket lists of the zones hold.
-/

namespace Libunsod.Vm

open Runs Uma

variable {bucket : Option Bucket}

def UmaCache.Mentions (cache : UmaCache) (number : Nat) : Prop :=
  cache.zone = some number ∨ ∃ item ∈ cache.items, item.zone = number

def Zone.Stocks (zone : Zone) (number : Nat) : Prop :=
  ∀ bucket ∈ zone.fullBucket ++ zone.freeBucket, ∀ item ∈ bucket.items, item.zone = number

theorem empty_mentions (number : Nat) : ¬ UmaCache.empty.Mentions number := by
  rintro (⟨⟨⟩⟩ | ⟨_, ⟨⟩, -⟩)

section Access

variable {number : Nat} {cache : UmaCache} {zone : Zone}

structure Access.Ok (access : Access) (number : Nat) (cache : UmaCache) (zone : Zone) : Prop where
  named : access.cache.zone = cache.zone ∨ access.cache.zone = some number
  items : ∀ item ∈ access.cache.items, item.zone = number
  stocks : access.zone.Stocks number
  phase : access.zone.phase = zone.phase
  cacheidx : access.zone.cacheidx = zone.cacheidx
  balance : (cache.items ++ access.entered).Perm (access.cache.items ++ access.left)

structure Accessible (number : Nat) (cache : UmaCache) (zone : Zone) : Prop where
  items : ∀ item ∈ cache.items, item.zone = number
  stocks : zone.Stocks number

theorem Accessible.unchanged (accessible : Accessible number cache zone) :
    (Access.unchanged cache zone).Ok number cache zone :=
  ⟨.inl rfl, accessible.items, accessible.stocks, rfl, rfl, .refl _⟩

theorem Accessible.annotate (accessible : Accessible number cache zone) :
    Accessible number { cache with zone := some number } zone :=
  ⟨accessible.items, accessible.stocks⟩

theorem Accessible.ok (accessible : Accessible number cache zone) {access : Access}
    (annotated : access.cache.zone = cache.zone)
    (entered : ∀ item ∈ access.entered, item.zone = number)
    (balance : (cache.items ++ access.entered).Perm (access.cache.items ++ access.left))
    (stocks : access.zone.Stocks number) (phase : access.zone.phase = zone.phase)
    (cacheidx : access.zone.cacheidx = zone.cacheidx) : access.Ok number cache zone := by
  refine ⟨.inl annotated, fun item member => ?_, stocks, phase, cacheidx, balance⟩
  have source : item ∈ cache.items ++ access.entered :=
    balance.mem_iff.mpr (List.mem_append_left _ member)
  rcases List.mem_append.mp source with old | new
  · exact accessible.items item old
  · exact entered item new

theorem Accessible.allocFast (accessible : Accessible number cache zone) :
    (Access.allocFast cache zone).Ok number cache zone := by
  unfold Access.allocFast
  split
  · exact accessible.unchanged
  next bucket isBucket =>
    split
    next item rest some =>
      refine accessible.ok rfl (by rintro _ ⟨⟩) ?_ accessible.stocks rfl rfl
      refine List.perm_iff_count.mpr fun other => ?_
      simp only [UmaCache.items, bucketItems, isBucket, some, List.count_append, List.count_cons,
        List.count_nil]
      omega
    next none =>
      split
      · exact accessible.unchanged
      next other isOther =>
        split
        · exact accessible.unchanged
        next item rest some =>
          refine accessible.ok rfl (by rintro _ ⟨⟩) ?_ accessible.stocks rfl rfl
          refine List.perm_iff_count.mpr fun counted => ?_
          simp only [UmaCache.items, bucketItems, isBucket, isOther, none, some,
            List.count_append, List.count_cons, List.count_nil]
          omega

theorem Zone.Stocks.addFull (stocks : zone.Stocks number)
    (items : ∀ item ∈ bucketItems bucket, item.zone = number) :
    (zone.addFull bucket).Stocks number := by
  cases bucket with
  | none => exact stocks
  | some bucket => exact List.forall_mem_cons.mpr ⟨items, stocks⟩

theorem Zone.Stocks.addFree (stocks : zone.Stocks number)
    (items : ∀ item ∈ bucketItems bucket, item.zone = number) :
    (zone.addFree bucket).Stocks number := by
  cases bucket with
  | none => exact stocks
  | some bucket =>
    intro other member
    exact List.forall_mem_cons.mpr ⟨items, stocks⟩ other (List.perm_middle.mem_iff.mp member)

theorem addFree_same (zone : Zone) (bucket : Option Bucket) :
    (zone.addFree bucket).phase = zone.phase ∧ (zone.addFree bucket).cacheidx = zone.cacheidx := by
  cases bucket <;> exact ⟨rfl, rfl⟩

theorem addFull_same (zone : Zone) (bucket : Option Bucket) :
    (zone.addFull bucket).phase = zone.phase ∧ (zone.addFull bucket).cacheidx = zone.cacheidx := by
  cases bucket <;> exact ⟨rfl, rfl⟩

theorem Zone.Stocks.tail {bucket : Bucket} {rest : List Bucket} (stocks : zone.Stocks number) :
    (zone.fullBucket = bucket :: rest → (∀ item ∈ bucket.items, item.zone = number) ∧
      ({ zone with fullBucket := rest } : Zone).Stocks number) ∧
    (zone.freeBucket = bucket :: rest → (∀ item ∈ bucket.items, item.zone = number) ∧
      ({ zone with freeBucket := rest } : Zone).Stocks number) := by
  constructor
  · intro full
    rw [Zone.Stocks, full] at stocks
    exact List.forall_mem_cons.mp stocks
  · intro free
    rw [Zone.Stocks, free] at stocks
    exact List.forall_mem_cons.mp fun other member =>
      stocks other (List.perm_middle.mem_iff.mpr member)

theorem Zone.Stocks.takeFree (stocks : zone.Stocks number) (entries : Nat) :
    (∀ item ∈ (zone.takeFree entries).1.items, item.zone = number) ∧
      (zone.takeFree entries).2.Stocks number ∧ (zone.takeFree entries).2.phase = zone.phase ∧
      (zone.takeFree entries).2.cacheidx = zone.cacheidx := by
  unfold Zone.takeFree
  split
  · exact ⟨by rintro _ ⟨⟩, stocks, rfl, rfl⟩
  next bucket rest free =>
    obtain ⟨items, kept⟩ := stocks.tail.2 free
    exact ⟨items, kept, rfl, rfl⟩

theorem Accessible.refill (accessible : Accessible number cache zone) :
    (Access.refill cache zone).Ok number cache zone := by
  obtain ⟨phase, cacheidx⟩ := addFree_same zone cache.allocbucket
  have stocks : (zone.addFree cache.allocbucket).Stocks number :=
    accessible.stocks.addFree fun item member =>
      accessible.items item (List.mem_append_right _ member)
  unfold Access.refill
  dsimp only
  split
  next none =>
    refine accessible.ok rfl (by rintro _ ⟨⟩) ?_ stocks phase cacheidx
    simp [UmaCache.items, bucketItems]
  next bucket rest some =>
    obtain ⟨items, kept⟩ := stocks.tail.1 some
    refine accessible.ok rfl items ?_ kept phase cacheidx
    refine List.perm_iff_count.mpr fun other => ?_
    simp only [UmaCache.items, bucketItems, List.count_append]
    omega

theorem Accessible.allocLocked (accessible : Accessible number cache zone) :
    (Access.allocLocked number cache zone).Ok number cache zone := by
  have annotated : ∀ {access : Access}, access.Ok number { cache with zone := some number } zone →
      access.Ok number cache zone := fun ok => { ok with named := .inr (ok.named.elim id id) }
  unfold Access.allocLocked
  dsimp only
  split
  · exact annotated accessible.annotate.refill
  · split
    · exact annotated accessible.annotate.refill
    · exact annotated accessible.annotate.unchanged

theorem Accessible.push (accessible : Accessible number cache zone) {bucket : Bucket} {item : Item}
    (own : item.zone = number) (here : cache.freebucket = some bucket) :
    (Access.push item cache bucket zone).Ok number cache zone := by
  refine accessible.ok rfl ?_ ?_ accessible.stocks rfl rfl
  · intro other member
    rw [List.mem_singleton.mp member]
    exact own
  · refine List.perm_iff_count.mpr fun counted => ?_
    simp only [Access.push, UmaCache.items, bucketItems, here, List.count_append, List.count_cons,
      List.count_nil]
    omega

theorem Accessible.swap (accessible : Accessible number cache zone) {bucket other : Bucket}
    (free : cache.freebucket = some bucket) (alloc : cache.allocbucket = some other) :
    Accessible number { cache with freebucket := some other, allocbucket := some bucket } zone ∧
      ({ cache with freebucket := some other, allocbucket := some bucket } :
        UmaCache).items.Perm cache.items := by
  have perm : ({ cache with freebucket := some other, allocbucket := some bucket } :
      UmaCache).items.Perm cache.items := by
    simp only [UmaCache.items, bucketItems, free, alloc]
    exact List.perm_append_comm
  exact ⟨⟨fun item member => accessible.items item (perm.mem_iff.mp member), accessible.stocks⟩,
    perm⟩

theorem Access.Ok.of_perm {access : Access} {other : UmaCache} (perm : other.items.Perm cache.items)
    (same : other.zone = cache.zone) (ok : access.Ok number other zone) :
    access.Ok number cache zone :=
  { ok with named := same ▸ ok.named, balance := (perm.symm.append_right _).trans ok.balance }

theorem Accessible.freeFast (accessible : Accessible number cache zone) {item : Item}
    (own : item.zone = number) : (Access.freeFast item cache zone).Ok number cache zone := by
  unfold Access.freeFast
  split
  · exact accessible.unchanged
  next bucket free =>
    split
    · exact accessible.push own free
    · split
      · exact accessible.unchanged
      next other alloc =>
        obtain ⟨swapped, perm⟩ := accessible.swap free alloc
        split
        · split
          · exact (swapped.push own rfl).of_perm perm rfl
          · exact swapped.unchanged.of_perm perm rfl
        · exact accessible.unchanged

theorem Accessible.exchange (accessible : Accessible number cache zone) :
    (Access.exchange cache zone).Ok number cache zone := by
  obtain ⟨phase, cacheidx⟩ := addFull_same zone cache.freebucket
  have stocks : (zone.addFull cache.freebucket).Stocks number :=
    accessible.stocks.addFull fun item member =>
      accessible.items item (List.mem_append_left _ member)
  unfold Access.exchange
  dsimp only
  split
  next none =>
    refine accessible.ok rfl (by rintro _ ⟨⟩) ?_ stocks phase cacheidx
    refine List.perm_iff_count.mpr fun other => ?_
    simp only [UmaCache.items, bucketItems, List.count_append, List.count_nil]
    omega
  next bucket rest some =>
    obtain ⟨items, kept⟩ := stocks.tail.2 some
    refine accessible.ok rfl items ?_ kept phase cacheidx
    refine List.perm_iff_count.mpr fun other => ?_
    simp only [UmaCache.items, bucketItems, List.count_append]
    omega

theorem Accessible.freeLocked (accessible : Accessible number cache zone) :
    (Access.freeLocked cache zone).Ok number cache zone := by
  unfold Access.freeLocked
  split
  · exact accessible.exchange
  · split
    · exact accessible.unchanged
    · split
      · exact accessible.exchange
      · split
        · exact accessible.unchanged
        · exact accessible.exchange

end Access

structure Uma.Contents (uma : Uma) : Prop where
  listed : ∀ thread, uma.threads thread = .running ↔ thread ∈ uma.tlsList
  nodup : uma.tlsList.Nodup
  held : ∀ thread slot number, uma.threads thread = .running →
    (uma.caches thread slot).Mentions number →
    (uma.zones number).phase.Holding thread ∧ (uma.zones number).cacheidx = slot
  single : ∀ thread slot, ∀ item ∈ (uma.caches thread slot).items,
    ∀ other ∈ (uma.caches thread slot).items, item.zone = other.zone
  stocks : ∀ number, (uma.zones number).Stocks number
  unborn : ∀ thread slot, uma.threads thread = .unborn → uma.caches thread slot = UmaCache.empty

variable {uma next : Uma} {number thread : Nat}

theorem contents_start : Uma.start.Contents where
  listed _ := iff_of_false (by rintro ⟨⟩) (by rintro ⟨⟩)
  nodup := List.nodup_nil
  held _ _ _ running := by cases running
  single _ _ _ member := by cases member
  stocks _ _ member := by cases member
  unborn _ _ _ := rfl

section Steps

theorem Uma.Contents.setZone (contents : uma.Contents) {zone : Zone}
    (holding : ∀ thread ∈ uma.tlsList,
      (uma.caches thread (uma.zones number).cacheidx).Mentions number →
      (uma.zones number).phase.Holding thread →
      zone.phase.Holding thread ∧ zone.cacheidx = (uma.zones number).cacheidx)
    (stocks : zone.Stocks number) : (uma.setZone number zone).Contents := by
  refine { contents with held := fun thread slot other running mentioned => ?_, stocks := ?_ }
  · obtain ⟨holds, rfl⟩ := contents.held thread slot other running mentioned
    by_cases own : other = number
    · subst own
      rw [setZone_here]
      exact holding thread ((contents.listed thread).mp running) mentioned holds
    · rw [setZone_there uma zone own]
      exact ⟨holds, rfl⟩
  · exact (Function.forall_update_iff _ fun number (zone : Zone) => zone.Stocks number).mpr
      ⟨stocks, fun other _ => contents.stocks other⟩

theorem setCache_apply (uma : Uma) (thread slot : Nat) (cache : UmaCache) (ledger : Ledger)
    (other position : Nat) :
    (uma.setCache thread slot cache ledger).caches other position =
      if other = thread ∧ position = slot then cache else uma.caches other position := by
  by_cases same : other = thread
  · subst same
    simp [Uma.setCache, Function.update_apply]
  · simp [Uma.setCache, same]

theorem Uma.Contents.setCache (contents : uma.Contents) {slot : Nat} {cache : UmaCache}
    {ledger : Ledger} (held : uma.threads thread = .running → ∀ number, cache.Mentions number →
      (uma.zones number).phase.Holding thread ∧ (uma.zones number).cacheidx = slot)
    (single : ∀ item ∈ cache.items, ∀ other ∈ cache.items, item.zone = other.zone)
    (born : uma.threads thread = .unborn → cache = UmaCache.empty) :
    (uma.setCache thread slot cache ledger).Contents := by
  refine { contents with
    held := fun other position number running mentioned => ?_
    single := fun other position => ?_
    unborn := fun other position unborn => ?_ }
  · rw [setCache_apply] at mentioned
    split at mentioned
    next own =>
      obtain ⟨rfl, rfl⟩ := own
      exact held running number mentioned
    next different => exact contents.held other position number running mentioned
  · rw [setCache_apply]
    split
    next own => exact single
    next different => exact contents.single other position
  · rw [setCache_apply]
    split
    next own => exact born (own.1 ▸ unborn)
    next different => exact contents.unborn other position unborn

theorem Uma.Contents.own (contents : uma.Contents) (slots : uma.Slots)
    (running : uma.threads thread = .running) (live : (uma.zones number).phase = .live) {other : Nat}
    (mentioned : (uma.caches thread (uma.zones number).cacheidx).Mentions other) :
    other = number := by
  obtain ⟨holds, same⟩ := contents.held thread _ other running mentioned
  refine slots.distinct other number holds.owns.allocated ?_ same
  rw [live]
  rfl

theorem Uma.Contents.access (contents : uma.Contents) (slots : uma.Slots)
    {run : UmaCache → Zone → Access} (may : (uma.threads thread).MayFree)
    (live : (uma.zones number).phase = .live)
    (ok : (run (uma.caches thread (uma.zones number).cacheidx) (uma.zones number)).Ok number
      (uma.caches thread (uma.zones number).cacheidx) (uma.zones number)) :
    (uma.access thread number run).Contents := by
  have moved : (uma.setZone number (run (uma.caches thread (uma.zones number).cacheidx)
      (uma.zones number)).zone).Contents := by
    refine contents.setZone (fun thread _ _ holds => ⟨?_, ok.cacheidx⟩) ok.stocks
    rw [ok.phase]
    exact holds
  refine moved.setCache (fun running zone mentioned => ?_) (fun item first other second => ?_)
    fun unborn => ?_
  · have own : zone = number := by
      rcases mentioned with annotated | ⟨item, member, rfl⟩
      · rcases ok.named with same | same
        · exact contents.own slots running live (.inl (same ▸ annotated))
        · exact Option.some.inj (annotated.symm.trans same)
      · exact ok.items item member
    rw [own, setZone_here, ok.phase, live]
    exact ⟨trivial, ok.cacheidx⟩
  · rw [ok.items item first, ok.items other second]
  · rw [show uma.threads thread = .unborn from unborn] at may
    exact may.elim

theorem Uma.Contents.drainOne (contents : uma.Contents) {rest : List Nat}
    (draining : (uma.zones number).phase = .draining (thread :: rest)) :
    ((uma.cacheDrainOne number thread).setPhase number (.draining rest)).Contents := by
  have drained : (uma.cacheDrainOne number thread).Contents :=
    contents.setCache (fun _ other mentioned => absurd mentioned (empty_mentions other))
      (by rintro _ ⟨⟩) fun _ => rfl
  refine drained.setZone (fun other _ mentioned holds => ⟨?_, rfl⟩) (contents.stocks number)
  rw [show ((uma.cacheDrainOne number thread).zones number).phase = _ from draining] at holds
  refine (List.mem_cons.mp holds).resolve_left ?_
  rintro rfl
  rw [cacheDrainOne, setCache_apply, if_pos ⟨rfl, rfl⟩] at mentioned
  exact empty_mentions number mentioned

theorem setThread_apply (uma : Uma) (thread : Nat) (phase : ThreadPhase) (list : List Nat)
    (other : Nat) : (uma.setThread thread phase list).threads other =
      if other = thread then phase else uma.threads other := by
  simp [Uma.setThread, Function.update_apply]

theorem Uma.Contents.setThread (contents : uma.Contents) {phase : ThreadPhase} {list : List Nat}
    (listed : ∀ other, other ∈ list ↔ if other = thread then phase = .running
      else other ∈ uma.tlsList) (nodup : list.Nodup)
    (fresh : phase = .running → ∀ slot, uma.caches thread slot = UmaCache.empty)
    (born : phase ≠ .unborn) : (uma.setThread thread phase list).Contents := by
  refine { contents with
    listed := fun other => ?_
    nodup := nodup
    held := fun other slot zone running mentioned => ?_
    unborn := fun other slot unborn => ?_ }
  · show _ ↔ other ∈ list
    rw [setThread_apply, listed, ← contents.listed]
    split <;> rfl
  · rw [setThread_apply] at running
    split at running
    next own =>
      have empty := fresh running slot
      rw [← own] at empty
      exact absurd (empty ▸ mentioned) (empty_mentions zone)
    next different => exact contents.held other slot zone running mentioned
  · rw [setThread_apply] at unborn
    split at unborn
    next own => exact absurd unborn born
    next different => exact contents.unborn other slot unborn

theorem Uma.Contents.threadStart (contents : uma.Contents)
    (unborn : uma.threads thread = .unborn) :
    (uma.setThread thread .running (uma.tlsList ++ [thread])).Contents := by
  have absent : thread ∉ uma.tlsList := by
    rw [← contents.listed, unborn]
    rintro ⟨⟩
  refine contents.setThread (fun other => ?_) ?_ (fun _ slot => contents.unborn thread slot unborn)
    (by rintro ⟨⟩)
  · rw [List.mem_append, List.mem_singleton]
    split
    next own => exact iff_of_true (.inr own) rfl
    next different => exact or_iff_left different
  · exact List.nodup_append.mpr ⟨contents.nodup, List.nodup_singleton _, by
      rintro old inside new single rfl
      rw [List.mem_singleton.mp single] at inside
      exact absent inside⟩

theorem Uma.Contents.threadExit (contents : uma.Contents) (thread : Nat) :
    (uma.setThread thread (.exiting 0) (uma.tlsList.erase thread)).Contents := by
  refine contents.setThread (fun other => ?_) (contents.nodup.erase _) (by rintro ⟨⟩)
    (by rintro ⟨⟩)
  rw [contents.nodup.mem_erase_iff]
  split
  next own => exact iff_of_false (fun both => both.1 own) (by rintro ⟨⟩)
  next different => exact and_iff_right different

theorem tlsDrainOne_cases (uma : Uma) (thread slot : Nat) :
    uma.tlsDrainOne thread slot = uma ∨ ∃ number, uma.tlsDrainOne thread slot =
      uma.setCache thread slot { uma.caches thread slot with freebucket := none, allocbucket := none }
        (uma.drainInto number (uma.caches thread slot) (uma.ledger thread slot)) := by
  unfold Uma.tlsDrainOne
  dsimp only
  split
  next number _ =>
    split
    · exact .inr ⟨number, rfl⟩
    · exact .inl rfl
  · exact .inl rfl

theorem Uma.Contents.threadDrain (contents : uma.Contents) {slot : Nat}
    (exiting : uma.threads thread = .exiting slot) :
    ((uma.tlsDrainOne thread slot).setThread thread (.exiting (slot + 1)) uma.tlsList).Contents := by
  have absent : thread ∉ uma.tlsList := by
    rw [← contents.listed, exiting]
    rintro ⟨⟩
  have drained : (uma.tlsDrainOne thread slot).Contents ∧
      (uma.tlsDrainOne thread slot).tlsList = uma.tlsList := by
    rcases tlsDrainOne_cases uma thread slot with same | ⟨number, same⟩
    · rw [same]
      exact ⟨contents, rfl⟩
    · rw [same]
      refine ⟨contents.setCache (fun running => ?_) (by rintro _ ⟨⟩) fun unborn => ?_, rfl⟩
      · cases exiting.symm.trans running
      · cases exiting.symm.trans unborn
  refine drained.1.setThread (fun other => ?_) contents.nodup (by rintro ⟨⟩) (by rintro ⟨⟩)
  rw [drained.2]
  split
  next own => exact iff_of_false (own ▸ absent) (by rintro ⟨⟩)
  next different => rfl

end Steps

end Libunsod.Vm
