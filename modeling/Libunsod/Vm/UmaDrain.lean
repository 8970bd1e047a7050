import Libunsod.Vm.UmaZones

/-!
The items in the caches of threads that exit and of zones that are destroyed. A thread
that exits drains its caches with the zone that `uc_zone` names, which only an allocation
sets, and passes over the slots of zones in their destructor, whose `cache_drain` no longer
sees the thread. Where neither happens every item goes back to its own zone, once.
-/

namespace Libunsod.Vm

open Runs Uma

variable {uma next : Uma} {number thread : Nat}

variable {zone : Zone} {slot : Nat} {cache : UmaCache} {ledger : Ledger}

def ZonePhase.Drained : ZonePhase → Prop
  | .cachesDrained | .bucketsDrained | .dead => True
  | _ => False

def Uma.Orderly (uma : Uma) : UmaStep → Prop
  | .choose _ => uma.Undisturbed
  | .threadExit thread => ∀ slot, ∀ item ∈ (uma.caches thread slot).items,
      (uma.caches thread slot).zone ≠ none ∧ (uma.zones item.zone).phase = .live
  | .destroy zone => ∀ thread position, uma.threads thread = .exiting position →
      position ≤ (uma.zones zone).cacheidx →
      ∀ item ∈ (uma.caches thread (uma.zones zone).cacheidx).items, item.zone ≠ zone
  | .freeFast thread zone _ | .freeLocked thread zone =>
      ∀ position, uma.threads thread = .exiting position → position < (uma.zones zone).cacheidx ∧
        (uma.caches thread (uma.zones zone).cacheidx).zone = some zone
  | _ => True

def Balanced (cache : UmaCache) (ledger : Ledger) : Prop :=
  ledger.entered.Perm (cache.items ++ ledger.left ++ ledger.returned.map Return.item)

def Ledger.Proper (ledger : Ledger) : Prop :=
  ∀ entry ∈ ledger.returned, entry.zone = entry.item.zone ∧ entry.alive = true

structure Uma.Returns (uma : Uma) : Prop where
  balanced : ∀ thread slot, Balanced (uma.caches thread slot) (uma.ledger thread slot)
  proper : ∀ thread slot, (uma.ledger thread slot).Proper
  passed : ∀ thread position slot, uma.threads thread = .exiting position → slot < position →
    (uma.caches thread slot).items = []
  ahead : ∀ thread position slot, uma.threads thread = .exiting position →
    ∀ item ∈ (uma.caches thread slot).items,
      (uma.caches thread slot).zone = some item.zone ∧ (uma.zones item.zone).phase = .live ∧
        (uma.zones item.zone).cacheidx = slot

theorem returns_start : Uma.start.Returns where
  balanced _ _ := .refl _
  proper _ _ _ member := by cases member
  passed _ _ _ exiting := by cases exiting
  ahead _ _ _ exiting := by cases exiting

theorem Uma.Returns.move (returns : uma.Returns) (kept : (uma.zones number).phase = .live →
      (zone.phase = .live ∧ zone.cacheidx = (uma.zones number).cacheidx) ∨
      ∀ thread position slot, uma.threads thread = .exiting position →
        ∀ item ∈ (uma.caches thread slot).items, item.zone ≠ number) :
    (uma.setZone number zone).Returns := by
  refine { returns with ahead := fun thread position slot exiting item member => ?_ }
  obtain ⟨named, live, slotOf⟩ := returns.ahead thread position slot exiting item member
  refine ⟨named, ?_⟩
  by_cases own : item.zone = number
  · rw [own] at live slotOf ⊢
    rw [setZone_here]
    rcases kept live with ⟨still, same⟩ | none
    · exact ⟨still, same.trans slotOf⟩
    · exact absurd own (none thread position slot exiting item member)
  · rw [setZone_there uma zone own]
    exact ⟨live, slotOf⟩

theorem Uma.Returns.setZone (returns : uma.Returns) (kept : (uma.zones number).phase = .live →
      zone.phase = .live ∧ zone.cacheidx = (uma.zones number).cacheidx) :
    (uma.setZone number zone).Returns :=
  returns.move fun live => .inl (kept live)

theorem setCache_ledger (uma : Uma) (thread slot : Nat) (cache : UmaCache) (ledger : Ledger)
    (other position : Nat) :
    (uma.setCache thread slot cache ledger).ledger other position =
      if other = thread ∧ position = slot then ledger else uma.ledger other position := by
  by_cases same : other = thread
  · subst same
    simp [Uma.setCache, Function.update_apply]
  · simp [Uma.setCache, same]

theorem Uma.Returns.setCache (returns : uma.Returns) (balanced : Balanced cache ledger)
    (proper : ledger.Proper)
    (passed : ∀ position, uma.threads thread = .exiting position → slot < position →
      cache.items = [])
    (ahead : ∀ position, uma.threads thread = .exiting position → ∀ item ∈ cache.items,
      cache.zone = some item.zone ∧ (uma.zones item.zone).phase = .live ∧
        (uma.zones item.zone).cacheidx = slot) :
    (uma.setCache thread slot cache ledger).Returns := by
  refine ⟨fun other place => ?_, fun other place => ?_, fun other position place out below => ?_,
    fun other position place out => ?_⟩
  · rw [setCache_apply, setCache_ledger]
    split
    · exact balanced
    · exact returns.balanced other place
  · rw [setCache_ledger]
    split
    · exact proper
    · exact returns.proper other place
  · rw [setCache_apply]
    split
    next own =>
      obtain ⟨rfl, rfl⟩ := own
      exact passed position out below
    next different => exact returns.passed other position place out below
  · rw [setCache_apply]
    split
    next own =>
      obtain ⟨rfl, rfl⟩ := own
      exact ahead position out
    next different => exact returns.ahead other position place out

theorem Balanced.access {access : Access} (balanced : Balanced cache ledger)
    (ok : access.Ok number cache zone) :
    Balanced access.cache { ledger with
      entered := ledger.entered ++ access.entered
      left := ledger.left ++ access.left } := by
  unfold Balanced at balanced ⊢
  refine List.perm_iff_count.mpr fun item => ?_
  have before := List.perm_iff_count.mp balanced item
  have moved := List.perm_iff_count.mp ok.balance item
  simp only [List.count_append] at before moved ⊢
  omega

theorem Uma.Returns.access (returns : uma.Returns) {run : UmaCache → Zone → Access}
    (live : (uma.zones number).phase = .live)
    (later : ∀ position, uma.threads thread = .exiting position →
      position < (uma.zones number).cacheidx ∧
        (uma.caches thread (uma.zones number).cacheidx).zone = some number)
    (ok : (run (uma.caches thread (uma.zones number).cacheidx) (uma.zones number)).Ok number
      (uma.caches thread (uma.zones number).cacheidx) (uma.zones number)) :
    (uma.access thread number run).Returns := by
  have moved : (uma.setZone number (run (uma.caches thread (uma.zones number).cacheidx)
      (uma.zones number)).zone).Returns :=
    returns.setZone fun live => ⟨ok.phase.trans live, ok.cacheidx⟩
  refine moved.setCache ((returns.balanced _ _).access ok) (returns.proper _ _)
    (fun position exiting below => absurd below (Nat.lt_asymm (later position exiting).1))
    fun position exiting item member => ?_
  rw [ok.items item member, setZone_here]
  refine ⟨?_, ok.phase.trans live, ok.cacheidx⟩
  exact ok.named.elim (·.trans (later position exiting).2) id

theorem drainInto_facts (emptied : UmaCache) (balanced : Balanced cache ledger)
    (proper : ledger.Proper) (none : emptied.items = [])
    (allocated : cache.items ≠ [] → (uma.zones number).phase.allocated = true)
    (own : ∀ item ∈ cache.items, item.zone = number) :
    Balanced emptied (uma.drainInto number cache ledger) ∧
      (uma.drainInto number cache ledger).Proper := by
  constructor
  · unfold Balanced Uma.drainInto at *
    refine List.perm_iff_count.mpr fun item => ?_
    have before := List.perm_iff_count.mp balanced item
    have mapped : (cache.items.map fun item =>
        (⟨number, item, (uma.zones number).phase.allocated⟩ : Return)).map Return.item =
          cache.items := by
      rw [List.map_map]
      exact List.map_id _
    rw [none, List.map_append, mapped]
    simp only [List.count_append, List.count_nil] at before ⊢
    omega
  · intro entry member
    rcases List.mem_append.mp member with old | new
    · exact proper entry old
    · obtain ⟨item, inside, rfl⟩ := List.mem_map.mp new
      exact ⟨(own item inside).symm, allocated (List.ne_nil_of_mem inside)⟩

theorem Uma.Returns.drainNext (returns : uma.Returns) (inv : uma.Inv) {rest : List Nat}
    (draining : (uma.zones number).phase = .draining (thread :: rest)) :
    ((uma.cacheDrainOne number thread).setPhase number (.draining rest)).Returns := by
  have allocated : (uma.zones number).phase.allocated = true := by
    rw [draining]
    rfl
  have own : ∀ item ∈ (uma.caches thread (uma.zones number).cacheidx).items,
      item.zone = number := by
    intro item member
    cases phase : uma.threads thread with
    | unborn =>
      rw [inv.contents.unborn thread _ phase] at member
      cases member
    | running =>
      obtain ⟨holds, same⟩ := inv.contents.held thread _ item.zone phase (.inr ⟨item, member, rfl⟩)
      exact inv.slots.distinct item.zone number holds.owns.allocated allocated same
    | exiting position =>
      obtain ⟨-, live, same⟩ := returns.ahead thread position _ phase item member
      refine inv.slots.distinct item.zone number ?_ allocated same
      rw [live]
      rfl
  obtain ⟨balanced, proper⟩ := drainInto_facts UmaCache.empty
    (returns.balanced thread (uma.zones number).cacheidx) (returns.proper thread _) rfl
    (fun _ => allocated) own
  have drained : (uma.cacheDrainOne number thread).Returns :=
    returns.setCache balanced proper (fun _ _ _ => rfl) (by rintro _ _ _ ⟨⟩)
  refine drained.setZone fun live => ?_
  cases draining.symm.trans live

theorem Uma.Returns.setThread (returns : uma.Returns) {phase : ThreadPhase} {list : List Nat}
    (passed : ∀ position slot, phase = .exiting position → slot < position →
      (uma.caches thread slot).items = [])
    (ahead : ∀ position slot, phase = .exiting position →
      ∀ item ∈ (uma.caches thread slot).items,
        (uma.caches thread slot).zone = some item.zone ∧ (uma.zones item.zone).phase = .live ∧
          (uma.zones item.zone).cacheidx = slot) :
    (uma.setThread thread phase list).Returns := by
  refine ⟨returns.balanced, returns.proper, fun other position slot exiting => ?_,
    fun other position slot exiting => ?_⟩
  · rw [setThread_apply] at exiting
    split at exiting
    next own =>
      rw [own]
      exact passed position slot exiting
    next different => exact returns.passed other position slot exiting
  · rw [setThread_apply] at exiting
    split at exiting
    next own =>
      rw [own]
      exact ahead position slot exiting
    next different => exact returns.ahead other position slot exiting

theorem Uma.Returns.threadExit (returns : uma.Returns) (inv : uma.Inv)
    (running : uma.threads thread = .running) (orderly : uma.Orderly (.threadExit thread)) :
    (uma.setThread thread (.exiting 0) (uma.tlsList.erase thread)).Returns := by
  refine returns.setThread (fun position slot exiting below => ?_)
    fun position slot _ item member => ?_
  · cases exiting
    exact absurd below (Nat.not_lt_zero slot)
  · obtain ⟨annotated, live⟩ := orderly slot item member
    obtain ⟨number, named⟩ := Option.ne_none_iff_exists'.mp annotated
    obtain ⟨holds, slotOf⟩ := inv.contents.held thread slot number running (.inl named)
    obtain ⟨itemHolds, itemSlot⟩ :=
      inv.contents.held thread slot item.zone running (.inr ⟨item, member, rfl⟩)
    have same := inv.slots.distinct number item.zone holds.owns.allocated itemHolds.owns.allocated
      (slotOf.trans itemSlot.symm)
    rw [named, same]
    exact ⟨rfl, live, itemSlot⟩

theorem Uma.Returns.tlsDrainOne (returns : uma.Returns) (inv : uma.Inv)
    (exiting : uma.threads thread = .exiting slot) :
    (uma.tlsDrainOne thread slot).Returns ∧
      ((uma.tlsDrainOne thread slot).caches thread slot).items = [] := by
  have ahead := returns.ahead thread slot slot exiting
  unfold Uma.tlsDrainOne
  dsimp only
  split
  next number named =>
    have own : ∀ item ∈ (uma.caches thread slot).items, item.zone = number := by
      intro item member
      exact (Option.some.inj (named.symm.trans (ahead item member).1)).symm
    split
    next clear =>
      have allocated : (uma.caches thread slot).items ≠ [] →
          (uma.zones number).phase.allocated = true := by
        intro some
        obtain ⟨item, member⟩ := List.exists_mem_of_ne_nil _ some
        rw [← own item member, (ahead item member).2.1]
        rfl
      obtain ⟨balanced, proper⟩ := drainInto_facts
        { uma.caches thread slot with freebucket := none, allocbucket := none }
        (returns.balanced thread slot) (returns.proper thread slot) rfl allocated own
      refine ⟨returns.setCache balanced proper (fun _ _ _ => rfl) (by rintro _ _ _ ⟨⟩), ?_⟩
      rw [setCache_apply, if_pos ⟨rfl, rfl⟩]
      exact rfl
    next busy =>
      refine ⟨returns, List.eq_nil_iff_forall_not_mem.mpr fun item member => busy ?_⟩
      obtain ⟨-, live, slotOf⟩ := ahead item member
      have inuse : (uma.slotFlags slot).inuse = true := by
        rw [inv.slots.flagged]
        refine ⟨item.zone, ?_, slotOf⟩
        rw [live]
        trivial
      have indtor := inv.slots.undestroyed item.zone live
      rw [slotOf] at indtor
      rw [inuse, indtor]
      rfl
  next unnamed =>
    refine ⟨returns, List.eq_nil_iff_forall_not_mem.mpr fun item member => ?_⟩
    cases unnamed.symm.trans (ahead item member).1

theorem Uma.Returns.threadDrain (returns : uma.Returns) (inv : uma.Inv)
    (exiting : uma.threads thread = .exiting slot) :
    ((uma.tlsDrainOne thread slot).setThread thread (.exiting (slot + 1)) uma.tlsList).Returns := by
  obtain ⟨drained, none⟩ := returns.tlsDrainOne inv exiting
  have still : (uma.tlsDrainOne thread slot).threads thread = .exiting slot := by
    rcases tlsDrainOne_cases uma thread slot with same | ⟨number, same⟩
    · rw [same]
      exact exiting
    · rw [same]
      exact exiting
  refine drained.setThread (fun position place out below => ?_) fun position place _ => ?_
  · cases out
    rcases Nat.lt_succ_iff_lt_or_eq.mp below with lower | rfl
    · exact drained.passed thread slot place still lower
    · exact none
  · exact drained.ahead thread slot place still

theorem Uma.Returns.destroy (returns : uma.Returns) {zone : Nat}
    (orderly : uma.Orderly (.destroy zone)) : (uma.zoneDtorFlag zone).Returns := by
  have moved : (uma.setPhase zone .inDtor).Returns := by
    refine returns.move fun _ => .inr ?_
    rintro thread position slot exiting item member rfl
    have slotOf := (returns.ahead thread position slot exiting item member).2.2
    subst slotOf
    refine orderly thread position exiting (Nat.le_of_not_lt fun below => ?_) item member rfl
    rw [returns.passed thread position _ exiting below] at member
    cases member
  exact { moved with }

theorem Uma.Returns.apart {step : UmaStep} (returns : uma.Returns) (orderly : uma.Orderly step) :
    uma.Apart step := by
  cases step with
  | choose zone => exact orderly
  | freeFast thread zone _ | freeLocked thread zone =>
    intro position exiting item member
    exact Option.some.inj ((returns.ahead thread position _ exiting item member).1.symm.trans
      (orderly position exiting).2)
  | _ => trivial

theorem Uma.Returns.step {step : UmaStep} (returns : uma.Returns) (inv : uma.Inv)
    (move : umaMove uma step next) (orderly : uma.Orderly step) : next.Returns := by
  have apart := returns.apart orderly
  obtain ⟨enabled, rfl⟩ := move
  have runs : ∀ {thread zone : Nat}, uma.threads thread = .running →
      (uma.zones zone).phase = .live → (∀ position, uma.threads thread = .exiting position →
        position < (uma.zones zone).cacheidx ∧
          (uma.caches thread (uma.zones zone).cacheidx).zone = some zone) ∧
      Accessible zone (uma.caches thread (uma.zones zone).cacheidx) (uma.zones zone) := by
    intro thread zone running live
    have never : ∀ position, uma.threads thread ≠ .exiting position := by
      rw [running]
      rintro _ ⟨⟩
    exact ⟨fun position exiting => absurd exiting (never position), inv.accessible
      (by rw [running]; trivial) live fun position exiting => absurd exiting (never position)⟩
  have dull : ∀ {zone : Nat} {phase : ZonePhase} {after : Zone},
      (uma.zones zone).phase = phase → phase ≠ .live → (uma.setZone zone after).Returns :=
    fun was not => returns.setZone fun live => absurd (was.symm.trans live) not
  cases step with
  | choose zone =>
    have unborn : (uma.zones zone).phase = .unborn := enabled
    show (uma.zoneCtorChoose zone).Returns
    unfold Uma.zoneCtorChoose
    split
    · exact dull unborn (by rintro ⟨⟩)
    · exact dull unborn (by rintro ⟨⟩)
  | kegFail zone | bucketDrain zone => exact dull enabled (by rintro ⟨⟩)
  | mark zone =>
    have moved : (uma.setPhase zone .live).Returns := dull enabled (by rintro ⟨⟩)
    exact { moved with }
  | destroy zone => exact returns.destroy orderly
  | drainEnter zone =>
    have moved : (uma.setPhase zone (.draining uma.tlsList)).Returns :=
      dull enabled.1 (by rintro ⟨⟩)
    exact { moved with }
  | drainNext zone =>
    obtain ⟨thread, rest, draining⟩ := enabled
    simp only [Uma.step, draining]
    exact returns.drainNext inv draining
  | drainExit zone =>
    have moved : (uma.setPhase zone .cachesDrained).Returns := dull enabled (by rintro ⟨⟩)
    exact { moved with }
  | release zone =>
    have moved : (uma.setPhase zone .dead).Returns := dull enabled (by rintro ⟨⟩)
    exact { moved with }
  | reclaim zone => exact returns.setZone fun _ => ⟨rfl, rfl⟩
  | threadStart thread =>
    exact returns.setThread (fun _ _ => by rintro ⟨⟩) fun _ _ => by rintro ⟨⟩
  | threadExit thread => exact returns.threadExit inv enabled.1 orderly
  | threadDrain thread =>
    obtain ⟨slot, -, exiting⟩ := enabled
    simp only [Uma.step, exiting]
    exact returns.threadDrain inv exiting
  | allocFast thread zone =>
    obtain ⟨later, accessible⟩ := runs enabled.1 enabled.2
    exact returns.access enabled.2 later accessible.allocFast
  | allocLocked thread zone =>
    obtain ⟨later, accessible⟩ := runs enabled.1 enabled.2
    exact returns.access enabled.2 later accessible.allocLocked
  | fill zone entries addresses =>
    obtain ⟨-, -, phase, cacheidx⟩ := (inv.contents.stocks zone).takeFree entries
    show (uma.zoneAllocBucket zone entries addresses).Returns
    unfold Uma.zoneAllocBucket
    dsimp only
    split
    · exact returns.setZone fun live => ⟨phase.trans live, cacheidx⟩
    · exact returns.setZone fun live => ⟨phase.trans live, cacheidx⟩
  | freeFast thread zone address =>
    exact returns.access enabled.2 orderly
      ((inv.accessible enabled.1 enabled.2 apart).freeFast rfl)
  | freeLocked thread zone =>
    exact returns.access enabled.2 orderly (inv.accessible enabled.1 enabled.2 apart).freeLocked
  | freeBucket zone entries => exact returns.setZone fun live => ⟨live, rfl⟩

structure Uma.Accounted (uma : Uma) : Prop where
  balanced : ∀ thread slot, Balanced (uma.caches thread slot) (uma.ledger thread slot)
  proper : ∀ thread slot, (uma.ledger thread slot).Proper
  exited : ∀ thread, uma.threads thread = .exiting umaCacheTableSlots →
    ∀ slot, (uma.caches thread slot).items = []
  destroyed : ∀ zone, (uma.zones zone).phase.Drained →
    ∀ thread slot, ∀ item ∈ (uma.caches thread slot).items, item.zone ≠ zone

theorem Uma.Returns.accounted (returns : uma.Returns) (inv : uma.Inv) : uma.Accounted := by
  refine ⟨returns.balanced, returns.proper, fun thread exiting slot => ?_,
    fun zone drained thread slot item member => ?_⟩
  · by_cases within : slot < umaCacheTableSlots
    · exact returns.passed thread _ slot exiting within
    · refine List.eq_nil_iff_forall_not_mem.mpr fun item member => within ?_
      obtain ⟨-, live, slotOf⟩ := returns.ahead thread _ slot exiting item member
      rw [← slotOf]
      refine inv.slots.bound item.zone ?_
      rw [live]
      rfl
  · rintro rfl
    cases phase : uma.threads thread with
    | unborn =>
      rw [inv.contents.unborn thread slot phase] at member
      cases member
    | running =>
      have holds := (inv.contents.held thread slot item.zone phase (.inr ⟨item, member, rfl⟩)).1
      cases zonePhase : (uma.zones item.zone).phase with
      | live | inDtor | draining =>
        rw [zonePhase] at drained
        exact drained
      | unborn | chosen | cachesDrained | bucketsDrained | dead =>
        rw [zonePhase] at holds
        exact holds
    | exiting position =>
      rw [(returns.ahead thread position slot phase item member).2.1] at drained
      exact drained

def orderlyMove (uma : Uma) (step : UmaStep) (next : Uma) : Prop :=
  umaMove uma step next ∧ uma.Orderly step

/-- In orderly runs every cached item goes back once, to its own zone and while that exists. -/
theorem umaCaches_accounted {labels : List UmaStep} {uma : Uma}
    (run : Run orderlyMove Uma.start labels uma) : uma.Accounted := by
  have both : uma.Inv ∧ uma.Returns := by
    refine run.invariant (fun uma => uma.Inv ∧ uma.Returns)
      ⟨⟨slots_start, contents_start⟩, returns_start⟩ fun _ _ _ both move => ?_
    exact ⟨both.1.step move.1 (both.2.apart move.2), both.2.step both.1 move.1 move.2⟩
  exact both.2.accounted both.1

theorem umaCaches_zone_destroyed :
    ∃ uma, Run orderlyMove Uma.start [.choose 0, .mark 0, .threadStart 0, .allocLocked 0 0,
        .fill 0 16 [5, 6], .allocLocked 0 0, .allocFast 0 0, .destroy 0, .drainEnter 0,
        .drainNext 0, .drainExit 0] uma ∧
      (uma.ledger 0 0).returned = [⟨0, ⟨0, 6⟩, true⟩] ∧ uma.Accounted := by
  have orderly : ([.choose 0, .mark 0, .threadStart 0, .allocLocked 0 0, .fill 0 16 [5, 6],
      .allocLocked 0 0, .allocFast 0 0].foldl Uma.step Uma.start).Orderly (.destroy 0) := by
    intro thread position exiting
    have only : Function.update Uma.start.threads 0 .running thread = .exiting position := exiting
    by_cases first : thread = 0
    · rw [first, Function.update_self] at only
      cases only
    · rw [Function.update_of_ne first] at only
      cases only
  exact Run.exists_with (fun _ run => umaCaches_accounted run)
    ⟨_, Allowed.run_and ⟨⟨rfl, by rintro _ ⟨⟩⟩, ⟨rfl, trivial⟩, ⟨⟨rfl, rfl⟩, trivial⟩,
      ⟨⟨rfl, rfl⟩, trivial⟩, ⟨rfl, trivial⟩, ⟨⟨rfl, rfl⟩, trivial⟩, ⟨⟨rfl, rfl⟩, trivial⟩,
      ⟨rfl, orderly⟩, ⟨⟨rfl, rfl⟩, trivial⟩, ⟨⟨0, [], rfl⟩, trivial⟩, ⟨rfl, trivial⟩, trivial⟩, rfl⟩

def Uma.Skips (uma : Uma) (thread : Nat) : Prop :=
  ∀ slot, (uma.caches thread slot).zone = none ∨ (uma.slotFlags slot).inuse = false

theorem tlsDrainOne_skips (skips : uma.Skips thread) (slot : Nat) :
    uma.tlsDrainOne thread slot = uma := by
  unfold Uma.tlsDrainOne
  dsimp only
  split
  next number named =>
    rcases skips slot with unnamed | unused
    · cases unnamed.symm.trans named
    · rw [unused]
      rfl
  next unnamed => rfl

theorem threadDrain_skips (count : Nat) {position : Nat} (skips : uma.Skips thread)
    (exiting : uma.threads thread = .exiting position)
    (within : position + count ≤ umaCacheTableSlots) :
    ∃ next, Run umaMove uma (List.replicate count (.threadDrain thread)) next ∧
      next.threads thread = .exiting (position + count) ∧ next.caches = uma.caches ∧
      next.slotFlags = uma.slotFlags := by
  induction count with
  | zero => exact ⟨uma, .nil, exiting, rfl, rfl⟩
  | succ count ih =>
    obtain ⟨next, run, out, caches, flags⟩ := ih (by omega)
    have skipsNext : next.Skips thread := by
      intro slot
      rw [caches, flags]
      exact skips slot
    rw [List.replicate_succ']
    refine ⟨next.step (.threadDrain thread), .snoc run ⟨⟨_, by omega, out⟩, rfl⟩, ?_, ?_, ?_⟩
    · simp only [Uma.step, out]
      rw [setThread_apply, if_pos rfl]
      rfl
    · simp only [Uma.step, out, tlsDrainOne_skips skipsNext]
      exact caches
    · simp only [Uma.step, out, tlsDrainOne_skips skipsNext]
      exact flags

def UmaStep.FreesOnly : UmaStep → Prop
  | .allocLocked .. => False
  | _ => True

theorem access_zone (cache : UmaCache) (zone : Zone) (item : Item) :
    (Access.allocFast cache zone).cache.zone = cache.zone ∧
      (Access.freeFast item cache zone).cache.zone = cache.zone ∧
      (Access.freeLocked cache zone).cache.zone = cache.zone := by
  refine ⟨?_, ?_, ?_⟩
  · unfold Access.allocFast
    split
    · rfl
    · split
      · rfl
      · split
        · rfl
        · split <;> rfl
  · unfold Access.freeFast
    split
    · rfl
    · split
      · rfl
      · split
        · rfl
        · split
          · dsimp only
            split <;> rfl
          · rfl
  · unfold Access.freeLocked
    have exchanged : (Access.exchange cache zone).cache.zone = cache.zone := by
      unfold Access.exchange
      dsimp only
      split <;> rfl
    split
    · exact exchanged
    · split
      · rfl
      · split
        · exact exchanged
        · split
          · rfl
          · exact exchanged

theorem unnamed_step {step : UmaStep} (unnamed : ∀ thread slot, (uma.caches thread slot).zone = none)
    (move : umaMove uma step next) (frees : step.FreesOnly) (thread slot : Nat) :
    (next.caches thread slot).zone = none := by
  obtain ⟨enabled, rfl⟩ := move
  have accessed : ∀ (owner number : Nat) (run : UmaCache → Zone → Access),
      (∀ cache zone, (run cache zone).cache.zone = cache.zone) →
      ((uma.access owner number run).caches thread slot).zone = none := by
    intro owner number run kept
    rw [Uma.access, setCache_apply]
    split
    · rw [kept]
      exact unnamed _ _
    · exact unnamed thread slot
  cases step with
  | choose zone =>
    show ((uma.zoneCtorChoose zone).caches thread slot).zone = none
    unfold Uma.zoneCtorChoose
    split <;> exact unnamed thread slot
  | drainNext zone =>
    obtain ⟨drained, rest, draining⟩ := enabled
    simp only [Uma.step, draining]
    show ((uma.cacheDrainOne zone drained).caches thread slot).zone = none
    rw [Uma.cacheDrainOne, setCache_apply]
    split
    · rfl
    · exact unnamed thread slot
  | threadDrain exiting =>
    obtain ⟨position, -, out⟩ := enabled
    have skips : uma.Skips exiting := fun slot => .inl (unnamed exiting slot)
    simp only [Uma.step, out, tlsDrainOne_skips skips]
    exact unnamed thread slot
  | allocFast owner zone =>
    exact accessed owner zone _ fun cache zone => (access_zone cache zone ⟨0, 0⟩).1
  | allocLocked owner zone => exact frees.elim
  | fill zone entries addresses =>
    show ((uma.zoneAllocBucket zone entries addresses).caches thread slot).zone = none
    unfold Uma.zoneAllocBucket
    dsimp only
    split <;> exact unnamed thread slot
  | freeFast owner zone address =>
    exact accessed owner zone _ fun cache stock => (access_zone cache stock _).2.1
  | freeLocked owner zone =>
    exact accessed owner zone _ fun cache zone => (access_zone cache zone ⟨0, 0⟩).2.2
  | _ => exact unnamed thread slot

def freesMove (uma : Uma) (step : UmaStep) (next : Uma) : Prop :=
  umaMove uma step next ∧ step.FreesOnly

theorem leaked_after {labels : List UmaStep} {items : List Item}
    (run : Run umaMove Uma.start labels uma) (skips : uma.Skips 0) (exits : uma.threads 0 = .exiting 0)
    (held : (uma.caches 0 0).items = items) :
    ∃ next, Run umaMove Uma.start (labels ++ List.replicate umaCacheTableSlots (.threadDrain 0))
        next ∧
      next.threads 0 = .exiting umaCacheTableSlots ∧ (next.caches 0 0).items = items := by
  obtain ⟨next, rest, exited, caches, -⟩ := threadDrain_skips umaCacheTableSlots skips exits
    (Nat.le_refl _)
  exact ⟨next, run.append rest, exited, by rw [caches]; exact held⟩

theorem leaked_by_frees :
    ∃ uma, Run umaMove Uma.start ([.choose 0, .mark 0, .threadStart 0, .freeLocked 0 0,
        .freeBucket 0 16, .freeLocked 0 0, .freeFast 0 0 5, .threadExit 0] ++
        List.replicate umaCacheTableSlots (.threadDrain 0)) uma ∧
      uma.threads 0 = .exiting umaCacheTableSlots ∧ (uma.caches 0 0).items = [⟨0, 5⟩] := by
  have run : Run freesMove Uma.start [.choose 0, .mark 0, .threadStart 0, .freeLocked 0 0,
      .freeBucket 0 16, .freeLocked 0 0, .freeFast 0 0 5, .threadExit 0] _ :=
    Allowed.run_and ⟨⟨rfl, trivial⟩, ⟨rfl, trivial⟩, ⟨⟨rfl, rfl⟩, trivial⟩,
      ⟨⟨trivial, rfl⟩, trivial⟩, ⟨rfl, trivial⟩, ⟨⟨trivial, rfl⟩, trivial⟩,
      ⟨⟨trivial, rfl⟩, trivial⟩, ⟨⟨rfl, rfl⟩, trivial⟩, trivial⟩
  have unnamed := run.invariant (fun uma => ∀ thread slot, (uma.caches thread slot).zone = none)
    (fun _ _ => rfl) fun _ _ _ unnamed move => unnamed_step unnamed move.1 move.2
  exact leaked_after (run.mono fun _ _ _ move => move.1) (fun slot => .inl (unnamed 0 slot)) rfl rfl

theorem Uma.Slots.skips (slots : uma.Slots) (all : uma.slotsAvailable = umaCacheTableSlots)
    (thread : Nat) : uma.Skips thread := by
  obtain ⟨owned, -, member, count⟩ := slots.counted
  have none : owned = [] := List.length_eq_zero_iff.mp (by omega)
  intro slot
  right
  rw [← Bool.not_eq_true, ← member, none]
  exact List.not_mem_nil

theorem leaked_by_overlap :
    ∃ uma, Run umaMove Uma.start ([.choose 0, .mark 0, .threadStart 0, .allocLocked 0 0,
        .fill 0 16 [5, 6], .allocLocked 0 0, .destroy 0, .threadExit 0, .drainEnter 0,
        .drainExit 0, .bucketDrain 0, .release 0] ++
        List.replicate umaCacheTableSlots (.threadDrain 0)) uma ∧
      uma.threads 0 = .exiting umaCacheTableSlots ∧
      (uma.caches 0 0).items = [⟨0, 5⟩, ⟨0, 6⟩] := by
  have run : Run apartMove Uma.start [.choose 0, .mark 0, .threadStart 0, .allocLocked 0 0,
      .fill 0 16 [5, 6], .allocLocked 0 0, .destroy 0, .threadExit 0, .drainEnter 0,
      .drainExit 0, .bucketDrain 0, .release 0] _ :=
    Allowed.run_and ⟨⟨rfl, by rintro _ ⟨⟩⟩, ⟨rfl, trivial⟩, ⟨⟨rfl, rfl⟩, trivial⟩,
      ⟨⟨rfl, rfl⟩, trivial⟩, ⟨rfl, trivial⟩, ⟨⟨rfl, rfl⟩, trivial⟩, ⟨rfl, trivial⟩,
      ⟨⟨rfl, rfl⟩, trivial⟩, ⟨⟨rfl, rfl⟩, trivial⟩, ⟨rfl, trivial⟩, ⟨rfl, trivial⟩, ⟨rfl, trivial⟩,
      trivial⟩
  have inv := run.invariant Uma.Inv ⟨slots_start, contents_start⟩
    fun _ _ _ inv move => inv.step move.1 move.2
  exact leaked_after (run.mono fun _ _ _ move => move.1) (inv.slots.skips rfl 0) rfl rfl

theorem umaCaches_leaked :
    (∃ uma, Run umaMove Uma.start ([.choose 0, .mark 0, .threadStart 0, .freeLocked 0 0,
          .freeBucket 0 16, .freeLocked 0 0, .freeFast 0 0 5, .threadExit 0] ++
          List.replicate umaCacheTableSlots (.threadDrain 0)) uma ∧
        uma.threads 0 = .exiting umaCacheTableSlots ∧ (uma.caches 0 0).items = [⟨0, 5⟩]) ∧
      ∃ uma, Run umaMove Uma.start ([.choose 0, .mark 0, .threadStart 0, .allocLocked 0 0,
          .fill 0 16 [5, 6], .allocLocked 0 0, .destroy 0, .threadExit 0, .drainEnter 0,
          .drainExit 0, .bucketDrain 0, .release 0] ++
          List.replicate umaCacheTableSlots (.threadDrain 0)) uma ∧
        uma.threads 0 = .exiting umaCacheTableSlots ∧
        (uma.caches 0 0).items = [⟨0, 5⟩, ⟨0, 6⟩] :=
  ⟨leaked_by_frees, leaked_by_overlap⟩

end Libunsod.Vm
