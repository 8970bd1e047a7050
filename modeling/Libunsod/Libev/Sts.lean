import Libunsod.Libev.StsInv

/-!
The scan of the ready list, and the socket watchers of single-thread stacks over all
runs. A ready socket with a watcher stays on the ready list. What a scan feeds is exact
only where no bit of `pend_flags` has become stale: the bits are cleared when a socket
leaves the list, not when an event stops holding.
-/

namespace Libunsod.Libev

open LinkedList LinkedList.Links Runs
open Function (update update_of_ne update_self forall_update_iff)
open StsLoop

variable {watchers : Nat → EvUinet} {loop next : StsLoop}

variable {before rest : List Nat} {feed : Feed} {dir : Direction} {watcher : Nat}

theorem Events.any_of {events : Events} (holds : events dir = true) : events.any = true := by
  cases dir <;> simp [Events.any, holds]

section Scan

variable {so : Nat}

/-- The socket stays on the list with its flags, or it leaves the list. -/
theorem scanSocket_spec (watchers : Nat → EvUinet) {after : List Nat}
    (list : ReadyList loop.links loop.pendFlags (before ++ so :: after))
    (plain : (loop.pendFlags so).Plain)
    (listed : Listed (loop.ready so) (loop.count so) (loop.pendFlags so)) :
    ∃ links flags passed, (loop.scanSocket watchers so).1 =
        { loop with links := links, pendFlags := update loop.pendFlags so flags } ∧
      links.next so = after.head? ∧
      ReadyList links (update loop.pendFlags so flags) (passed ++ after) ∧ flags.Plain ∧
      Listed (loop.ready so) (loop.count so) flags := by
  obtain ⟨back, tail⟩ := path_prev list.chained.path
  have following : loop.links.next so = after.head? := path_next tail
  unfold StsLoop.scanSocket
  dsimp only
  split
  next interesting =>
    refine ⟨_, _, before ++ [so], rfl, following, ?_, plain, listed⟩
    rw [List.append_assoc]
    exact list.keep rfl
  next idle =>
    refine ⟨_, _, before, rfl, ?_, list.drop, ⟨rfl, rfl⟩, fun dir is asked => ?_⟩
    · rw [next_eq_load, load_remove, if_neg]
      · exact following
      · rw [back]
        rcases endOf_cases (.head () : Anchor Unit Nat) before with ⟨same, -⟩ | ⟨last, inside, same⟩
        · rw [same]
          rintro ⟨⟩
        · rw [same]
          rintro ⟨⟩
          have parts := List.nodup_cons.mp (List.nodup_middle.mp list.chained.nodup)
          exact parts.1 (List.mem_append_left _ inside)
    · have holds : loop.eventsOfInterest so dir = true := by simp [eventsOfInterest, asked, is]
      exact absurd (Events.any_of holds) idle

theorem scanSocket_feeds (links : Links Unit Nat) {flags : Nat → PendFlags}
    (same : flags so = loop.pendFlags so) :
    (({ loop with links := links, pendFlags := flags } : StsLoop).scanSocket watchers so).2 =
      (loop.scanSocket watchers so).2 := by
  unfold StsLoop.scanSocket eventsOfInterest
  dsimp only
  split
  · simp only [uinetFeedSocketEvents, StsLoop.setFlags, update_self, same]
  · rfl

structure StsLoop.Scanned (watchers : Nat → EvUinet) (loop next : StsLoop) (rest : List Nat)
    (feeds : List Feed) : Prop where
  same : ∃ links flags, next = { loop with links := links, pendFlags := flags }
  list : ∃ elems, ReadyList next.links next.pendFlags elems
  plain : ∀ so, (next.pendFlags so).Plain
  listed : ∀ so, Listed (loop.ready so) (loop.count so) (next.pendFlags so)
  feeds : feeds = rest.flatMap fun so => (loop.scanSocket watchers so).2

theorem scan_some (watchers : Nat → EvUinet) (fuel : Nat) (loop : StsLoop) (so : Nat) :
    scan watchers (fuel + 1) loop (some so) =
      (scan watchers fuel (loop.scanSocket watchers so).1
        ((loop.scanSocket watchers so).1.links.next so)).map fun result =>
          (result.1, (loop.scanSocket watchers so).2 ++ result.2) := by
  rw [scan]
  obtain ⟨scanned, feeds⟩ := loop.scanSocket watchers so
  dsimp only
  cases scan watchers fuel scanned (scanned.links.next so) <;> rfl

theorem scan_cases (watchers : Nat → EvUinet)
    (list : ReadyList loop.links loop.pendFlags (before ++ rest))
    (plain : ∀ so, (loop.pendFlags so).Plain)
    (listed : ∀ so, Listed (loop.ready so) (loop.count so) (loop.pendFlags so))
    (fuel : Nat) :
    (scan watchers fuel loop rest.head? = none ∧ fuel < rest.length) ∨
      ∃ next feeds, scan watchers fuel loop rest.head? = some (next, feeds) ∧
        loop.Scanned watchers next rest feeds := by
  induction rest generalizing loop fuel before with
  | nil => exact .inr ⟨loop, [], by cases fuel <;> rfl, ⟨_, _, rfl⟩, ⟨_, list⟩, plain, listed, rfl⟩
  | cons so rest ih =>
    cases fuel with
    | zero => exact .inl ⟨rfl, Nat.succ_pos _⟩
    | succ fuel =>
      obtain ⟨links, flags, passed, scanned, following, listNext, plainNext, listedNext⟩ :=
        scanSocket_spec watchers list (plain so) (listed so)
      have apart : so ∉ rest := by
        have nodup := List.nodup_cons.mp (List.nodup_middle.mp list.chained.nodup)
        exact fun member => nodup.1 (List.mem_append_right _ member)
      rw [List.head?_cons, scan_some, scanned]
      simp only [following]
      have ih : ∀ middle : StsLoop, ReadyList middle.links middle.pendFlags (passed ++ rest) → _ :=
        fun _ => ih
      rcases ih { loop with links := links, pendFlags := update loop.pendFlags so flags } listNext
        ((forall_update_iff _ fun _ => PendFlags.Plain).mpr ⟨plainNext, fun other _ => plain other⟩)
        ((forall_update_iff _ fun other => Listed (loop.ready other) (loop.count other)).mpr
          ⟨listedNext, fun other _ => listed other⟩) fuel with
        ⟨stopped, short⟩ | ⟨next, feeds, returned, ⟨links, flags, rfl⟩, listLast, plainLast,
          listedLast, fed⟩
      · exact .inl ⟨by rw [stopped]; rfl, Nat.succ_lt_succ short⟩
      · refine .inr ⟨_, _, by rw [returned]; rfl, ⟨_, _, rfl⟩, listLast, plainLast, listedLast, ?_⟩
        rw [List.flatMap_cons, fed]
        congr 1
        refine List.flatMap_congr fun other member => scanSocket_feeds _ (update_of_ne ?_ ..)
        rintro rfl
        exact apart member

end Scan

section Check

variable {elems : List Nat} {feeds : List Feed}

theorem StsLoop.Inv.check_cases (inv : loop.Inv watchers)
    (list : ReadyList loop.links loop.pendFlags elems) (fuel : Nat) :
    (loop.uinetStsCheck watchers fuel = none ∧ fuel < elems.length) ∨
      ∃ next feeds, loop.uinetStsCheck watchers fuel = some (next, feeds) ∧
        loop.Scanned watchers next elems feeds := by
  have first : loop.links.first () = elems.head? := path_next list.chained.path
  have whole : ReadyList loop.links loop.pendFlags ([] ++ elems) := list
  rw [uinetStsCheck, first]
  exact scan_cases watchers whole inv.plain inv.listed fuel

theorem check_spec {fuel : Nat} (inv : loop.Inv watchers)
    (list : ReadyList loop.links loop.pendFlags elems)
    (returned : loop.uinetStsCheck watchers fuel = some (next, feeds)) :
    loop.Scanned watchers next elems feeds := by
  rcases inv.check_cases list fuel with ⟨stopped, -⟩ | ⟨_, _, same, scanned⟩
  · rw [returned] at stopped
    cases stopped
  · rw [returned] at same
    cases same
    exact scanned

theorem StsLoop.Inv.check {fuel : Nat} (inv : loop.Inv watchers)
    (returned : loop.uinetStsCheck watchers fuel = some (next, feeds)) : next.Inv watchers := by
  obtain ⟨elems, list⟩ := inv.list
  obtain ⟨⟨links, flags, rfl⟩, list, plain, listed, -⟩ := check_spec inv list returned
  exact ⟨list, plain, inv.counts, listed⟩

theorem mem_scanSocket_feeds {so : Nat} :
    feed ∈ (loop.scanSocket watchers so).2 ↔
      (loop.eventsOfInterest so).any = true ∧ feed.watcher ∈ loop.head so ∧
        feed.revents.any = true ∧
        feed.revents = Events.inter (watchers feed.watcher).events
          ((loop.pendFlags so).events.union (loop.eventsOfInterest so)) := by
  unfold StsLoop.scanSocket
  dsimp only
  split
  next interesting =>
    simp only [uinetFeedSocketEvents, StsLoop.setFlags, update_self,
      List.mem_filterMap, Option.ite_none_right_eq_some, Option.some.injEq]
    constructor
    · rintro ⟨watcher, member, any, rfl⟩
      exact ⟨interesting, member, any, rfl⟩
    · rintro ⟨-, member, any, exact⟩
      refine ⟨feed.watcher, member, ?_, ?_⟩
      · rw [← exact]
        exact any
      · rw [← exact]
  next idle => exact iff_of_false (by rintro ⟨⟩) fun both => idle both.1

end Check

section Sound

def StsLoop.Exact (watchers : Nat → EvUinet) (loop : StsLoop) (feeds : List Feed) : Prop :=
  ∀ feed ∈ feeds, ∀ dir, feed.revents dir = true ↔
    (watchers feed.watcher).events dir = true ∧
      loop.ready (watchers feed.watcher).ctx dir = true

def StsLoop.Fresh (loop : StsLoop) : Prop :=
  ∀ so, (loop.pendFlags so).stsReady = true → (loop.eventsOfInterest so).any = true →
    ∀ dir, (loop.pendFlags so).events dir = true → 0 < loop.count so dir →
      loop.ready so dir = true

def StsLoop.Waiting (watchers : Nat → EvUinet) (loop : StsLoop) (watcher : Nat)
    (dir : Direction) : Prop :=
  loop.active watcher = true ∧ (watchers watcher).events dir = true ∧
    loop.ready (watchers watcher).ctx dir = true

variable {elems : List Nat} {feeds : List Feed} {fuel : Nat}

theorem StsLoop.Inv.mem_feeds (inv : loop.Inv watchers)
    (returned : loop.uinetStsCheck watchers fuel = some (next, feeds)) :
    feed ∈ feeds ↔ ∃ so, (loop.pendFlags so).stsReady = true ∧
      feed ∈ (loop.scanSocket watchers so).2 := by
  obtain ⟨elems, list⟩ := inv.list
  have scanned := check_spec inv list returned
  rw [scanned.feeds, List.mem_flatMap]
  exact exists_congr fun so => and_congr_left' (list.member so)

theorem StsLoop.Inv.bit_fed {so : Nat} (inv : loop.Inv watchers)
    (returned : loop.uinetStsCheck watchers fuel = some (next, feeds))
    (ready : (loop.pendFlags so).stsReady = true)
    (interesting : (loop.eventsOfInterest so).any = true) (member : watcher ∈ loop.head so)
    (asks : (watchers watcher).events dir = true)
    (bit : (loop.pendFlags so).events.union (loop.eventsOfInterest so) dir = true) :
    ∃ feed ∈ feeds, feed.watcher = watcher ∧ feed.revents dir = true := by
  generalize revents : Events.inter (watchers watcher).events
    ((loop.pendFlags so).events.union (loop.eventsOfInterest so)) = events
  have fed : events dir = true := by
    simp [← revents, Events.inter, asks, bit]
  have here : (⟨watcher, events⟩ : Feed) ∈ (loop.scanSocket watchers so).2 :=
    mem_scanSocket_feeds.mpr ⟨interesting, member, Events.any_of fed, revents.symm⟩
  exact ⟨⟨watcher, events⟩, (inv.mem_feeds returned).mpr ⟨so, ready, here⟩, rfl, fed⟩

theorem StsLoop.Inv.exact_iff (inv : loop.Inv watchers)
    (returned : loop.uinetStsCheck watchers fuel = some (next, feeds)) :
    loop.Exact watchers feeds ↔ loop.Fresh := by
  constructor
  · intro exact so ready interesting dir noted asked
    rw [(inv.counts so).counted] at asked
    obtain ⟨watcher, found⟩ := List.exists_mem_of_length_pos asked
    obtain ⟨member, asks⟩ := List.mem_filter.mp found
    have bit : (loop.pendFlags so).events.union (loop.eventsOfInterest so) dir = true := by
      simp [Events.union, noted]
    obtain ⟨feed, fed, rfl, event⟩ := inv.bit_fed returned ready interesting member asks bit
    have holds := (exact feed fed dir).mp event
    rw [(((inv.counts so).member feed.watcher).mp member).2] at holds
    exact holds.2
  · intro fresh feed member dir
    obtain ⟨so, ready, here⟩ := (inv.mem_feeds returned).mp member
    obtain ⟨interesting, listed, -, revents⟩ := mem_scanSocket_feeds.mp here
    have own : (watchers feed.watcher).ctx = so := (((inv.counts so).member _).mp listed).2
    rw [revents, own]
    simp only [Events.inter, Events.union, Bool.and_eq_true, Bool.or_eq_true]
    refine and_congr_right fun asks => ?_
    have counted := (inv.counts so).asked listed asks
    constructor
    · rintro (noted | holds)
      · exact fresh so ready interesting dir noted counted
      · simp only [eventsOfInterest, Bool.and_eq_true] at holds
        exact holds.2
    · intro holds
      right
      simp [eventsOfInterest, counted, holds]

theorem StsLoop.Inv.waiting_ready (inv : loop.Inv watchers)
    (waiting : loop.Waiting watchers watcher dir) :
    (loop.pendFlags (watchers watcher).ctx).stsReady = true :=
  inv.listed _ dir waiting.2.2
    ((inv.counts _).asked (((inv.counts _).member watcher).mpr ⟨waiting.1, rfl⟩) waiting.2.1)

theorem StsLoop.Inv.waiting_fed (inv : loop.Inv watchers)
    (returned : loop.uinetStsCheck watchers fuel = some (next, feeds))
    (waiting : loop.Waiting watchers watcher dir) :
    ∃ feed ∈ feeds, feed.watcher = watcher ∧ feed.revents dir = true := by
  have ready := inv.waiting_ready waiting
  obtain ⟨active, asks, holds⟩ := waiting
  have member : watcher ∈ loop.head (watchers watcher).ctx :=
    ((inv.counts _).member watcher).mpr ⟨active, rfl⟩
  have interest : loop.eventsOfInterest (watchers watcher).ctx dir = true := by
    simp [eventsOfInterest, (inv.counts _).asked member asks, holds]
  have bit : (loop.pendFlags (watchers watcher).ctx).events.union
      (loop.eventsOfInterest (watchers watcher).ctx) dir = true := by
    simp [Events.union, interest]
  exact inv.bit_fed returned ready (Events.any_of interest) member asks bit

def roomyStsMove (watchers : Nat → EvUinet) (loop : StsLoop) (step : StsStep)
    (next : StsLoop) : Prop :=
  stsMove watchers loop step next ∧ match step with
    | .start watcher => loop.Roomy watchers watcher
    | _ => True

theorem StsLoop.Inv.step {step : StsStep} (inv : loop.Inv watchers)
    (move : roomyStsMove watchers loop step next) : next.Inv watchers := by
  obtain ⟨move, roomy⟩ := move
  cases step with
  | arrive so dir =>
    cases move
    exact inv.arrive so dir
  | upcall so dir =>
    cases move
    exact inv.upcalled so dir
  | leave so dir =>
    cases move
    exact inv.leave so dir
  | start watcher =>
    obtain ⟨-, rfl⟩ := move
    exact inv.started roomy
  | stop watcher =>
    cases move
    exact inv.stopped watcher
  | check =>
    obtain ⟨fuel, feeds, returned⟩ := move
    exact inv.check returned

structure StsLoop.Sound (watchers : Nat → EvUinet) (loop : StsLoop) : Prop where
  listed : ∀ watcher dir, loop.Waiting watchers watcher dir →
    ∃ elems, Chained loop.links () elems ∧ (watchers watcher).ctx ∈ elems
  ends : ∃ fuel next feeds, loop.uinetStsCheck watchers fuel = some (next, feeds)
  fed : ∀ fuel next feeds, loop.uinetStsCheck watchers fuel = some (next, feeds) →
    (∀ watcher dir, loop.Waiting watchers watcher dir →
      ∃ feed ∈ feeds, feed.watcher = watcher ∧ feed.revents dir = true) ∧
    (∀ feed ∈ feeds, loop.active feed.watcher = true) ∧
    (loop.Exact watchers feeds ↔ loop.Fresh)

theorem StsLoop.Inv.sound (inv : loop.Inv watchers) : loop.Sound watchers := by
  obtain ⟨elems, list⟩ := inv.list
  refine ⟨fun watcher dir waiting => ?_, ?_,
    fun fuel next feeds returned => ⟨fun watcher dir => inv.waiting_fed returned, ?_,
      inv.exact_iff returned⟩⟩
  · exact ⟨elems, list.chained, (list.member _).mpr (inv.waiting_ready waiting)⟩
  · rcases inv.check_cases list elems.length with ⟨-, short⟩ | ⟨next, feeds, returned, -⟩
    · exact absurd short (Nat.lt_irrefl _)
    · exact ⟨_, next, feeds, returned⟩
  · intro feed member
    obtain ⟨so, -, here⟩ := (inv.mem_feeds returned).mp member
    exact (((inv.counts so).member _).mp (mem_scanSocket_feeds.mp here).2.1).1

/-- With room in the counts a scan ends, feeds every waiting watcher and no stopped one, and feeds
only ready events exactly if no queued context is stale. -/
theorem stsWatchers_sound (watchers : Nat → EvUinet) (ready : Nat → Direction → Bool)
    {labels : List StsStep} {loop : StsLoop}
    (run : Run (roomyStsMove watchers) (StsLoop.start ready) labels loop) :
    loop.Sound watchers := by
  have inv : loop.Inv watchers := run.invariant (Inv watchers) (.start watchers ready)
    fun _ _ _ inv move => inv.step move
  exact inv.sound

def readerWriter : Nat → EvUinet := fun _ => ⟨0, fun _ => true⟩

theorem stsWatchers_both_hold :
    ∃ loop, Run (roomyStsMove readerWriter) (StsLoop.start fun _ _ => true) [.start 0] loop ∧
      loop.Waiting readerWriter 0 .read ∧ loop.Fresh ∧ loop.Sound readerWriter := by
  have room : 0 + 1 < shortRange := by decide
  have run : Run (roomyStsMove readerWriter) (StsLoop.start fun _ _ => true) [.start 0] _ :=
    .snoc .nil ⟨⟨rfl, rfl⟩, fun _ _ _ => room⟩
  exact ⟨_, run, ⟨rfl, rfl, rfl⟩, fun _ _ _ _ _ _ => rfl, stsWatchers_sound readerWriter _ run⟩

theorem stsWatchers_stale_read :
    ∃ loop next feed, Run (roomyStsMove readerWriter) (StsLoop.start fun _ _ => false)
        [.start 0, .arrive 0 .read, .leave 0 .read, .arrive 0 .write] loop ∧
      loop.uinetStsCheck readerWriter 1 = some (next, [feed]) ∧ feed.watcher = 0 ∧
      feed.revents .read = true ∧ loop.ready 0 .read = false := by
  have room : 0 + 1 < shortRange := by decide
  have run : Run (roomyStsMove readerWriter) (StsLoop.start fun _ _ => false)
      [.start 0, .arrive 0 .read, .leave 0 .read, .arrive 0 .write] _ :=
    .snoc (.snoc (.snoc (.snoc .nil ⟨⟨rfl, rfl⟩, fun _ _ _ => room⟩) ⟨rfl, trivial⟩)
      ⟨rfl, trivial⟩) ⟨rfl, trivial⟩
  exact ⟨_, _, _, run, rfl, rfl, rfl, rfl⟩

end Sound

end Libunsod.Libev
