import Libunsod.Libev.PendingCallbacks

/-!
The socket watchers of threaded stacks over all interleavings. As long as no socket
gets 65536 readers or writers a ready socket with a watcher is on its way to it; with
more the 16-bit counters come back to zero, the upcalls are not taken away from an
inhibited socket, and it gets on both lists at once.
-/

namespace Libunsod.Libev

open LinkedList LinkedList.Links Runs
open Function (update update_of_ne update_self)
open EvLoop

variable {watchers : Nat → EvUinet} {loop next : EvLoop} {pc : LoopPc} {so watcher : Nat}
  {dir : Direction}

section Environment

theorem EvLoop.InvAt.upcall_free (inv : loop.InvAt watchers pc) (set : loop.upcall so dir = true) :
    (loop.pendFlags so).inhibited = false ∧ ¬pc.Unlinked watchers so := by
  have served := inv.served so
  by_cases here : pc.current watchers = some so
  · rw [LoopPc.seenBy, if_pos here] at served
    have locals := served.locals
    have slot := served.slot dir
    have due := slot.upcall.mp set
    cases pc with
    | startCheck | stopClear => exact ⟨locals.2.1, id⟩
    | stopReset watcher =>
      have zero : loop.count so dir = 0 := by
        rw [show loop.count so dir = _ from slot.counted,
          show (loop.view so).head = [] from locals]
        rfl
      exact absurd due.2 (zero ▸ Nat.lt_irrefl 0)
    | processFeed | processInhibit => exact due.elim
    | processClear _ at_ =>
      cases at_ <;> cases dir
      case write.read => exact due.elim
      all_goals exact ⟨due.1, id⟩
    | reenableSet | reenableCheck | reenablePost => exact ⟨locals, id⟩
    | _ => exact ⟨due.1, id⟩
  · rw [LoopPc.seenBy, if_neg here] at served
    refine ⟨((served.slot dir).upcall.mp set).1, fun unlinked => here ?_⟩
    cases pc with
    | stopReset watcher => exact congrArg some unlinked
    | _ => exact unlinked.elim

theorem EvLoop.InvAt.touch {new : SockView} (inv : loop.InvAt watchers pc)
    (views : next.view = update loop.view so new)
    (own : ∀ pc, (loop.view so).At watchers pc → new.At watchers pc)
    (books : next.Books watchers pc) : next.InvAt watchers pc := by
  refine ⟨fun other => ?_, books⟩
  rw [views]
  by_cases same : other = so
  · subst same
    rw [update_self]
    exact own _ (inv.served other)
  · rw [update_of_ne same]
    exact inv.served other

theorem EvLoop.Inv.arrive (inv : loop.Inv watchers) (so : Nat) (dir : Direction) :
    (loop.arrive so dir).Inv watchers := by
  unfold EvLoop.arrive
  dsimp only
  split
  next set =>
    obtain ⟨free, linked⟩ := inv.upcall_free set
    have views : ((loop.setReady so dir true).uinetSocketEvents so (Events.only dir)).view =
        update loop.view so (((loop.view so).setReady dir true).post (Events.only dir)) := by
      rw [view_socketEvents, view_setReady, update_self, Function.update_idem]
    have books : (loop.setReady so dir true).Books watchers loop.pc := inv.books
    rw [Inv, socketEvents_pc]
    exact inv.touch views (fun _ served => served.arrive) (books.socketEvents _ free linked)
  next clear =>
    have off : loop.upcall so dir = false := by simpa using clear
    exact inv.touch (view_setReady loop so dir true)
      (fun _ served => served.setReady true fun _ => off) inv.books

theorem EvLoop.Inv.leave (inv : loop.Inv watchers) (so : Nat) (dir : Direction) :
    (loop.setReady so dir false).Inv watchers :=
  inv.touch (view_setReady loop so dir false) (fun _ served => served.setReady false (by rintro ⟨⟩))
    inv.books

theorem EvLoop.Inv.batched (inv : loop.Inv watchers) (inBatch : Nat) (sent : Bool)
    (notified : 0 < loop.numPending → sent = true ∨ 0 < inBatch) :
    { loop with inBatch := inBatch, sent := sent }.Inv watchers := by
  obtain ⟨heads, pend, resting, swapped, lists, track, place⟩ := inv.books
  refine ⟨inv.served, heads, pend, resting, swapped,
    { lists with notified := fun nonempty => notified ?_ }, track, place⟩
  exact Nat.lt_of_lt_of_le (List.length_pos_iff.mpr nonempty) lists.counted

theorem EvLoop.Inv.batch (inv : loop.Inv watchers) (finish : Bool) :
    (loop.uinetBatchEventHandler finish).Inv watchers := by
  unfold uinetBatchEventHandler
  split
  · dsimp only
    split
    next => exact inv.batched _ true fun _ => .inl rfl
    next none_ => exact inv.batched _ loop.sent fun pending => absurd pending none_
  · exact inv.batched _ loop.sent fun _ => .inr (Nat.succ_pos _)

theorem Heads.insert {head : Nat → List Nat} {active : Nat → Bool}
    (heads : Heads watchers head active fun _ => False) (inactive : ¬active watcher = true) :
    Heads watchers (update head (watchers watcher).ctx (watcher :: head (watchers watcher).ctx))
      (update active watcher true) fun _ => False := by
  have mem_iff : ∀ so other, other ∈ update head (watchers watcher).ctx
      (watcher :: head (watchers watcher).ctx) so ↔
      so = (watchers watcher).ctx ∧ other = watcher ∨ other ∈ head so := by
    intro so other
    by_cases same : so = (watchers watcher).ctx
    · simp [same]
    · simp [same]
  refine ⟨fun so other member => ?_, fun other is => .inl ((mem_iff _ other).mpr ?_)⟩
  · rcases (mem_iff so other).mp member with ⟨rfl, rfl⟩ | old
    · exact ⟨rfl, update_self ..⟩
    · obtain ⟨ctx, is⟩ := heads.listed so other old
      have different : other ≠ watcher := by
        rintro rfl
        exact inactive is
      exact ⟨ctx, (update_of_ne different ..).trans is⟩
  · by_cases equal : other = watcher
    · exact .inl ⟨by rw [equal], equal⟩
    · rw [update_of_ne equal] at is
      exact .inr ((heads.active other is).resolve_right id)

theorem SockView.At.enterStart {view : SockView} (served : view.At watchers .idle)
    (fresh : watcher ∉ view.head) : { view with head := watcher :: view.head }.At watchers
      (.startBranch watcher view.flags.inhibited noEvents .read) := by
  refine ⟨fun dir => ?_, served.bound, List.nodup_cons.mpr ⟨fresh, served.nodup⟩,
    ⟨List.mem_cons_self, rfl⟩, by rintro dir ⟨⟩⟩
  have slot := served.slot dir
  have same : askers watchers (watcher :: view.head) dir (some watcher) =
      askers watchers view.head dir none := by
    rw [askers_some, askers_none, List.filter_cons_of_neg (by simp)]
    refine List.filter_congr fun other member => ?_
    have different : other ≠ watcher := by
      rintro rfl
      exact fresh member
    simp [different]
  have counted := slot.counted.trans (congrArg List.length same).symm
  cases dir <;> exact slot.recount counted Iff.rfl fun _ => False.elim

theorem EvLoop.InvAt.enterStart (inv : loop.InvAt watchers .idle) (idle : loop.pc = .idle)
    (watcher : Nat) : (loop.evUinetStart watchers watcher).Inv watchers := by
  obtain ⟨heads, lists⟩ := inv.books
  unfold evUinetStart
  dsimp only
  split
  next =>
    rw [Inv, idle]
    exact inv
  next inactive =>
    exact inv.move (view_setHead (loop.setActive watcher true) _ _) (.inl rfl) (.inr rfl)
      (fun served => served.enterStart fun member => inactive (heads.listed _ watcher member).2)
      ⟨heads.insert inactive, lists⟩

theorem EvLoop.InvAt.enterStop (inv : loop.InvAt watchers .idle) (idle : loop.pc = .idle)
    (watcher : Nat) : (loop.evUinetStop watchers watcher).Inv watchers := by
  unfold evUinetStop
  dsimp only
  split
  next active =>
    have listed : watcher ∈ loop.head (watchers watcher).ctx :=
      (inv.books.1.active watcher active).resolve_right id
    refine inv.stay rfl (.inl rfl) (.inr rfl) (fun served => ⟨fun dir => ?_, served.bound,
      served.nodup, listed, rfl⟩) inv.books
    have slot := served.slot dir
    cases dir <;> exact slot
  next =>
    rw [Inv, show (loop.setFed watcher noEvents).pc = .idle from idle]
    exact ⟨inv.served, inv.books⟩

end Environment

section Sound

variable (watchers)

def EvLoop.Roomy (loop : EvLoop) : LoopStep → Prop
  | .advance => match loop.pc with
      | .startBranch watcher _ _ dir => (watchers watcher).events dir = true →
          loop.count (watchers watcher).ctx dir + 1 < shortRange
      | _ => True
  | _ => True

def roomyMove (loop : EvLoop) (step : LoopStep) (next : EvLoop) : Prop :=
  loopMove watchers loop step next ∧ loop.Roomy watchers step

def LoopPc.handled : LoopPc → Option Nat
  | .startBranch watcher _ _ _ | .startSet watcher _ _ _ | .startCheck watcher _ _ _
  | .startPost watcher _ | .stopBranch watcher _ _ | .stopClear watcher _ _ | .stopDel watcher
  | .stopRemove watcher | .stopReset watcher => some watcher
  | _ => none

def EvLoop.Watches (loop : EvLoop) (watcher : Nat) : Prop :=
  loop.active watcher = true ∧ loop.pc.handled ≠ some watcher

def EvLoop.OnList (loop : EvLoop) (head : PendHead) (so : Nat) : Prop :=
  ∃ elems, Chained loop.links head elems ∧ so ∈ elems

def EvLoop.Ahead (loop : EvLoop) (pointer : Option Nat) (so : Nat) : Prop :=
  ∃ rest, Walks loop.links pointer rest ∧ so ∈ rest

def EvLoop.Rechecks (loop : EvLoop) (so : Nat) (dir : Direction) : Prop :=
  match loop.pc with
  | .reenableReset at_ following => so = at_ ∨ loop.Ahead following so
  | .reenableSet at_ following current toward | .reenableCheck at_ following current toward =>
      so = at_ ∧ (¬ dir.Before toward ∨ current dir = true) ∨ loop.Ahead following so
  | .reenablePost at_ following current => so = at_ ∧ current dir = true ∨
      loop.Ahead following so
  | .reenableNext following => loop.Ahead following so
  | .reenableInit => False
  | _ => loop.OnList .prevPend so

structure EvLoop.Sound (loop : EvLoop) : Prop where
  served : ∀ watcher dir, loop.Watches watcher → (watchers watcher).events dir = true →
    loop.ready (watchers watcher).ctx dir = true →
    loop.OnList .pend (watchers watcher).ctx ∧
        (loop.pendFlags (watchers watcher).ctx).events dir = true ∨
      loop.Rechecks (watchers watcher).ctx dir
  notified : loop.links.first .pend ≠ none → loop.sent = true ∨ 0 < loop.inBatch
  apart : loop.pc.traversal = none → ∃ pend prev, Chained loop.links .pend pend ∧
    Chained loop.links .prevPend prev ∧ (pend ++ prev).Nodup

variable {watchers}

theorem EvLoop.Inv.advance (inv : loop.Inv watchers) (busy : loop.pc ≠ .idle)
    (roomy : loop.Roomy watchers .advance) : (loop.advance watchers).Inv watchers := by
  unfold Roomy at roomy
  dsimp only [Inv] at roomy inv
  cases pc : loop.pc with
  | idle => exact absurd pc busy
  | startBranch watcher inhibited initial dir =>
    rw [pc] at roomy inv
    exact inv.startBranch pc roomy
  | startSet watcher inhibited initial dir => exact (pc ▸ inv).startSet pc
  | startCheck watcher inhibited initial dir => exact (pc ▸ inv).startCheck pc
  | startPost watcher initial => exact (pc ▸ inv).startPost pc
  | stopBranch watcher inhibited dir => exact (pc ▸ inv).stopBranch pc
  | stopClear watcher inhibited dir => exact (pc ▸ inv).stopClear pc
  | stopDel watcher => exact (pc ▸ inv).stopDel pc
  | stopRemove watcher => exact (pc ▸ inv).stopRemove pc
  | stopReset watcher => exact (pc ▸ inv).stopReset pc
  | processClear so dir => exact (pc ▸ inv).processClear pc
  | processFeed so => exact (pc ▸ inv).processFeed pc
  | processInhibit so => exact (pc ▸ inv).processInhibit pc
  | processNext so => exact (pc ▸ inv).processNext pc
  | reenableReset so following => exact (pc ▸ inv).reenableReset pc
  | reenableSet so following current dir => exact (pc ▸ inv).reenableSet pc
  | reenableCheck so following current dir => exact (pc ▸ inv).reenableCheck pc
  | reenablePost so following current => exact (pc ▸ inv).reenablePost pc
  | reenableNext following => exact (pc ▸ inv).reenableNext pc
  | reenableInit => exact (pc ▸ inv).reenableInit pc

theorem EvLoop.Inv.step {label : LoopStep} (inv : loop.Inv watchers)
    (move : roomyMove watchers loop label next) : next.Inv watchers := by
  obtain ⟨⟨enabled, rfl⟩, roomy⟩ := move
  have atIdle : loop.pc = .idle → loop.InvAt watchers .idle := fun idle => idle ▸ inv
  cases label with
  | arrive so dir => exact inv.arrive so dir
  | leave so dir => exact inv.leave so dir
  | batch finish => exact inv.batch finish
  | invoke watcher => exact ⟨inv.served, inv.books⟩
  | start watcher => exact (atIdle enabled.1).enterStart enabled.1 watcher
  | stop watcher => exact (atIdle enabled).enterStop enabled watcher
  | process => exact (atIdle enabled.1).process enabled.2
  | reenable => exact (atIdle enabled).reenable enabled
  | advance => exact inv.advance enabled roomy

theorem uncounted_handled (is : pc.uncounted dir = some watcher) : pc.handled = some watcher := by
  cases pc with
  | startBranch _ _ _ at_ | startSet _ _ _ at_ | startCheck _ _ _ at_ | stopBranch _ _ at_
  | stopClear _ _ at_ => cases at_ <;> cases dir <;> first | exact is | cases is
  | stopDel => exact is
  | _ => cases is

theorem EvLoop.Inv.counts (inv : loop.Inv watchers) (watches : loop.Watches watcher)
    (asks : (watchers watcher).events dir = true) :
    watcher ∈ loop.head (watchers watcher).ctx ∧ 0 < loop.count (watchers watcher).ctx dir := by
  obtain ⟨active, unhandled⟩ := watches
  have listed : watcher ∈ loop.head (watchers watcher).ctx := by
    refine (inv.books.1.active watcher active).resolve_right fun unlisted => unhandled ?_
    generalize loop.pc = pc at unlisted
    cases pc with
    | stopRemove | stopReset => exact congrArg some unlisted.symm
    | _ => exact unlisted.elim
  refine ⟨listed, ?_⟩
  rw [show loop.count _ dir = _ from ((inv.served (watchers watcher).ctx).slot dir).counted]
  refine List.length_pos_of_mem (List.mem_filter.mpr ⟨listed, ?_⟩)
  have other : (loop.pc.seenBy watchers (watchers watcher).ctx).uncounted dir ≠ some watcher := by
    unfold LoopPc.seenBy
    split
    · exact fun same => unhandled (uncounted_handled same)
    · rintro ⟨⟩
  simp [asks, other.symm]

theorem EvLoop.Listed.rechecks {pend resting swapped : List Nat}
    (listed : loop.Listed watchers loop.pc pend resting swapped) (member : so ∈ resting ++ swapped)
    (dir : Direction) : loop.Rechecks so dir := by
  obtain ⟨-, track, place⟩ := listed
  unfold Rechecks
  generalize loop.pc = pc at track place ⊢
  generalize resting ++ swapped = elems at track member
  cases pc with
  | reenableReset at_ following =>
    cases elems with
    | nil => cases member
    | cons first rest =>
      obtain ⟨same, walks⟩ := track
      cases same
      rw [place.2] at walks
      exact (List.mem_cons.mp member).imp_right fun later => ⟨rest, walks, later⟩
  | reenableSet | reenableCheck | reenablePost => exact .inr ⟨_, track, member⟩
  | reenableInit =>
    cases elems with
    | nil => cases member
    | cons first rest => cases track.1
  | _ => exact ⟨_, track, member⟩

theorem EvLoop.Inv.excused_rechecks (inv : loop.Inv watchers) (watches : loop.Watches watcher)
    (asks : (watchers watcher).events dir = true)
    (excused : (loop.pc.seenBy watchers (watchers watcher).ctx).Excused dir) :
    loop.Rechecks (watchers watcher).ctx dir := by
  obtain ⟨listed, positive⟩ := inv.counts watches asks
  have served := inv.served (watchers watcher).ctx
  have unhandled := watches.2
  unfold Rechecks
  generalize loop.pc = pc at served excused unhandled ⊢
  unfold LoopPc.seenBy at served excused
  split at excused
  next here =>
    rw [if_pos here] at served
    have locals := served.locals
    have alone : ∀ {starter initial}, SockView.Alone watchers (loop.view (watchers watcher).ctx)
        starter initial → pc.handled = some starter → ¬initial dir = true := by
      intro starter initial alone handled noted
      exact unhandled (handled.trans (congrArg some ((alone dir noted).2 watcher listed asks).symm))
    cases pc with
    | startBranch => exact absurd excused (alone locals.2 rfl)
    | startSet => exact absurd excused (alone locals.1.2 rfl)
    | startCheck starter inhibited initial at_ =>
      have zero : loop.count (watchers watcher).ctx at_ = 0 := locals.2.2.2
      cases at_ <;> cases dir
      case read.write | write.read => exact absurd excused (alone locals.1.2 rfl)
      all_goals omega
    | startPost => exact absurd excused (alone locals rfl)
    | reenableSet => exact .inl ⟨(Option.some.inj here).symm, .inr excused⟩
    | reenableCheck at_ following current toward =>
      refine .inl ⟨(Option.some.inj here).symm, ?_⟩
      cases toward <;> cases dir
      case read.write | write.read => exact .inr excused
      all_goals exact .inl (by rintro ⟨⟨⟩, ⟨⟩⟩)
    | reenablePost => exact .inl ⟨(Option.some.inj here).symm, excused⟩
    | _ => exact excused.elim
  next => exact excused.elim

theorem EvLoop.Inv.cleared_rechecks (inv : loop.Inv watchers)
    (free : (loop.pendFlags so).inhibited = false) (positive : 0 < loop.count so dir)
    (clear : ¬loop.upcall so dir = true) : loop.Rechecks so dir := by
  obtain ⟨pend, resting, swapped, listed⟩ := inv.books.2
  have undue := mt ((inv.served so).slot dir).upcall.mpr clear
  have place := listed.2.2
  have plain : (loop.pendFlags so).inhibited = false ∧ 0 < loop.count so dir := ⟨free, positive⟩
  unfold LoopPc.seenBy at undue
  split at undue
  next here =>
    cases pc : loop.pc with
    | processClear at_ toward | processFeed at_ | processInhibit at_ =>
      rw [pc] at place here
      obtain ⟨rest, rfl⟩ := place
      cases here
      exact listed.rechecks (List.mem_append_right _ List.mem_cons_self) dir
    | reenableSet at_ following current toward | reenableCheck at_ following current toward =>
      rw [pc] at undue here
      unfold Rechecks
      rw [pc]
      refine .inl ⟨(Option.some.inj here).symm, .inl ?_⟩
      rintro ⟨rfl, rfl⟩
      exact undue plain
    | startCheck _ _ _ at_ | stopClear _ _ at_ =>
      rw [pc] at undue
      cases at_ <;> cases dir
      case read.write | write.read => exact absurd plain undue
      all_goals exact absurd trivial undue
    | _ =>
      rw [pc] at undue
      exact absurd plain undue
  next => exact absurd plain undue

theorem EvLoop.Inv.sound (inv : loop.Inv watchers) : loop.Sound watchers := by
  obtain ⟨pend, resting, swapped, listed⟩ := inv.books.2
  have lists := listed.1
  refine ⟨fun watcher dir watches asks ready => ?_, fun nonempty => ?_, fun outside => ?_⟩
  · obtain ⟨inside, positive⟩ := inv.counts watches asks
    have linked : ¬loop.pc.Unlinked watchers (watchers watcher).ctx := by
      have served := inv.served (watchers watcher).ctx
      intro unlinked
      generalize loop.pc = pc at served unlinked
      cases pc with
      | stopReset stopped =>
        have here : (LoopPc.stopReset stopped).current watchers = some (watchers watcher).ctx :=
          congrArg some unlinked
        rw [LoopPc.seenBy, if_pos here] at served
        have empty : loop.head (watchers watcher).ctx = [] := served.locals
        rw [empty] at inside
        cases inside
      | _ => exact unlinked
    cases inhibited : (loop.pendFlags (watchers watcher).ctx).inhibited with
    | true =>
      have resting := (lists.inhibited _).mpr ⟨inhibited, linked⟩
      exact .inr (listed.rechecks (List.mem_append_left _ resting) dir)
    | false =>
      by_cases set : loop.upcall (watchers watcher).ctx dir = true
      · rcases ((inv.served _).slot dir).noted set ready with ⟨pending, noted⟩ | excused
        · rcases (lists.pending _).mpr ⟨pending, linked⟩ with queued | later
          · exact .inl ⟨⟨pend, lists.chained, queued⟩, noted⟩
          · exact .inr (listed.rechecks (List.mem_append_right _ later) dir)
        · exact .inr (inv.excused_rechecks watches asks excused)
      · exact .inr (inv.cleared_rechecks inhibited positive set)
  · refine lists.notified ?_
    rintro rfl
    exact nonempty lists.chained.path
  · have track := listed.2.1
    rw [outside] at track
    exact ⟨pend, _, lists.chained, track, lists.nodup⟩

end Sound

/-- In every run in which no `ev_uinet_start` finds a counter at its limit. -/
theorem uinetWatchers_sound (watchers : Nat → EvUinet) (ready : Nat → Direction → Bool)
    {labels : List LoopStep} {loop : EvLoop}
    (run : Run (roomyMove watchers) (EvLoop.start ready) labels loop) : loop.Sound watchers := by
  have inv : loop.Inv watchers := run.invariant (Inv watchers) (.start watchers ready)
    fun _ _ _ inv move => inv.step move
  exact inv.sound

def readers : Nat → EvUinet := fun _ => ⟨0, Events.only .read⟩

theorem uinetWatchers_first_reader :
    ∃ loop, Run (roomyMove readers) (EvLoop.start fun _ _ => true)
        [.start 0, .advance, .advance, .advance, .advance, .advance] loop ∧
      loop.Watches 0 ∧ loop.ready 0 .read = true ∧ loop.Sound readers := by
  have room : 0 + 1 < shortRange := by decide
  have run : Run (roomyMove readers) (EvLoop.start fun _ _ => true)
      [.start 0, .advance, .advance, .advance, .advance, .advance] _ :=
    Allowed.run_and ⟨⟨⟨rfl, rfl⟩, trivial⟩, ⟨by rintro ⟨⟩, fun _ => room⟩,
      ⟨by rintro ⟨⟩, trivial⟩, ⟨by rintro ⟨⟩, trivial⟩, ⟨by rintro ⟨⟩, by rintro ⟨⟩⟩,
      ⟨by rintro ⟨⟩, trivial⟩, trivial⟩
  exact ⟨_, run, ⟨rfl, by rintro ⟨⟩⟩, rfl, uinetWatchers_sound readers _ run⟩

structure ReadersAt (count : Nat) (loop : EvLoop) : Prop where
  pc : loop.pc = .idle
  links : loop.links = (EvLoop.start fun _ _ => false).links
  flags : loop.pendFlags 0 = evNone
  read : loop.count 0 .read = count % shortRange
  write : loop.count 0 .write = 0
  upcall : 0 < count → loop.upcall 0 .read = true
  active : ∀ watcher, count ≤ watcher → loop.active watcher = false
  renewed : loop.reenabled = true

theorem readersAt_zero : ReadersAt 0 (EvLoop.start fun _ _ => false) :=
  ⟨rfl, rfl, rfl, rfl, rfl, by rintro ⟨⟩, fun _ _ => rfl, rfl⟩

section Many

variable {count : Nat} {loop : EvLoop}

theorem readers_start (at_ : ReadersAt count loop) :
    loop.evUinetStart readers count =
      ((loop.setActive count true).setHead 0 (count :: loop.head 0)).goto
        (.startBranch count false noEvents .read) := by
  have inactive := at_.active count (Nat.le_refl _)
  simp [evUinetStart, readers, inactive, at_.flags, evNone]

theorem advance_move (busy : loop.pc ≠ .idle) (result : loop.advance readers = next) :
    loopMove readers loop .advance next := ⟨busy, result⟩

theorem readers_finish (loop : EvLoop) (watcher : Nat) :
    Run (loopMove readers) (loop.goto (.startBranch watcher false noEvents .write))
      [.advance, .advance] (loop.goto .idle) := by
  have skipped : (loop.goto (.startBranch watcher false noEvents .write)).advance readers =
      loop.goto (.startPost watcher noEvents) := by
    simp [EvLoop.advance, goto, readers, Events.only, startNext]
  have posted : (loop.goto (.startPost watcher noEvents)).advance readers = loop.goto .idle := by
    simp [EvLoop.advance, goto, Events.any, noEvents]
  exact .snoc (.snoc .nil (advance_move (by rintro ⟨⟩) skipped))
    (advance_move (by rintro ⟨⟩) posted)

theorem readers_first (at_ : ReadersAt 0 loop) (unready : loop.ready 0 .read = false) :
    ∃ labels next, Run (loopMove readers) loop labels next ∧ ReadersAt 1 next ∧
      next.ready 0 .read = false := by
  let begun := (loop.setActive 0 true).setHead 0 (0 :: loop.head 0)
  let set := begun.setUpcall 0 .read true
  let counted := set.setCount 0 .read 1
  have branch : (begun.goto (.startBranch 0 false noEvents .read)).advance readers =
      begun.goto (.startSet 0 false noEvents .read) := by
    have zero : begun.count 0 .read = 0 := at_.read
    simp [EvLoop.advance, goto, readers, Events.only, zero]
  have install : (begun.goto (.startSet 0 false noEvents .read)).advance readers =
      set.goto (.startCheck 0 false noEvents .read) := rfl
  have check : (set.goto (.startCheck 0 false noEvents .read)).advance readers =
      counted.goto (.startBranch 0 false noEvents .write) := by
    have zero : set.count 0 .read = 0 := at_.read
    have quiet : set.ready 0 .read = false := unready
    simp [EvLoop.advance, goto, readers, zero, quiet, countUp, shortRange,
      startNext, counted, setCount]
  have start : Run (loopMove readers) loop [.start 0, .advance, .advance, .advance]
      (counted.goto (.startBranch 0 false noEvents .write)) :=
    .snoc (.snoc (.snoc (.snoc .nil ⟨⟨at_.pc, rfl⟩, readers_start at_⟩)
      (advance_move (by rintro ⟨⟩) branch)) (advance_move (by rintro ⟨⟩) install))
      (advance_move (by rintro ⟨⟩) check)
  have one : counted.count 0 .read = 1 := by simp [counted, EvLoop.setCount]
  have none_ : counted.count 0 .write = 0 := by
    simpa [counted, EvLoop.setCount] using (show set.count 0 .write = 0 from at_.write)
  have installed : counted.upcall 0 .read = true := by
    simp [counted, set, EvLoop.setCount, EvLoop.setUpcall]
  refine ⟨_, _, start.append (readers_finish counted 0), ⟨rfl, at_.links, at_.flags, one, none_,
    fun _ => installed, fun watcher late => ?_, at_.renewed⟩, unready⟩
  have different : watcher ≠ 0 := by omega
  exact (update_of_ne different ..).trans (at_.active watcher (Nat.zero_le _))

theorem readers_next (at_ : ReadersAt count loop) (unready : loop.ready 0 .read = false)
    (some_ : 0 < count) (few : count < shortRange) :
    ∃ labels next, Run (loopMove readers) loop labels next ∧ ReadersAt (count + 1) next ∧
      next.ready 0 .read = false := by
  let begun := (loop.setActive count true).setHead 0 (count :: loop.head 0)
  let counted := begun.setCount 0 .read ((count + 1) % shortRange)
  have branch : (begun.goto (.startBranch count false noEvents .read)).advance readers =
      counted.goto (.startBranch count false noEvents .write) := by
    have now : begun.count 0 .read = count := at_.read.trans (Nat.mod_eq_of_lt few)
    have nonzero : count ≠ 0 := by omega
    simp [EvLoop.advance, goto, readers, Events.only, now, nonzero, countUp,
      startNext, counted, setCount]
  have start : Run (loopMove readers) loop [.start count, .advance]
      (counted.goto (.startBranch count false noEvents .write)) :=
    .snoc (.snoc .nil ⟨⟨at_.pc, rfl⟩, readers_start at_⟩) (advance_move (by rintro ⟨⟩) branch)
  have up : counted.count 0 .read = (count + 1) % shortRange := by simp [counted, EvLoop.setCount]
  have none_ : counted.count 0 .write = 0 := by
    simpa [counted, EvLoop.setCount] using (show begun.count 0 .write = 0 from at_.write)
  refine ⟨_, _, start.append (readers_finish counted count), ⟨rfl, at_.links, at_.flags, up, none_,
    fun _ => at_.upcall some_, fun watcher late => ?_, at_.renewed⟩, unready⟩
  have different : watcher ≠ count := by omega
  exact (update_of_ne different ..).trans (at_.active watcher (by omega))

theorem readers_run {count : Nat} (few : count ≤ shortRange) :
    ∃ labels loop, Run (loopMove readers) (EvLoop.start fun _ _ => false) labels loop ∧
      ReadersAt count loop ∧ loop.ready 0 .read = false := by
  induction count with
  | zero => exact ⟨_, _, .nil, readersAt_zero, rfl⟩
  | succ count ih =>
    obtain ⟨labels, loop, run, at_, unready⟩ := ih (by omega)
    have more : ∃ labels next, Run (loopMove readers) loop labels next ∧
        ReadersAt (count + 1) next ∧ next.ready 0 .read = false := by
      rcases Nat.eq_zero_or_pos count with rfl | positive
      · exact readers_first at_ unready
      · exact readers_next at_ unready positive few
    obtain ⟨others, next, further, atNext, still⟩ := more
    exact ⟨_, next, run.append further, atNext, still⟩

theorem processClear_unasked (loop : EvLoop) {so : Nat} {dir : Direction}
    (here : loop.pc = .processClear so dir) (unasked : ¬ 0 < loop.count so dir) :
    loop.advance readers = loop.goto (processStep so dir) := by
  simp only [EvLoop.advance, here, if_neg unasked]

theorem socketEvents_off {so : Nat} (events : Events) (off : (loop.pendFlags so).pending = false) :
    ∃ number sent, loop.uinetSocketEvents so events =
      { loop.setFlags so ((loop.view so).post events).flags with
        links := loop.links.insertHead .pend so, numPending := number, sent := sent } := by
  obtain ⟨links, number, sent, same, ⟨on, -⟩ | ⟨-, rfl, -⟩⟩ := socketEvents_cases loop so events
  · cases off.symm.trans on
  · exact ⟨number, sent, same⟩

theorem readers_both (at_ : ReadersAt shortRange loop) :
    ∃ labels next, Run (loopMove readers) loop labels next ∧ next.pc = .idle ∧
      next.links.first .pend = some 0 ∧ next.links.first .prevPend = some 0 := by
  have unqueued : ((loop.setReady 0 .read true).pendFlags 0).pending = false := by
    show (loop.pendFlags 0).pending = false
    rw [at_.flags]
    rfl
  obtain ⟨number, sent, noted⟩ := socketEvents_off (Events.only .read) unqueued
  have installed : loop.upcall 0 .read = true := at_.upcall (by decide)
  have arrived : loop.arrive 0 .read = _ := (if_pos installed).trans noted
  let taken := (loop.arrive 0 .read).uinetProcessPendingList
  have links : taken.links = ((EvLoop.start fun _ _ => false).links.insertHead .pend 0).swap .pend
      .prevPend := by
    show (loop.arrive 0 .read).links.swap .pend .prevPend = _
    rw [arrived, ← at_.links]
    rfl
  have first : taken.pc = .processClear 0 .read := by
    show processAt (taken.links.first .prevPend) = _
    rw [links]
    rfl
  have same : taken.count = loop.count ∧ taken.upcall = loop.upcall := by
    show (loop.arrive 0 .read).count = _ ∧ (loop.arrive 0 .read).upcall = _
    rw [arrived]
    exact ⟨rfl, rfl⟩
  have read : ¬0 < taken.count 0 .read := by
    rw [same.1, at_.read]
    decide
  have write : ¬0 < taken.count 0 .write := by
    rw [same.1, at_.write]
    decide
  let fed := taken.uinetFeedSocketEvents readers 0
  let resting := (fed.setFlags 0 { evNone with inhibited := true }).goto .idle
  have clearRead : taken.advance readers = taken.goto (.processClear 0 .write) :=
    processClear_unasked taken first read
  have clearWrite : (taken.goto (.processClear 0 .write)).advance readers =
      taken.goto (.processFeed 0) :=
    processClear_unasked (taken.goto (.processClear 0 .write)) rfl write
  have finish : ((fed.setFlags 0 { evNone with inhibited := true }).goto (.processNext 0)).advance
      readers = resting := by
    show (fed.setFlags 0 { evNone with inhibited := true }).goto
      (processAt (taken.links.next 0)) = resting
    rw [links]
    rfl
  have process : Run (loopMove readers) loop [.arrive 0 .read, .process, .advance, .advance,
      .advance, .advance, .advance] resting := by
    refine .snoc (.snoc (.snoc (.snoc (.snoc (.snoc (.snoc .nil ⟨trivial, rfl⟩) ⟨?_, rfl⟩)
      (advance_move (by rw [first]; rintro ⟨⟩) clearRead))
      (advance_move (by rintro ⟨⟩) clearWrite)) (advance_move (by rintro ⟨⟩) rfl))
      (advance_move (by rintro ⟨⟩) rfl)) (advance_move (by rintro ⟨⟩) finish)
    show (loop.arrive 0 .read).pc = _ ∧ (loop.arrive 0 .read).reenabled = _
    rw [arrived]
    exact ⟨at_.pc, at_.renewed⟩
  have inhibited : ((resting.setReady 0 .read true).pendFlags 0).pending = false := by
    show (update taken.pendFlags 0 { evNone with inhibited := true } 0).pending = false
    rw [update_self]
    rfl
  obtain ⟨more, again, both⟩ := socketEvents_off (Events.only .read) inhibited
  have still : resting.upcall 0 .read = true := by
    show taken.upcall 0 .read = true
    rw [same.2]
    exact installed
  have last : loopMove readers resting (.arrive 0 .read) _ :=
    ⟨trivial, (if_pos still).trans both⟩
  refine ⟨_, _, process.snoc last, rfl, ?_, ?_⟩
  all_goals
    show (taken.links.insertHead .pend 0).first _ = _
    rw [links]
    rfl

end Many

theorem uinetWatchers_on_both_lists :
    ∃ labels loop, Run (loopMove readers) (EvLoop.start fun _ _ => false) labels loop ∧
      ¬ loop.Sound readers := by
  obtain ⟨labels, loop, run, at_, -⟩ := readers_run (Nat.le_refl _)
  obtain ⟨others, next, further, idle, onPend, onPrev⟩ := readers_both at_
  refine ⟨_, next, run.append further, fun sound => ?_⟩
  obtain ⟨pend, prev, chained, chainedPrev, nodup⟩ := sound.apart (by rw [idle]; rfl)
  exact (List.nodup_append.mp nodup).2.2 0 (chained.first_mem onPend) 0
    (chainedPrev.first_mem onPrev) rfl

end Libunsod.Libev
