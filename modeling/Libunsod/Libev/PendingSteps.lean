import Libunsod.Libev.PendingSlots

/-!
The steps of `ev_uinet_start` and `ev_uinet_stop` keep the invariant.
-/

namespace Libunsod.Libev

open LinkedList LinkedList.Links
open Function (update update_of_ne update_self update_eq_self eq_update_iff)
open EvLoop

variable {watchers : Nat → EvUinet} {loop next : EvLoop} {pc after : LoopPc} {so watcher : Nat}
  {inhibited : Bool} {dir : Direction}

def LoopPc.Within (watchers : Nat → EvUinet) (pc : LoopPc) (so : Nat) : Prop :=
  pc.current watchers = none ∨ pc.current watchers = some so

section Assembly

theorem at_seenBy {view : SockView} (within : pc.Within watchers so) :
    view.At watchers (pc.seenBy watchers so) ↔ view.At watchers pc := by
  unfold LoopPc.seenBy
  rcases within with outside | here
  · rw [if_neg (by rw [outside]; rintro ⟨⟩)]
    cases pc with
    | idle | reenableNext | reenableInit => exact Iff.rfl
    | _ => cases outside
  · rw [if_pos here]

theorem seenBy_other {other : Nat} (within : pc.Within watchers so) (different : other ≠ so) :
    pc.seenBy watchers other = .idle := by
  unfold LoopPc.seenBy
  rw [if_neg]
  intro same
  rcases within with outside | here
  · cases outside.symm.trans same
  · exact different (Option.some.inj (same.symm.trans here))

theorem EvLoop.InvAt.own (inv : loop.InvAt watchers pc) (within : pc.Within watchers so) :
    (loop.view so).At watchers pc := (at_seenBy within).mp (inv.served so)

theorem EvLoop.InvAt.move {new : SockView} (inv : loop.InvAt watchers pc)
    (views : next.view = update loop.view so new) (before : pc.Within watchers so)
    (within : after.Within watchers so)
    (own : (loop.view so).At watchers pc → new.At watchers after)
    (books : next.Books watchers after) : next.InvAt watchers after := by
  refine ⟨fun other => ?_, books⟩
  rw [views]
  by_cases same : other = so
  · subst same
    rw [update_self]
    exact (at_seenBy within).mpr (own (inv.own before))
  · rw [update_of_ne same, seenBy_other within same, ← seenBy_other before same]
    exact inv.served other

theorem EvLoop.InvAt.stay (inv : loop.InvAt watchers pc) (views : next.view = loop.view)
    (before : pc.Within watchers so) (within : after.Within watchers so)
    (own : (loop.view so).At watchers pc → (loop.view so).At watchers after)
    (books : next.Books watchers after) : next.InvAt watchers after :=
  inv.move (views.trans (update_eq_self so loop.view).symm) before within own books

theorem view_setUpcall (loop : EvLoop) (so : Nat) (dir : Direction) (installed : Bool) :
    (loop.setUpcall so dir installed).view =
      update loop.view so ((loop.view so).setUpcall dir installed) :=
  eq_update_iff.mpr ⟨by simp [view, EvLoop.setUpcall, SockView.setUpcall],
    fun other different => by simp [view, EvLoop.setUpcall, different]⟩

theorem view_setCount (loop : EvLoop) (so : Nat) (dir : Direction) (count : Nat) :
    (loop.setCount so dir count).view = update loop.view so ((loop.view so).setCount dir count) :=
  eq_update_iff.mpr ⟨by simp [view, EvLoop.setCount, SockView.setCount],
    fun other different => by simp [view, EvLoop.setCount, different]⟩

theorem view_setReady (loop : EvLoop) (so : Nat) (dir : Direction) (ready : Bool) :
    (loop.setReady so dir ready).view = update loop.view so ((loop.view so).setReady dir ready) :=
  eq_update_iff.mpr ⟨by simp [view, EvLoop.setReady, SockView.setReady],
    fun other different => by simp [view, EvLoop.setReady, different]⟩

theorem view_setFlags (loop : EvLoop) (so : Nat) (flags : PendFlags) :
    (loop.setFlags so flags).view = update loop.view so ((loop.view so).setFlags flags) :=
  eq_update_iff.mpr ⟨by simp [view, EvLoop.setFlags, SockView.setFlags],
    fun other different => by simp [view, EvLoop.setFlags, different]⟩

theorem view_setHead (loop : EvLoop) (so : Nat) (head : List Nat) :
    (loop.setHead so head).view = update loop.view so { loop.view so with head := head } :=
  eq_update_iff.mpr ⟨by simp [view, EvLoop.setHead],
    fun other different => by simp [view, EvLoop.setHead, different]⟩

theorem reflagged {flags : Nat → PendFlags} {new : PendFlags} (flag : PendFlags → Bool)
    {was is unlinked : Nat → Prop} (own : is so ↔ flag new = true ∧ ¬unlinked so)
    (others : ∀ other, other ≠ so → (is other ↔ was other))
    (before : ∀ other, other ≠ so → (was other ↔ flag (flags other) = true ∧ ¬unlinked other))
    (other : Nat) : is other ↔ flag (update flags so new other) = true ∧ ¬unlinked other := by
  by_cases equal : other = so
  · subst equal
    rw [update_self]
    exact own
  · rw [update_of_ne equal]
    exact (others other equal).trans (before other equal)

end Assembly

section SocketEvents

theorem socketEvents_cases (loop : EvLoop) (so : Nat) (events : Events) :
    ∃ links number sent, loop.uinetSocketEvents so events =
        { loop.setFlags so ((loop.view so).post events).flags with
          links := links, numPending := number, sent := sent } ∧
      ((loop.pendFlags so).pending = true ∧ links = loop.links ∧ number = loop.numPending ∧
          sent = loop.sent ∨
        (loop.pendFlags so).pending = false ∧ links = loop.links.insertHead .pend so ∧
          number = loop.numPending + 1 ∧ (sent = true ∨ 0 < loop.inBatch)) := by
  simp only [uinetSocketEvents, enqueue]
  cases pending : (loop.pendFlags so).pending with
  | true => exact ⟨_, _, _, rfl, .inl ⟨rfl, rfl, rfl, rfl⟩⟩
  | false =>
    simp only [Bool.false_eq_true, if_false]
    split
    next => exact ⟨_, _, _, rfl, .inr ⟨trivial, rfl, rfl, .inl rfl⟩⟩
    next open_ => exact ⟨_, _, _, rfl, .inr ⟨trivial, rfl, rfl, .inr (Nat.pos_of_ne_zero open_)⟩⟩

theorem view_socketEvents (loop : EvLoop) (so : Nat) (events : Events) :
    (loop.uinetSocketEvents so events).view = update loop.view so ((loop.view so).post events) := by
  obtain ⟨links, number, sent, same, -⟩ := socketEvents_cases loop so events
  rw [same]
  exact view_setFlags loop so _

theorem socketEvents_pc (loop : EvLoop) (so : Nat) (events : Events) :
    (loop.uinetSocketEvents so events).pc = loop.pc := by
  obtain ⟨links, number, sent, same, -⟩ := socketEvents_cases loop so events
  rw [same]
  rfl

theorem EvLoop.Books.socketEvents (events : Events) (free : (loop.pendFlags so).inhibited = false)
    (linked : ¬pc.Unlinked watchers so) (books : loop.Books watchers pc) :
    (loop.uinetSocketEvents so events).Books watchers pc := by
  obtain ⟨heads, pend, resting, swapped, lists, track, place⟩ := books
  obtain ⟨links, number, sent, same, pending⟩ := socketEvents_cases loop so events
  rw [same]
  have notResting : so ∉ resting := by
    intro member
    cases free.symm.trans ((lists.inhibited so).mp member).1
  have inhibited : ∀ other, other ∈ resting ↔
      (update loop.pendFlags so ((loop.view so).post events).flags other).inhibited = true ∧
        ¬pc.Unlinked watchers other :=
    reflagged (·.inhibited) (lists.inhibited so) (fun _ _ => Iff.rfl) fun other _ =>
      lists.inhibited other
  rcases pending with ⟨on, rfl, rfl, rfl⟩ | ⟨off, rfl, rfl, notified⟩
  · refine ⟨heads, pend, resting, swapped, { lists with inhibited := inhibited, pending := ?_ },
      track, place⟩
    refine reflagged (·.pending) ?_ (fun _ _ => Iff.rfl) fun other _ => lists.pending other
    rw [lists.pending so, on]
    rfl
  · have absent : so ∉ pend ∧ so ∉ swapped := by
      rw [← not_or, lists.pending so, off]
      rintro ⟨⟨⟩, -⟩
    have notPrev : so ∉ resting ++ swapped := by simp [notResting, absent.2]
    refine ⟨heads, so :: pend, resting, swapped, ⟨lists.chained.insertHead absent.1,
      List.nodup_cons.mpr ⟨by simp [absent.1, notResting, absent.2], lists.nodup⟩, ?_, inhibited,
      Nat.succ_le_succ lists.counted, fun _ => notified, lists.renewed⟩, ?_, ?_⟩
    · refine reflagged (·.pending) (iff_of_true (.inl List.mem_cons_self) ⟨rfl, linked⟩)
        (fun other different => ?_) fun other _ => lists.pending other
      simp [different]
    · generalize pc.traversal = traversal at track ⊢
      cases traversal with
      | some pointer => exact Walks.insertHead track notPrev
      | none =>
        refine Chained.insertHead_other track (by rintro ⟨⟩) notPrev fun first found member => ?_
        exact (List.nodup_append.mp lists.nodup).2.2 first (lists.chained.first_mem found) first
          member rfl
    · cases pc with
      | reenableReset at_ following =>
        refine ⟨place.1, ?_⟩
        have walks : Walks loop.links (some at_) (resting ++ swapped) := track
        have different : at_ ≠ so := by
          rintro rfl
          generalize resting ++ swapped = elems at walks notPrev
          cases elems with
          | nil => cases walks
          | cons first rest => exact notPrev (Option.some.inj walks.1 ▸ List.mem_cons_self)
        rw [next_eq_load, load_insertHead, if_neg (by rintro ⟨⟩),
          if_neg (fun equal => different (Anchor.after.inj equal))]
        exact place.2
      | _ => exact place

theorem EvLoop.InvAt.posted {events : Events}
    (inv : loop.InvAt watchers pc) (before : pc.Within watchers so) (within : after.Within watchers so)
    (free : events.any = true → (loop.pendFlags so).inhibited = false)
    (linked : ¬pc.Unlinked watchers so) (books : ∀ loop : EvLoop, loop.Books watchers pc →
      loop.Books watchers after)
    (own : (loop.view so).At watchers pc →
      (if events.any then (loop.view so).post events else loop.view so).At watchers after) :
    ((if events.any then loop.uinetSocketEvents so events else loop).goto after).Inv watchers := by
  by_cases any : events.any = true
  · rw [if_pos any] at own ⊢
    exact inv.move (view_socketEvents loop so events) before within own
      (books _ (inv.books.socketEvents events (free any) linked))
  · rw [if_neg any] at own ⊢
    exact inv.stay rfl before within own (books _ inv.books)

end SocketEvents

section Start

variable {initial : Events}

theorem startNext_within : (startNext watcher inhibited initial dir).Within watchers
    (watchers watcher).ctx := by
  cases dir <;> exact .inr rfl

theorem EvLoop.InvAt.startSet (inv : loop.InvAt watchers (.startSet watcher inhibited initial dir))
    (here : loop.pc = .startSet watcher inhibited initial dir) :
    (loop.advance watchers).Inv watchers := by
  simp only [advance, here]
  exact inv.move (view_setUpcall loop _ dir true) (.inr rfl) (.inr rfl) (·.startSet) inv.books

theorem EvLoop.InvAt.startBranch
    (inv : loop.InvAt watchers (.startBranch watcher inhibited initial dir))
    (here : loop.pc = .startBranch watcher inhibited initial dir)
    (within : (watchers watcher).events dir = true →
      loop.count (watchers watcher).ctx dir + 1 < shortRange) :
    (loop.advance watchers).Inv watchers := by
  have books : loop.Books watchers (startNext watcher inhibited initial dir) := by
    cases dir <;> exact inv.books
  have flag := (inv.own (.inr rfl)).locals.1.2
  simp only [advance, here]
  split
  next asks =>
    split
    next first =>
      have unasked : inhibited = false ∧ loop.count (watchers watcher).ctx dir = 0 := by
        simpa using first
      refine inv.stay rfl (.inr rfl) (.inr rfl) (fun served => ?_) inv.books
      exact { served with
        locals := ⟨served.locals, flag.symm.trans unasked.1, asks, unasked.2⟩ }
    next more =>
      refine inv.move (view_setCount loop _ dir _) (.inr rfl) startNext_within
        (fun served => served.startCount asks (within asks) fun free => ?_) books
      rw [flag.trans free] at more
      have nonzero : loop.count (watchers watcher).ctx dir ≠ 0 := by simpa using more
      exact Nat.pos_of_ne_zero nonzero
  next silent =>
    exact inv.stay rfl (.inr rfl) startNext_within
      (fun served => served.startSkip (by simpa using silent)) books

theorem EvLoop.InvAt.startCheck
    (inv : loop.InvAt watchers (.startCheck watcher inhibited initial dir))
    (here : loop.pc = .startCheck watcher inhibited initial dir) :
    (loop.advance watchers).Inv watchers := by
  have books : ∀ initial, loop.Books watchers (startNext watcher inhibited initial dir) := by
    cases dir <;> exact fun _ => inv.books
  simp only [advance, here]
  exact inv.move (view_setCount loop _ dir _) (.inr rfl) startNext_within (·.startCheck) (books _)

theorem EvLoop.InvAt.startPost (inv : loop.InvAt watchers (.startPost watcher initial))
    (here : loop.pc = .startPost watcher initial) : (loop.advance watchers).Inv watchers := by
  have alone : SockView.Alone watchers _ watcher initial := (inv.own (.inr rfl)).locals
  simp only [advance, here]
  refine inv.posted (.inr rfl) (.inl rfl) (fun any => ?_) id (fun _ => id)
    fun served => SockView.At.posted served fun _ => id
  simp only [Events.any, Bool.or_eq_true] at any
  rcases any with read | write
  · exact (alone _ read).1
  · exact (alone _ write).1

end Start

section Stop

theorem stopNext_within : (stopNext watcher inhibited dir).Within watchers (watchers watcher).ctx := by
  cases dir <;> exact .inr rfl

theorem EvLoop.InvAt.stopBranch (inv : loop.InvAt watchers (.stopBranch watcher inhibited dir))
    (here : loop.pc = .stopBranch watcher inhibited dir) :
    (loop.advance watchers).Inv watchers := by
  have books : loop.Books watchers (stopNext watcher inhibited dir) := by
    cases dir <;> exact inv.books
  have own := inv.own (.inr rfl)
  have flag := own.locals.2
  simp only [advance, here]
  split
  next asks =>
    have counted : loop.count (watchers watcher).ctx dir = _ := own.asked asks
    have bound : loop.count (watchers watcher).ctx dir < shortRange := own.bound dir
    rw [countDown_eq (by omega) bound]
    split
    next last =>
      have unasked : inhibited = false ∧ loop.count (watchers watcher).ctx dir - 1 = 0 := by
        simpa using last
      exact inv.move (view_setCount loop _ dir _) (.inr rfl) (.inr rfl)
        (·.stopLast asks (flag.symm.trans unasked.1) unasked.2) inv.books
    next more =>
      refine inv.move (view_setCount loop _ dir _) (.inr rfl) stopNext_within
        (fun served => served.stopCount asks fun free => ?_) books
      rw [flag.trans free] at more
      have notOne : loop.count (watchers watcher).ctx dir - 1 ≠ 0 := by simpa using more
      show 1 < loop.count (watchers watcher).ctx dir
      omega
  next silent =>
    exact inv.stay rfl (.inr rfl) stopNext_within
      (fun served => served.stopSkip (by simpa using silent)) books

theorem EvLoop.InvAt.stopClear (inv : loop.InvAt watchers (.stopClear watcher inhibited dir))
    (here : loop.pc = .stopClear watcher inhibited dir) :
    (loop.advance watchers).Inv watchers := by
  simp only [advance, here]
  exact inv.move (view_setUpcall loop _ dir false) (.inr rfl) stopNext_within (·.stopClear)
    (by cases dir <;> exact inv.books)

theorem Heads.erase {head : Nat → List Nat} {active still : Nat → Bool} {unlisted : Nat → Prop}
    (heads : Heads watchers head active fun _ => False)
    (nodup : (head (watchers watcher).ctx).Nodup)
    (others : ∀ other, other ≠ watcher → still other = active other)
    (own : still watcher = true → unlisted watcher) :
    Heads watchers (update head (watchers watcher).ctx ((head (watchers watcher).ctx).erase watcher))
      still unlisted := by
  have mem_iff : ∀ so other, other ∈ update head (watchers watcher).ctx
      ((head (watchers watcher).ctx).erase watcher) so ↔ other ≠ watcher ∧ other ∈ head so := by
    intro so other
    by_cases same : so = (watchers watcher).ctx
    · subst same
      rw [update_self, nodup.mem_erase_iff]
    · rw [update_of_ne same]
      refine (and_iff_right_of_imp ?_).symm
      rintro member rfl
      exact same (heads.listed so other member).1.symm
  refine ⟨fun so other member => ?_, fun other is => ?_⟩
  · obtain ⟨different, before⟩ := (mem_iff so other).mp member
    rw [others other different]
    exact heads.listed so other before
  · by_cases equal : other = watcher
    · subst equal
      exact .inr (own is)
    · rw [others other equal] at is
      exact .inl ((mem_iff _ other).mpr ⟨equal, (heads.active other is).resolve_right id⟩)

theorem EvLoop.InvAt.stopDel (inv : loop.InvAt watchers (.stopDel watcher))
    (here : loop.pc = .stopDel watcher) : (loop.advance watchers).Inv watchers := by
  obtain ⟨heads, pend, resting, swapped, lists, track, place⟩ := inv.books
  have nodup : (loop.head (watchers watcher).ctx).Nodup := (inv.own (.inr rfl)).nodup
  simp only [advance, here]
  split
  next empty =>
    have none_ : (loop.head (watchers watcher).ctx).erase watcher = [] := by simpa using empty
    split
    next linked =>
      have flagged : (loop.pendFlags (watchers watcher).ctx).inhibited = true ∨
          (loop.pendFlags (watchers watcher).ctx).pending = true := by simpa using linked
      exact inv.move (view_setHead loop _ _) (.inr rfl) (.inr rfl)
        (fun served => served.stopDel rfl (fun _ => rfl) ⟨none_, flagged⟩)
        ⟨heads.erase nodup (fun _ _ => rfl) fun _ => rfl, pend, resting, swapped, lists, track, place⟩
    next unlinked =>
      have off : (loop.pendFlags (watchers watcher).ctx).inhibited = false ∧
          (loop.pendFlags (watchers watcher).ctx).pending = false := by simpa using unlinked
      have cleared : ∀ flag : PendFlags → Bool,
          flag (loop.pendFlags (watchers watcher).ctx) = false → ∀ so,
          (flag (loop.pendFlags so) = true ∧ ¬False) ↔
            (flag (loop.pendFlags so) = true ∧ ¬(watchers watcher).ctx = so) := by
        intro flag clear so
        refine and_congr_right fun set => iff_of_true id ?_
        rintro rfl
        cases clear.symm.trans set
      refine inv.move (view_setHead loop _ _) (.inr rfl) (.inr rfl)
        (fun served => served.stopDel rfl (fun _ => rfl) none_)
        ⟨heads.erase nodup (fun _ _ => rfl) fun _ => rfl, pend, resting, swapped,
          { lists with pending := fun so => ?_, inhibited := fun so => ?_ }, track, place⟩
      · exact (lists.pending so).trans (cleared (·.pending) off.2 so)
      · exact (lists.inhibited so).trans (cleared (·.inhibited) off.1 so)
  next more =>
    refine inv.move (view_setHead loop _ _) (.inr rfl) (.inl rfl)
      (fun served => served.stopDel rfl (fun _ => rfl) trivial)
      ⟨heads.erase nodup (fun other different => update_of_ne different ..) fun is => ?_, pend,
        resting, swapped, lists, track, place⟩
    cases (update_self ..).symm.trans is

theorem chained_remove {links : Links PendHead Nat} {pend resting : List Nat}
    (chained : Chained links .pend pend) (track : Chained links .prevPend resting)
    (nodup : (pend ++ resting).Nodup) (member : so ∈ pend ∨ so ∈ resting) :
    Chained (links.remove so) .pend (pend.erase so) ∧
      Chained (links.remove so) .prevPend (resting.erase so) := by
  have parts := List.nodup_append.mp nodup
  have apart : ∀ other, other ∈ pend → other ∉ resting := fun other left right =>
    parts.2.2 other left other right rfl
  have erased : ∀ {before after : List Nat}, (before ++ so :: after).Nodup →
      (before ++ so :: after).erase so = before ++ after := by
    intro before after nodup
    rw [List.erase_append_right _ fun inside => (List.nodup_append.mp nodup).2.2 so inside so
      List.mem_cons_self rfl, List.erase_cons_head]
  rcases member with inPend | inResting
  · rw [List.erase_of_not_mem (apart so inPend)]
    obtain ⟨before, after, rfl⟩ := List.append_of_mem inPend
    rw [erased parts.1]
    exact ⟨chained.remove, chained.remove_other track (by rintro ⟨⟩) apart⟩
  · rw [List.erase_of_not_mem fun inside => apart so inside inResting]
    obtain ⟨before, after, rfl⟩ := List.append_of_mem inResting
    rw [erased parts.2.1]
    exact ⟨track.remove_other chained (by rintro ⟨⟩) fun other right left => apart other left right,
      track.remove⟩

theorem EvLoop.InvAt.stopRemove (inv : loop.InvAt watchers (.stopRemove watcher))
    (here : loop.pc = .stopRemove watcher) : (loop.advance watchers).Inv watchers := by
  obtain ⟨heads, pend, resting, swapped, lists, track, rfl⟩ := inv.books
  rw [List.append_nil] at track
  have nodup := lists.nodup
  rw [List.append_nil] at nodup
  have parts := List.nodup_append.mp nodup
  have pending : ∀ so, so ∈ pend ↔ (loop.pendFlags so).pending = true := by
    simpa [LoopPc.Unlinked] using lists.pending
  have inhibited : ∀ so, so ∈ resting ↔ (loop.pendFlags so).inhibited = true := by
    simpa [LoopPc.Unlinked] using lists.inhibited
  have member : (watchers watcher).ctx ∈ pend ∨ (watchers watcher).ctx ∈ resting := by
    rw [pending, inhibited]
    exact (inv.own (.inr rfl)).locals.2.symm
  obtain ⟨chained, tracked⟩ := chained_remove lists.chained track nodup member
  simp only [advance, here]
  refine inv.stay rfl (.inr rfl) (.inr rfl) (fun served => { served with locals := served.locals.1 })
    ⟨heads, pend.erase (watchers watcher).ctx, resting.erase (watchers watcher).ctx, [],
      ⟨chained, ?_, fun so => ?_, fun so => ?_, ?_, fun nonempty => ?_, fun renewed => ?_⟩, ?_, rfl⟩
  · rw [List.append_nil]
    exact nodup.sublist ((List.erase_sublist).append List.erase_sublist)
  · rw [parts.1.mem_erase_iff, or_iff_left (by rintro ⟨⟩), and_comm]
    exact and_congr (pending so) (not_congr eq_comm)
  · rw [parts.2.1.mem_erase_iff, and_comm]
    exact and_congr (inhibited so) (not_congr eq_comm)
  · exact Nat.le_trans List.length_erase_le lists.counted
  · refine lists.notified ?_
    rintro rfl
    exact nonempty rfl
  · rw [(lists.renewed renewed).1]
    exact ⟨rfl, rfl⟩
  · show Chained _ _ _
    rw [List.append_nil]
    exact tracked

theorem EvLoop.InvAt.stopReset (inv : loop.InvAt watchers (.stopReset watcher))
    (here : loop.pc = .stopReset watcher) : (loop.advance watchers).Inv watchers := by
  have empty : loop.head (watchers watcher).ctx = [] := (inv.own (.inr rfl)).locals
  obtain ⟨heads, pend, resting, swapped, lists, track, place⟩ := inv.books
  have cleared : ∀ flag : PendFlags → Bool, flag evNone = false → ∀ so,
      (flag (loop.pendFlags so) = true ∧ ¬(watchers watcher).ctx = so) ↔
        (flag (update loop.pendFlags (watchers watcher).ctx evNone so) = true ∧ ¬False) := by
    intro flag none
    refine reflagged flag ?_ (fun _ _ => Iff.rfl) fun other different => ?_
    · rw [none]
      exact iff_of_false (fun held => held.2 rfl) (by rintro ⟨⟨⟩, -⟩)
    · exact and_congr_right fun _ => iff_of_true (Ne.symm different) id
  simp only [advance, here]
  refine inv.move (view_setFlags loop _ _) (.inr rfl) (.inl rfl) (·.stopReset)
    ⟨⟨fun so other member => ?_, fun other is => ?_⟩, pend, resting, swapped,
      { lists with pending := fun so => ?_, inhibited := fun so => ?_ }, track, place⟩
  · obtain ⟨ctx, active⟩ := heads.listed so other member
    have different : other ≠ watcher := by
      rintro rfl
      have inside : other ∈ loop.head (watchers other).ctx := ctx ▸ member
      rw [empty] at inside
      cases inside
    exact ⟨ctx, (update_of_ne different ..).trans active⟩
  · have different : other ≠ watcher := by
      rintro rfl
      cases (update_self ..).symm.trans is
    exact .inl ((heads.active other ((update_of_ne different ..).symm.trans is)).resolve_right
      different)
  · exact (lists.pending so).trans (cleared (·.pending) rfl so)
  · exact (lists.inhibited so).trans (cleared (·.inhibited) rfl so)

end Stop

end Libunsod.Libev
