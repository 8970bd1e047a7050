import Libunsod.Libev.PendingCore

/-!
The invariant of the socket watchers. For each socket and direction a `Slot` says when
the upcall is installed, that a ready socket with an upcall is pending with its event,
and that the counter counts the watchers; where the loop thread is in a function decides
what is asked of the socket it works on. `Lists` ties the flags to the two lists.
-/

namespace Libunsod.Libev

open LinkedList LinkedList.Links
open Function (update update_of_ne update_self)
open EvLoop

def Direction.Before (left right : Direction) : Prop := left = .read ∧ right = .write

def Direction.split {Answer : Type} (here dir : Direction) (before same after : Answer) : Answer :=
  match here, dir with
  | .read, .read | .write, .write => same
  | .read, .write => after
  | .write, .read => before

/-- What the loop and the stack keep about one socket. -/
structure SockView where
  flags : PendFlags
  count : Direction → Nat
  head : List Nat
  upcall : Direction → Bool
  ready : Direction → Bool

def EvLoop.view (loop : EvLoop) (so : Nat) : SockView where
  flags := loop.pendFlags so
  count := loop.count so
  head := loop.head so
  upcall := loop.upcall so
  ready := loop.ready so

structure Slot (due : Prop → Prop) (excused : Prop) (asked : Nat) (flags : PendFlags) (event : Bool)
    (count : Nat) (installed ready : Bool) : Prop where
  upcall : installed = true ↔ due (flags.inhibited = false ∧ 0 < count)
  noted : installed = true → ready = true → flags.pending = true ∧ event = true ∨ excused
  counted : count = asked

def LoopPc.Due (pc : LoopPc) (dir : Direction) (plain : Prop) : Prop :=
  match pc with
  | .startCheck _ _ _ at_ | .stopClear _ _ at_ => at_.split dir plain True plain
  | .processClear _ at_ => at_.split dir False plain plain
  | .processFeed _ | .processInhibit _ => False
  | .reenableSet _ _ _ at_ => at_.split dir plain False False
  | .reenableCheck _ _ _ at_ => at_.split dir plain plain False
  | _ => plain

/-- The loop thread has noted the event or is about to look for it. -/
def LoopPc.Excused (pc : LoopPc) (dir : Direction) : Prop :=
  match pc with
  | .startBranch _ _ initial _ | .startSet _ _ initial _ | .startPost _ initial =>
      initial dir = true
  | .reenableSet _ _ current _ | .reenablePost _ _ current => current dir = true
  | .startCheck _ _ events at_ | .reenableCheck _ _ events at_ =>
      at_.split dir (events dir = true) True (events dir = true)
  | _ => False

def LoopPc.uncounted (pc : LoopPc) (dir : Direction) : Option Nat :=
  match pc with
  | .startBranch watcher _ _ at_ | .startSet watcher _ _ at_ | .startCheck watcher _ _ at_ =>
      at_.split dir none (some watcher) (some watcher)
  | .stopBranch watcher _ at_ => at_.split dir (some watcher) none none
  | .stopClear watcher _ at_ => at_.split dir (some watcher) (some watcher) none
  | .stopDel watcher => some watcher
  | _ => none

def LoopPc.traversal : LoopPc → Option (Option Nat)
  | .reenableReset so _ => some (some so)
  | .reenableSet _ following _ _ | .reenableCheck _ following _ _ | .reenablePost _ following _
  | .reenableNext following => some following
  | .reenableInit => some none
  | _ => none

section

variable (watchers : Nat → EvUinet)

def askers (head : List Nat) (dir : Direction) (uncounted : Option Nat) : List Nat :=
  head.filter fun watcher => (watchers watcher).events dir && decide (some watcher ≠ uncounted)

section View

variable (view : SockView)

def SockView.Held (watcher : Nat) (inhibited : Bool) : Prop :=
  watcher ∈ view.head ∧ inhibited = view.flags.inhibited

/-- The watcher for which an event was noted is the first to ask for it. -/
def SockView.Alone (watcher : Nat) (initial : Events) : Prop :=
  ∀ dir, initial dir = true → view.flags.inhibited = false ∧
    ∀ other ∈ view.head, (watchers other).events dir = true → other = watcher

def SockView.Unasked (watcher : Nat) (dir : Direction) : Prop :=
  view.flags.inhibited = false ∧ (watchers watcher).events dir = true ∧ view.count dir = 0

def LoopPc.Locals (pc : LoopPc) : Prop :=
  match pc with
  | .startBranch watcher inhibited initial _ =>
      view.Held watcher inhibited ∧ view.Alone watchers watcher initial
  | .startSet watcher inhibited initial at_ | .startCheck watcher inhibited initial at_ =>
      (view.Held watcher inhibited ∧ view.Alone watchers watcher initial) ∧
        view.Unasked watchers watcher at_
  | .startPost watcher initial => view.Alone watchers watcher initial
  | .stopBranch watcher inhibited _ => view.Held watcher inhibited
  | .stopClear watcher inhibited at_ => view.Held watcher inhibited ∧
      view.Unasked watchers watcher at_
  | .stopDel watcher => watcher ∈ view.head
  | .stopRemove _ => view.head = [] ∧ (view.flags.inhibited = true ∨ view.flags.pending = true)
  | .stopReset _ => view.head = []
  | .reenableSet _ _ _ _ | .reenableCheck _ _ _ _ | .reenablePost _ _ _ =>
      view.flags.inhibited = false
  | _ => True

structure SockView.Served (due : Direction → Prop → Prop) (excused : Direction → Prop)
    (uncounted : Direction → Option Nat) (locals : Prop) : Prop where
  slot : ∀ dir, Slot (due dir) (excused dir) (askers watchers view.head dir (uncounted dir)).length
    view.flags (view.flags.events dir) (view.count dir) (view.upcall dir) (view.ready dir)
  bound : ∀ dir, view.count dir < shortRange
  nodup : view.head.Nodup
  locals : locals

abbrev SockView.At (pc : LoopPc) : Prop :=
  view.Served watchers pc.Due pc.Excused pc.uncounted (pc.Locals watchers view)

end View

def LoopPc.current : LoopPc → Option Nat
  | .idle | .reenableNext _ | .reenableInit => none
  | .startBranch watcher _ _ _ | .startSet watcher _ _ _ | .startCheck watcher _ _ _
  | .startPost watcher _ | .stopBranch watcher _ _ | .stopClear watcher _ _ | .stopDel watcher
  | .stopRemove watcher | .stopReset watcher => some (watchers watcher).ctx
  | .processClear so _ | .processFeed so | .processInhibit so | .processNext so
  | .reenableReset so _ | .reenableSet so _ _ _ | .reenableCheck so _ _ _
  | .reenablePost so _ _ => some so

def LoopPc.seenBy (pc : LoopPc) (so : Nat) : LoopPc :=
  if pc.current watchers = some so then pc else .idle

/-- `ev_uinet_stop` has taken the watcher from its socket. -/
def LoopPc.Unlisted : LoopPc → Nat → Prop
  | .stopRemove stopped, watcher | .stopReset stopped, watcher => watcher = stopped
  | _, _ => False

structure Heads (head : Nat → List Nat) (active : Nat → Bool) (unlisted : Nat → Prop) : Prop where
  listed : ∀ so watcher, watcher ∈ head so → (watchers watcher).ctx = so ∧ active watcher = true
  active : ∀ watcher, active watcher = true →
    watcher ∈ head (watchers watcher).ctx ∨ unlisted watcher

/-- A socket that has left its list before its flags are reset. -/
def LoopPc.Unlinked : LoopPc → Nat → Prop
  | .stopReset watcher, so => (watchers watcher).ctx = so
  | _, _ => False

def LoopPc.Place (pc : LoopPc) (links : Links PendHead Nat) (resting swapped : List Nat) : Prop :=
  match pc with
  | .processClear so _ | .processFeed so | .processInhibit so => ∃ rest, swapped = so :: rest
  | .processNext so => ∃ before, resting = before ++ [so]
  | .reenableReset so following => swapped = [] ∧ links.next so = following
  | _ => swapped = []

def Track (links : Links PendHead Nat) (elems : List Nat) : Option (Option Nat) → Prop
  | some pointer => Walks links pointer elems
  | none => Chained links .prevPend elems

/-- The pending list, and the previous one as the sockets that are inhibited and those
that `uinet_process_pending_list` has still to reach. -/
structure Lists (links : Links PendHead Nat) (flags : Nat → PendFlags) (numPending : Nat)
    (notified reenabled : Prop) (unlinked : Nat → Prop) (pend resting swapped : List Nat) :
    Prop where
  chained : Chained links .pend pend
  nodup : (pend ++ (resting ++ swapped)).Nodup
  pending : ∀ so, so ∈ pend ∨ so ∈ swapped ↔ (flags so).pending = true ∧ ¬unlinked so
  inhibited : ∀ so, so ∈ resting ↔ (flags so).inhibited = true ∧ ¬unlinked so
  counted : pend.length ≤ numPending
  notified : pend ≠ [] → notified
  renewed : reenabled → resting = [] ∧ swapped = []

namespace EvLoop

def Listed (loop : EvLoop) (pc : LoopPc) (pend resting swapped : List Nat) : Prop :=
  Lists loop.links loop.pendFlags loop.numPending (loop.sent = true ∨ 0 < loop.inBatch)
      (loop.reenabled = true) (pc.Unlinked watchers) pend resting swapped ∧
    Track loop.links (resting ++ swapped) pc.traversal ∧ pc.Place loop.links resting swapped

def Books (loop : EvLoop) (pc : LoopPc) : Prop :=
  Heads watchers loop.head loop.active pc.Unlisted ∧
    ∃ pend resting swapped, loop.Listed watchers pc pend resting swapped

structure InvAt (loop : EvLoop) (pc : LoopPc) : Prop where
  served : ∀ so, (loop.view so).At watchers (pc.seenBy watchers so)
  books : loop.Books watchers pc

abbrev Inv (loop : EvLoop) : Prop := loop.InvAt watchers loop.pc

end EvLoop

end

theorem EvLoop.Inv.start (watchers : Nat → EvUinet) (ready : Nat → Direction → Bool) :
    (EvLoop.start ready).Inv watchers where
  served so := by
    refine ⟨fun dir => ⟨?_, by rintro ⟨⟩, rfl⟩, fun _ => show 0 < shortRange by decide,
      List.nodup_nil, trivial⟩
    simp [EvLoop.start, EvLoop.view, LoopPc.seenBy, LoopPc.current, LoopPc.Due]
  books := by
    refine ⟨⟨by rintro so watcher ⟨⟩, by rintro watcher ⟨⟩⟩, [], [], [],
      ⟨⟨rfl, List.nodup_nil⟩, List.nodup_nil, ?_, ?_, Nat.le_refl _, fun wrong => absurd rfl wrong,
        fun _ => ⟨rfl, rfl⟩⟩, ⟨rfl, List.nodup_nil⟩, rfl⟩
    · simp [EvLoop.start, evNone]
    · simp [EvLoop.start, evNone]

end Libunsod.Libev
