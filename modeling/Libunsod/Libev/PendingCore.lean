import Libunsod.Base.LinkedList
import Libunsod.Base.Runs
import Libunsod.Libev.UinetCore

/-!
The socket watchers of `ev.c` for stacks with threads of their own. A stack thread
runs an upcall under the lock of the socket buffer, and `uinet_socket_events` is one
section under `uinet_pend_lock`; the functions of the loop thread are cut at every
access to what the upcalls share: the upcalls, the readiness, `pend_flags` and the
two lists.
-/

namespace Libunsod.Libev

open LinkedList
open Function (update)

inductive PendHead where
  | pend
  | prevPend
  deriving DecidableEq

inductive LoopPc where
  | idle
  | startBranch (watcher : Nat) (inhibited : Bool) (initial : Events) (dir : Direction)
  | startSet (watcher : Nat) (inhibited : Bool) (initial : Events) (dir : Direction)
  | startCheck (watcher : Nat) (inhibited : Bool) (initial : Events) (dir : Direction)
  | startPost (watcher : Nat) (initial : Events)
  | stopBranch (watcher : Nat) (inhibited : Bool) (dir : Direction)
  | stopClear (watcher : Nat) (inhibited : Bool) (dir : Direction)
  | stopDel (watcher : Nat)
  | stopRemove (watcher : Nat)
  | stopReset (watcher : Nat)
  | processClear (so : Nat) (dir : Direction)
  | processFeed (so : Nat)
  | processInhibit (so : Nat)
  | processNext (so : Nat)
  | reenableReset (so : Nat) (following : Option Nat)
  | reenableSet (so : Nat) (following : Option Nat) (current : Events) (dir : Direction)
  | reenableCheck (so : Nat) (following : Option Nat) (current : Events) (dir : Direction)
  | reenablePost (so : Nat) (following : Option Nat) (current : Events)
  | reenableNext (following : Option Nat)
  | reenableInit

structure EvLoop where
  links : Links PendHead Nat
  pendFlags : Nat → PendFlags
  count : Nat → Direction → Nat
  head : Nat → List Nat
  upcall : Nat → Direction → Bool
  ready : Nat → Direction → Bool
  active : Nat → Bool
  fed : Nat → Events
  numPending : Nat
  inBatch : Nat
  sent : Bool
  reenabled : Bool
  pc : LoopPc

namespace EvLoop

def start (ready : Nat → Direction → Bool) : EvLoop where
  links := ⟨fun _ => none, fun _ => none, fun _ => .head .pend⟩
  pendFlags _ := evNone
  count _ _ := 0
  head _ := []
  upcall _ _ := false
  ready := ready
  active _ := false
  fed _ := noEvents
  numPending := 0
  inBatch := 0
  sent := false
  reenabled := true
  pc := .idle

def goto (loop : EvLoop) (pc : LoopPc) : EvLoop := { loop with pc := pc }

def setFlags (loop : EvLoop) (so : Nat) (flags : PendFlags) : EvLoop :=
  { loop with pendFlags := update loop.pendFlags so flags }

def setCount (loop : EvLoop) (so : Nat) (dir : Direction) (count : Nat) : EvLoop :=
  { loop with count := update loop.count so (update (loop.count so) dir count) }

def setUpcall (loop : EvLoop) (so : Nat) (dir : Direction) (installed : Bool) : EvLoop :=
  { loop with
    upcall := update loop.upcall so (update (loop.upcall so) dir installed) }

def setReady (loop : EvLoop) (so : Nat) (dir : Direction) (ready : Bool) : EvLoop :=
  { loop with
    ready := update loop.ready so (update (loop.ready so) dir ready) }

def setHead (loop : EvLoop) (so : Nat) (head : List Nat) : EvLoop :=
  { loop with head := update loop.head so head }

def setActive (loop : EvLoop) (watcher : Nat) (active : Bool) : EvLoop :=
  { loop with active := update loop.active watcher active }

def setFed (loop : EvLoop) (watcher : Nat) (events : Events) : EvLoop :=
  { loop with fed := update loop.fed watcher events }

def asyncSend (loop : EvLoop) : EvLoop := { loop with sent := true }

def enqueue (loop : EvLoop) (so : Nat) : EvLoop :=
  let queued := { loop with
    links := loop.links.insertHead .pend so
    numPending := loop.numPending + 1 }
  if loop.inBatch = 0 then queued.asyncSend else queued

def uinetSocketEvents (loop : EvLoop) (so : Nat) (events : Events) : EvLoop :=
  let flags := loop.pendFlags so
  let noted := if flags.pending then loop else loop.enqueue so
  noted.setFlags so { flags with events := flags.events.union events, pending := true }

def uinetBatchEventHandler (loop : EvLoop) (finish : Bool) : EvLoop :=
  if finish then
    let closed := { loop with inBatch := loop.inBatch - 1 }
    if 0 < loop.numPending then closed.asyncSend else closed
  else { loop with inBatch := loop.inBatch + 1 }

section Watchers

variable (watchers : Nat → EvUinet)

def uinetFeedSocketEvents (loop : EvLoop) (so : Nat) : EvLoop :=
  { loop with
    fed := fun watcher =>
      if watcher ∈ loop.head so then
        (loop.fed watcher).union
          (Events.inter (watchers watcher).events (loop.pendFlags so).events)
      else loop.fed watcher }

def evUinetStart (loop : EvLoop) (watcher : Nat) : EvLoop :=
  let so := (watchers watcher).ctx
  if loop.active watcher then loop
  else ((loop.setActive watcher true).setHead so (watcher :: loop.head so)).goto
    (.startBranch watcher (loop.pendFlags so).inhibited noEvents .read)

def evUinetStop (loop : EvLoop) (watcher : Nat) : EvLoop :=
  let so := (watchers watcher).ctx
  let cleared := loop.setFed watcher noEvents
  if loop.active watcher then
    cleared.goto (.stopBranch watcher (loop.pendFlags so).inhibited .read)
  else cleared

def startNext (watcher : Nat) (inhibited : Bool) (initial : Events) : Direction → LoopPc
  | .read => .startBranch watcher inhibited initial .write
  | .write => .startPost watcher initial

def stopNext (watcher : Nat) (inhibited : Bool) : Direction → LoopPc
  | .read => .stopBranch watcher inhibited .write
  | .write => .stopDel watcher

def processStep (so : Nat) : Direction → LoopPc
  | .read => .processClear so .write
  | .write => .processFeed so

def reenableStep (so : Nat) (following : Option Nat) (current : Events) : Direction → LoopPc
  | .read => .reenableSet so following current .write
  | .write => .reenablePost so following current

def processAt : Option Nat → LoopPc
  | none => .idle
  | some so => .processClear so .read

def uinetProcessPendingList (loop : EvLoop) : EvLoop :=
  let links := loop.links.swap .pend .prevPend
  { loop with
    links := links
    numPending := 0
    sent := false
    reenabled := false
    pc := processAt (links.first .prevPend) }

def uinetReenableUpcalls (loop : EvLoop) : EvLoop :=
  match loop.links.first .prevPend with
  | none => { loop with reenabled := true }
  | some so => loop.goto (.reenableReset so (loop.links.next so))

def advance (loop : EvLoop) : EvLoop :=
  match loop.pc with
  | .idle => loop
  | .startBranch watcher inhibited initial dir =>
      let so := (watchers watcher).ctx
      if (watchers watcher).events dir then
        if !inhibited && loop.count so dir == 0 then
          loop.goto (.startSet watcher inhibited initial dir)
        else
          (loop.setCount so dir (countUp (loop.count so dir))).goto
            (startNext watcher inhibited initial dir)
      else loop.goto (startNext watcher inhibited initial dir)
  | .startSet watcher inhibited initial dir =>
      (loop.setUpcall (watchers watcher).ctx dir true).goto
        (.startCheck watcher inhibited initial dir)
  | .startCheck watcher inhibited initial dir =>
      let so := (watchers watcher).ctx
      let found := if loop.ready so dir then initial.union (Events.only dir) else initial
      (loop.setCount so dir (countUp (loop.count so dir))).goto
        (startNext watcher inhibited found dir)
  | .startPost watcher initial =>
      (if initial.any then loop.uinetSocketEvents (watchers watcher).ctx initial else loop).goto
        .idle
  | .stopBranch watcher inhibited dir =>
      let so := (watchers watcher).ctx
      if (watchers watcher).events dir then
        let lower := countDown (loop.count so dir)
        (loop.setCount so dir lower).goto
          (if !inhibited && lower == 0 then .stopClear watcher inhibited dir
          else stopNext watcher inhibited dir)
      else loop.goto (stopNext watcher inhibited dir)
  | .stopClear watcher inhibited dir =>
      (loop.setUpcall (watchers watcher).ctx dir false).goto (stopNext watcher inhibited dir)
  | .stopDel watcher =>
      let so := (watchers watcher).ctx
      let flags := loop.pendFlags so
      let rest := (loop.head so).erase watcher
      let unlisted := loop.setHead so rest
      if rest.isEmpty then
        unlisted.goto
          (if flags.inhibited || flags.pending then .stopRemove watcher else .stopReset watcher)
      else (unlisted.setActive watcher false).goto .idle
  | .stopRemove watcher =>
      { loop with links := loop.links.remove (watchers watcher).ctx }.goto (.stopReset watcher)
  | .stopReset watcher =>
      ((loop.setFlags (watchers watcher).ctx evNone).setActive watcher false).goto .idle
  | .processClear so dir =>
      (if 0 < loop.count so dir then loop.setUpcall so dir false else loop).goto
        (processStep so dir)
  | .processFeed so => (loop.uinetFeedSocketEvents watchers so).goto (.processInhibit so)
  | .processInhibit so =>
      (loop.setFlags so { evNone with inhibited := true }).goto (.processNext so)
  | .processNext so => loop.goto (processAt (loop.links.next so))
  | .reenableReset so following =>
      (loop.setFlags so evNone).goto (.reenableSet so following noEvents .read)
  | .reenableSet so following current dir =>
      if 0 < loop.count so dir then
        (loop.setUpcall so dir true).goto (.reenableCheck so following current dir)
      else loop.goto (reenableStep so following current dir)
  | .reenableCheck so following current dir =>
      let found := if loop.ready so dir then current.union (Events.only dir) else current
      loop.goto (reenableStep so following found dir)
  | .reenablePost so following current =>
      (if current.any then loop.uinetSocketEvents so current else loop).goto
        (.reenableNext following)
  | .reenableNext following =>
      loop.goto (match following with
        | none => .reenableInit
        | some so => .reenableReset so (loop.links.next so))
  | .reenableInit =>
      { loop with links := loop.links.init .prevPend, reenabled := true }.goto .idle

end Watchers

end EvLoop

inductive LoopStep where
  | arrive (so : Nat) (dir : Direction)
  | leave (so : Nat) (dir : Direction)
  | batch (finish : Bool)
  | invoke (watcher : Nat)
  | start (watcher : Nat)
  | stop (watcher : Nat)
  | process
  | reenable
  | advance

section Steps

variable (watchers : Nat → EvUinet)

def EvLoop.Enabled (loop : EvLoop) : LoopStep → Prop
  | .arrive _ _ | .leave _ _ => True
  | .batch finish => finish = true → 0 < loop.inBatch
  | .invoke _ | .stop _ | .reenable => loop.pc = .idle
  | .start watcher => loop.pc = .idle ∧ (watchers watcher).events.any = true
  | .process => loop.pc = .idle ∧ loop.reenabled = true
  | .advance => loop.pc ≠ .idle

def EvLoop.arrive (loop : EvLoop) (so : Nat) (dir : Direction) : EvLoop :=
  let ready := loop.setReady so dir true
  if loop.upcall so dir then ready.uinetSocketEvents so (Events.only dir) else ready

def EvLoop.step (loop : EvLoop) : LoopStep → EvLoop
  | .arrive so dir => loop.arrive so dir
  | .leave so dir => loop.setReady so dir false
  | .batch finish => loop.uinetBatchEventHandler finish
  | .invoke watcher => loop.setFed watcher noEvents
  | .start watcher => loop.evUinetStart watchers watcher
  | .stop watcher => loop.evUinetStop watchers watcher
  | .process => loop.uinetProcessPendingList
  | .reenable => loop.uinetReenableUpcalls
  | .advance => loop.advance watchers

def loopMove : EvLoop → LoopStep → EvLoop → Prop :=
  Runs.Guarded (EvLoop.Enabled watchers) (EvLoop.step watchers)

end Steps

end Libunsod.Libev
