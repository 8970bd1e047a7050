import Libunsod.Base.LinkedList
import Libunsod.Base.Runs
import Libunsod.Libev.UinetCore

/-!
The socket watchers of `ev.c` for single-thread stacks: the stack, the watchers and
the loop run in one thread, so every function is one step. The ready list is scanned
by `uinet_sts_check`, which removes sockets while it walks along the links.
-/

namespace Libunsod.Libev

open LinkedList
open Function (update)

structure StsLoop where
  links : Links Unit Nat
  pendFlags : Nat → PendFlags
  count : Nat → Direction → Nat
  head : Nat → List Nat
  upcall : Nat → Direction → Bool
  ready : Nat → Direction → Bool
  active : Nat → Bool

structure Feed where
  watcher : Nat
  revents : Events

namespace StsLoop

def start (ready : Nat → Direction → Bool) : StsLoop where
  links := ⟨fun _ => none, fun _ => none, fun _ => .head ()⟩
  pendFlags _ := evNone
  count _ _ := 0
  head _ := []
  upcall _ _ := false
  ready := ready
  active _ := false

def setFlags (loop : StsLoop) (so : Nat) (flags : PendFlags) : StsLoop :=
  { loop with pendFlags := update loop.pendFlags so flags }

def setCount (loop : StsLoop) (so : Nat) (dir : Direction) (count : Nat) : StsLoop :=
  { loop with count := update loop.count so (update (loop.count so) dir count) }

def setUpcall (loop : StsLoop) (so : Nat) (dir : Direction) (installed : Bool) : StsLoop :=
  { loop with
    upcall := update loop.upcall so (update (loop.upcall so) dir installed) }

def setReady (loop : StsLoop) (so : Nat) (dir : Direction) (ready : Bool) : StsLoop :=
  { loop with
    ready := update loop.ready so (update (loop.ready so) dir ready) }

def setHead (loop : StsLoop) (so : Nat) (head : List Nat) : StsLoop :=
  { loop with head := update loop.head so head }

def setActive (loop : StsLoop) (watcher : Nat) (active : Bool) : StsLoop :=
  { loop with active := update loop.active watcher active }

def makeReady (loop : StsLoop) (so : Nat) : StsLoop :=
  if (loop.pendFlags so).stsReady then loop
  else { loop with links := loop.links.insertHead () so }.setFlags so
    { loop.pendFlags so with stsReady := true }

def uinetStsSocketEvents (loop : StsLoop) (so : Nat) (events : Events) : StsLoop :=
  (loop.setFlags so { loop.pendFlags so with
    events := (loop.pendFlags so).events.union events }).makeReady so

def runUpcall (loop : StsLoop) (so : Nat) (dir : Direction) : StsLoop :=
  if loop.upcall so dir then loop.uinetStsSocketEvents so (Events.only dir) else loop

def eventsOfInterest (loop : StsLoop) (so : Nat) : Events :=
  fun dir => decide (0 < loop.count so dir) && loop.ready so dir

section Watchers

variable (watchers : Nat → EvUinet)

def uinetFeedSocketEvents (loop : StsLoop) (so : Nat) : List Feed :=
  (loop.head so).filterMap fun watcher =>
    let revents := Events.inter (watchers watcher).events (loop.pendFlags so).events
    if revents.any then some ⟨watcher, revents⟩ else none

def scanSocket (loop : StsLoop) (so : Nat) : StsLoop × List Feed :=
  let interest := loop.eventsOfInterest so
  if interest.any then
    let noted := loop.setFlags so { loop.pendFlags so with
      events := (loop.pendFlags so).events.union interest }
    (noted, noted.uinetFeedSocketEvents watchers so)
  else ({ loop.setFlags so evNone with links := loop.links.remove so }, [])

def scan : Nat → StsLoop → Option Nat → Option (StsLoop × List Feed)
  | _, loop, none => some (loop, [])
  | 0, _, some _ => none
  | fuel + 1, loop, some so => do
      let (scanned, feeds) := loop.scanSocket watchers so
      let (next, others) ← scan fuel scanned (scanned.links.next so)
      some (next, feeds ++ others)

def uinetStsCheck (fuel : Nat) (loop : StsLoop) : Option (StsLoop × List Feed) :=
  scan watchers fuel loop (loop.links.first ())

def startBranch (watcher : Nat) (dir : Direction) (state : StsLoop × Bool) : StsLoop × Bool :=
  let (loop, check) := state
  let so := (watchers watcher).ctx
  if (watchers watcher).events dir then
    let first := loop.count so dir == 0
    let installed := if first then loop.setUpcall so dir true else loop
    (installed.setCount so dir (countUp (loop.count so dir)), check || first)
  else (loop, check)

def evUinetStart (loop : StsLoop) (watcher : Nat) : StsLoop :=
  let so := (watchers watcher).ctx
  if loop.active watcher then loop
  else
    let listed := (loop.setActive watcher true).setHead so (watcher :: loop.head so)
    let (started, check) :=
      startBranch watchers watcher .write (startBranch watchers watcher .read (listed, false))
    if check then started.makeReady so else started

def stopBranch (watcher : Nat) (dir : Direction) (loop : StsLoop) : StsLoop :=
  let so := (watchers watcher).ctx
  if (watchers watcher).events dir then
    let lower := countDown (loop.count so dir)
    let counted := loop.setCount so dir lower
    if !(loop.pendFlags so).inhibited && lower == 0 then counted.setUpcall so dir false
    else counted
  else loop

def evUinetStop (loop : StsLoop) (watcher : Nat) : StsLoop :=
  let so := (watchers watcher).ctx
  if loop.active watcher then
    let stopped := stopBranch watchers watcher .write (stopBranch watchers watcher .read loop)
    let rest := (stopped.head so).erase watcher
    let flags := stopped.pendFlags so
    let unlisted := (stopped.setHead so rest).setActive watcher false
    if rest.isEmpty then
      let unlinked := if flags.stsReady || flags.inhibited || flags.pending then
        { unlisted with links := unlisted.links.remove so } else unlisted
      unlinked.setFlags so evNone
    else unlisted
  else loop

end Watchers

end StsLoop

inductive StsStep where
  | arrive (so : Nat) (dir : Direction)
  | upcall (so : Nat) (dir : Direction)
  | leave (so : Nat) (dir : Direction)
  | start (watcher : Nat)
  | stop (watcher : Nat)
  | check

section Steps

variable (watchers : Nat → EvUinet)

def stsMove (loop : StsLoop) (step : StsStep) (next : StsLoop) : Prop :=
  match step with
  | .arrive so dir => next = (loop.setReady so dir true).runUpcall so dir
  | .upcall so dir => next = loop.runUpcall so dir
  | .leave so dir => next = loop.setReady so dir false
  | .start watcher => (watchers watcher).events.any = true ∧
      next = loop.evUinetStart watchers watcher
  | .stop watcher => next = loop.evUinetStop watchers watcher
  | .check => ∃ fuel feeds, loop.uinetStsCheck watchers fuel = some (next, feeds)

end Steps

end Libunsod.Libev
