import Libunsod.Base.Runs
import Mathlib.Data.BitVec
import Mathlib.Logic.Function.Basic

/-!
The callout wheel of `uinet_kern_timeout.c`, driven by `uinet_hardclock`. Every
CPU has a wheel and a lock `cc_lock`; a state is what is seen while no such lock
is held, so a critical section is one step. The timer thread is cut where
`callout_tick` and `softclock` release the lock; any number of other threads, and
the handlers themselves, call `callout_reset_on` and `_callout_stop_safe`. No line
calls `cv_init` on `callout_cv`: `cv_wait` and `cv_broadcast` on it dereference a
null pointer, and such a fault ends the run.

A client's callout comes from `callout_init` or `_callout_init_lock`. The callouts
of `timeout` are left out: `timeout` calls `callout_reset` with the mutex
`cc_lock` held, which is not recursive, so it arms none.
-/

namespace Libunsod.Uinet

open Runs

abbrev CalloutId := Nat

abbrev Cpu := Nat

structure Callout where
  time : BitVec 32
  active : Bool
  pending : Bool
  returnUnlocked : Bool
  lock : Option Nat
  func : Nat
  arg : Nat
  cpu : Cpu
  arming : Nat

def timeoutCpu : Cpu := 0

def giantLock : Nat := 0

def calloutInit (mpsafe : Bool) : Callout :=
  if mpsafe then ⟨0, false, false, true, none, 0, 0, timeoutCpu, 0⟩
  else ⟨0, false, false, false, some giantLock, 0, 0, timeoutCpu, 0⟩

def calloutInitLock (lock : Nat) (returnUnlocked : Bool) : Callout :=
  ⟨0, false, false, returnUnlocked, some lock, 0, 0, timeoutCpu, 0⟩

def Callout.Initialised (callout : Callout) : Prop :=
  (∃ mpsafe, callout = calloutInit mpsafe) ∨
    ∃ lock returnUnlocked, callout = calloutInitLock lock returnUnlocked

structure CalloutCpu where
  callwheel : Nat → List CalloutId
  next : Option CalloutId
  curr : Option CalloutId
  softticks : BitVec 32
  cancel : Bool
  waiting : Int

structure Taken where
  callout : CalloutId
  lock : Option Nat
  func : Nat
  arg : Nat
  returnUnlocked : Bool
  arming : Nat

inductive TimerPc where
  | idle
  | ticked
  | entering
  | window (curticks : BitVec 32)
  | taken (curticks : BitVec 32) (taken : Taken)
  | running (curticks : BitVec 32) (taken : Taken)
  | finishing (curticks : BitVec 32)

structure ResetCall where
  callout : CalloutId
  toTicks : BitVec 32
  func : Nat
  arg : Nat
  cpu : Cpu
  cancelled : Bool

structure Invocation where
  arming : Nat
  callout : CalloutId
  func : Nat
  arg : Nat
  hardclock : Nat
  ticks : BitVec 32

structure CalloutState where
  ticks : BitVec 32
  minToTicks : Int
  callouts : CalloutId → Callout
  cpus : Cpu → CalloutCpu
  timer : TimerPc
  retrying : List ResetCall
  hardclocks : Nat
  armings : Nat
  log : List Invocation

def CalloutState.setCallout (state : CalloutState) (callout : CalloutId) (value : Callout) :
    CalloutState :=
  { state with callouts := Function.update state.callouts callout value }

def CalloutState.setCpu (state : CalloutState) (cpu : Cpu) (value : CalloutCpu) :
    CalloutState :=
  { state with cpus := Function.update state.cpus cpu value }

def callwheelsize (bits : Nat) : Nat := 2 ^ bits

def callwheelmask (bits : Nat) : BitVec 32 := BitVec.ofNat 32 (callwheelsize bits - 1)

def bucketOf (bits : Nat) (time : BitVec 32) : Nat := (time &&& callwheelmask bits).toNat

def nextOf (bucket : List CalloutId) (callout : CalloutId) : Option CalloutId :=
  (bucket.dropWhile (· != callout)).tail.head?

def entriesFrom (bucket : List CalloutId) : Option CalloutId → Option (List CalloutId)
  | none => some []
  | some callout =>
      if callout ∈ bucket then some (bucket.dropWhile (· != callout)) else none

def CalloutCpu.unlink (bits : Nat) (cc : CalloutCpu) (callout : CalloutId) (time : BitVec 32) :
    CalloutCpu :=
  let bucket := cc.callwheel (bucketOf bits time)
  { cc with
    next := if cc.next = some callout then nextOf bucket callout else cc.next
    callwheel := Function.update cc.callwheel (bucketOf bits time) (bucket.erase callout) }

def CalloutCpu.link (bits : Nat) (cc : CalloutCpu) (callout : CalloutId) (time : BitVec 32) :
    CalloutCpu :=
  { cc with
    callwheel := Function.update cc.callwheel (bucketOf bits time)
      (cc.callwheel (bucketOf bits time) ++ [callout]) }

def maxSoftclockSteps : Nat := 100

inductive Scan where
  | exhausted (steps : Nat)
  | window (next : Option CalloutId)
  | due (callout : CalloutId) (next : Option CalloutId)

def scan (callouts : CalloutId → Callout) (curticks : BitVec 32) : Nat → List CalloutId → Scan
  | steps, [] => .exhausted steps
  | steps, callout :: rest =>
      if (callouts callout).time ≠ curticks then
        if maxSoftclockSteps ≤ steps + 1 then .window rest.head?
        else scan callouts curticks (steps + 1) rest
      else .due callout rest.head?

inductive SweepEnd where
  | finished
  | window (curticks : BitVec 32)
  | due (curticks : BitVec 32) (callout : CalloutId)

def CalloutCpu.endScan (bits : Nat) (cc : CalloutCpu) (curticks : BitVec 32)
    (nextBucket : Nat → CalloutCpu × SweepEnd) : Scan → CalloutCpu × SweepEnd
  | .exhausted steps => nextBucket steps
  | .window next => ({ cc with next := next }, .window curticks)
  | .due callout next =>
      let bucket := cc.callwheel (bucketOf bits curticks)
      ({ cc with
        next := next
        callwheel := Function.update cc.callwheel (bucketOf bits curticks)
          (bucket.erase callout)
        curr := some callout
        cancel := false }, .due curticks callout)

def CalloutCpu.sweep (bits : Nat) (callouts : CalloutId → Callout) :
    Nat → Nat → CalloutCpu → CalloutCpu × SweepEnd
  | 0, _, cc => ({ cc with next := none }, .finished)
  | remaining + 1, steps, cc =>
      let curticks := cc.softticks
      let advanced := { cc with softticks := cc.softticks + 1 }
      advanced.endScan bits curticks
        (fun steps => CalloutCpu.sweep bits callouts remaining steps advanced)
        (scan callouts curticks steps (cc.callwheel (bucketOf bits curticks)))

def CalloutCpu.skipEmpty (bits : Nat) (ticks : BitVec 32) : Nat → CalloutCpu → CalloutCpu × Bool
  | 0, cc => (cc, false)
  | remaining + 1, cc =>
      if (cc.softticks - ticks).toInt < 0 then
        if cc.callwheel (bucketOf bits cc.softticks) ≠ [] then (cc, true)
        else CalloutCpu.skipEmpty bits ticks remaining { cc with softticks := cc.softticks + 1 }
      else (cc, false)

def distance (state : CalloutState) (cc : CalloutCpu) : Nat :=
  (state.ticks - cc.softticks).toNat

def CalloutState.endSweep (self : Cpu) (state : CalloutState) :
    CalloutCpu × SweepEnd → CalloutState
  | (cc, .finished) => { state.setCpu self cc with timer := .idle }
  | (cc, .window curticks) => { state.setCpu self cc with timer := .window curticks }
  | (cc, .due curticks callout) =>
      let c := state.callouts callout
      { (state.setCpu self cc).setCallout callout { c with pending := false } with
        timer := .taken curticks
          ⟨callout, c.lock, c.func, c.arg, c.returnUnlocked, c.arming⟩ }

def CalloutState.resume (bits : Nat) (self : Cpu) (state : CalloutState)
    (curticks : BitVec 32) : Option CalloutState :=
  let cc := state.cpus self
  (entriesFrom (cc.callwheel (bucketOf bits curticks)) cc.next).map fun entries =>
    state.endSweep self (cc.endScan bits curticks
      (fun steps => cc.sweep bits state.callouts (distance state cc) steps)
      (scan state.callouts curticks 0 entries))

def CalloutState.invoke (state : CalloutState) (curticks : BitVec 32) (taken : Taken) :
    CalloutState :=
  { state with
    timer := .running curticks taken
    log := state.log ++
      [⟨taken.arming, taken.callout, taken.func, taken.arg, state.hardclocks, state.ticks⟩] }

def timerStep (bits : Nat) (self : Cpu) (state : CalloutState) : Option CalloutState :=
  let cc := state.cpus self
  match state.timer with
  | .idle =>
      some { state with
        ticks := state.ticks + 1
        hardclocks := state.hardclocks + 1
        timer := .ticked }
  | .ticked =>
      let skipped := cc.skipEmpty bits state.ticks (distance state cc)
      some { state.setCpu self skipped.1 with
        timer := if skipped.2 then .entering else .idle }
  | .entering => some (state.endSweep self (cc.sweep bits state.callouts (distance state cc) 0))
  | .window curticks => state.resume bits self curticks
  | .taken curticks taken =>
      match taken.lock with
      | none => some (state.invoke curticks taken)
      | some _ =>
          if cc.cancel then some { state with timer := .finishing curticks }
          else some ((state.setCpu self { cc with cancel := true }).invoke curticks taken)
  | .running curticks taken =>
      if taken.returnUnlocked = false ∧ taken.lock = none then none
      else some { state with timer := .finishing curticks }
  | .finishing curticks =>
      -- `cv_broadcast(&callout_cv)` faults
      if cc.waiting ≠ 0 then none
      else (state.setCpu self { cc with curr := none }).resume bits self curticks

inductive ResetOutcome where
  | refused (cancelled : Bool)
  | migrated (cancelled : Bool)
  | armed (cancelled : Bool)

def ResetCall.ticks (call : ResetCall) : BitVec 32 :=
  if call.toTicks.toInt ≤ 0 then 1 else call.toTicks

def CalloutState.arm (bits : Nat) (state : CalloutState) (call : ResetCall) : CalloutState :=
  let c := state.callouts call.callout
  let cc := state.cpus c.cpu
  let time := state.ticks + call.ticks
  { (state.setCpu c.cpu (cc.link bits call.callout time)).setCallout call.callout
      { c with
        arg := call.arg
        active := true
        pending := true
        func := call.func
        time := time
        arming := state.armings + 1 } with
    minToTicks :=
      if 1 < call.ticks.toInt ∧ call.ticks.toInt < state.minToTicks then call.ticks.toInt
      else state.minToTicks
    armings := state.armings + 1 }

def CalloutState.disarm (bits : Nat) (state : CalloutState) (callout : CalloutId) :
    CalloutState :=
  let c := state.callouts callout
  (state.setCpu c.cpu ((state.cpus c.cpu).unlink bits callout c.time)).setCallout callout
    { c with active := false, pending := false }

def CalloutState.cancellable (state : CalloutState) (callout : CalloutId) : Bool :=
  let c := state.callouts callout
  let cc := state.cpus c.cpu
  decide (cc.curr = some callout) && c.lock.isSome && !cc.cancel

def CalloutState.cancelRunning (state : CalloutState) (callout : CalloutId) : CalloutState :=
  let cpu := (state.callouts callout).cpu
  if state.cancellable callout then
    state.setCpu cpu { state.cpus cpu with cancel := true }
  else state

def CalloutState.disarmPending (bits : Nat) (state : CalloutState) (callout : CalloutId) :
    CalloutState :=
  if (state.callouts callout).pending then state.disarm bits callout else state

def calloutResetOn (bits : Nat) (state : CalloutState) (call : ResetCall) :
    CalloutState × ResetOutcome :=
  let c := state.callouts call.callout
  let cc := state.cpus c.cpu
  let marked := state.cancelRunning call.callout
  let cancelled := call.cancelled || state.cancellable call.callout
  if cc.curr = some call.callout ∧ cc.waiting ≠ 0 then (marked, .refused cancelled)
  else
    let stopped := marked.disarmPending bits call.callout
    let cancelled := cancelled || c.pending
    if c.cpu ≠ call.cpu then
      (stopped.setCallout call.callout
        { stopped.callouts call.callout with cpu := call.cpu }, .migrated cancelled)
    else (stopped.arm bits call, .armed cancelled)

inductive StopOutcome where
  | returned (value : Int)
  | faulted

def calloutStopSafe (bits : Nat) (state : CalloutState) (callout : CalloutId) (safe : Bool) :
    CalloutState × StopOutcome :=
  let c := state.callouts callout
  let cc := state.cpus c.cpu
  let useLock := !safe && c.lock.isSome
  if c.pending = false then
    let inactive := state.setCallout callout { c with active := false }
    if cc.curr ≠ some callout then (inactive, .returned 0)
    -- `cv_wait(&callout_cv, &cc->cc_lock)` faults
    else if safe then (inactive, .faulted)
    else if useLock && !cc.cancel then
      (inactive.setCpu c.cpu { cc with cancel := true }, .returned 1)
    else (inactive, .returned 0)
  else (state.disarm bits callout, .returned 1)

inductive CalloutLabel where
  | timer
  | reset (call : ResetCall)
  | retry (before : List ResetCall) (call : ResetCall) (after : List ResetCall)
  | stop (callout : CalloutId) (safe : Bool)

def CalloutState.afterReset (state : CalloutState) (call : ResetCall) :
    ResetOutcome → CalloutState
  | .migrated cancelled =>
      { state with retrying := { call with cancelled := cancelled } :: state.retrying }
  | .refused _ => state
  | .armed _ => state

def calloutMove (bits : Nat) (self : Cpu) (state : CalloutState) (label : CalloutLabel)
    (next : CalloutState) : Prop :=
  match label with
  | .timer => timerStep bits self state = some next
  | .reset call =>
      call.cancelled = false ∧
        next = (calloutResetOn bits state call).1.afterReset call (calloutResetOn bits state call).2
  | .retry before call after =>
      state.retrying = before ++ call :: after ∧
        next = (calloutResetOn bits { state with retrying := before ++ after } call).1.afterReset
          call (calloutResetOn bits { state with retrying := before ++ after } call).2
  | .stop callout safe =>
      ∃ value, calloutStopSafe bits state callout safe = (next, .returned value)

def CalloutLabel.target : CalloutLabel → Option CalloutId
  | .timer => none
  | .reset call => some call.callout
  | .retry _ call _ => some call.callout
  | .stop callout _ => some callout

def emptyCpu (softticks : BitVec 32) : CalloutCpu :=
  ⟨fun _ => [], none, none, softticks, false, 0⟩

def calloutBoot (ticks : BitVec 32) (callouts : CalloutId → Callout) : CalloutState :=
  { ticks := ticks
    minToTicks := 1000000
    callouts := callouts
    cpus := fun _ => emptyCpu ticks
    timer := .idle
    retrying := []
    hardclocks := 0
    armings := 0
    log := [] }

end Libunsod.Uinet
