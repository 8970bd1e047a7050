import Libunsod.Base.Runs

/-!
The start and stop handshake of the receive thread: the `SIOCSIFFLAGS` branches of
`if_dpdk_ioctl` and the loop of `if_dpdk_receive`, not single-threaded and with
receive enabled. A section under `rx_lock` is one step, from the lock or the return
from a wait to the unlock or the next wait. `cv_signal` wakes one of the threads
that sleep; the timed wait of the receive thread may end at any time. The thread is
not asked to stop.
-/

namespace Libunsod.Uinet

inductive RxPc where
  | top
  | waiting (woken : Bool)
  | receiving
  deriving DecidableEq

inductive IoctlPc where
  | idle
  | upLock
  | downLock
  | waiting (woken : Bool)
  | downStop
  deriving DecidableEq

inductive RxParty where
  | receiver
  | ioctl (thread : Nat)
  deriving DecidableEq

structure RxThread where
  runState : Nat
  waitForStart : Bool
  receiver : RxPc
  ioctl : Nat → IoctlPc
  running : Bool
  last : Option Bool

def RxThread.start : RxThread := ⟨0, true, .top, fun _ => .idle, false, none⟩

def RxThread.setIoctl (state : RxThread) (thread : Nat) (pc : IoctlPc) : RxThread :=
  { state with ioctl := fun other => if other = thread then pc else state.ioctl other }

def RxThread.Sleeps (state : RxThread) : RxParty → Prop
  | .receiver => state.receiver = .waiting false
  | .ioctl thread => state.ioctl thread = .waiting false

def RxThread.cvSignal (state : RxThread) : Option RxParty → RxThread
  | none => state
  | some .receiver => { state with receiver := .waiting true }
  | some (.ioctl thread) => state.setIoctl thread (.waiting true)

def RxThread.Signals (state : RxThread) : Option RxParty → Prop
  | none => ∀ party, ¬ state.Sleeps party
  | some party => state.Sleeps party

inductive RxStep where
  | callUp (thread : Nat)
  | upSection (thread : Nat) (wakes : Option RxParty)
  | callDown (thread : Nat)
  | downSection (thread : Nat) (wakes : Option RxParty)
  | downWake (thread : Nat)
  | downStop (thread : Nat)
  | receiverTop (wakes : Option RxParty)
  | receiverWake
  | batch

def RxThread.Enabled (state : RxThread) : RxStep → Prop
  | .callUp thread => state.ioctl thread = .idle
  | .upSection thread wakes => state.ioctl thread = .upLock ∧
      if state.runState = 0 then state.Signals wakes else wakes = none
  | .callDown thread => state.ioctl thread = .idle
  | .downSection thread wakes => state.ioctl thread = .downLock ∧
      if state.runState = 1 then state.Signals wakes else wakes = none
  | .downWake thread => state.ioctl thread = .waiting true
  | .downStop thread => state.ioctl thread = .downStop
  | .receiverTop wakes => state.receiver = .top ∧
      if state.runState = 2 then state.Signals wakes else wakes = none
  | .receiverWake => ∃ woken, state.receiver = .waiting woken
  | .batch => state.receiver = .receiving

def RxThread.receiverSection (state : RxThread) : RxThread :=
  if state.waitForStart ∧ state.runState ≠ 1 then { state with receiver := .waiting false }
  else { state with receiver := .receiving }

def RxThread.step (state : RxThread) : RxStep → RxThread
  | .callUp thread => { state.setIoctl thread .upLock with running := true, last := some true }
  | .upSection thread wakes =>
      if state.runState = 0 then
        ({ state with runState := 1 }.cvSignal wakes).setIoctl thread .idle
      else state.setIoctl thread .idle
  | .callDown thread =>
      if state.running then { state.setIoctl thread .downLock with last := some false }
      else { state with last := some false }
  | .downSection thread wakes =>
      if state.runState = 1 then
        ({ state with runState := 2 }.cvSignal wakes).setIoctl thread (.waiting false)
      else state.setIoctl thread .downStop
  | .downWake thread =>
      if state.runState = 3 then { state with runState := 0 }.setIoctl thread .downStop
      else state.setIoctl thread (.waiting false)
  | .downStop thread => { state with running := false }.setIoctl thread .idle
  | .receiverTop wakes =>
      if state.runState = 2 then
        { { state with runState := 3 }.cvSignal wakes with waitForStart := true }.receiverSection
      else state.receiverSection
  | .receiverWake =>
      if state.runState = 1 then { state with receiver := .receiving }
      else { state with receiver := .waiting false }
  | .batch => { state with receiver := .top }

def rxThreadMove : RxThread → RxStep → RxThread → Prop :=
  Runs.Guarded RxThread.Enabled RxThread.step

end Libunsod.Uinet
