import Libunsod.Base.Runs
import Mathlib.Logic.Function.Basic

/-!
The locks of `tcp_usr_send` on the two sockets of a passive pair. `INP_PASSIVE` is tested before
the locks are taken, which takes the pcbinfo lock and both inpcb locks or only the own one, and
again before they are released. In between the call itself may convert the pair to active, and
while it waits for a lock another call may. The sides of the pair are `false` and `true`.
-/

namespace Libunsod.Netinet

open Function (update)

inductive SendControl where
  | absent
  | empty
  | nonempty
  deriving DecidableEq

structure SendCall where
  side : Bool
  eof : Bool
  control : SendControl

inductive SendLock where
  | info
  | inp (side : Bool)
  deriving DecidableEq

inductive SendPc where
  | idle
  | entry (call : SendCall)
  | test (call : SendCall) (info : Bool)
  | lockInfo (call : SendCall)
  | order (call : SendCall) (info : Bool)
  | lockPrimary (call : SendCall) (info primary : Bool)
  | lockSecondary (call : SendCall) (info primary : Bool)
  | lockOwn (call : SendCall) (info : Bool)
  | check (call : SendCall) (info both : Bool)
  | drop (call : SendCall) (info : Bool)
  | work (call : SendCall) (info both : Bool)
  | out (call : SendCall) (info both : Bool)
  | unlockSecondary (call : SendCall) (info primary : Bool)
  | unlockPrimary (call : SendCall) (info primary : Bool)
  | unlockOwn (call : SendCall) (info : Bool)
  | unlockInfo (call : SendCall)
  | returned (call : SendCall)

structure SendState where
  passive : Bool → Bool
  passiveclnt : Bool → Bool
  gone : Bool → Bool
  holder : SendLock → Option Nat
  pcs : Nat → SendPc
  taken : Nat → SendLock → Nat
  freed : Nat → SendLock → Nat
  bad : Nat → Bool

inductive SendStep where
  | call (thread : Nat) (call : SendCall)
  | run (thread : Nat)
  | finish (thread : Nat)
  | gone (side : Bool)

def SendPc.wants : SendPc → Option SendLock
  | .entry call => if call.eof then some .info else none
  | .lockInfo _ => some .info
  | .lockPrimary _ _ primary => some (.inp primary)
  | .lockSecondary _ _ primary => some (.inp !primary)
  | .lockOwn call _ => some (.inp call.side)
  | _ => none

namespace SendState

def start (passiveclnt : Bool → Bool) : SendState where
  passive _ := true
  passiveclnt := passiveclnt
  gone _ := false
  holder _ := none
  pcs _ := .idle
  taken _ _ := 0
  freed _ _ := 0
  bad _ := false

def goto (state : SendState) (thread : Nat) (pc : SendPc) : SendState :=
  { state with pcs := update state.pcs thread pc }

def acquire (state : SendState) (thread : Nat) (lock : SendLock) : SendState :=
  { state with
    holder := update state.holder lock (some thread)
    taken := update state.taken thread
      (update (state.taken thread) lock (state.taken thread lock + 1)) }

def release (state : SendState) (thread : Nat) (lock : SendLock) : SendState :=
  if state.holder lock = some thread then
    { state with
      holder := update state.holder lock none
      freed := update state.freed thread
        (update (state.freed thread) lock (state.freed thread lock + 1)) }
  else { state with bad := update state.bad thread true }

def primaryOf (state : SendState) (side : Bool) : Bool :=
  if state.passiveclnt side then !side else side

def convertToActive (state : SendState) (side : Bool) : SendState :=
  { state with
    passive := fun _ => false
    passiveclnt := fun _ => false
    gone := update state.gone (!side) true }

def refuses (state : SendState) (call : SendCall) : Bool :=
  state.gone call.side || decide (call.control = .nonempty)

def afterInps (call : SendCall) (info : Bool) : SendPc :=
  if info then .unlockInfo call else .returned call

def run (state : SendState) (thread : Nat) : SendState :=
  match state.pcs thread with
  | .idle | .returned _ => state
  | .entry call =>
      if call.eof then (state.acquire thread .info).goto thread (.test call true)
      else state.goto thread (.test call false)
  | .test call info =>
      state.goto thread
        (if state.passive call.side then if info then .order call true else .lockInfo call
        else .lockOwn call info)
  | .lockInfo call => (state.acquire thread .info).goto thread (.order call true)
  | .order call info => state.goto thread (.lockPrimary call info (state.primaryOf call.side))
  | .lockPrimary call info primary =>
      (state.acquire thread (.inp primary)).goto thread (.lockSecondary call info primary)
  | .lockSecondary call info primary =>
      (state.acquire thread (.inp !primary)).goto thread (.check call info true)
  | .lockOwn call info =>
      (state.acquire thread (.inp call.side)).goto thread (.check call info false)
  | .check call info both =>
      if state.refuses call then state.goto thread (.out call info both)
      else if state.passive call.side then
        (state.convertToActive call.side).goto thread (.drop call info)
      else state.goto thread (.work call info both)
  | .drop call info => (state.release thread (.inp !call.side)).goto thread (.work call info false)
  | .work call info both => state.goto thread (.out call info both)
  | .out call info _ =>
      state.goto thread
        (if state.passive call.side then .unlockSecondary call info (state.primaryOf call.side)
        else .unlockOwn call info)
  | .unlockSecondary call info primary =>
      (state.release thread (.inp !primary)).goto thread (.unlockPrimary call info primary)
  | .unlockPrimary call info primary =>
      (state.release thread (.inp primary)).goto thread (afterInps call info)
  | .unlockOwn call info =>
      (state.release thread (.inp call.side)).goto thread (afterInps call info)
  | .unlockInfo call => (state.release thread .info).goto thread (.returned call)

def Enabled (state : SendState) : SendStep → Prop
  | .call thread _ => state.pcs thread = .idle
  | .run thread => ∀ lock, (state.pcs thread).wants = some lock → state.holder lock = none
  | .finish thread => ∃ call, state.pcs thread = .returned call
  | .gone _ => True

def step (state : SendState) : SendStep → SendState
  | .call thread call =>
      { state.goto thread (.entry call) with
        taken := update state.taken thread fun _ => 0
        freed := update state.freed thread fun _ => 0 }
  | .run thread => state.run thread
  | .finish thread => state.goto thread .idle
  | .gone side => { state with gone := update state.gone side true }

end SendState

def sendMove : SendState → SendStep → SendState → Prop :=
  Runs.Guarded SendState.Enabled SendState.step

end Libunsod.Netinet
