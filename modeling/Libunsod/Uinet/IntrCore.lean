import Libunsod.Base.Runs
import Mathlib.Data.List.Nodup
import Mathlib.Logic.Function.Basic

/-!
Software interrupts of `uinet_kern_intr.c`: one event with its handlers and its thread.
Callers add handlers, schedule them and remove them. Sections under `ie_lock` and under the
thread's lock are steps; reads and stores outside them are steps of their own. The thread
reads its event once, when it starts; until the creator has stored the event in `it_event`
it finds a placeholder there that has no handlers.
-/

namespace Libunsod.Uinet

inductive IthreadPc where
  | absent
  | starting
  | test
  | reset
  | first
  | fetch (pointer : Option Nat)
  | visit (ih : Nat) (ihn : Option Nat)
  | clear (ih : Nat) (ihn : Option Nat)
  | calling (ih : Nat) (ihn : Option Nat)
  | suspend
  | asleep

inductive IntrCall where
  | idle
  | addCreate (handler : Nat)
  | addAttach (handler : Nat)
  | addWait (handler : Nat)
  | schedCheck (handler : Nat)
  | schedSet (handler : Nat)
  | schedWake (handler : Nat)
  | removeWait (handler : Nat)
  deriving DecidableEq

inductive IntrHandler where
  | unborn
  | adding
  | added
  | refused
  | removing
  | freed
  deriving DecidableEq

structure IntrConfig where
  pri : Nat → Nat
  excl : Nat → Bool

structure Intr where
  handlers : List Nat
  ihNeed : Nat → Bool
  ihDead : Nat → Bool
  status : Nat → IntrHandler
  itNeed : Bool
  iwait : Bool
  ieThread : Bool
  addingThread : Bool
  pc : IthreadPc
  ownEvent : Bool
  calls : Nat → IntrCall

def tailqNext (elem : Nat) : List Nat → Option Nat
  | [] => none
  | first :: rest => if first = elem then rest.head? else tailqNext elem rest

namespace Intr

def start : Intr where
  handlers := []
  ihNeed _ := false
  ihDead _ := false
  status _ := .unborn
  itNeed := false
  iwait := false
  ieThread := false
  addingThread := false
  pc := .absent
  ownEvent := false
  calls _ := .idle

def setCall (intr : Intr) (call : Nat) (pc : IntrCall) : Intr :=
  { intr with calls := Function.update intr.calls call pc }

def setStatus (intr : Intr) (handler : Nat) (status : IntrHandler) : Intr :=
  { intr with status := Function.update intr.status handler status }

def setNeed (intr : Intr) (handler : Nat) (need : Bool) : Intr :=
  { intr with ihNeed := Function.update intr.ihNeed handler need }

def setDead (intr : Intr) (handler : Nat) (dead : Bool) : Intr :=
  { intr with ihDead := Function.update intr.ihDead handler dead }

def goto (intr : Intr) (pc : IthreadPc) : Intr := { intr with pc := pc }

def returnCookie (intr : Intr) (call handler : Nat) : Intr :=
  (intr.setStatus handler .added).setCall call .idle

section Config

variable (config : IntrConfig)

def insertHandler (handler : Nat) (handlers : List Nat) : List Nat :=
  handlers.takeWhile (fun other => decide (config.pri other ≤ config.pri handler)) ++
    handler :: handlers.dropWhile (fun other => decide (config.pri other ≤ config.pri handler))

def refuses (intr : Intr) (handler : Nat) : Bool :=
  match intr.handlers.head? with
  | none => false
  | some first => config.excl handler || config.excl first

def addHandler (intr : Intr) (call handler : Nat) : Intr :=
  if intr.refuses config handler then intr.setStatus handler .refused
  else
    let linked := { intr.setStatus handler .adding with
      handlers := insertHandler config handler intr.handlers }
    if intr.ieThread then linked.returnCookie call handler
    else if intr.addingThread then linked.setCall call (.addWait handler)
    else { linked.setCall call (.addCreate handler) with addingThread := true }

end Config

def removeHandler (intr : Intr) (call handler : Nat) : Intr :=
  if intr.ieThread then
    if intr.iwait then intr.setStatus handler .freed
    else
      { ((intr.setStatus handler .removing).setDead handler true).setCall call
          (.removeWait handler) with itNeed := true }
  else { intr.setStatus handler .freed with handlers := intr.handlers.erase handler }

def threadStep (intr : Intr) : Intr :=
  match intr.pc with
  | .absent => intr
  | .starting => { intr.goto .test with ownEvent := intr.ieThread }
  | .test => intr.goto (if intr.itNeed then .reset else .suspend)
  | .reset => { intr.goto .first with itNeed := false }
  | .first => intr.goto (.fetch (if intr.ownEvent then intr.handlers.head? else none))
  | .fetch none => intr.goto .test
  | .fetch (some ih) => intr.goto (.visit ih (tailqNext ih intr.handlers))
  | .visit ih ihn =>
      if intr.ihDead ih then
        { (intr.setDead ih false).goto (.fetch ihn) with handlers := intr.handlers.erase ih }
      else if intr.ihNeed ih then intr.goto (.clear ih ihn)
      else intr.goto (.fetch ihn)
  | .clear ih ihn => (intr.setNeed ih false).goto (.calling ih ihn)
  | .calling _ ihn => intr.goto (.fetch ihn)
  | .suspend => if intr.itNeed then intr.goto .test else { intr.goto .asleep with iwait := true }
  | .asleep => intr.goto .test

end Intr

inductive IntrStep where
  | add (call handler : Nat)
  | create (call : Nat)
  | attach (call : Nat)
  | addWoken (call : Nat)
  | sched (call handler : Nat)
  | schedCheck (call : Nat)
  | schedSet (call : Nat)
  | schedWake (call : Nat)
  | remove (call handler : Nat)
  | removeWoken (call : Nat)
  | thread

namespace Intr

def Enabled (intr : Intr) : IntrStep → Prop
  | .add call handler => intr.calls call = .idle ∧ intr.status handler = .unborn
  | .create call => ∃ handler, intr.calls call = .addCreate handler
  | .attach call => ∃ handler, intr.calls call = .addAttach handler
  | .addWoken call => (∃ handler, intr.calls call = .addWait handler) ∧ intr.ieThread = true
  | .sched call handler => intr.calls call = .idle ∧
      (intr.status handler = .added ∨ intr.status handler = .removing ∨
        intr.status handler = .freed)
  | .schedCheck call => ∃ handler, intr.calls call = .schedCheck handler
  | .schedSet call => ∃ handler, intr.calls call = .schedSet handler
  | .schedWake call => ∃ handler, intr.calls call = .schedWake handler
  | .remove call handler => intr.calls call = .idle ∧ intr.status handler = .added
  | .removeWoken call => ∃ handler, intr.calls call = .removeWait handler ∧
      intr.ihDead handler = false
  | .thread => intr.pc ≠ .absent ∧ (intr.pc = .asleep → intr.iwait = false)

def step (config : IntrConfig) (intr : Intr) : IntrStep → Intr
  | .add call handler => intr.addHandler config call handler
  | .create call =>
      match intr.calls call with
      | .addCreate handler => (intr.goto .starting).setCall call (.addAttach handler)
      | _ => intr
  | .attach call =>
      match intr.calls call with
      | .addAttach handler =>
          { intr.returnCookie call handler with addingThread := false, ieThread := true }
      | _ => intr
  | .addWoken call =>
      match intr.calls call with
      | .addWait handler => intr.returnCookie call handler
      | _ => intr
  | .sched call handler => (intr.setNeed handler true).setCall call (.schedCheck handler)
  | .schedCheck call =>
      match intr.calls call with
      | .schedCheck handler =>
          intr.setCall call (if intr.handlers.isEmpty || !intr.ieThread then .idle
            else .schedSet handler)
      | _ => intr
  | .schedSet call =>
      match intr.calls call with
      | .schedSet handler => { intr.setCall call (.schedWake handler) with itNeed := true }
      | _ => intr
  | .schedWake call => { intr.setCall call .idle with iwait := false }
  | .remove call handler => intr.removeHandler call handler
  | .removeWoken call =>
      match intr.calls call with
      | .removeWait handler => (intr.setStatus handler .freed).setCall call .idle
      | _ => intr
  | .thread => intr.threadStep

end Intr

def intrMove (config : IntrConfig) : Intr → IntrStep → Intr → Prop :=
  Runs.Guarded Intr.Enabled (Intr.step config)

end Libunsod.Uinet
