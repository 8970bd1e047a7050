import Libunsod.Base.Runs
import Mathlib.Data.List.Nodup
import Mathlib.Logic.Function.Basic

/-!
`_sleep` and `wakeup` of `uinet_kern_synch.c`. Threads that sleep with a lock share an entry of
the channel in a hash table and wait on its condition variable; those that sleep without a
lock only let time pass. A section under `synch_lock` is a step, and so is the release of the
lock together with the start of the wait. `uhi_cond_timedwait` reads the clock in a step before
that; `cv_wait` does not, and the value read is not used then. The clock counts nanoseconds.
-/

namespace Libunsod.Uinet

open Function (update)

structure SleepArgs where
  ident : Nat
  lock : Option Nat
  pdrop : Bool
  timo : Nat

def ewouldblock : Nat := 35

inductive SleepPc where
  | running
  | entering (args : SleepArgs)
  | registered (args : SleepArgs) (se : Nat)
  | timed (args : SleepArgs) (se : Nat)
  | waiting (args : SleepArgs) (se : Nat)
  | relocking (args : SleepArgs) (se : Nat) (rv : Nat)
  | leaving (args : SleepArgs) (se : Nat) (rv : Nat)
  | napping (args : SleepArgs)
  | returned (args : SleepArgs) (rv : Nat)

structure SynchConfig where
  hz : Nat
  hashmask : Nat

structure Synch where
  clock : Nat
  pcs : Nat → SleepPc
  owner : Nat → Option Nat
  seActive : Nat → List Nat
  seChan : Nat → Nat
  seWaiters : Nat → Nat
  fresh : Nat
  slept : Nat → Nat
  woken : Nat → Bool

inductive SleepStep where
  | acquire (thread lock : Nat)
  | release (thread lock : Nat)
  | call (thread : Nat) (args : SleepArgs)
  | register (thread : Nat)
  | readClock (thread : Nat)
  | wait (thread : Nat)
  | timeout (thread : Nat)
  | relock (thread : Nat)
  | free (thread : Nat)
  | napped (thread : Nat)
  | resume (thread : Nat)
  | wakeup (chan : Nat)
  | tick

namespace Synch

def start : Synch where
  clock := 0
  pcs _ := .running
  owner _ := none
  seActive _ := []
  seChan _ := 0
  seWaiters _ := 0
  fresh := 0
  slept _ := 0
  woken _ := false

def goto (synch : Synch) (thread : Nat) (pc : SleepPc) : Synch :=
  { synch with pcs := update synch.pcs thread pc }

def setOwner (synch : Synch) (lock : Nat) (owner : Option Nat) : Synch :=
  { synch with owner := update synch.owner lock owner }

def fallAsleep (synch : Synch) (thread : Nat) : Synch :=
  { synch with
    slept := update synch.slept thread synch.clock
    woken := update synch.woken thread false }

section Config

variable (config : SynchConfig)

def nsecs (timo : Nat) : Nat := timo * 1000000000 / config.hz

def seHash (chan : Nat) : Nat := chan &&& config.hashmask

def seLookup (synch : Synch) (chan : Nat) : Option Nat :=
  (synch.seActive (seHash config chan)).find? fun se => decide (synch.seChan se = chan)

def seAlloc (synch : Synch) (chan : Nat) : Synch :=
  { synch with
    seActive := update synch.seActive (seHash config chan)
      (synch.fresh :: synch.seActive (seHash config chan))
    seChan := update synch.seChan synch.fresh chan
    seWaiters := update synch.seWaiters synch.fresh 1
    fresh := synch.fresh + 1 }

def seFree (synch : Synch) (se : Nat) : Synch :=
  let waiters := synch.seWaiters se - 1
  let counted := { synch with seWaiters := update synch.seWaiters se waiters }
  if waiters = 0 then
    { counted with
      seActive := update synch.seActive (seHash config (synch.seChan se))
        ((synch.seActive (seHash config (synch.seChan se))).erase se) }
  else counted

def register (synch : Synch) (thread : Nat) (args : SleepArgs) : Synch :=
  match synch.seLookup config args.ident with
  | some se =>
      { synch.goto thread (.registered args se) with
        seWaiters := update synch.seWaiters se (synch.seWaiters se + 1) }
  | none => (synch.seAlloc config args.ident).goto thread (.registered args synch.fresh)

end Config

def broadcast (synch : Synch) (se : Nat) : Synch :=
  { synch with
    pcs := fun thread =>
      match synch.pcs thread with
      | .waiting args cond => if cond = se then .relocking args cond 0 else .waiting args cond
      | pc => pc }

def asleepOn (synch : Synch) (chan thread : Nat) : Bool :=
  match synch.pcs thread with
  | .waiting args _ | .napping args => decide (args.ident = chan)
  | _ => false

def note (synch : Synch) (chan : Nat) : Synch :=
  { synch with woken := fun thread => synch.woken thread || synch.asleepOn chan thread }

def wakeup (config : SynchConfig) (synch : Synch) (chan : Nat) : Synch :=
  match synch.seLookup config chan with
  | some se => (synch.note chan).broadcast se
  | none => synch.note chan

def sleep (synch : Synch) (thread : Nat) (args : SleepArgs) : Synch :=
  match args.lock with
  | some _ => (synch.fallAsleep thread).goto thread (.entering args)
  | none =>
      (synch.fallAsleep thread).goto thread
        (if args.timo = 0 then .returned args 0 else .napping args)

def Enabled (config : SynchConfig) (synch : Synch) : SleepStep → Prop
  | .acquire thread lock => synch.pcs thread = .running ∧ synch.owner lock = none
  | .release thread lock => synch.pcs thread = .running ∧ synch.owner lock = some thread
  | .call thread args => synch.pcs thread = .running ∧
      ∀ lock, args.lock = some lock → synch.owner lock = some thread
  | .register thread => ∃ args, synch.pcs thread = .entering args
  | .readClock thread => ∃ args se, synch.pcs thread = .registered args se
  | .wait thread => ∃ args se, synch.pcs thread = .timed args se
  | .timeout thread => ∃ args se, synch.pcs thread = .waiting args se ∧ args.timo ≠ 0 ∧
      synch.slept thread + nsecs config args.timo ≤ synch.clock
  | .relock thread => ∃ args se rv lock, synch.pcs thread = .relocking args se rv ∧
      args.lock = some lock ∧ synch.owner lock = none
  | .free thread => ∃ args se rv, synch.pcs thread = .leaving args se rv
  | .napped thread => ∃ args, synch.pcs thread = .napping args ∧
      synch.slept thread + nsecs config args.timo ≤ synch.clock
  | .resume thread => ∃ args rv, synch.pcs thread = .returned args rv
  | .wakeup _ | .tick => True

def step (config : SynchConfig) (synch : Synch) : SleepStep → Synch
  | .acquire thread lock => synch.setOwner lock (some thread)
  | .release _ lock => synch.setOwner lock none
  | .call thread args => synch.sleep thread args
  | .register thread =>
      match synch.pcs thread with
      | .entering args => synch.register config thread args
      | _ => synch
  | .readClock thread =>
      match synch.pcs thread with
      | .registered args se =>
          { synch with slept := update synch.slept thread synch.clock }.goto thread
            (.timed args se)
      | _ => synch
  | .wait thread =>
      match synch.pcs thread with
      | .timed args se =>
          match args.lock with
          | some lock => (synch.setOwner lock none).goto thread (.waiting args se)
          | none => synch
      | _ => synch
  | .timeout thread =>
      match synch.pcs thread with
      | .waiting args se => synch.goto thread (.relocking args se ewouldblock)
      | _ => synch
  | .relock thread =>
      match synch.pcs thread with
      | .relocking args se rv =>
          match args.lock with
          | some lock => (synch.setOwner lock (some thread)).goto thread (.leaving args se rv)
          | none => synch
      | _ => synch
  | .free thread =>
      match synch.pcs thread with
      | .leaving args se rv => (synch.seFree config se).goto thread (.returned args rv)
      | _ => synch
  | .napped thread =>
      match synch.pcs thread with
      | .napping args => synch.goto thread (.returned args ewouldblock)
      | _ => synch
  | .resume thread => synch.goto thread .running
  | .wakeup chan => synch.wakeup config chan
  | .tick => { synch with clock := synch.clock + 1 }

end Synch

def sleepMove (config : SynchConfig) : Synch → SleepStep → Synch → Prop :=
  Runs.Guarded (Synch.Enabled config) (Synch.step config)

end Libunsod.Uinet
