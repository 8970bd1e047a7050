import Libunsod.Base.Ledger
import Libunsod.Base.Runs

/-!
The packet chains that the entries of the TCP syncache own, `tcp_syncache.c`: the SYN that made
an entry and, for a passively observed connection, the SYN|ACK. `_syncache_add` and
`syncache_expand` work on an entry outside the lock of its bucket and are two steps each.
-/

namespace Libunsod.Netinet

open Runs
open Function (update)

structure SyncacheConfig where
  hash : Nat → Nat
  bucketLimit : Nat
  bucketLimit_pos : 0 < bucketLimit
  mbufs : Nat → Nat
  mbufs_pos : ∀ chain, 0 < mbufs chain

structure ScEntry where
  conn : Nat
  passive : Bool
  convertOnTimeout : Bool
  syn : Option Nat
  synack : Option Nat

inductive ScWork where
  | adding (entry bucket : Nat) (passive : Bool)
  | addingScs (syn : Nat)
  | expanding (entry : Nat)

def ScWork.entry : ScWork → Option Nat
  | adding entry _ _ => some entry
  | addingScs _ => none
  | expanding entry => some entry

structure Syncache where
  entries : Nat → Option ScEntry
  buckets : Nat → List Nat
  threads : Nat → Option ScWork
  handed : Nat → Bool
  freed : Nat → Nat → Nat
  bad : Bool

inductive SynfDecision where
  | accept
  | acceptPassive
  | reject
  deriving DecidableEq

structure AddCall where
  conn : Nat
  syn : Nat
  decision : SynfDecision
  passive : Bool
  convertOnTimeout : Bool
  syncookies : Bool
  first : Bool
  second : Bool
  entry : Nat

inductive TimerVerdict where
  | wait
  | drop
  | retransmit

namespace Syncache

def start : Syncache where
  entries _ := none
  buckets _ := []
  threads _ := none
  handed _ := false
  freed _ _ := 0
  bad := false

def mFree (cache : Syncache) (chain : Nat) : Syncache :=
  { cache with
    freed := update cache.freed chain
      (update (cache.freed chain) 0 (cache.freed chain 0 + 1)) }

def mFreem (config : SyncacheConfig) (cache : Syncache) (chain : Nat) : Syncache :=
  { cache with
    freed := update cache.freed chain fun mbuf =>
      if mbuf < config.mbufs chain then cache.freed chain mbuf + 1 else cache.freed chain mbuf }

def mFreeIfSet (cache : Syncache) : Option Nat → Syncache
  | some chain => cache.mFree chain
  | none => cache

def syncacheFree (cache : Syncache) (entry : Nat) : Syncache :=
  match cache.entries entry with
  | some sc =>
      let freed := (cache.mFreeIfSet sc.syn).mFreeIfSet sc.synack
      { freed with entries := update freed.entries entry none }
  | none => { cache with bad := true }

def tailqRemove (cache : Syncache) (bucket entry : Nat) : Syncache :=
  { cache with
    buckets := update cache.buckets bucket ((cache.buckets bucket).erase entry) }

def syncacheDrop (cache : Syncache) (bucket entry : Nat) : Syncache :=
  (cache.tailqRemove bucket entry).syncacheFree entry

def dropLast (cache : Syncache) (bucket : Nat) : Syncache :=
  match (cache.buckets bucket).getLast? with
  | some entry => cache.syncacheDrop bucket entry
  | none => cache

def syncacheInsert (config : SyncacheConfig) (cache : Syncache) (bucket entry : Nat) : Syncache :=
  let trimmed :=
    if config.bucketLimit ≤ (cache.buckets bucket).length then cache.dropLast bucket else cache
  { trimmed with
    buckets := update trimmed.buckets bucket (entry :: trimmed.buckets bucket) }

def syncacheLookup (config : SyncacheConfig) (cache : Syncache) (conn : Nat) : Option Nat :=
  (cache.buckets (config.hash conn)).find? fun entry =>
    (cache.entries entry).any fun sc => sc.conn = conn

def setThread (cache : Syncache) (thread : Nat) (work : Option ScWork) : Syncache :=
  { cache with threads := update cache.threads thread work }

def hand (cache : Syncache) (chain : Nat) : Syncache :=
  { cache with handed := update cache.handed chain true }

end Syncache

def AddCall.isPassive (call : AddCall) : Bool :=
  call.passive || call.decision = .acceptPassive

namespace Syncache

def makeRoom (config : SyncacheConfig) (cache : Syncache) (call : AddCall) : Syncache :=
  if call.first then cache else cache.dropLast (config.hash call.conn)

def fill (config : SyncacheConfig) (cache : Syncache) (thread : Nat) (call : AddCall) :
    Syncache :=
  { cache with entries := update cache.entries call.entry (some
      ⟨call.conn, call.isPassive, call.isPassive && call.convertOnTimeout, some call.syn, none⟩) }
    |>.setThread thread (some (.adding call.entry (config.hash call.conn) call.isPassive))

def syncacheAdd (config : SyncacheConfig) (cache : Syncache) (thread : Nat) (call : AddCall) :
    Syncache :=
  match cache.syncacheLookup config call.conn with
  | some _ => (cache.hand call.syn).mFreem config call.syn
  | none =>
      if call.decision = .reject then (cache.hand call.syn).mFreem config call.syn
      else
        let room := cache.makeRoom config call
        if call.first || call.second then (room.hand call.syn).fill config thread call
        else if call.syncookies && !call.isPassive then
          (room.hand call.syn).setThread thread (some (.addingScs call.syn))
        else (room.hand call.syn).mFreem config call.syn

def syncacheResponded (config : SyncacheConfig) (cache : Syncache) (thread : Nat)
    (sent syncookies syncookiesonly : Bool) : Syncache :=
  match cache.threads thread with
  | some (.adding entry bucket passive) =>
      let done := cache.setThread thread none
      if sent && !(syncookies && syncookiesonly && !passive) then
        done.syncacheInsert config bucket entry
      else done.syncacheFree entry
  | some (.addingScs _) => cache.setThread thread none
  | _ => cache

def syncachePassiveSynack (config : SyncacheConfig) (cache : Syncache) (conn synack : Nat) :
    Syncache :=
  match cache.syncacheLookup config conn with
  | some entry =>
      match cache.entries entry with
      | some sc =>
          if sc.passive then
            { cache.hand synack with
              entries := update cache.entries entry (some { sc with synack := synack }) }
          else cache
      | none => cache
  | none => cache

def syncacheExpand (config : SyncacheConfig) (cache : Syncache) (thread conn : Nat) : Syncache :=
  match cache.syncacheLookup config conn with
  | some entry =>
      (cache.tailqRemove (config.hash conn) entry).setThread thread (some (.expanding entry))
  | none => cache

def syncacheExpanded (cache : Syncache) (thread : Nat) : Syncache :=
  match cache.threads thread with
  | some (.expanding entry) => (cache.setThread thread none).syncacheFree entry
  | _ => cache

def syncacheZap (config : SyncacheConfig) (cache : Syncache) (conn : Nat) : Syncache :=
  match cache.syncacheLookup config conn with
  | some entry => cache.syncacheDrop (config.hash conn) entry
  | none => cache

def convert (cache : Syncache) (entry : Nat) : Syncache :=
  match cache.entries entry with
  | some sc =>
      if sc.passive && sc.convertOnTimeout then
        { cache with
          entries := update cache.entries entry
            (some { sc with passive := false, convertOnTimeout := false }) }
      else cache
  | none => cache

def timerOne (bucket : Nat) (verdict : Nat → TimerVerdict) (cache : Syncache) (entry : Nat) :
    Syncache :=
  match verdict entry with
  | .wait => cache
  | .drop => cache.syncacheDrop bucket entry
  | .retransmit => cache.convert entry

def syncacheTimer (cache : Syncache) (bucket : Nat) (verdict : Nat → TimerVerdict) : Syncache :=
  (cache.buckets bucket).foldl (timerOne bucket verdict) cache

end Syncache

inductive ScStep where
  | add (thread : Nat) (call : AddCall)
  | responded (thread : Nat) (sent syncookies syncookiesonly : Bool)
  | passiveSynack (conn synack : Nat)
  | expand (thread conn : Nat)
  | expanded (thread : Nat)
  | zap (conn : Nat)
  | timer (bucket : Nat) (verdict : Nat → TimerVerdict)

namespace Syncache

def Enabled (config : SyncacheConfig) (cache : Syncache) : ScStep → Prop
  | .add thread call => cache.threads thread = none ∧ cache.handed call.syn = false ∧
      (cache.makeRoom config call).entries call.entry = none
  | .passiveSynack _ synack => cache.handed synack = false
  | .expand thread _ => cache.threads thread = none
  | _ => True

def step (config : SyncacheConfig) (cache : Syncache) : ScStep → Syncache
  | .add thread call => cache.syncacheAdd config thread call
  | .responded thread sent syncookies syncookiesonly =>
      cache.syncacheResponded config thread sent syncookies syncookiesonly
  | .passiveSynack conn synack => cache.syncachePassiveSynack config conn synack
  | .expand thread conn => cache.syncacheExpand config thread conn
  | .expanded thread => cache.syncacheExpanded thread
  | .zap conn => cache.syncacheZap config conn
  | .timer bucket verdict => cache.syncacheTimer bucket verdict

end Syncache

inductive ScSlot where
  | syn (entry : Nat)
  | synack (entry : Nat)
  | scs (thread : Nat)
  deriving DecidableEq

def ScWork.scs : ScWork → Option Nat
  | addingScs syn => some syn
  | adding _ _ _ => none
  | expanding _ => none

def Syncache.holds (cache : Syncache) : ScSlot → Option Nat
  | .syn entry => (cache.entries entry).bind (·.syn)
  | .synack entry => (cache.entries entry).bind (·.synack)
  | .scs thread => (cache.threads thread).bind ScWork.scs

def Syncache.Accounted (config : SyncacheConfig) (cache : Syncache) : Prop :=
  cache.bad = false ∧ Ledger.Accounted config.mbufs cache.holds cache.handed cache.freed

end Libunsod.Netinet
