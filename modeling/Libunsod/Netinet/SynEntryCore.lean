import Libunsod.Netinet.TcpReassCore
import Mathlib.Data.BitVec

/-!
One entry of the TCP syncache from the SYN to the ACK: `tcp_dooptions`, `_syncache_add` with a SYN
filter, `syncache_passive_synack`, `syncache_timer` and `syncache_expand` with `syncache_socket`.
-/

namespace Libunsod.Netinet

structure TcpOpt where
  mssFlag : Bool := false
  scaleFlag : Bool := false
  sackperm : Bool := false
  tsFlag : Bool := false
  sackFlag : Bool := false
  mss : BitVec 16 := 0
  wscale : BitVec 8 := 0
  tsval : BitVec 32 := 0
  tsecr : BitVec 32 := 0
  nsacks : Nat := 0
  deriving DecidableEq

def toSyn : BitVec 32 := 0x01

def thSyn : BitVec 32 := 0x02

def tcpMaxWinshift : Nat := 14

def ntoh (cp : List (BitVec 8)) (offset count : Nat) : Nat :=
  ((cp.drop offset).take count).foldl (fun value byte => 256 * value + byte.toNat) 0

def dooption (tcpDoSack : Bool) (flags : BitVec 32) (optlen : Nat) (cp : List (BitVec 8))
    (opts : TcpOpt) : TcpOpt :=
  let synOption := flags &&& toSyn ≠ 0
  match ntoh cp 0 1 with
  | 2 =>
      if optlen = 4 ∧ synOption then { opts with mssFlag := true, mss := .ofNat 16 (ntoh cp 2 2) }
      else opts
  | 3 =>
      if optlen = 3 ∧ synOption then
        { opts with scaleFlag := true, wscale := .ofNat 8 (min (ntoh cp 2 1) tcpMaxWinshift) }
      else opts
  | 8 =>
      if optlen = 10 then
        { opts with
          tsFlag := true
          tsval := .ofNat 32 (ntoh cp 2 4)
          tsecr := .ofNat 32 (ntoh cp 6 4) }
      else opts
  | 4 => if optlen = 2 ∧ synOption ∧ tcpDoSack then { opts with sackperm := true } else opts
  | 5 =>
      if optlen ≤ 2 ∨ (optlen - 2) % 8 ≠ 0 ∨ synOption then opts
      else { opts with sackFlag := true, nsacks := (optlen - 2) / 8 }
  | _ => opts

def dooptionsLoop (tcpDoSack : Bool) (flags : BitVec 32) :
    Nat → List (BitVec 8) → TcpOpt → TcpOpt
  | _, [], opts => opts
  | skip + 1, _ :: cp, opts => dooptionsLoop tcpDoSack flags skip cp opts
  | 0, opt :: cp, opts =>
      if opt = 0 then opts
      else if opt = 1 then dooptionsLoop tcpDoSack flags 0 cp opts
      else match cp with
        | [] => opts
        | optlen :: _ =>
            if optlen.toNat < 2 ∨ cp.length + 1 < optlen.toNat then opts
            else dooptionsLoop tcpDoSack flags (optlen.toNat - 1) cp
              (dooption tcpDoSack flags optlen.toNat (opt :: cp) opts)

def tcpDooptions (tcpDoSack : Bool) (cp : List (BitVec 8)) (flags : BitVec 32) : TcpOpt :=
  dooptionsLoop tcpDoSack flags 0 cp {}

structure Tcphdr where
  seq : Seq
  ack : Seq
  win : BitVec 16
  ece : Bool
  cwr : Bool

structure ConnInfo where
  passive : Bool
  synfiltered : Bool
  convontmo : Bool

structure SynEntry where
  rxttime : BitVec 32 := 0
  rxmits : BitVec 16 := 0
  tsreflect : BitVec 32 := 0
  ts : BitVec 32 := 0
  tsoff : BitVec 32 := 0
  irs : Seq := 0
  iss : Seq := 0
  peerMss : BitVec 16 := 0
  wnd : BitVec 16 := 0
  requestedSScale : BitVec 4 := 0
  requestedRScale : BitVec 4 := 0
  winscale : Bool := false
  timestamp : Bool := false
  sack : Bool := false
  ecn : Bool := false
  passive : Bool := false
  passiveSynack : Bool := false
  noTimeoutReset : Bool := false
  convertOnTimeout : Bool := false
  syn : Option Nat := none
  synack : Option Nat := none

structure SynGlobals where
  hz : Nat
  hz_pos : 0 < hz
  hz_int : hz < 2 ^ 31
  ticks : BitVec 32
  tcpDoRfc1323 : Bool
  tcpDoSack : Bool
  tcpDoEcn : Bool
  sbMax : Nat
  rexmtLimit : Nat
  tsTicks : BitVec 32
  win : Int
  random : Seq

def tcpBackoff : List Nat := [1, 2, 4, 8, 16, 32, 64, 128, 256, 512, 512, 512, 512]

def tcptvRtobase (hz : Nat) : Nat := 3 * hz

def SynEntry.syncacheTimeout (hz : Nat) (ticks : BitVec 32) (timeoutTicks : Int) (sc : SynEntry) :
    SynEntry :=
  { sc with
    rxttime := ticks + (if 0 < timeoutTicks then .ofInt 32 timeoutTicks
      else .ofNat 32 (tcptvRtobase hz * tcpBackoff.getD sc.rxmits.toNat 0))
    rxmits := sc.rxmits + 1 }

def wscaleLoop (sbMax : Nat) : Nat → Nat → Nat
  | 0, wscale => wscale
  | left + 1, wscale =>
      if 65535 <<< wscale < sbMax then wscaleLoop sbMax left (wscale + 1) else wscale

def SynEntry.fill (globals : SynGlobals) (inc : ConnInfo) (passive : Bool) (initialTimeout : Int)
    (opts : TcpOpt) (th : Tcphdr) (m : Nat) : SynEntry :=
  let scaled := globals.tcpDoRfc1323 && opts.scaleFlag
  let stamped := globals.tcpDoRfc1323 && opts.tsFlag
  { irs := th.seq
    iss := globals.random
    wnd := .ofInt 16 (min (max globals.win 0) 65535)
    passive := passive
    noTimeoutReset := passive && 0 < initialTimeout
    convertOnTimeout := passive && inc.convontmo
    timestamp := stamped
    tsreflect := if stamped then opts.tsval else 0
    ts := if stamped then globals.tsTicks else 0
    winscale := scaled
    requestedRScale := if scaled then .ofNat 4 (wscaleLoop globals.sbMax tcpMaxWinshift 0) else 0
    requestedSScale := if scaled then opts.wscale.setWidth 4 else 0
    sack := opts.sackperm
    peerMss := if opts.mssFlag then opts.mss else 0
    ecn := (th.ece || th.cwr) && globals.tcpDoEcn
    syn := some m }

inductive SynfVerdict where
  | accept
  | acceptPassive
  | rejectRst
  | rejectSilent
  | defer
  deriving DecidableEq

structure SynfCbarg where
  inc : ConnInfo
  opts : TcpOpt
  th : Tcphdr
  m : Nat
  initialTimeout : Int

def synfCbarg (inc : ConnInfo) (opts : TcpOpt) (th : Tcphdr) (m : Nat) : SynfCbarg :=
  ⟨{ inc with synfiltered := true }, opts, th, m, -1⟩

def syncacheAdd (globals : SynGlobals) (synfilter : Option (SynfCbarg → SynfVerdict × SynfCbarg))
    (inc : ConnInfo) (opts : TcpOpt) (th : Tcphdr) (m : Nat) (initialTimeout : Int) :
    Option SynEntry :=
  let insert (passive : Bool) (initialTimeout : Int) : Option SynEntry :=
    some ((SynEntry.fill globals inc passive initialTimeout opts th m).syncacheTimeout globals.hz
      globals.ticks initialTimeout)
  match synfilter, inc.synfiltered with
  | some callback, false =>
      let (decision, cbarg) := callback (synfCbarg inc opts th m)
      let initialTimeout := if cbarg.inc.passive then cbarg.initialTimeout else initialTimeout
      match decision with
      | .acceptPassive => insert true initialTimeout
      | .accept => insert inc.passive initialTimeout
      | _ => none
  | _, _ => insert inc.passive initialTimeout

def deferralDeliver (globals : SynGlobals)
    (synfilter : Option (SynfCbarg → SynfVerdict × SynfCbarg)) (cbarg : SynfCbarg)
    (decision : SynfVerdict) : Option SynEntry :=
  match decision with
  | .accept =>
      syncacheAdd globals synfilter cbarg.inc cbarg.opts cbarg.th cbarg.m cbarg.initialTimeout
  | _ => none

def cIntMax : Nat := 2 ^ 31 - 1

def goActiveOnTimeout (hz : Nat) (ms : BitVec 32) (cbarg : SynfCbarg) : SynfCbarg :=
  { cbarg with
    inc.convontmo := true
    initialTimeout := if cIntMax / hz < ms.toNat then (cIntMax / 1000 : Nat)
      else ((ms * .ofNat 32 hz).toNat / 1000 : Nat) }

namespace SynEntry

def syncachePassiveSynack (opts : TcpOpt) (th : Tcphdr) (m : Nat) (sc : SynEntry) : SynEntry :=
  if sc.passive then
    { sc with
      passiveSynack := true
      synack := some m
      iss := th.seq
      ecn := sc.ecn && th.ece
      wnd := th.win
      winscale := sc.winscale && opts.scaleFlag
      requestedSScale := if opts.scaleFlag then sc.requestedSScale else 0
      requestedRScale := if !opts.scaleFlag then 0
        else if sc.winscale then opts.wscale.setWidth 4 else sc.requestedRScale
      timestamp := sc.timestamp && opts.tsFlag
      tsoff := if opts.tsFlag && sc.timestamp then opts.tsval - sc.ts else sc.tsoff
      ts := if !opts.tsFlag then 0 else if sc.timestamp then opts.tsval else sc.ts
      tsreflect := if !opts.tsFlag then 0 else if sc.timestamp then opts.tsecr else sc.tsreflect
      sack := sc.sack && opts.sackperm }
  else sc

def tcpInputSynack (globals : SynGlobals) (options : List (BitVec 8)) (th : Tcphdr) (m : Nat)
    (sc : SynEntry) : SynEntry :=
  sc.syncachePassiveSynack (tcpDooptions globals.tcpDoSack options thSyn) th m

def converts (globals : SynGlobals) (tick : BitVec 32) (sc : SynEntry) : Bool :=
  !seqGt sc.rxttime tick && sc.rxmits.toNat ≤ globals.rexmtLimit && sc.passive && sc.convertOnTimeout

def syncacheTimer (globals : SynGlobals) (tick ticks : BitVec 32) (sc : SynEntry) :
    Option SynEntry :=
  if seqGt sc.rxttime tick then some sc
  else if globals.rexmtLimit < sc.rxmits.toNat then none
  else
    let converted := if sc.passive && sc.convertOnTimeout then
        { sc with passive := false, passiveSynack := false, convertOnTimeout := false }
      else sc
    some (converted.syncacheTimeout globals.hz ticks (-1))

inductive Inpcb where
  | server
  | client
  deriving DecidableEq

def syncacheSocket (clientMade made : Bool) (sc : SynEntry) : List (Option Inpcb × Nat) :=
  if sc.passive && !clientMade then []
  else if !made then []
  else
    let clientInp := if sc.passive then some Inpcb.client else none
    (sc.syn.map fun m => (some .server, m)).toList ++ (sc.synack.map fun m => (clientInp, m)).toList

def acked (opts : TcpOpt) (th : Tcphdr) (sc : SynEntry) : SynEntry :=
  if sc.passive && !sc.passiveSynack then { sc with iss := th.ack - 1, ts := opts.tsecr } else sc

def syncacheExpand (opts : TcpOpt) (th : Tcphdr) (clientMade made : Bool) (sc : SynEntry) :
    List (Option Inpcb × Nat) :=
  let known := sc.acked opts th
  if th.ack ≠ known.iss + 1 then []
  else if !seqGt th.seq known.irs || seqGt th.seq (known.irs + known.wnd.zeroExtend 32) then []
  else if !known.timestamp && opts.tsFlag then []
  else if opts.tsFlag && opts.tsecr ≠ known.ts then []
  else known.syncacheSocket clientMade made

end SynEntry

end Libunsod.Netinet
