import Libunsod.Base.RingLog
import Mathlib.Data.BitVec

/-!
Packet descriptors, the descriptor ring and the transmit-inject path of the DPDK
interface: `if_dpdk_inject_tx_pkts` and `if_dpdk_process_tx_inject_ring`. A
section under `tx_lock` is one step; the processing call is cut at the places
where it gives up the lock and at every descriptor it visits without it. The
signed arithmetic of `uinet_pd_ring_space` wraps.
-/

namespace Libunsod.Uinet

open RingLog (store)

def pdInject : BitVec 16 := 0x0010
def pdToStack : BitVec 16 := 0x0020
def pdExtraRefs : BitVec 16 := 0x0080
def pdMgmtOnly : BitVec 16 := 0x0200

structure Pd where
  flags : BitVec 16
  length : BitVec 16
  poolId : BitVec 16
  ref : Nat
  data : Nat
  ctx : Option Nat
  serialno : BitVec 64
  deriving DecidableEq

def Pd.has (flag : BitVec 16) (pd : Pd) : Bool :=
  pd.flags &&& flag ≠ 0

structure PdRing where
  numDescs : BitVec 32
  put : BitVec 32
  take : BitVec 32
  drops : BitVec 32
  descs : Nat → Pd

def uinetPdRingAlloc (numDescs : BitVec 32) (memory : Nat → Pd) : PdRing where
  numDescs := if numDescs = 0 then 1 else numDescs
  put := 0
  take := 0
  drops := 0
  descs := memory

def uinetPdRingSpace (ring : PdRing) : BitVec 32 :=
  let space := ring.take - ring.put - 1
  if space.toInt < 0 then space + ring.numDescs else space

def uinetPdRingAvail (ring : PdRing) : BitVec 32 :=
  ring.numDescs - uinetPdRingSpace ring - 1

def uinetPdRingNext (ring : PdRing) (cur : BitVec 32) : BitVec 32 :=
  if cur + 1 = ring.numDescs then 0 else cur + 1

structure Injecting where
  ring : PdRing
  cur : BitVec 32
  space : BitVec 32
  numDrops : BitVec 32
  toCheck : List Pd

def injectOne (state : Injecting) (pd : Pd) (rest : List Pd) : Injecting :=
  if pd.has pdInject then
    if state.space ≠ 0 then
      { state with
        ring := { state.ring with descs := store state.ring.descs state.cur.toNat pd }
        cur := uinetPdRingNext state.ring state.cur
        space := state.space - 1 }
    else
      { state with
        numDrops := state.numDrops + 1
        toCheck := if state.numDrops = 0 then pd :: rest else state.toCheck }
  else state

def injectLoop : List Pd → Injecting → Injecting
  | [], state => state
  | pd :: rest, state => injectLoop rest (injectOne state pd rest)

def maxBurstSize : Nat := 512

structure Sending where
  localCurInjectTake : BitVec 32
  curInjectPut : BitVec 32
  injectDrops : BitVec 32
  nCopy : BitVec 32
  totalBytes : BitVec 32
  pkts : List (BitVec 64)
  pdctxToFree : List Nat

inductive Sender where
  | idle
  | waiting
  | sending (locals : Sending)
  | stopped

structure Softc where
  txDisabled : Bool
  txUseThread : Bool
  txPktsToSend : BitVec 32
  txInjectRing : PdRing
  curInjectTake : BitVec 32
  sender : Sender
  ifOpackets : BitVec 64
  ifOerrors : BitVec 64
  ifOcopies : BitVec 64
  ifObytes : BitVec 64
  sent : List (List (BitVec 64))
  refReleased : List Nat

def ifDpdkInjectTxPkts (sc : Softc) (pkts : List Pd) : Softc × List Pd :=
  if sc.txDisabled then (sc, pkts)
  else
    let txr := sc.txInjectRing
    let done := injectLoop pkts ⟨txr, txr.put, uinetPdRingSpace txr, 0, []⟩
    let ring := { done.ring with put := done.cur, drops := done.ring.drops + done.numDrops }
    ({ sc with
        txInjectRing := ring
        txPktsToSend := if sc.txUseThread then sc.txPktsToSend + 1 else sc.txPktsToSend },
      done.toCheck)

def fetchRing (sc : Softc) (done : Bool) : Softc :=
  let txr := sc.txInjectRing
  { sc with
    txPktsToSend := if sc.txUseThread then 0 else sc.txPktsToSend
    txInjectRing := { txr with drops := 0 }
    sender := if done then .stopped else .sending ⟨txr.take, txr.put, txr.drops, 0, 0, [], []⟩ }

def processBegin (sc : Softc) : Softc :=
  if sc.txUseThread then
    let released := { sc with
      txInjectRing := { sc.txInjectRing with take := sc.curInjectTake } }
    if released.txPktsToSend = 0 then { released with sender := .waiting }
    else fetchRing released false
  else fetchRing sc false

def processWake (sc : Softc) (timedOut stopCheck : Bool) : Softc :=
  let done := timedOut && stopCheck
  if sc.txPktsToSend = 0 ∧ !done then sc else fetchRing sc done

def sendBurst (sc : Softc) (locals : Sending) (nSnd : Nat) : Softc × Sending :=
  ({ sc with sent := sc.sent ++ [locals.pkts] },
    { locals with
      injectDrops := locals.injectDrops + (BitVec.ofNat 32 locals.pkts.length - BitVec.ofNat 32 nSnd)
      nCopy := locals.nCopy + BitVec.ofNat 32 nSnd
      pkts := [] })

def processVisit (sc : Softc) (locals : Sending) (nSnd : Nat) : Option Softc :=
  let curPd := sc.txInjectRing.descs locals.localCurInjectTake.toNat
  match curPd.ctx with
  | none => none
  | some ctx =>
      let visited :=
        if !curPd.has pdMgmtOnly then
          let queued := { locals with pkts := locals.pkts ++ [curPd.serialno] }
          let burst := if queued.pkts.length = maxBurstSize then sendBurst sc queued nSnd
            else (sc, queued)
          (burst.1, { burst.2 with
            totalBytes := burst.2.totalBytes + curPd.length.zeroExtend 32
            pdctxToFree := burst.2.pdctxToFree ++ [ctx] })
        else (sc, locals)
      some { visited.1 with
        sender := .sending { visited.2 with
          localCurInjectTake := uinetPdRingNext sc.txInjectRing locals.localCurInjectTake } }

def processFinish (sc : Softc) (locals : Sending) (nSnd : Nat) : Softc :=
  let (sent, total) := if locals.pkts ≠ [] then sendBurst sc locals nSnd else (sc, locals)
  let counted := { sent with ifOerrors := sent.ifOerrors + total.injectDrops.zeroExtend 64 }
  let copied := if total.nCopy ≠ 0 then
      { counted with
        ifOpackets := counted.ifOpackets + total.nCopy.zeroExtend 64
        ifOcopies := counted.ifOcopies + total.nCopy.zeroExtend 64
        ifObytes := counted.ifObytes + total.totalBytes.zeroExtend 64 }
    else counted
  let released := { copied with refReleased := copied.refReleased ++ total.pdctxToFree }
  let idle := { released with sender := .idle }
  if sc.txUseThread then { idle with curInjectTake := total.localCurInjectTake }
  else { idle with
    txInjectRing := { idle.txInjectRing with take := total.localCurInjectTake } }

end Libunsod.Uinet
