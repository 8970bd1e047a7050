import Libunsod.Uinet.PdRefCore

/-!
`if_dpdk_batch_receive` of `uinet_if_dpdk.c` with `uinet_pd_mbuf_alloc_descs` and
`uinet_pd_deliver_to_stack`. The driver answers with at most `MAX_BURST_SIZE`
packets and no time to wait. A first-look handler only looks at the descriptors.
The local `i` has no value before the loop over the packets.
-/

namespace Libunsod.Uinet

structure RxSoftc where
  rxDisabled : Bool
  rxBatchSize : Nat
  rxPds : List Pd
  rxPacketWaiting : Nat
  heap : PdHeap
  ifIpackets : Nat
  looked : List (List Pd)
  toStack : List MExt

structure RxCall where
  contexts : List Nat
  slots : Nat → Pd
  descs : List RteMbufDesc
  stale : Nat

def uinetPdMbufAllocDescs (slots : Nat → Pd) : Nat → List Nat → PdHeap → List Pd → PdHeap × List Pd
  | 0, _, heap, list => (heap, list)
  | _ + 1, [], heap, list => (heap, list)
  | n + 1, index :: rest, heap, list =>
      let (heap, pd) := mbufAllocDesc heap index (slots list.length)
      uinetPdMbufAllocDescs slots n rest heap (list ++ [pd])

def getpacketWaitNs : Nat := 0

def receiveLoop : List Pd → List RteMbufDesc → PdHeap → Option (List Pd × PdHeap × Nat × Nat)
  | pd :: pds, desc :: descs, heap =>
      (batchReceiveOne heap pd desc).bind fun (heap, pd) =>
        if 0 < getpacketWaitNs then some (pd :: pds, heap, 0, 1)
        else (receiveLoop pds descs heap).map fun (pds, heap, i, waiting) =>
          (pd :: pds, heap, i + 1, waiting)
  | pds, _, heap => some (pds, heap, 0, 0)

def uinetPdDeliverToStack : List Pd → PdHeap → Option (PdHeap × List MExt)
  | [], heap => some (heap, [])
  | pd :: rest, heap =>
      (deliverOne heap pd).bind fun (heap, m) =>
        (uinetPdDeliverToStack rest heap).map fun (heap, ms) => (heap, m.toList ++ ms)

def ifDpdkBatchReceive (call : RxCall) (sc : RxSoftc) : Option (RxSoftc × Bool) :=
  if sc.rxDisabled then some (sc, false)
  else
    let (heap, rxPds) := uinetPdMbufAllocDescs call.slots (sc.rxBatchSize - sc.rxPds.length)
      call.contexts sc.heap sc.rxPds
    let hadPacketWaiting := sc.rxPacketWaiting
    let maxRx := rxPds.length - hadPacketWaiting
    let topped := { sc with heap := heap, rxPds := rxPds, rxPacketWaiting := 0 }
    if call.descs = [] then some (topped, call.stale = maxRx)
    else
      (receiveLoop (rxPds.drop hadPacketWaiting) call.descs heap).bind
        fun (pds, heap, i, waiting) =>
          let rxPds := rxPds.take hadPacketWaiting ++ pds
          let received := { topped with
            heap := heap, rxPds := rxPds, rxPacketWaiting := waiting
            ifIpackets := sc.ifIpackets + call.descs.length }
          let used := i + hadPacketWaiting
          if used = 0 then some (received, i = maxRx)
          else (uinetPdDeliverToStack rxPds heap).map fun (heap, ms) =>
            ({ received with
              heap := heap, rxPds := rxPds.drop used, looked := sc.looked ++ [rxPds]
              toStack := sc.toStack ++ ms }, i = maxRx)

end Libunsod.Uinet
