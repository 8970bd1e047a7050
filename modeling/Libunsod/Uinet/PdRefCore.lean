import Libunsod.Uinet.PdRingCore

/-!
References to packet-descriptor contexts: the mbuf pool of `uinet_pkt_desc.c`,
the acquire, deliver and release calls of `uinet_api.c`, the part of the mbuf
code that counts references to external storage, and the place where
`if_dpdk_batch_receive` attaches a received packet. A context and the mbuf it
owns carry one number; a counter is named by the storage it belongs to.
-/

namespace Libunsod.Uinet

def pdTypeMbuf : BitVec 16 := 0x0001
def ctxSingleRef : BitVec 16 := 0x0001
def ctxMbufUsed : BitVec 16 := 0x0002
def mclbytes : BitVec 16 := 2048
def pdFreeBatchSize : Nat := 32
def pdXlistMaxDescs : Nat := 16

inductive Counter where
  | cluster (index : Nat)
  | rte (index : Nat)
  deriving DecidableEq

inductive ExtFree where
  | uinetPdMbufExtFree (arg1 arg2 : Option Nat)
  | ifDpdkFreeRteBuf (rmBase ctx : Nat)
  deriving DecidableEq

def ExtFree.extArg2 : ExtFree → Option Nat
  | .uinetPdMbufExtFree _ arg2 => arg2
  | .ifDpdkFreeRteBuf _ ctx => some ctx

structure MExt where
  refCnt : Counter
  extFree : ExtFree
  extBuf : Nat
  deriving DecidableEq

structure PdCtx where
  m : MExt
  ref : Nat
  mOrigLen : BitVec 16
  flags : BitVec 16
  poolId : BitVec 16
  refcnt : Counter

inductive PoolOp where
  | alloc (ctx : Nat)
  | free (ctx : Nat)
  deriving DecidableEq

structure PdHeap where
  ctx : Nat → PdCtx
  counters : Counter → BitVec 32
  zone : List PoolOp
  freeCalls : List (BitVec 32 × List Nat)
  rteFreed : List Nat
  mbufPoolId : BitVec 16

def PdHeap.setCounter (heap : PdHeap) (counter : Counter) (value : BitVec 32) : PdHeap :=
  { heap with counters := fun other => if other = counter then value else heap.counters other }

def PdHeap.setCtx (heap : PdHeap) (index : Nat) (ctx : PdCtx) : PdHeap :=
  { heap with ctx := fun other => if other = index then ctx else heap.ctx other }

def clusterExt (index extBuf : Nat) : MExt :=
  ⟨.cluster index, .uinetPdMbufExtFree none (some index), extBuf⟩

def uinetPdMbufZinitPdCtx (poolId : BitVec 16) (index extBuf : Nat) : PdCtx where
  m := clusterExt index extBuf
  ref := 0
  mOrigLen := 0
  flags := 0
  poolId := poolId
  refcnt := (clusterExt index extBuf).refCnt

def uinetPdMbufCtorPdCtx (heap : PdHeap) (index : Nat) : PdHeap :=
  (heap.setCtx index { heap.ctx index with flags := ctxSingleRef }).setCounter
    (heap.ctx index).refcnt 1

def mbufAllocDesc (heap : PdHeap) (index : Nat) (pd : Pd) : PdHeap × Pd :=
  (uinetPdMbufCtorPdCtx { heap with zone := .alloc index :: heap.zone } index,
    { pd with
      flags := pdTypeMbuf
      length := mclbytes
      poolId := (heap.ctx index).poolId
      ref := index
      data := (heap.ctx index).m.extBuf
      ctx := some index })

def umaZfreeCtx (heap : PdHeap) : Option Nat → PdHeap
  | none => heap
  | some index => { heap with zone := .free index :: heap.zone }

def uinetPdMbufFreeDescs (heap : PdHeap) (ctxs : List Nat) : PdHeap :=
  ctxs.foldl (fun heap index => umaZfreeCtx heap (some index)) heap

def runExtFree (heap : PdHeap) : ExtFree → PdHeap
  | .uinetPdMbufExtFree arg1 _ => umaZfreeCtx heap arg1
  | .ifDpdkFreeRteBuf rmBase ctx =>
      uinetPdMbufFreeDescs { heap with rteFreed := heap.rteFreed ++ [rmBase] } [ctx]

def mbFreeExt (heap : PdHeap) (ext : MExt) : PdHeap :=
  let old := heap.counters ext.refCnt
  if old = 1 then runExtFree heap ext.extFree
  else
    let fetched := heap.setCounter ext.refCnt (old - 1)
    if old = 1 then runExtFree fetched ext.extFree else fetched

def mbDupcl (heap : PdHeap) (ext : MExt) : PdHeap :=
  heap.setCounter ext.refCnt (heap.counters ext.refCnt + 1)

structure RteMbufDesc where
  rmBase : Nat
  rmData : Nat
  dataLen : BitVec 16

def batchReceiveOne (heap : PdHeap) (pd : Pd) (desc : RteMbufDesc) : Option (PdHeap × Pd) :=
  pd.ctx.map fun index =>
    let m : MExt := ⟨.rte desc.rmBase, .ifDpdkFreeRteBuf desc.rmBase index, desc.rmData⟩
    ((heap.setCtx index { heap.ctx index with m := m }).setCounter (.rte desc.rmBase) 1,
      { pd with length := desc.dataLen, flags := pd.flags ||| pdToStack })

def extraRefs (pd : Pd) (numExtra : BitVec 32) : BitVec 32 :=
  let refs : BitVec 32 :=
    if pd.flags &&& (pdInject ||| pdToStack) = pdInject ||| pdToStack then 1 else 0
  if pd.has pdExtraRefs then refs + numExtra else refs

def refAcquireOne (heap : PdHeap) (pd : Pd) (numExtra : BitVec 32) : Option PdHeap :=
  if pd.has pdMgmtOnly then some heap
  else
    let refs := extraRefs pd numExtra
    if refs = 0 then some heap
    else pd.ctx.map fun index =>
      let ctx := heap.ctx index
      (heap.setCtx index { ctx with flags := ctx.flags &&& ~~~ctxSingleRef }).setCounter ctx.refcnt
        (heap.counters ctx.refcnt + refs)

def uinetPdRefAcquire (heap : PdHeap) (pkts : List Pd) (numExtra : BitVec 32) : Option PdHeap :=
  pkts.foldlM (fun heap pd => refAcquireOne heap pd numExtra) heap

def deliverOne (heap : PdHeap) (pd : Pd) : Option (PdHeap × Option MExt) :=
  if pd.has pdToStack then
    pd.ctx.map fun index =>
      let ctx := heap.ctx index
      (heap.setCtx index { ctx with
        flags := ctx.flags &&& ~~~ctxSingleRef ||| ctxMbufUsed
        mOrigLen := pd.length }, some ctx.m)
  else some (heap, none)

def uinetPdXlistAddMbuf (heap : PdHeap) (xlist : List (List Pd)) (allocated : Bool) (ext : MExt)
    (flags : BitVec 16) (serialno : BitVec 64) : Option (Nat × List (List Pd) × PdHeap) :=
  let tail := xlist.getLast?.getD []
  let extend : Bool := xlist = [] ∨ tail.length = pdXlistMaxDescs
  if extend && !allocated then some (1, xlist, heap)
  else ext.extFree.extArg2.map fun index =>
    let ctx := heap.ctx index
    let pd : Pd := ⟨ctxMbufUsed ||| flags, ctx.mOrigLen, ctx.poolId, ctx.ref, ext.extBuf,
      some index, serialno⟩
    (0, if extend then xlist ++ [[pd]] else xlist.dropLast ++ [tail ++ [pd]],
      heap.setCounter ext.refCnt (heap.counters ext.refCnt + 1))

structure FreeGroup where
  curPoolId : BitVec 32
  freeGroup : List Nat

def FreeGroup.none : FreeGroup :=
  ⟨0xffffffff, []⟩

def ctxPool (heap : PdHeap) (index : Nat) : BitVec 32 :=
  (heap.ctx index).poolId.zeroExtend 32

def poolFree (heap : PdHeap) (poolId : BitVec 32) (ctxs : List Nat) : PdHeap :=
  let called := { heap with freeCalls := heap.freeCalls ++ [(poolId, ctxs)] }
  if poolId = heap.mbufPoolId.zeroExtend 32 then uinetPdMbufFreeDescs called ctxs else called

def flushGroup (heap : PdHeap) (group : FreeGroup) : PdHeap :=
  if group.freeGroup = [] then heap else poolFree heap group.curPoolId group.freeGroup

def addToGroup (heap : PdHeap) (group : FreeGroup) (index : Nat) : PdHeap × FreeGroup :=
  if ctxPool heap index ≠ group.curPoolId ∨ group.freeGroup.length = pdFreeBatchSize then
    (flushGroup heap group, ⟨ctxPool heap index, [index]⟩)
  else (heap, { group with freeGroup := group.freeGroup ++ [index] })

def releaseTest (heap : PdHeap) (index : Nat) : PdHeap × Bool :=
  let ctx := heap.ctx index
  let old := heap.counters ctx.refcnt
  if ctx.flags &&& ctxSingleRef ≠ 0 then (heap, true)
  else if old = 1 then (heap, true)
  else (heap.setCounter ctx.refcnt (old - 1), old = 1)

def refReleaseLoop : List Nat → PdHeap → FreeGroup → PdHeap × FreeGroup
  | [], heap, group => (heap, group)
  | index :: rest, heap, group =>
      let tested := releaseTest heap index
      if tested.2 then
        let added := addToGroup tested.1 group index
        refReleaseLoop rest added.1 added.2
      else refReleaseLoop rest tested.1 group

def uinetPdRefRelease (heap : PdHeap) (ctxs : List Nat) : PdHeap :=
  let done := refReleaseLoop ctxs heap .none
  flushGroup done.1 done.2

end Libunsod.Uinet
