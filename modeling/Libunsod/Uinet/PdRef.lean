import Libunsod.Base.RefWord
import Libunsod.Base.Runs
import Libunsod.Uinet.PdRefCore
import Mathlib.Data.List.Perm.Basic

/-!
Who holds a packet-descriptor context: the mbufs of the stack and the
descriptors. Unless a received packet is attached to it, or its last reference is
given up through an mbuf, a context's counter is the number of its holders and it
goes back to its pool when the last of them lets go.
-/

namespace Libunsod.Uinet

open RefWord Runs

variable {index owner : Nat} {heap changed acquired : PdHeap} {group : FreeGroup} {ext : MExt}
  {pd : Pd} {ctx : PdCtx} {numExtra : BitVec 32}

variable {pending allocated : Nat} {ctxs : List Nat} {delivered : PdHeap × Option MExt}

@[simp] theorem setCounter_self (heap : PdHeap) (counter : Counter) (value : BitVec 32) :
    (heap.setCounter counter value).counters counter = value := by
  simp [PdHeap.setCounter]

theorem setCounter_other (heap : PdHeap) {counter other : Counter} (value : BitVec 32)
    (differ : other ≠ counter) :
    (heap.setCounter counter value).counters other = heap.counters other := by
  simp [PdHeap.setCounter, differ]

@[simp] theorem setCounter_ctx (heap : PdHeap) (counter : Counter) (value : BitVec 32) :
    (heap.setCounter counter value).ctx = heap.ctx := rfl

@[simp] theorem setCounter_zone (heap : PdHeap) (counter : Counter) (value : BitVec 32) :
    (heap.setCounter counter value).zone = heap.zone := rfl

@[simp] theorem setCtx_self (heap : PdHeap) (index : Nat) (ctx : PdCtx) :
    (heap.setCtx index ctx).ctx index = ctx := by
  simp [PdHeap.setCtx]

theorem setCtx_other (heap : PdHeap) {other : Nat} (ctx : PdCtx) (differ : other ≠ index) :
    (heap.setCtx index ctx).ctx other = heap.ctx other := by
  simp [PdHeap.setCtx, differ]

@[simp] theorem setCtx_counters (heap : PdHeap) (index : Nat) (ctx : PdCtx) :
    (heap.setCtx index ctx).counters = heap.counters := rfl

@[simp] theorem setCtx_zone (heap : PdHeap) (index : Nat) (ctx : PdCtx) :
    (heap.setCtx index ctx).zone = heap.zone := rfl

def allocations (heap : PdHeap) (index : Nat) : Nat :=
  heap.zone.count (.alloc index)

def returns (heap : PdHeap) (index : Nat) : Nat :=
  heap.zone.count (.free index)

def SingleRef (heap : PdHeap) (index : Nat) : Prop :=
  (heap.ctx index).flags &&& ctxSingleRef ≠ 0

structure RefExact (heap : PdHeap) (index holders pending : Nat) : Prop where
  tracks : Tracks (heap.counters (.cluster index)) (SingleRef heap index) holders
  fits : holders < 2 ^ 32
  balance : allocations heap index =
    returns heap index + pending + if holders = 0 then 0 else 1

theorem RefExact.of_fields {holders : Nat} (account : RefExact heap index holders pending)
    (counter : changed.counters (.cluster index) = heap.counters (.cluster index))
    (flags : SingleRef changed index → SingleRef heap index)
    (allocated : allocations changed index = allocations heap index)
    (returned : returns changed index = returns heap index) :
    RefExact changed index holders pending where
  tracks := by
    rw [counter]
    exact account.tracks.weaken flags
  fits := account.fits
  balance := by
    rw [allocated, returned]
    exact account.balance

theorem RefExact.setCounter {holders : Nat} {counter : Counter} {value : BitVec 32}
    (account : RefExact heap index holders pending) (differ : .cluster index ≠ counter) :
    RefExact (heap.setCounter counter value) index holders pending := by
  refine { account with tracks := ?_ }
  rw [setCounter_other heap value differ]
  exact account.tracks

structure Owned (index : Nat) (ext : MExt) : Prop where
  arg2 : ext.extFree.extArg2 = some index
  counter : ∀ other, ext.refCnt = .cluster other → other = index
  arg1 : ∀ arg1 arg2, ext.extFree = .uinetPdMbufExtFree arg1 arg2 → arg1 = none

structure Wired (heap : PdHeap) : Prop where
  refcnt : ∀ index, (heap.ctx index).refcnt = .cluster index
  owned : ∀ index, Owned index (heap.ctx index).m
  pool : ∀ index, (heap.ctx index).poolId = heap.mbufPoolId

def SameCtxs (heap changed : PdHeap) : Prop :=
  changed.ctx = heap.ctx ∧ changed.mbufPoolId = heap.mbufPoolId

theorem Wired.of_same (wired : Wired heap) (same : SameCtxs heap changed) : Wired changed := by
  obtain ⟨refcnt, owned, pool⟩ := wired
  rw [← same.1] at refcnt owned pool
  rw [← same.2] at pool
  exact ⟨refcnt, owned, pool⟩

theorem freeDescs_eq (heap : PdHeap) (ctxs : List Nat) :
    uinetPdMbufFreeDescs heap ctxs =
      { heap with zone := (ctxs.map PoolOp.free).reverse ++ heap.zone } := by
  induction ctxs generalizing heap with
  | nil => rfl
  | cons index rest ih =>
    rw [uinetPdMbufFreeDescs, List.foldl_cons, ← uinetPdMbufFreeDescs, ih]
    simp [umaZfreeCtx]

theorem RefExact.freed {holders : Nat}
    (account : RefExact heap index holders (pending + ctxs.count index)) :
    RefExact { heap with zone := (ctxs.map PoolOp.free).reverse ++ heap.zone } index holders
      pending := by
  refine { account with balance := ?_ }
  have freed : (ctxs.map PoolOp.free).count (.free index) = ctxs.count index :=
    List.count_map_of_injective ctxs PoolOp.free (fun _ _ same => by injection same) index
  have noAlloc : (ctxs.map PoolOp.free).count (.alloc index) = 0 := by
    rw [List.count_eq_zero]
    simp
  have balance := account.balance
  simp only [allocations, returns, List.count_append, List.count_reverse, freed,
    noAlloc] at balance ⊢
  omega

def GroupOfPool (heap : PdHeap) (group : FreeGroup) : Prop :=
  group.freeGroup ≠ [] → group.curPoolId = heap.mbufPoolId.zeroExtend 32

theorem flushGroup_exact {holders : Nat} (ofPool : GroupOfPool heap group)
    (account : RefExact heap index holders (pending + group.freeGroup.count index)) :
    SameCtxs heap (flushGroup heap group) ∧
      RefExact (flushGroup heap group) index holders pending := by
  by_cases empty : group.freeGroup = []
  · rw [flushGroup, if_pos empty]
    rw [empty] at account
    exact ⟨⟨rfl, rfl⟩, account⟩
  · rw [flushGroup, if_neg empty, poolFree, if_pos (ofPool empty)]
    rw [freeDescs_eq]
    exact ⟨⟨rfl, rfl⟩, { account.freed with }⟩

theorem cluster_ne (differ : owner ≠ index) : Counter.cluster index ≠ .cluster owner := by
  intro equal
  injection equal with equal
  exact differ equal.symm

theorem addToGroup_exact {added holders : Nat} (wired : Wired heap)
    (ofPool : GroupOfPool heap group) (account : RefExact heap index holders
      ([added].count index + group.freeGroup.count index)) :
    SameCtxs heap (addToGroup heap group added).1 ∧
      GroupOfPool (addToGroup heap group added).1 (addToGroup heap group added).2 ∧
      RefExact (addToGroup heap group added).1 index holders
        ((addToGroup heap group added).2.freeGroup.count index) := by
  have pool : ctxPool heap added = heap.mbufPoolId.zeroExtend 32 := by
    rw [ctxPool, wired.pool]
  by_cases flush : ctxPool heap added ≠ group.curPoolId ∨
      group.freeGroup.length = pdFreeBatchSize
  · rw [addToGroup, if_pos flush]
    obtain ⟨same, flushed⟩ := flushGroup_exact ofPool account
    refine ⟨same, ?_, flushed⟩
    intro _
    rw [same.2]
    exact pool
  · rw [addToGroup, if_neg flush]
    refine ⟨⟨rfl, rfl⟩, ?_, ?_⟩
    · intro _
      rw [not_or, not_not] at flush
      rw [← flush.1, pool]
    · rw [List.count_append, Nat.add_comm]
      exact account

theorem releaseTest_exact {holders : Nat} (released : Nat) (wired : Wired heap)
    (held : [released].count index ≤ holders) (account : RefExact heap index holders pending) :
    SameCtxs heap (releaseTest heap released).1 ∧
      RefExact (releaseTest heap released).1 index (holders - [released].count index)
        ((if (releaseTest heap released).2 then [released].count index else 0) + pending) := by
  have refcnt := wired.refcnt released
  have last (one : released = index → holders = 1) : RefExact heap index
      (holders - [released].count index) ([released].count index + pending) := by
    by_cases same : released = index
    · subst same
      have holder := one rfl
      subst holder
      have balance := account.balance
      refine ⟨?_, ?_, ?_⟩
      · simpa using Tracks.none (heap.counters (.cluster released)) (SingleRef heap released)
      · simp
      · simp at balance ⊢
        omega
    · simpa [same] using account
  by_cases single : (heap.ctx released).flags &&& ctxSingleRef ≠ 0
  · rw [releaseTest, if_pos single]
    refine ⟨⟨rfl, rfl⟩, last ?_⟩
    rintro rfl
    have alone := account.tracks.alone single
    simp at held
    omega
  rw [releaseTest, if_neg single, refcnt]
  by_cases one : heap.counters (.cluster released) = 1
  · rw [if_pos one]
    refine ⟨⟨rfl, rfl⟩, last ?_⟩
    rintro rfl
    simp at held
    exact (account.tracks.eq_one_iff (by decide) held).mp one
  · rw [if_neg one]
    refine ⟨⟨rfl, rfl⟩, ?_⟩
    simp only [one, decide_false, Bool.false_eq_true, if_false, Nat.zero_add]
    by_cases same : released = index
    · subst same
      simp only [List.count_singleton_self] at held ⊢
      have several : holders ≠ 1 := by
        intro holder
        exact one ((account.tracks.eq_one_iff (by decide) held).mpr holder)
      have balance := account.balance
      have fits := account.fits
      refine ⟨?_, by omega, ?_⟩
      · rw [setCounter_self]
        exact account.tracks.drop held
      · rw [if_neg (by omega)] at balance ⊢
        exact balance
    · rw [List.count_cons_of_ne same, List.count_nil, Nat.sub_zero]
      exact account.setCounter (cluster_ne same)

theorem refReleaseLoop_exact (heap : PdHeap) (group : FreeGroup) (holders : Nat)
    (wired : Wired heap) (ofPool : GroupOfPool heap group) (held : ctxs.count index ≤ holders)
    (account : RefExact heap index holders (group.freeGroup.count index)) :
    SameCtxs heap (refReleaseLoop ctxs heap group).1 ∧
      GroupOfPool (refReleaseLoop ctxs heap group).1 (refReleaseLoop ctxs heap group).2 ∧
      RefExact (refReleaseLoop ctxs heap group).1 index (holders - ctxs.count index)
        ((refReleaseLoop ctxs heap group).2.freeGroup.count index) := by
  induction ctxs generalizing heap group holders with
  | nil => exact ⟨⟨rfl, rfl⟩, ofPool, account⟩
  | cons released rest ih =>
    have split : (released :: rest).count index = [released].count index + rest.count index := by
      rw [← List.count_append, List.singleton_append]
    rw [split] at held ⊢
    rw [Nat.sub_add_eq]
    obtain ⟨same, tested⟩ := releaseTest_exact released wired (by omega) account
    have ofPool : GroupOfPool (releaseTest heap released).1 group := by
      rw [GroupOfPool, same.2]
      exact ofPool
    have wired := wired.of_same same
    rw [refReleaseLoop]
    cases taken : (releaseTest heap released).2 with
    | false =>
      rw [taken] at tested
      simp only [Bool.false_eq_true, if_false, Nat.zero_add] at tested ⊢
      obtain ⟨kept, grouped, final⟩ := ih _ group _ wired ofPool (by omega) tested
      exact ⟨⟨kept.1.trans same.1, kept.2.trans same.2⟩, grouped, final⟩
    | true =>
      rw [taken] at tested
      simp only [if_true] at tested ⊢
      obtain ⟨added, inPool, collected⟩ := addToGroup_exact wired ofPool tested
      obtain ⟨kept, grouped, final⟩ := ih _ _ _ (wired.of_same added) inPool (by omega)
        collected
      exact ⟨⟨kept.1.trans (added.1.trans same.1), kept.2.trans (added.2.trans same.2)⟩,
        grouped, final⟩

theorem uinetPdRefRelease_exact (ctxs : List Nat) {holders : Nat} (wired : Wired heap)
    (held : ctxs.count index ≤ holders) (account : RefExact heap index holders 0) :
    SameCtxs heap (uinetPdRefRelease heap ctxs) ∧
      RefExact (uinetPdRefRelease heap ctxs) index (holders - ctxs.count index) 0 := by
  obtain ⟨same, grouped, looped⟩ := refReleaseLoop_exact heap .none holders wired
    (fun some => absurd rfl some) held account
  obtain ⟨kept, flushed⟩ := flushGroup_exact grouped (by rwa [Nat.zero_add])
  exact ⟨⟨kept.1.trans same.1, kept.2.trans same.2⟩, flushed⟩

structure PdRun where
  heap : PdHeap
  mbufs : List MExt
  descs : List Nat

variable {next : PdRun}

def ofCtx (index : Nat) (ext : MExt) : Bool :=
  ext.extFree.extArg2 = some index

def PdRun.holders (run : PdRun) (index : Nat) : Nat :=
  run.mbufs.countP (ofCtx index) + run.descs.count index

def wantedRefs (pd : Pd) (numExtra : BitVec 32) : Nat :=
  if pd.has pdMgmtOnly then 0
  else
    (if pd.flags &&& (pdInject ||| pdToStack) = pdInject ||| pdToStack then 1 else 0) +
      if pd.has pdExtraRefs then numExtra.toNat else 0

inductive PdStep where
  | alloc (index : Nat) (pd : Pd)
  | receive (pd : Pd) (desc : RteMbufDesc)
  | acquire (pd : Pd) (numExtra : BitVec 32)
  | deliver (pd : Pd)
  | dup (ext : MExt)
  | xlistAdd (xlist : List (List Pd)) (allocated : Bool) (ext : MExt) (flags : BitVec 16)
      (serialno : BitVec 64)
  | release (ctxs : List Nat)
  | mfree (ext : MExt)

def PdMove (run : PdRun) : PdStep → PdRun → Prop
  | .alloc index pd, next => allocations run.heap index ≤ returns run.heap index ∧
      next = ⟨(mbufAllocDesc run.heap index pd).1, run.mbufs, index :: run.descs⟩
  | .receive pd desc, next => ∃ index received, pd.ctx = some index ∧ index ∈ run.descs ∧
      run.holders index = 1 ∧ batchReceiveOne run.heap pd desc = some received ∧
      next = { run with heap := received.1 }
  | .acquire pd numExtra, next => ∃ index heap, pd.ctx = some index ∧ index ∈ run.descs ∧
      run.holders index = 1 ∧ refAcquireOne run.heap pd numExtra = some heap ∧
      next = ⟨heap, run.mbufs, List.replicate (wantedRefs pd numExtra) index ++ run.descs⟩
  | .deliver pd, next => ∃ index delivered, pd.ctx = some index ∧ index ∈ run.descs ∧
      pd.has pdToStack ∧ deliverOne run.heap pd = some delivered ∧
      next = ⟨delivered.1, delivered.2.toList ++ run.mbufs, run.descs.erase index⟩
  | .dup ext, next => ext ∈ run.mbufs ∧
      next = ⟨mbDupcl run.heap ext, ext :: run.mbufs, run.descs⟩
  | .xlistAdd xlist allocated ext flags serialno, next => ∃ added, ext ∈ run.mbufs ∧
      uinetPdXlistAddMbuf run.heap xlist allocated ext flags serialno = some added ∧
      next = ⟨added.2.2, run.mbufs,
        if added.1 = 0 then ext.extFree.extArg2.toList ++ run.descs else run.descs⟩
  | .release ctxs, next => (∀ index, ctxs.count index ≤ run.descs.count index) ∧
      next = ⟨uinetPdRefRelease run.heap ctxs, run.mbufs, run.descs.diff ctxs⟩
  | .mfree ext, next => ext ∈ run.mbufs ∧
      next = ⟨mbFreeExt run.heap ext, run.mbufs.erase ext, run.descs⟩

def PdStep.Keeps (index : Nat) (run : PdRun) : PdStep → Prop
  | .receive pd _ => pd.ctx ≠ some index
  | .acquire pd numExtra => pd.ctx = some index →
      run.holders index + wantedRefs pd numExtra < 2 ^ 32
  | .dup ext => ofCtx index ext → run.holders index + 1 < 2 ^ 32
  | .xlistAdd _ _ ext _ _ => ofCtx index ext → run.holders index + 1 < 2 ^ 32
  | .mfree ext => ofCtx index ext → run.holders index ≠ 1
  | _ => True

structure PdInv (index : Nat) (run : PdRun) : Prop where
  wired : Wired run.heap
  owned : ∀ ext ∈ run.mbufs, ∃ owner, Owned owner ext
  shared : (run.heap.ctx index).m.refCnt = .cluster index
  stack : ∀ ext ∈ run.mbufs, ofCtx index ext →
    ext.refCnt = .cluster index ∧ ¬SingleRef run.heap index
  account : RefExact run.heap index (run.holders index) 0

theorem Owned.ofCtx_eq (owned : Owned owner ext) (index : Nat) :
    ofCtx index ext = (owner == index) := by
  rw [ofCtx, owned.arg2, Bool.eq_iff_iff]
  simp

theorem countP_owned (index : Nat) (mbufs : List MExt) (owned : Owned owner ext) :
    (ext :: mbufs).countP (ofCtx index) = [owner].count index + mbufs.countP (ofCtx index) := by
  rw [List.countP_cons, owned.ofCtx_eq, List.count_singleton, Nat.add_comm]

theorem count_le_holders {run : PdRun} (index : Nat) (owned : Owned owner ext)
    (member : ext ∈ run.mbufs) : [owner].count index ≤ run.holders index := by
  have split := (List.perm_cons_erase member).countP_eq (ofCtx index)
  rw [countP_owned index _ owned] at split
  rw [PdRun.holders]
  omega

theorem Owned.counter_ne (owned : Owned owner ext) (differ : owner ≠ index) :
    Counter.cluster index ≠ ext.refCnt := by
  intro equal
  exact differ (owned.counter index equal.symm).symm

theorem incremented_exact {holders : Nat} (owned : Owned owner ext)
    (shared : owner = index → ext.refCnt = .cluster index) (held : [owner].count index ≤ holders)
    (fits : owner = index → holders + 1 < 2 ^ 32) (single : owner = index → ¬SingleRef heap index)
    (account : RefExact heap index holders 0) :
    RefExact (heap.setCounter ext.refCnt (heap.counters ext.refCnt + 1)) index
      ([owner].count index + holders) 0 := by
  by_cases same : owner = index
  · subst same
    have balance := account.balance
    have small := fits rfl
    rw [shared rfl]
    simp only [List.count_singleton_self] at held ⊢
    refine ⟨?_, by omega, ?_⟩
    · rw [setCounter_self, Nat.add_comm 1 holders]
      exact account.tracks.take 1 held (by omega) (single rfl)
    · rw [if_neg (by omega)] at balance ⊢
      exact balance
  · rw [List.count_cons_of_ne same, List.count_nil, Nat.zero_add]
    exact account.setCounter (owned.counter_ne same)

theorem runExtFree_exact {holders : Nat} (owned : Owned owner ext) (differ : owner ≠ index)
    (account : RefExact heap index holders 0) :
    SameCtxs heap (runExtFree heap ext.extFree) ∧
      RefExact (runExtFree heap ext.extFree) index holders 0 := by
  cases routine : ext.extFree with
  | uinetPdMbufExtFree arg1 arg2 =>
    rw [owned.arg1 arg1 arg2 routine]
    exact ⟨⟨rfl, rfl⟩, account⟩
  | ifDpdkFreeRteBuf rmBase ctx =>
    have arg2 := owned.arg2
    rw [routine, ExtFree.extArg2, Option.some.injEq] at arg2
    subst arg2
    have others : RefExact heap index holders (0 + [ctx].count index) := by
      rw [List.count_cons_of_ne differ]
      exact account
    rw [runExtFree, freeDescs_eq]
    exact ⟨⟨rfl, rfl⟩, { others.freed with }⟩

theorem mbFreeExt_exact {holders : Nat} (owned : Owned owner ext)
    (shared : owner = index → ext.refCnt = .cluster index) (held : [owner].count index ≤ holders)
    (notLast : owner = index → holders ≠ 1) (account : RefExact heap index holders 0) :
    SameCtxs heap (mbFreeExt heap ext) ∧
      RefExact (mbFreeExt heap ext) index (holders - [owner].count index) 0 := by
  by_cases same : owner = index
  · subst same
    have several := notLast rfl
    simp only [List.count_singleton_self] at held ⊢
    have old : heap.counters ext.refCnt ≠ 1 := by
      rw [shared rfl]
      intro one
      exact several ((account.tracks.eq_one_iff (by decide) held).mp one)
    have balance := account.balance
    have fits := account.fits
    simp only [mbFreeExt, if_neg old]
    refine ⟨⟨rfl, rfl⟩, ?_, by omega, ?_⟩
    · rw [shared rfl, setCounter_self]
      exact account.tracks.drop held
    · rw [if_neg (by omega)] at balance ⊢
      exact balance
  · rw [List.count_cons_of_ne same, List.count_nil, Nat.sub_zero]
    by_cases old : heap.counters ext.refCnt = 1
    · simp only [mbFreeExt, if_pos old]
      exact runExtFree_exact owned same account
    · simp only [mbFreeExt, if_neg old]
      exact ⟨⟨rfl, rfl⟩, account.setCounter (owned.counter_ne same)⟩

theorem setCtx_forall (good : Nat → PdCtx → Prop) (here : good index ctx)
    (others : ∀ other, good other (heap.ctx other)) (other : Nat) :
    good other ((heap.setCtx index ctx).ctx other) := by
  by_cases same : other = index
  · rw [same, setCtx_self]
    exact here
  · rw [setCtx_other heap ctx same]
    exact others other

theorem Wired.setCtx (wired : Wired heap) (index : Nat) (ctx : PdCtx)
    (refcnt : ctx.refcnt = (heap.ctx index).refcnt) (owned : Owned index ctx.m)
    (pool : ctx.poolId = (heap.ctx index).poolId) : Wired (heap.setCtx index ctx) where
  refcnt := setCtx_forall (fun index ctx => ctx.refcnt = .cluster index)
    (refcnt.trans (wired.refcnt index)) wired.refcnt
  owned := setCtx_forall (fun index ctx => Owned index ctx.m) owned wired.owned
  pool := setCtx_forall (fun _ ctx => ctx.poolId = heap.mbufPoolId)
    (pool.trans (wired.pool index)) wired.pool

theorem mbufAllocDesc_wired (allocated : Nat) (pd : Pd) (wired : Wired heap) :
    Wired (mbufAllocDesc heap allocated pd).1 := by
  have logged : Wired { heap with zone := .alloc allocated :: heap.zone } := { wired with }
  have built := logged.setCtx allocated { heap.ctx allocated with flags := ctxSingleRef } rfl
    (wired.owned allocated) rfl
  exact { built with }

theorem mbufAllocDesc_exact {holders : Nat} (pd : Pd) (wired : Wired heap)
    (inPool : allocations heap allocated ≤ returns heap allocated)
    (account : RefExact heap index holders 0) :
    RefExact (mbufAllocDesc heap allocated pd).1 index ([allocated].count index + holders) 0 := by
  have counter := wired.refcnt allocated
  have balance := account.balance
  by_cases same : allocated = index
  · subst same
    have nobody : holders = 0 := by
      by_contra some
      rw [if_neg some] at balance
      omega
    subst nobody
    simp only [List.count_singleton_self, Nat.add_zero]
    refine ⟨?_, by decide, ?_⟩
    · simp only [mbufAllocDesc, uinetPdMbufCtorPdCtx, counter, setCounter_self]
      exact Tracks.fresh _
    · simp [mbufAllocDesc, uinetPdMbufCtorPdCtx, allocations, returns] at balance ⊢
      exact balance
  · rw [List.count_cons_of_ne same, List.count_nil, Nat.zero_add]
    refine account.of_fields ?_ ?_ ?_ rfl
    · simp only [mbufAllocDesc, uinetPdMbufCtorPdCtx, counter]
      rw [setCounter_other _ _ (cluster_ne same), setCtx_counters]
    · simp only [SingleRef, mbufAllocDesc, uinetPdMbufCtorPdCtx, setCounter_ctx]
      rw [setCtx_other _ _ (Ne.symm same)]
      exact fun flag => flag
    · simp [mbufAllocDesc, uinetPdMbufCtorPdCtx, allocations, same]

theorem extraRefs_eq (numExtra : BitVec 32) (plain : ¬pd.has pdMgmtOnly) :
    extraRefs pd numExtra = BitVec.ofNat 32 (wantedRefs pd numExtra) := by
  rw [extraRefs, wantedRefs, if_neg plain, BitVec.ofNat_add]
  by_cases extra : pd.has pdExtraRefs
  · rw [if_pos extra, if_pos extra, BitVec.ofNat_toNat, BitVec.setWidth_eq]
    split <;> rfl
  · rw [if_neg extra, if_neg extra]
    split <;> rfl

theorem cleared_not_single (flags : BitVec 16) :
    flags &&& ~~~ctxSingleRef &&& ctxSingleRef = 0 := by
  rw [BitVec.and_assoc, show ~~~ctxSingleRef &&& ctxSingleRef = 0 by decide]
  exact BitVec.and_zero

theorem delivered_not_single (flags : BitVec 16) :
    (flags &&& ~~~ctxSingleRef ||| ctxMbufUsed) &&& ctxSingleRef = 0 := by
  rw [BitVec.and_or_distrib_right, cleared_not_single]
  decide

structure FlagCleared (heap changed : PdHeap) (index : Nat) : Prop where
  wired : Wired changed
  m : (changed.ctx index).m = (heap.ctx index).m
  single : SingleRef changed index → SingleRef heap index

theorem singleRef_of_cleared (heap : PdHeap) (owner index : Nat)
    (cleared : ctx.flags &&& ctxSingleRef = 0) (flag : SingleRef (heap.setCtx owner ctx) index) :
    SingleRef heap index := by
  by_cases same : index = owner
  · subst same
    rw [SingleRef, setCtx_self] at flag
    exact absurd cleared flag
  · rw [SingleRef, setCtx_other _ _ same] at flag
    exact flag

theorem setCtx_cleared (owner index : Nat) {flags : BitVec 16} (mOrigLen : BitVec 16)
    (wired : Wired heap) (cleared : flags &&& ctxSingleRef = 0) :
    FlagCleared heap
      (heap.setCtx owner { heap.ctx owner with flags := flags, mOrigLen := mOrigLen }) index := by
  refine ⟨wired.setCtx owner _ rfl (wired.owned owner) rfl, ?_,
    singleRef_of_cleared heap owner index cleared⟩
  exact setCtx_forall (fun other ctx => ctx.m = (heap.ctx other).m) (by rfl) (fun _ => rfl) index

theorem setCtx_owner_cleared (heap : PdHeap) (owner : Nat)
    (cleared : ctx.flags &&& ctxSingleRef = 0) : ¬SingleRef (heap.setCtx owner ctx) owner := by
  rw [SingleRef, setCtx_self]
  exact fun flag => flag cleared

theorem refAcquireOne_cases (result : refAcquireOne heap pd numExtra = some acquired) :
    (acquired = heap ∧ BitVec.ofNat 32 (wantedRefs pd numExtra) = 0) ∨
      ∃ owner, pd.ctx = some owner ∧
        acquired = (heap.setCtx owner { heap.ctx owner with
          flags := (heap.ctx owner).flags &&& ~~~ctxSingleRef }).setCounter (heap.ctx owner).refcnt
            (heap.counters (heap.ctx owner).refcnt +
              BitVec.ofNat 32 (wantedRefs pd numExtra)) := by
  rw [refAcquireOne] at result
  by_cases mgmt : pd.has pdMgmtOnly
  · rw [if_pos mgmt, Option.some.injEq] at result
    exact .inl ⟨result.symm, by rw [wantedRefs, if_pos mgmt]; rfl⟩
  rw [if_neg mgmt] at result
  have refs := extraRefs_eq numExtra mgmt
  by_cases zero : extraRefs pd numExtra = 0
  · simp only [if_pos zero, Option.some.injEq] at result
    exact .inl ⟨result.symm, refs.symm.trans zero⟩
  · simp only [if_neg zero, Option.map_eq_some_iff] at result
    obtain ⟨owner, descriptor, rfl⟩ := result
    exact .inr ⟨owner, descriptor, by rw [refs]⟩

theorem wantedRefs_eq_zero (small : wantedRefs pd numExtra < 2 ^ 32)
    (zero : BitVec.ofNat 32 (wantedRefs pd numExtra) = 0) : wantedRefs pd numExtra = 0 := by
  have word := congrArg BitVec.toNat zero
  rw [BitVec.toNat_ofNat, Nat.mod_eq_of_lt small] at word
  exact word

theorem refAcquireOne_tracks {holders : Nat} (descriptor : pd.ctx = some index) (held : 0 < holders)
    (fits : holders + wantedRefs pd numExtra ≤ 2 ^ 32)
    (tracks : Tracks (heap.counters (heap.ctx index).refcnt) (SingleRef heap index) holders)
    (result : refAcquireOne heap pd numExtra = some acquired) :
    Tracks (acquired.counters (heap.ctx index).refcnt) (SingleRef acquired index)
      (holders + wantedRefs pd numExtra) := by
  rcases refAcquireOne_cases result with ⟨rfl, zero⟩ | ⟨owner, same, rfl⟩
  · rw [wantedRefs_eq_zero (by omega) zero, Nat.add_zero]
    exact tracks
  · rw [descriptor, Option.some.injEq] at same
    subst same
    rw [setCounter_self]
    exact tracks.take _ held fits
      (setCtx_owner_cleared heap index (cleared_not_single (heap.ctx index).flags))

theorem refAcquireOne_cleared (index : Nat) (wired : Wired heap)
    (result : refAcquireOne heap pd numExtra = some acquired) :
    FlagCleared heap acquired index := by
  rcases refAcquireOne_cases result with ⟨rfl, _⟩ | ⟨owner, _, rfl⟩
  · exact ⟨wired, rfl, fun flag => flag⟩
  · have flagged := setCtx_cleared owner index (heap.ctx owner).mOrigLen wired
      (cleared_not_single (heap.ctx owner).flags)
    exact ⟨{ flagged.wired with }, flagged.m, flagged.single⟩

theorem refAcquireOne_other (others : pd.ctx ≠ some index)
    (own : ∀ other, (heap.ctx other).refcnt = (heap.ctx index).refcnt → other = index)
    (result : refAcquireOne heap pd numExtra = some acquired) :
    acquired.ctx index = heap.ctx index ∧
      acquired.counters (heap.ctx index).refcnt = heap.counters (heap.ctx index).refcnt := by
  rcases refAcquireOne_cases result with ⟨rfl, _⟩ | ⟨owner, owned, rfl⟩
  · exact ⟨rfl, rfl⟩
  · have differ : index ≠ owner := by
      rintro rfl
      exact others owned
    refine ⟨setCtx_other _ _ differ, setCounter_other _ _ ?_⟩
    intro equal
    exact differ (own owner equal.symm).symm

theorem refAcquireOne_frame (result : refAcquireOne heap pd numExtra = some acquired) :
    acquired.zone = heap.zone ∧ acquired.freeCalls = heap.freeCalls ∧
      ∀ other, (acquired.ctx other).refcnt = (heap.ctx other).refcnt := by
  rcases refAcquireOne_cases result with ⟨rfl, _⟩ | ⟨owner, _, rfl⟩
  · exact ⟨rfl, rfl, fun _ => rfl⟩
  · exact ⟨rfl, rfl, setCtx_forall (fun other ctx => ctx.refcnt = (heap.ctx other).refcnt)
      (by rfl) fun _ => rfl⟩

theorem refAcquireOne_exact {holders : Nat} (wired : Wired heap) (descriptor : pd.ctx = some owner)
    (held : owner = index → 0 < holders)
    (fits : owner = index → holders + wantedRefs pd numExtra < 2 ^ 32)
    (account : RefExact heap index holders 0)
    (result : refAcquireOne heap pd numExtra = some acquired) :
    RefExact acquired index
      ((List.replicate (wantedRefs pd numExtra) owner).count index + holders) 0 := by
  have logs := refAcquireOne_frame result
  by_cases same : owner = index
  · subst same
    have small := fits rfl
    have positive := held rfl
    have balance := account.balance
    have tracks := account.tracks
    rw [← wired.refcnt owner] at tracks
    have acquires := refAcquireOne_tracks descriptor positive (by omega) tracks result
    rw [List.count_replicate_self, Nat.add_comm]
    refine ⟨?_, small, ?_⟩
    · rw [← wired.refcnt owner]
      exact acquires
    · rw [allocations, returns, logs.1, if_neg (by omega)]
      rw [if_neg (by omega)] at balance
      exact balance
  · rw [List.count_replicate, if_neg (by simpa using same), Nat.zero_add]
    have own : ∀ other, (heap.ctx other).refcnt = (heap.ctx index).refcnt → other = index := by
      intro other equal
      rw [wired.refcnt, wired.refcnt] at equal
      injection equal
    have others : pd.ctx ≠ some index := by
      rw [descriptor]
      intro equal
      exact same (Option.some.inj equal)
    obtain ⟨ctx, counter⟩ := refAcquireOne_other others own result
    rw [wired.refcnt] at counter
    refine account.of_fields counter ?_ (by rw [allocations, logs.1]; rfl)
      (by rw [returns, logs.1]; rfl)
    rw [SingleRef, ctx]
    exact fun flag => flag

theorem deliverOne_exact {holders : Nat} (wired : Wired heap) (descriptor : pd.ctx = some owner)
    (toStack : pd.has pdToStack) (account : RefExact heap index holders 0)
    (result : deliverOne heap pd = some delivered) :
    delivered.2 = some (heap.ctx owner).m ∧ FlagCleared heap delivered.1 index ∧
      ¬SingleRef delivered.1 owner ∧ RefExact delivered.1 index holders 0 := by
  simp only [deliverOne, if_pos toStack, descriptor, Option.map_some, Option.some.injEq] at result
  have clear := delivered_not_single (heap.ctx owner).flags
  have flagged := setCtx_cleared owner index pd.length wired clear
  subst result
  exact ⟨rfl, flagged, setCtx_owner_cleared heap owner clear,
    account.of_fields rfl flagged.single rfl rfl⟩

theorem PdInv.of_kept {run : PdRun} (inv : PdInv index run) (wired : Wired next.heap)
    (m : (next.heap.ctx index).m = (run.heap.ctx index).m)
    (mbufs : ∀ ext ∈ next.mbufs, ext ∈ run.mbufs)
    (single : (∃ ext ∈ next.mbufs, ofCtx index ext) → SingleRef next.heap index →
      SingleRef run.heap index) (account : RefExact next.heap index (next.holders index) 0) :
    PdInv index next where
  wired := wired
  owned := fun ext member => inv.owned ext (mbufs ext member)
  shared := m ▸ inv.shared
  stack := by
    intro ext member ours
    obtain ⟨counter, plain⟩ := inv.stack ext (mbufs ext member) ours
    exact ⟨counter, fun flag => plain (single ⟨ext, member, ours⟩ flag)⟩
  account := account

theorem PdInv.of_same {run : PdRun} (inv : PdInv index run) (same : SameCtxs run.heap next.heap)
    (mbufs : ∀ ext ∈ next.mbufs, ext ∈ run.mbufs)
    (account : RefExact next.heap index (next.holders index) 0) : PdInv index next := by
  refine inv.of_kept (inv.wired.of_same same) (by rw [same.1]) mbufs ?_ account
  intro _ flag
  rw [SingleRef, same.1] at flag
  exact flag

theorem alloc_inv (pd : Pd) {run : PdRun} (inv : PdInv index run)
    (inPool : allocations run.heap allocated ≤ returns run.heap allocated) :
    PdInv index
      ⟨(mbufAllocDesc run.heap allocated pd).1, run.mbufs, allocated :: run.descs⟩ := by
  have counted : (⟨(mbufAllocDesc run.heap allocated pd).1, run.mbufs,
      allocated :: run.descs⟩ : PdRun).holders index =
      [allocated].count index + run.holders index := by
    simp only [PdRun.holders, List.count_cons, List.count_nil]
    omega
  refine inv.of_kept (mbufAllocDesc_wired allocated pd inv.wired) ?_ (fun _ => id) ?_ ?_
  · by_cases same : index = allocated
    · subst same
      simp [mbufAllocDesc, uinetPdMbufCtorPdCtx]
    · simp only [mbufAllocDesc, uinetPdMbufCtorPdCtx, setCounter_ctx]
      rw [setCtx_other _ _ same]
  · rintro ⟨ext, member, ours⟩
    by_cases same : index = allocated
    · subst same
      have positive : 0 < run.mbufs.countP (ofCtx index) :=
        List.countP_pos_iff.mpr ⟨ext, member, ours⟩
      have balance := inv.account.balance
      rw [if_neg (by rw [PdRun.holders]; omega)] at balance
      omega
    · simp only [SingleRef, mbufAllocDesc, uinetPdMbufCtorPdCtx, setCounter_ctx]
      rw [setCtx_other _ _ same]
      exact id
  · rw [counted]
    exact mbufAllocDesc_exact pd inv.wired inPool inv.account

theorem receive_inv {desc : RteMbufDesc} {run : PdRun} {received : PdHeap × Pd}
    (inv : PdInv index run) (descriptor : pd.ctx = some owner) (differ : owner ≠ index)
    (result : batchReceiveOne run.heap pd desc = some received) :
    PdInv index { run with heap := received.1 } := by
  simp only [batchReceiveOne, descriptor, Option.map_some, Option.some.injEq] at result
  have attached : Owned owner
      ⟨.rte desc.rmBase, .ifDpdkFreeRteBuf desc.rmBase owner, desc.rmData⟩ :=
    ⟨rfl, nofun, nofun⟩
  have wired := inv.wired.setCtx owner { run.heap.ctx owner with
    m := ⟨.rte desc.rmBase, .ifDpdkFreeRteBuf desc.rmBase owner, desc.rmData⟩ } rfl attached rfl
  subst result
  refine inv.of_kept ({ wired with }) ?_
    (fun _ => id) ?_ (inv.account.of_fields ?_ ?_ rfl rfl)
  · rw [setCounter_ctx, setCtx_other _ _ (Ne.symm differ)]
  · rw [SingleRef, setCounter_ctx, setCtx_other _ _ (Ne.symm differ)]
    exact fun _ => id
  · exact setCounter_other _ _ nofun
  · rw [SingleRef, setCounter_ctx, setCtx_other _ _ (Ne.symm differ)]
    exact id

theorem acquire_inv {run : PdRun} (inv : PdInv index run) (descriptor : pd.ctx = some owner)
    (member : owner ∈ run.descs)
    (fits : owner = index → run.holders index + wantedRefs pd numExtra < 2 ^ 32)
    (result : refAcquireOne run.heap pd numExtra = some acquired) :
    PdInv index ⟨acquired, run.mbufs,
      List.replicate (wantedRefs pd numExtra) owner ++ run.descs⟩ := by
  have held (same : owner = index) : 0 < run.holders index := by
    have positive := List.count_pos_iff.mpr (same ▸ member)
    rw [PdRun.holders]
    omega
  have cleared := refAcquireOne_cleared index inv.wired result
  have account := refAcquireOne_exact inv.wired descriptor held fits inv.account result
  refine inv.of_kept cleared.wired cleared.m (fun _ => id) (fun _ => cleared.single) ?_
  have counted : (⟨acquired, run.mbufs,
      List.replicate (wantedRefs pd numExtra) owner ++ run.descs⟩ : PdRun).holders index =
      (List.replicate (wantedRefs pd numExtra) owner).count index + run.holders index := by
    simp only [PdRun.holders, List.count_append]
    omega
  rw [counted]
  exact account

theorem deliver_inv {run : PdRun} (inv : PdInv index run) (descriptor : pd.ctx = some owner)
    (member : owner ∈ run.descs) (toStack : pd.has pdToStack)
    (result : deliverOne run.heap pd = some delivered) :
    PdInv index ⟨delivered.1, delivered.2.toList ++ run.mbufs, run.descs.erase owner⟩ := by
  obtain ⟨m, cleared, plain, account⟩ := deliverOne_exact inv.wired descriptor toStack inv.account result
  have owned := inv.wired.owned owner
  rw [m, Option.toList_some, List.singleton_append]
  refine ⟨cleared.wired, ?_, cleared.m ▸ inv.shared, ?_, ?_⟩
  · intro ext linked
    rcases List.mem_cons.mp linked with rfl | old
    · exact ⟨owner, owned⟩
    · exact inv.owned ext old
  · intro ext linked ours
    rcases List.mem_cons.mp linked with rfl | old
    · rw [owned.ofCtx_eq, beq_iff_eq] at ours
      subst ours
      exact ⟨inv.shared, plain⟩
    · obtain ⟨counter, unflagged⟩ := inv.stack ext old ours
      exact ⟨counter, fun flag => unflagged (cleared.single flag)⟩
  · have counted : (⟨delivered.1, (run.heap.ctx owner).m :: run.mbufs,
        run.descs.erase owner⟩ : PdRun).holders index = run.holders index := by
      have split := (List.perm_cons_erase member).count_eq index
      rw [← List.singleton_append, List.count_append] at split
      simp only [PdRun.holders]
      rw [countP_owned index _ owned]
      omega
    rw [counted]
    exact account

theorem incremented_inv {run : PdRun} (inv : PdInv index run) (member : ext ∈ run.mbufs)
    (owned : Owned owner ext) (fits : ofCtx index ext → run.holders index + 1 < 2 ^ 32)
    (heap : next.heap = run.heap.setCounter ext.refCnt (run.heap.counters ext.refCnt + 1))
    (mbufs : ∀ other ∈ next.mbufs, other ∈ run.mbufs)
    (counted : next.holders index = [owner].count index + run.holders index) :
    PdInv index next := by
  have ours (same : owner = index) : ofCtx index ext := by
    rw [owned.ofCtx_eq]
    exact beq_iff_eq.mpr same
  have stack (same : owner = index) := inv.stack ext member (ours same)
  have account := incremented_exact owned
    (fun same => (stack same).1) (count_le_holders index owned member)
    (fun same => fits (ours same)) (fun same => (stack same).2) inv.account
  rw [← heap, ← counted] at account
  exact inv.of_same (by rw [heap]; exact ⟨rfl, rfl⟩) mbufs account

theorem mfree_inv {run : PdRun} (inv : PdInv index run) (member : ext ∈ run.mbufs)
    (owned : Owned owner ext) (notLast : ofCtx index ext → run.holders index ≠ 1) :
    PdInv index ⟨mbFreeExt run.heap ext, run.mbufs.erase ext, run.descs⟩ := by
  have ours (same : owner = index) : ofCtx index ext := by
    rw [owned.ofCtx_eq]
    exact beq_iff_eq.mpr same
  obtain ⟨same, account⟩ := mbFreeExt_exact owned (fun same => (inv.stack ext member (ours same)).1)
    (count_le_holders index owned member) (fun same => notLast (ours same))
    inv.account
  refine inv.of_same same (fun other => List.mem_of_mem_erase) ?_
  have split := (List.perm_cons_erase member).countP_eq (ofCtx index)
  rw [countP_owned index _ owned] at split
  have counted : (⟨mbFreeExt run.heap ext, run.mbufs.erase ext, run.descs⟩ : PdRun).holders index =
      run.holders index - [owner].count index := by
    simp only [PdRun.holders]
    omega
  rw [counted]
  exact account

theorem step_inv {run : PdRun} {step : PdStep} (inv : PdInv index run)
    (keeps : step.Keeps index run) (moved : PdMove run step next) : PdInv index next := by
  cases step with
  | alloc allocated pd =>
    obtain ⟨inPool, rfl⟩ := moved
    exact alloc_inv pd inv inPool
  | receive pd desc =>
    obtain ⟨owner, received, descriptor, _, _, result, rfl⟩ := moved
    refine receive_inv inv descriptor ?_ result
    rintro rfl
    exact keeps descriptor
  | acquire pd numExtra =>
    obtain ⟨owner, acquired, descriptor, member, _, result, rfl⟩ := moved
    refine acquire_inv inv descriptor member ?_ result
    rintro rfl
    exact keeps descriptor
  | deliver pd =>
    obtain ⟨owner, delivered, descriptor, member, toStack, result, rfl⟩ := moved
    exact deliver_inv inv descriptor member toStack result
  | dup ext =>
    obtain ⟨member, rfl⟩ := moved
    obtain ⟨owner, owned⟩ := inv.owned ext member
    refine incremented_inv inv member owned keeps rfl ?_ ?_
    · intro other linked
      rcases List.mem_cons.mp linked with rfl | old
      · exact member
      · exact old
    · simp only [PdRun.holders, countP_owned index _ owned]
      omega
  | xlistAdd xlist allocated ext flags serialno =>
    obtain ⟨added, member, result, rfl⟩ := moved
    obtain ⟨owner, owned⟩ := inv.owned ext member
    simp only [uinetPdXlistAddMbuf, owned.arg2, Option.map_some] at result
    split at result
    · cases result
      exact inv.of_same ⟨rfl, rfl⟩ (fun _ => id) inv.account
    · cases result
      refine incremented_inv inv member owned keeps rfl (fun _ => id) ?_
      simp only [PdRun.holders, if_true, owned.arg2, Option.toList_some, List.count_append]
      omega
  | release ctxs =>
    obtain ⟨enough, rfl⟩ := moved
    have available := enough index
    obtain ⟨same, account⟩ := uinetPdRefRelease_exact ctxs
      inv.wired (by rw [PdRun.holders]; omega) inv.account
    refine inv.of_same same (fun _ => id) ?_
    have counted : (⟨uinetPdRefRelease run.heap ctxs, run.mbufs,
        run.descs.diff ctxs⟩ : PdRun).holders index =
        run.holders index - ctxs.count index := by
      simp only [PdRun.holders, List.count_diff]
      omega
    rw [counted]
    exact account
  | mfree ext =>
    obtain ⟨member, rfl⟩ := moved
    obtain ⟨owner, owned⟩ := inv.owned ext member
    exact mfree_inv inv member owned keeps

structure RefsExact (run : PdRun) (index : Nat) : Prop where
  same : (run.heap.ctx index).refcnt = (run.heap.ctx index).m.refCnt
  counted : 0 < run.holders index →
    (run.heap.counters (run.heap.ctx index).refcnt).toNat = run.holders index
  returned : allocations run.heap index =
    returns run.heap index + if run.holders index = 0 then 0 else 1

theorem PdInv.refsExact {run : PdRun} (inv : PdInv index run) : RefsExact run index := by
  have refcnt := inv.wired.refcnt index
  refine ⟨refcnt.trans inv.shared.symm, ?_, inv.account.balance⟩
  intro held
  rw [refcnt, inv.account.tracks.counted held, BitVec.toNat_ofNat,
    Nat.mod_eq_of_lt inv.account.fits]

def freshPool (poolId : BitVec 16) (bufs : Nat → Nat) (counters : Counter → BitVec 32) : PdRun :=
  ⟨⟨fun index => uinetPdMbufZinitPdCtx poolId index (bufs index), counters, [], [], [], poolId⟩,
    [], []⟩

theorem freshPool_inv (poolId : BitVec 16) (bufs : Nat → Nat) (counters : Counter → BitVec 32)
    (index : Nat) : PdInv index (freshPool poolId bufs counters) where
  wired := by
    refine ⟨fun _ => rfl, ?_, fun _ => rfl⟩
    intro owner
    refine ⟨rfl, ?_, ?_⟩
    · intro other counter
      injection counter with same
      exact same.symm
    · intro arg1 arg2 routine
      injection routine with first
      exact first.symm
  owned := nofun
  shared := rfl
  stack := nofun
  account := ⟨Tracks.none _ _, show 0 < 2 ^ 32 by decide, rfl⟩

/-- In every run from a fresh pool in which no packet is attached to a context, an
mbuf never gives up its last reference and it never has 2^32 holders, the
account of the context is exact in every state. -/
theorem pd_refs_exact (poolId : BitVec 16) (bufs : Nat → Nat) (counters : Counter → BitVec 32)
    (index : Nat) (final : PdRun) (steps : List PdStep)
    (run : Run (fun state step next => PdMove state step next ∧ step.Keeps index state)
      (freshPool poolId bufs counters) steps final) : RefsExact final index := by
  have inv : PdInv index final := by
    refine Run.invariant (PdInv index) (freshPool_inv poolId bufs counters index) ?_ run
    rintro state step next inv ⟨moved, keeps⟩
    exact step_inv inv keeps moved
  exact inv.refsExact

def frameOf (flags : BitVec 16) : Pd :=
  ⟨flags, 64, 0, 0, 0, some 0, 0⟩

theorem pd_refs_exact_shared :
    ∃ final, Run (fun state step next => PdMove state step next ∧ step.Keeps 0 state)
        (freshPool 0 id (fun _ => 0)) [.alloc 0 (frameOf 0), .acquire (frameOf 0x31) 0,
          .deliver (frameOf 0x31), .mfree (clusterExt 0 0), .release [0]] final ∧
      (allocations final.heap 0 = 1 ∧ returns final.heap 0 = 1) ∧ RefsExact final 0 := by
  refine Run.exists_with (fun _ run => pd_refs_exact 0 id (fun _ => 0) 0 _ _ run)
    ⟨_, Run.snoc (Run.snoc (Run.snoc (Run.snoc (Run.snoc Run.nil
      ⟨⟨Nat.le_refl 0, rfl⟩, trivial⟩) ⟨⟨0, _, rfl, List.mem_cons_self, rfl, rfl, rfl⟩, ?_⟩)
      ⟨⟨0, _, rfl, List.mem_cons_self, rfl, rfl, rfl⟩, trivial⟩)
      ⟨⟨List.mem_cons_self, rfl⟩, ?_⟩) ⟨⟨fun _ => Nat.le_refl _, rfl⟩, trivial⟩, by decide⟩
  · intro _
    decide
  · intro _
    decide

theorem pd_ref_returned_early :
    ∃ final, Run PdMove (freshPool 0 id (fun _ => 0)) [.alloc 0 (frameOf 0),
        .receive (frameOf 0) ⟨5, 9, 64⟩, .deliver (frameOf 0x20),
        .xlistAdd [] true ⟨.rte 5, .ifDpdkFreeRteBuf 5 0, 9⟩ 0 0, .release [0]] final ∧
      final.holders 0 = 1 ∧ returns final.heap 0 = 1 ∧
      (final.heap.ctx 0).refcnt ≠ (final.heap.ctx 0).m.refCnt ∧ ¬RefsExact final 0 := by
  refine ⟨_, Run.snoc (Run.snoc (Run.snoc (Run.snoc (Run.snoc Run.nil
    ⟨Nat.le_refl 0, rfl⟩) ⟨0, _, rfl, List.mem_cons_self, rfl, rfl, rfl⟩)
    ⟨0, _, rfl, List.mem_cons_self, rfl, rfl, rfl⟩)
    ⟨_, List.mem_cons_self, rfl, rfl⟩) ⟨fun _ => Nat.le_refl _, rfl⟩, by decide, by decide,
    by decide, ?_⟩
  intro refs
  exact absurd refs.same (by decide)

end Libunsod.Uinet
