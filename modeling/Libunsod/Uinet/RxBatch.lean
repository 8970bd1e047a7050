import Libunsod.Base.Runs
import Libunsod.Uinet.RxBatchCore

/-!
Where the packets of a batch go. The descriptors that are left are kept in order
and their contexts stay distinct; the packets for which there is no descriptor are
neither passed on nor freed, and a call that finds no packet answers with whatever
its counter holds.
-/

namespace Libunsod.Uinet

open Runs

variable {pds : List Pd} {pd : Pd} {index : Nat}

theorem mbufAllocDesc_pd (heap : PdHeap) (index : Nat) (pd : Pd) :
    (mbufAllocDesc heap index pd).2.ctx = some index ∧
      (mbufAllocDesc heap index pd).2.has pdToStack = false := by
  refine ⟨rfl, ?_⟩
  simp [mbufAllocDesc, Pd.has, pdTypeMbuf, pdToStack]

structure Idle (pds : List Pd) (ctxs : List Nat) : Prop where
  ctx : pds.map Pd.ctx = ctxs.map some
  flags : ∀ pd ∈ pds, pd.has pdToStack = false

theorem Idle.length {ctxs : List Nat} (idle : Idle pds ctxs) : pds.length = ctxs.length := by
  have lengths := congrArg List.length idle.ctx
  rwa [List.length_map, List.length_map] at lengths

theorem Idle.drop {ctxs : List Nat} (idle : Idle pds ctxs) (count : Nat) :
    Idle (pds.drop count) (ctxs.drop count) := by
  refine ⟨?_, fun pd member => idle.flags pd (List.mem_of_mem_drop member)⟩
  rw [List.map_drop, List.map_drop, idle.ctx]

theorem uinetPdMbufAllocDescs_spec (slots : Nat → Pd) (n : Nat) (contexts : List Nat)
    (heap : PdHeap) (list : List Pd) (ctxs : List Nat) (idle : Idle list ctxs) :
    Idle (uinetPdMbufAllocDescs slots n contexts heap list).2 (ctxs ++ contexts.take n) ∧
      (uinetPdMbufAllocDescs slots n contexts heap list).1.rteFreed = heap.rteFreed := by
  induction n generalizing contexts heap list ctxs with
  | zero => simpa [uinetPdMbufAllocDescs] using idle
  | succ n ih =>
    cases contexts with
    | nil => simpa [uinetPdMbufAllocDescs] using idle
    | cons index rest =>
      obtain ⟨ctx, flags⟩ := mbufAllocDesc_pd heap index (slots list.length)
      have extended : Idle (list ++ [(mbufAllocDesc heap index (slots list.length)).2])
          (ctxs ++ [index]) := by
        refine ⟨by simp [idle.ctx, ctx], ?_⟩
        intro pd member
        rcases List.mem_append.mp member with old | new
        · exact idle.flags pd old
        · rw [List.mem_singleton.mp new]
          exact flags
      obtain ⟨whole, freed⟩ := ih rest (mbufAllocDesc heap index (slots list.length)).1 _ _
        extended
      simp only [uinetPdMbufAllocDescs, List.take_succ_cons]
      rw [List.append_assoc, List.singleton_append] at whole
      exact ⟨whole, freed⟩

def attach (desc : RteMbufDesc) (index : Nat) : MExt :=
  ⟨.rte desc.rmBase, .ifDpdkFreeRteBuf desc.rmBase index, desc.rmData⟩

theorem batchReceiveOne_spec (heap : PdHeap) (desc : RteMbufDesc) (ctx : pd.ctx = some index) :
    ∃ next marked, batchReceiveOne heap pd desc = some (next, marked) ∧
      marked.ctx = some index ∧ marked.has pdToStack = true ∧
      (next.ctx index).m = attach desc index ∧
      (∀ other, other ≠ index → next.ctx other = heap.ctx other) ∧
      next.rteFreed = heap.rteFreed := by
  refine ⟨(heap.setCtx index { heap.ctx index with m := attach desc index }).setCounter
      (.rte desc.rmBase) 1, { pd with length := desc.dataLen, flags := pd.flags ||| pdToStack },
    ?_, ctx, ?_, ?_, ?_, rfl⟩
  · rw [batchReceiveOne, ctx]
    rfl
  · have bit : (pd.flags ||| pdToStack) &&& pdToStack = pdToStack := by
      ext position
      simp only [BitVec.getElem_and, BitVec.getElem_or]
      cases pdToStack[position] <;> simp
    simp only [Pd.has, bit]
    decide
  · simp [PdHeap.setCtx, PdHeap.setCounter, attach]
  · intro other different
    simp [PdHeap.setCtx, PdHeap.setCounter, different]

theorem receiveLoop_spec (descs : List RteMbufDesc) (heap : PdHeap) (ctxs : List Nat)
    (ctx : pds.map Pd.ctx = ctxs.map some) (nodup : ctxs.Nodup) :
    ∃ marked next, receiveLoop pds descs heap =
        some (marked, next, min ctxs.length descs.length, 0) ∧
      marked.map Pd.ctx = ctxs.map some ∧
      marked.drop (min ctxs.length descs.length) = pds.drop (min ctxs.length descs.length) ∧
      (∀ pd ∈ marked.take (min ctxs.length descs.length), pd.has pdToStack = true) ∧
      (∀ other ∉ ctxs, next.ctx other = heap.ctx other) ∧
      (ctxs.take (min ctxs.length descs.length)).map (fun index => (next.ctx index).m) =
        List.zipWith attach descs ctxs ∧
      next.rteFreed = heap.rteFreed := by
  induction pds generalizing descs heap ctxs with
  | nil =>
    cases ctxs with
    | nil => exact ⟨[], heap, by cases descs <;> rfl, rfl, rfl, by simp, by simp, by simp, rfl⟩
    | cons index rest => cases ctx
  | cons pd pds ih =>
    cases ctxs with
    | nil => cases ctx
    | cons index ctxs =>
      cases descs with
      | nil =>
        refine ⟨pd :: pds, heap, rfl, ctx, by simp, by simp, by simp, by simp, rfl⟩
      | cons desc descs =>
        rw [List.map_cons, List.map_cons, List.cons.injEq] at ctx
        rw [List.nodup_cons] at nodup
        obtain ⟨middle, marked, received, markedCtx, toStack, ext, others, freed⟩ :=
          batchReceiveOne_spec heap desc ctx.1
        obtain ⟨rest, next, looped, restCtx, dropped, restStack, restOthers, exts, restFreed⟩ :=
          ih descs middle ctxs ctx.2 nodup.2
        have count : min (index :: ctxs).length (desc :: descs).length =
            min ctxs.length descs.length + 1 := by
          simp only [List.length_cons]
          omega
        rw [count]
        refine ⟨marked :: rest, next, ?_, ?_, ?_, ?_, ?_, ?_, ?_⟩
        · simp only [receiveLoop, received, Option.bind_some, getpacketWaitNs,
            Nat.lt_irrefl, if_false, looped, Option.map_some]
        · rw [List.map_cons, List.map_cons, markedCtx, restCtx]
        · rw [List.drop_succ_cons, List.drop_succ_cons, dropped]
        · rw [List.take_succ_cons]
          intro other member
          rcases List.mem_cons.mp member with rfl | later
          · exact toStack
          · exact restStack other later
        · intro other outside
          rw [List.mem_cons, not_or] at outside
          rw [restOthers other outside.2, others other outside.1]
        · rw [List.take_succ_cons, List.map_cons, List.zipWith_cons_cons, exts,
            restOthers index nodup.1, ext]
        · rw [restFreed, freed]

theorem deliverOne_spec (heap : PdHeap) (ctx : pd.ctx = some index) :
    ∃ next, deliverOne heap pd =
        some (next, if pd.has pdToStack then some (heap.ctx index).m else none) ∧
      (∀ other, (next.ctx other).m = (heap.ctx other).m) ∧ next.rteFreed = heap.rteFreed := by
  unfold deliverOne
  cases pd.has pdToStack with
  | false => exact ⟨heap, rfl, fun _ => rfl, rfl⟩
  | true =>
    rw [ctx]
    refine ⟨_, rfl, ?_, rfl⟩
    intro other
    by_cases same : other = index
    · simp [PdHeap.setCtx, same]
    · simp [PdHeap.setCtx, same]

theorem uinetPdDeliverToStack_spec (heap : PdHeap) (ctxs : List Nat)
    (ctx : pds.map Pd.ctx = ctxs.map some) (count : Nat)
    (marked : ∀ pd ∈ pds.take count, pd.has pdToStack = true)
    (unmarked : ∀ pd ∈ pds.drop count, pd.has pdToStack = false) :
    ∃ next, uinetPdDeliverToStack pds heap =
        some (next, (ctxs.take count).map fun index => (heap.ctx index).m) ∧
      next.rteFreed = heap.rteFreed := by
  induction pds generalizing heap ctxs count with
  | nil =>
    cases ctxs with
    | nil => exact ⟨heap, by simp [uinetPdDeliverToStack], rfl⟩
    | cons index rest => cases ctx
  | cons pd pds ih =>
    cases ctxs with
    | nil => cases ctx
    | cons index ctxs =>
      rw [List.map_cons, List.map_cons, List.cons.injEq] at ctx
      obtain ⟨middle, delivered, same, freed⟩ := deliverOne_spec heap ctx.1
      cases count with
      | zero =>
        have flag := unmarked pd (by simp)
        obtain ⟨next, rest, restFreed⟩ := ih middle ctxs ctx.2 0 (by simp)
          (fun other member => unmarked other (List.mem_cons_of_mem _ (by simpa using member)))
        refine ⟨next, ?_, by rw [restFreed, freed]⟩
        simp only [uinetPdDeliverToStack, delivered, Option.bind_some, rest, Option.map_some,
          flag, Bool.false_eq_true, if_false]
        simp
      | succ count =>
        have flag := marked pd (by simp)
        rw [List.take_succ_cons] at marked
        rw [List.drop_succ_cons] at unmarked
        obtain ⟨next, rest, restFreed⟩ := ih middle ctxs ctx.2 count
          (fun other member => marked other (List.mem_cons_of_mem _ member)) unmarked
        refine ⟨next, ?_, by rw [restFreed, freed]⟩
        simp only [uinetPdDeliverToStack, delivered, Option.bind_some, rest, Option.map_some,
          flag, if_true, same]
        simp

structure RxReady (sc : RxSoftc) (ctxs : List Nat) : Prop where
  enabled : sc.rxDisabled = false
  waiting : sc.rxPacketWaiting = 0
  idle : Idle sc.rxPds ctxs
  nodup : ctxs.Nodup
  bound : sc.rxPds.length ≤ sc.rxBatchSize

structure RxCall.Valid (call : RxCall) (ctxs : List Nat) : Prop where
  fresh : (ctxs ++ call.contexts).Nodup
  burst : call.descs.length ≤ maxBurstSize

def toppedPds (call : RxCall) (sc : RxSoftc) : List Pd :=
  (uinetPdMbufAllocDescs call.slots (sc.rxBatchSize - sc.rxPds.length) call.contexts sc.heap
    sc.rxPds).2

def toppedCtxs (call : RxCall) (sc : RxSoftc) (ctxs : List Nat) : List Nat :=
  ctxs ++ call.contexts.take (sc.rxBatchSize - sc.rxPds.length)

structure RxEffect (call : RxCall) (sc : RxSoftc) (total : List Nat) (after : RxSoftc)
    (ret : Bool) : Prop where
  ready : RxReady after (total.drop (min total.length call.descs.length))
  batch : after.rxBatchSize = sc.rxBatchSize
  rxPds : after.rxPds = (toppedPds call sc).drop (min total.length call.descs.length)
  toStack : after.toStack = sc.toStack ++ List.zipWith attach call.descs total
  freed : after.heap.rteFreed = sc.heap.rteFreed
  looked : if List.zipWith attach call.descs total = [] then after.looked = sc.looked
    else ∃ list, after.looked = sc.looked ++ [list] ∧ list.map Pd.ctx = total.map some
  value : ret = decide (if call.descs = [] then call.stale = total.length
    else min total.length call.descs.length = total.length)

section Call

variable {call : RxCall} {sc : RxSoftc} {ctxs : List Nat}

theorem toppedPds_idle (ready : RxReady sc ctxs) :
    Idle (toppedPds call sc) (toppedCtxs call sc ctxs) :=
  (uinetPdMbufAllocDescs_spec call.slots _ call.contexts sc.heap sc.rxPds ctxs ready.idle).1

theorem toppedCtxs_nodup (valid : call.Valid ctxs) : (toppedCtxs call sc ctxs).Nodup :=
  valid.fresh.sublist (List.Sublist.append_left (List.take_sublist ..) ctxs)

theorem toppedCtxs_bound (ready : RxReady sc ctxs) :
    (toppedCtxs call sc ctxs).length ≤ sc.rxBatchSize := by
  have bound := ready.bound
  have length := ready.idle.length
  unfold toppedCtxs
  rw [List.length_append, List.length_take]
  omega

theorem ifDpdkBatchReceive_effect (ready : RxReady sc ctxs) (valid : call.Valid ctxs) :
    ∃ after ret, ifDpdkBatchReceive call sc = some (after, ret) ∧
      RxEffect call sc (toppedCtxs call sc ctxs) after ret := by
  have idle : Idle (toppedPds call sc) (toppedCtxs call sc ctxs) := toppedPds_idle ready
  have nodup : (toppedCtxs call sc ctxs).Nodup := toppedCtxs_nodup valid
  have bound : (toppedCtxs call sc ctxs).length ≤ sc.rxBatchSize := toppedCtxs_bound ready
  have freed := (uinetPdMbufAllocDescs_spec call.slots (sc.rxBatchSize - sc.rxPds.length)
    call.contexts sc.heap sc.rxPds ctxs ready.idle).2
  have topped : toppedPds call sc = (uinetPdMbufAllocDescs call.slots
    (sc.rxBatchSize - sc.rxPds.length) call.contexts sc.heap sc.rxPds).2 := rfl
  generalize toppedCtxs call sc ctxs = total at *
  have length := idle.length
  have left := idle.drop (min total.length call.descs.length)
  have leftNodup := nodup.sublist (List.drop_sublist (min total.length call.descs.length) total)
  have leftBound : ((toppedPds call sc).drop (min total.length call.descs.length)).length ≤
      sc.rxBatchSize := by
    rw [List.length_drop]
    omega
  simp only [ifDpdkBatchReceive, ready.enabled, ready.waiting, Bool.false_eq_true, if_false,
    List.drop_zero, List.take_zero, List.nil_append, Nat.sub_zero, Nat.add_zero]
  generalize uinetPdMbufAllocDescs call.slots (sc.rxBatchSize - sc.rxPds.length) call.contexts
    sc.heap sc.rxPds = result at freed topped ⊢
  obtain ⟨heap, pds⟩ := result
  simp only at freed topped ⊢
  by_cases none_ : call.descs = []
  · simp only [if_pos none_]
    rw [none_] at left leftNodup leftBound
    simp only [List.length_nil, Nat.min_zero, List.drop_zero] at left leftNodup leftBound
    refine ⟨_, _, rfl, ⟨?_, rfl, ?_, ?_, freed, ?_, ?_⟩⟩
    · simp only [none_, List.length_nil, Nat.min_zero, List.drop_zero]
      exact ⟨rfl, rfl, topped ▸ left, leftNodup, topped ▸ leftBound⟩
    · simp [none_, topped]
    · simp [none_]
    · simp [none_]
    · simp only [if_pos none_, ← topped, length]
  · simp only [if_neg none_]
    obtain ⟨marked, next, looped, ctx, dropped, toStack, -, exts, nextFreed⟩ :=
      receiveLoop_spec call.descs heap total (topped ▸ idle.ctx) nodup
    simp only [looped, Option.bind_some]
    rw [topped] at left leftBound
    by_cases zero : min total.length call.descs.length = 0
    · have empty : total = [] := by
        have positive := List.length_pos_iff.mpr none_
        exact List.eq_nil_of_length_eq_zero (by omega)
      have same : marked = pds := by
        rw [zero, List.drop_zero, List.drop_zero] at dropped
        exact dropped
      simp only [if_pos zero]
      rw [← dropped] at left leftBound
      refine ⟨_, _, rfl, ⟨⟨rfl, rfl, ?_, leftNodup, ?_⟩, rfl, ?_, ?_, ?_, ?_, ?_⟩⟩
      · rw [zero, List.drop_zero] at left ⊢
        exact left
      · rw [zero, List.drop_zero] at leftBound
        exact leftBound
      · rw [zero, List.drop_zero, topped]
        exact same
      · simp [empty]
      · exact nextFreed.trans freed
      · simp [empty]
      · simp only [if_neg none_, ← topped, length]
    · simp only [if_neg zero]
      obtain ⟨final, delivered, finalFreed⟩ := uinetPdDeliverToStack_spec next total ctx
        (min total.length call.descs.length) toStack (by rw [dropped]; exact left.flags)
      rw [exts] at delivered
      rw [← dropped] at left leftBound
      have some_ : List.zipWith attach call.descs total ≠ [] := by
        intro nil
        have lengths := congrArg List.length nil
        rw [List.length_zipWith, List.length_nil] at lengths
        omega
      simp only [delivered, Option.map_some]
      refine ⟨_, _, rfl, ⟨⟨rfl, rfl, left, leftNodup, leftBound⟩, rfl, ?_, rfl, ?_, ?_, ?_⟩⟩
      · rw [topped]
        exact dropped
      · exact finalFreed.trans (nextFreed.trans freed)
      · rw [if_neg some_]
        exact ⟨marked, rfl, ctx⟩
      · simp only [if_neg none_, ← topped, length]

end Call

def MExt.rteBase (m : MExt) : Option Nat :=
  match m.extFree with
  | .ifDpdkFreeRteBuf rmBase _ => some rmBase
  | _ => none

structure BatchAccount (call : RxCall) (sc after : RxSoftc) (ret : Bool) (ms : List MExt)
    (back : List Nat) : Prop where
  toStack : after.toStack = sc.toStack ++ ms
  freed : after.heap.rteFreed = sc.heap.rteFreed ++ back
  settled : (ms.filterMap MExt.rteBase ++ back).Perm (call.descs.map RteMbufDesc.rmBase)
  looked : if ms = [] then after.looked = sc.looked
    else ∃ list, after.looked = sc.looked ++ [list] ∧ (list.map Pd.ctx).Nodup ∧
      ms.map (fun m => m.extFree.extArg2) = (list.map Pd.ctx).take ms.length
  kept : after.rxPds = (toppedPds call sc).drop ms.length
  distinct : (after.rxPds.map Pd.ctx).Nodup
  bound : after.rxPds.length ≤ sc.rxBatchSize
  value : ret = true ↔ ms.length = (toppedPds call sc).length

def BatchCorrect (call : RxCall) (sc after : RxSoftc) (ret : Bool) : Prop :=
  ∃ ms back, BatchAccount call sc after ret ms back

def available (call : RxCall) (sc : RxSoftc) : Nat :=
  sc.rxPds.length + min (sc.rxBatchSize - sc.rxPds.length) call.contexts.length

def RxCall.Fits (call : RxCall) (sc : RxSoftc) : Prop :=
  call.descs.length ≤ available call sc ∧
    (call.descs = [] → (call.stale = available call sc ↔ available call sc = 0))

theorem attach_rteBase (descs : List RteMbufDesc) (ctxs : List Nat) :
    (List.zipWith attach descs ctxs).filterMap MExt.rteBase =
      (descs.take ctxs.length).map RteMbufDesc.rmBase := by
  induction descs generalizing ctxs with
  | nil => simp
  | cons desc descs ih =>
    cases ctxs with
    | nil => rfl
    | cons index ctxs =>
      have base : (attach desc index).rteBase = some desc.rmBase := rfl
      rw [List.zipWith_cons_cons, List.filterMap_cons_some base, ih]
      rfl

theorem attach_extArg2 (descs : List RteMbufDesc) (ctxs : List Nat) :
    (List.zipWith attach descs ctxs).map (fun m => m.extFree.extArg2) =
      (ctxs.map some).take (min descs.length ctxs.length) := by
  induction descs generalizing ctxs with
  | nil => simp
  | cons desc descs ih =>
    cases ctxs with
    | nil => rfl
    | cons index ctxs =>
      rw [List.zipWith_cons_cons, List.map_cons, ih, List.length_cons, List.length_cons,
        Nat.add_min_add_right, List.map_cons, List.take_succ_cons]
      rfl

section Call

variable {call : RxCall} {sc after : RxSoftc} {ctxs : List Nat} {ret : Bool}

theorem toppedCtxs_length (ready : RxReady sc ctxs) :
    (toppedCtxs call sc ctxs).length = available call sc := by
  unfold toppedCtxs available
  rw [List.length_append, List.length_take, ready.idle.length]

theorem RxEffect.account (ready : RxReady sc ctxs) (valid : call.Valid ctxs)
    (effect : RxEffect call sc (toppedCtxs call sc ctxs) after ret) (fits : call.Fits sc) :
    BatchAccount call sc after ret (List.zipWith attach call.descs (toppedCtxs call sc ctxs)) [] := by
  have idle : Idle (toppedPds call sc) (toppedCtxs call sc ctxs) := toppedPds_idle ready
  have room : call.descs.length ≤ (toppedCtxs call sc ctxs).length := by
    rw [toppedCtxs_length ready]
    exact fits.1
  have length : (List.zipWith attach call.descs (toppedCtxs call sc ctxs)).length =
      call.descs.length := by
    rw [List.length_zipWith]
    omega
  have taken : min (toppedCtxs call sc ctxs).length call.descs.length = call.descs.length := by
    omega
  refine ⟨effect.toStack, by rw [effect.freed, List.append_nil], ?_, ?_, ?_, ?_, ?_, ?_⟩
  · rw [List.append_nil, attach_rteBase, List.take_of_length_le room]
  · have looked := effect.looked
    split at looked
    · rename_i none_
      rw [if_pos none_]
      exact looked
    · rename_i some_
      obtain ⟨list, appended, ctx⟩ := looked
      rw [if_neg some_]
      refine ⟨list, appended, ?_, ?_⟩
      · rw [ctx]
        exact (toppedCtxs_nodup valid).map (Option.some_injective _)
      · rw [attach_extArg2, ctx, List.length_zipWith]
  · rw [length, effect.rxPds, taken]
  · rw [effect.ready.idle.ctx]
    exact effect.ready.nodup.map (Option.some_injective _)
  · rw [← effect.batch]
    exact effect.ready.bound
  · rw [length, effect.value, decide_eq_true_iff, idle.length]
    by_cases none_ : call.descs = []
    · rw [if_pos none_, none_, List.length_nil, toppedCtxs_length ready, fits.2 none_]
      exact eq_comm
    · rw [if_neg none_, taken]

theorem RxEffect.fits (ready : RxReady sc ctxs)
    (effect : RxEffect call sc (toppedCtxs call sc ctxs) after ret)
    (correct : BatchCorrect call sc after ret) : call.Fits sc := by
  obtain ⟨ms, back, account⟩ := correct
  have idle : Idle (toppedPds call sc) (toppedCtxs call sc ctxs) := toppedPds_idle ready
  have sent : ms = List.zipWith attach call.descs (toppedCtxs call sc ctxs) :=
    List.append_cancel_left (account.toStack.symm.trans effect.toStack)
  have none_ : back = [] := by
    have same : sc.heap.rteFreed ++ back = sc.heap.rteFreed ++ [] := by
      rw [List.append_nil, ← account.freed, effect.freed]
    exact List.append_cancel_left same
  have count := account.settled.length_eq
  rw [none_, List.append_nil, sent, attach_rteBase, List.length_map, List.length_map,
    List.length_take, toppedCtxs_length ready] at count
  refine ⟨by omega, ?_⟩
  intro empty
  have value := account.value
  rw [effect.value, decide_eq_true_iff, if_pos empty, idle.length, toppedCtxs_length ready, sent,
    empty, List.zipWith_nil_left, List.length_nil] at value
  rw [value]
  exact eq_comm

end Call

structure RxTrace where
  sc : RxSoftc
  received : List Nat

inductive RxLabel where
  | receive (call : RxCall)
  | elsewhere (heap : PdHeap)

def fitMove (state : RxTrace) : RxLabel → RxTrace → Prop
  | .receive call, next =>
      (∀ ctxs, state.sc.rxPds.map Pd.ctx = ctxs.map some → call.Valid ctxs) ∧
        call.Fits state.sc ∧
        ∃ after ret, ifDpdkBatchReceive call state.sc = some (after, ret) ∧
          next = ⟨after, state.received ++ call.descs.map RteMbufDesc.rmBase⟩
  | .elsewhere heap, next => next = { state with sc := { state.sc with heap := heap } }

structure RxTrace.Settled (batch : Nat) (state : RxTrace) : Prop where
  ready : ∃ ctxs, RxReady state.sc ctxs
  batch : state.sc.rxBatchSize = batch
  settled : state.sc.toStack.filterMap MExt.rteBase = state.received

theorem fitMove_settled (batch : Nat) (state : RxTrace) (label : RxLabel) (next : RxTrace)
    (settled : state.Settled batch) (moved : fitMove state label next) : next.Settled batch := by
  obtain ⟨⟨ctxs, ready⟩, size, balance⟩ := settled
  cases label with
  | elsewhere heap =>
    cases moved
    exact ⟨⟨ctxs, ready.enabled, ready.waiting, ready.idle, ready.nodup, ready.bound⟩, size,
      balance⟩
  | receive call =>
    obtain ⟨valid, fits, after, ret, result, rfl⟩ := moved
    obtain ⟨other, value, resultOther, effect⟩ :=
      ifDpdkBatchReceive_effect ready (valid ctxs ready.idle.ctx)
    cases result.symm.trans resultOther
    refine ⟨⟨_, effect.ready⟩, effect.batch.trans size, ?_⟩
    have room : call.descs.length ≤ (toppedCtxs call state.sc ctxs).length := by
      rw [toppedCtxs_length ready]
      exact fits.1
    rw [effect.toStack, List.filterMap_append, balance, attach_rteBase,
      List.take_of_length_le room]

theorem batchCorrect_iff_fits {call : RxCall} {sc : RxSoftc} {ctxs : List Nat}
    (ready : RxReady sc ctxs) (valid : call.Valid ctxs) :
    (∃ after ret, ifDpdkBatchReceive call sc = some (after, ret) ∧
      BatchCorrect call sc after ret) ↔ call.Fits sc := by
  obtain ⟨after, ret, result, effect⟩ := ifDpdkBatchReceive_effect ready valid
  constructor
  · rintro ⟨other, value, resultOther, correct⟩
    cases result.symm.trans resultOther
    exact effect.fits ready correct
  · intro fits
    exact ⟨after, ret, result, _, _, effect.account ready valid fits⟩

/-- A call settles its packets exactly when it fits, also after any calls that fit, over
which every packet goes to the stack once while the list stays within its size. -/
theorem batchReceive_correct_iff (sc : RxSoftc) :
    (∀ (call : RxCall) (ctxs : List Nat), RxReady sc ctxs → call.Valid ctxs →
      ((∃ after ret, ifDpdkBatchReceive call sc = some (after, ret) ∧
        BatchCorrect call sc after ret) ↔ call.Fits sc)) ∧
    ∀ (labels : List RxLabel) (state : RxTrace), sc.rxDisabled = false →
      sc.rxPacketWaiting = 0 → sc.rxPds = [] → sc.toStack = [] →
      Run fitMove ⟨sc, []⟩ labels state →
        state.sc.toStack.filterMap MExt.rteBase = state.received ∧
        state.sc.rxPds.length ≤ sc.rxBatchSize ∧ (state.sc.rxPds.map Pd.ctx).Nodup ∧
        ∀ call : RxCall, (∀ ctxs, state.sc.rxPds.map Pd.ctx = ctxs.map some → call.Valid ctxs) →
          ((∃ after ret, ifDpdkBatchReceive call state.sc = some (after, ret) ∧
            BatchCorrect call state.sc after ret) ↔ call.Fits state.sc) := by
  constructor
  · intro call ctxs ready valid
    exact batchCorrect_iff_fits ready valid
  · intro labels state enabled waiting empty quiet run
    have first : RxTrace.Settled sc.rxBatchSize ⟨sc, []⟩ := by
      refine ⟨⟨[], enabled, waiting, ?_, List.nodup_nil, ?_⟩, rfl, ?_⟩
      · rw [empty]
        exact ⟨rfl, by simp⟩
      · rw [empty]
        exact Nat.zero_le _
      · rw [quiet]
        rfl
    obtain ⟨⟨ctxs, ready⟩, size, settled⟩ :=
      run.invariant (RxTrace.Settled sc.rxBatchSize) first (fitMove_settled _)
    refine ⟨settled, by rw [← size]; exact ready.bound, ?_, fun call valid =>
      batchCorrect_iff_fits ready (valid ctxs ready.idle.ctx)⟩
    rw [ready.idle.ctx]
    exact ready.nodup.map (Option.some_injective _)

def oneAtATime : RxSoftc where
  rxDisabled := false
  rxBatchSize := 1
  rxPds := []
  rxPacketWaiting := 0
  heap := ⟨fun index => uinetPdMbufZinitPdCtx 0 index 4096, fun _ => 1, [], [], [], 0⟩
  ifIpackets := 0
  looked := []
  toStack := []

theorem oneAtATime_ready : RxReady oneAtATime [] :=
  ⟨rfl, rfl, ⟨rfl, by simp [oneAtATime]⟩, List.nodup_nil, by decide⟩

def packets (bases : List Nat) : RxCall where
  contexts := [7]
  slots _ := ⟨0, 0, 0, 0, 0, none, 0⟩
  descs := bases.map fun base => ⟨base, 8192, 60⟩
  stale := 0

theorem packets_valid (bases : List Nat) (few : bases.length ≤ maxBurstSize) :
    (packets bases).Valid [] := by
  refine ⟨by simp [packets], ?_⟩
  rw [packets, List.length_map]
  exact few

theorem batchReceive_one_packet :
    (∃ after ret, ifDpdkBatchReceive (packets [100]) oneAtATime = some (after, ret) ∧
      BatchCorrect (packets [100]) oneAtATime after ret) ∧
    ∃ state, Run fitMove ⟨oneAtATime, []⟩ [.receive (packets [100])] state ∧
      state.sc.toStack.filterMap MExt.rteBase = [100] ∧ state.sc.rxPds.length ≤ 1 := by
  have fits : (packets [100]).Fits oneAtATime := ⟨by decide, by rintro ⟨⟩⟩
  have valid : ∀ ctxs, oneAtATime.rxPds.map Pd.ctx = ctxs.map some → (packets [100]).Valid ctxs := by
    intro ctxs same
    have none_ : ctxs = [] := List.map_eq_nil_iff.mp same.symm
    rw [none_]
    exact packets_valid [100] (by decide)
  refine ⟨((batchReceive_correct_iff oneAtATime).1 (packets [100]) [] oneAtATime_ready
    (packets_valid [100] (by decide))).mpr fits, ?_⟩
  have run : Run fitMove ⟨oneAtATime, []⟩ [.receive (packets [100])] ⟨_, [100]⟩ :=
    Run.snoc Run.nil ⟨valid, fits, _, _, rfl, rfl⟩
  obtain ⟨settled, bound, -⟩ := (batchReceive_correct_iff oneAtATime).2 _ _ rfl rfl rfl rfl run
  exact ⟨_, run, settled, bound⟩

theorem batchReceive_loses_packet :
    (∃ after ret, ifDpdkBatchReceive (packets [100, 101]) oneAtATime = some (after, ret) ∧
      after.toStack.filterMap MExt.rteBase = [100] ∧ after.heap.rteFreed = []) ∧
    ¬ ∃ after ret, ifDpdkBatchReceive (packets [100, 101]) oneAtATime = some (after, ret) ∧
      BatchCorrect (packets [100, 101]) oneAtATime after ret := by
  refine ⟨⟨_, _, rfl, rfl, rfl⟩, ?_⟩
  rintro ⟨after, ret, result, correct⟩
  obtain ⟨other, value, resultOther, effect⟩ := ifDpdkBatchReceive_effect oneAtATime_ready
    (packets_valid [100, 101] (by decide))
  cases result.symm.trans resultOther
  exact absurd (effect.fits oneAtATime_ready correct).1 (by decide)

end Libunsod.Uinet
