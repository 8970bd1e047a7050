import Libunsod.Uinet.PdRef

/-!
Concurrent releases of packet-descriptor contexts. Calls of
`uinet_pd_ref_release` and `uinet_pd_drop_injected` run at the same time, each
cut into its test of the flag, its read of the counter, its atomic decrement, the
move of a context into its free group and the final call of the pool. The
references acquired for a descriptor are then given up one by one, and the
context reaches its pool once, from the last release.
-/

namespace Libunsod.Uinet

open RefWord Runs

variable {heap changed acquired : PdHeap} {index released others : Nat} {pd : Pd}
  {numExtra : BitVec 32}

variable {elsewhere : Nat}

inductive ReleaseStage where
  | flagTest
  | counterRead
  | fetchAdd
  | collect
  deriving DecidableEq

structure Releaser where
  work : List Nat
  stage : ReleaseStage
  group : FreeGroup

variable {releaser : Releaser} {result : PdHeap × Releaser} {releasers : List Releaser}

inductive ReleaseCall where
  | refRelease (ctxs : List Nat)
  | dropInjected (pds : List { pd : Pd // pd.has pdInject → pd.ctx.isSome })

def ReleaseCall.ctxs : ReleaseCall → List Nat
  | .refRelease ctxs => ctxs
  | .dropInjected pds =>
      (pds.filter fun pd => pd.val.has pdInject).filterMap fun pd => pd.val.ctx

def ReleaseCall.begin (call : ReleaseCall) : Releaser :=
  ⟨call.ctxs, .flagTest, .none⟩

def Releaser.step (heap : PdHeap) (releaser : Releaser) : Option (PdHeap × Releaser) :=
  match releaser.work, releaser.stage with
  | [], _ =>
      if releaser.group.freeGroup = [] then none
      else some (flushGroup heap releaser.group,
        { releaser with group := { releaser.group with freeGroup := [] } })
  | index :: _, .flagTest =>
      if (heap.ctx index).flags &&& ctxSingleRef ≠ 0 then
        some (heap, { releaser with stage := .collect })
      else some (heap, { releaser with stage := .counterRead })
  | index :: _, .counterRead =>
      if heap.counters (heap.ctx index).refcnt = 1 then
        some (heap, { releaser with stage := .collect })
      else some (heap, { releaser with stage := .fetchAdd })
  | index :: rest, .fetchAdd =>
      let old := heap.counters (heap.ctx index).refcnt
      let fetched := heap.setCounter (heap.ctx index).refcnt (old - 1)
      if old = 1 then some (fetched, { releaser with stage := .collect })
      else some (fetched, { releaser with work := rest, stage := .flagTest })
  | index :: rest, .collect =>
      let added := addToGroup heap releaser.group index
      some (added.1, ⟨rest, .flagTest, added.2⟩)

def Releaser.pending (releaser : Releaser) : List Nat :=
  match releaser.stage with
  | .collect => releaser.work.tail
  | _ => releaser.work

def Releaser.taken (releaser : Releaser) : List Nat :=
  match releaser.stage with
  | .collect => releaser.work.head?.toList ++ releaser.group.freeGroup
  | _ => releaser.group.freeGroup

structure Releasing where
  heap : PdHeap
  releasers : List Releaser

variable {state : Releasing}

inductive ReleaseStep where
  | releaser (number : Nat)
  | deliver (pd : Pd)

def ReleaseMove (state : Releasing) : ReleaseStep → Releasing → Prop
  | .releaser number, next => ∃ before releaser after result,
      state.releasers = before ++ releaser :: after ∧ before.length = number ∧
      releaser.step state.heap = some result ∧
      next = ⟨result.1, before ++ result.2 :: after⟩
  | .deliver pd, next => ∃ delivered, deliverOne state.heap pd = some delivered ∧
      next = { state with heap := delivered.1 }

def pendingOf (index : Nat) (releasers : List Releaser) : Nat :=
  (releasers.map fun releaser => releaser.pending.count index).sum

def takenOf (index : Nat) (releasers : List Releaser) : Nat :=
  (releasers.map fun releaser => releaser.taken.count index).sum

def handed (index : Nat) (heap : PdHeap) : Nat :=
  (heap.freeCalls.map fun call => call.2.count index).sum

structure ReleaseExact (heap : PdHeap) (index pending taken : Nat) : Prop where
  own : ∀ other, (heap.ctx other).refcnt = (heap.ctx index).refcnt → other = index
  tracks : Tracks (heap.counters (heap.ctx index).refcnt) (SingleRef heap index) pending
  once : handed index heap + taken = if pending = 0 then 1 else 0

theorem handed_call {called : PdHeap} (index : Nat) {poolId : BitVec 32} {ctxs : List Nat}
    (calls : called.freeCalls = heap.freeCalls ++ [(poolId, ctxs)]) :
    handed index called = handed index heap + ctxs.count index := by
  rw [handed, handed, calls, List.map_append, List.sum_append, List.map_singleton,
    List.sum_singleton]

theorem flushGroup_fields (heap : PdHeap) (group : FreeGroup) :
    (flushGroup heap group).ctx = heap.ctx ∧ (flushGroup heap group).counters = heap.counters ∧
      ∀ index, handed index (flushGroup heap group) =
        handed index heap + group.freeGroup.count index := by
  by_cases empty : group.freeGroup = []
  · rw [flushGroup, if_pos empty, empty]
    exact ⟨rfl, rfl, fun _ => rfl⟩
  · rw [flushGroup, if_neg empty, poolFree]
    split
    · rw [freeDescs_eq]
      exact ⟨rfl, rfl, fun index => handed_call index rfl⟩
    · exact ⟨rfl, rfl, fun index => handed_call index rfl⟩

theorem addToGroup_fields (heap : PdHeap) (group : FreeGroup) (added : Nat) :
    (addToGroup heap group added).1.ctx = heap.ctx ∧
      (addToGroup heap group added).1.counters = heap.counters ∧
      ∀ index, handed index (addToGroup heap group added).1 +
          (addToGroup heap group added).2.freeGroup.count index =
        handed index heap + ([added] ++ group.freeGroup).count index := by
  rw [addToGroup]
  split
  · obtain ⟨ctx, counters, calls⟩ := flushGroup_fields heap group
    refine ⟨ctx, counters, fun index => ?_⟩
    simp only [calls index, List.count_append]
    omega
  · refine ⟨rfl, rfl, fun index => ?_⟩
    simp only [List.count_append]
    omega

theorem ReleaseExact.of_fields {pending taken moved : Nat}
    (account : ReleaseExact heap index pending taken) (ctx : changed.ctx = heap.ctx)
    (counters : changed.counters = heap.counters)
    (calls : handed index changed + moved = handed index heap + taken) :
    ReleaseExact changed index pending moved where
  own := by
    rw [ctx]
    exact account.own
  tracks := by
    rw [SingleRef, ctx, counters]
    exact account.tracks
  once := calls.trans account.once

theorem ReleaseExact.take {pending taken : Nat}
    (account : ReleaseExact heap index ([released].count index + pending) taken)
    (ctx : changed.ctx = heap.ctx) (calls : changed.freeCalls = heap.freeCalls)
    (counters : released ≠ index → changed.counters (heap.ctx index).refcnt =
      heap.counters (heap.ctx index).refcnt) (last : released = index → pending = 0) :
    ReleaseExact changed index pending ([released].count index + taken) := by
  have once := account.once
  have same : handed index changed = handed index heap := by rw [handed, handed, calls]
  by_cases ours : released = index
  · subst ours
    have nobody := last rfl
    subst nobody
    simp only [List.count_singleton_self] at once ⊢
    refine ⟨ctx ▸ account.own, Tracks.none _ _, ?_⟩
    rw [if_neg (by omega)] at once
    rw [if_pos rfl]
    omega
  · have nothing : [released].count index = 0 := List.count_cons_of_ne ours
    rw [nothing, Nat.zero_add] at account
    rw [nothing, Nat.zero_add]
    refine ⟨ctx ▸ account.own, ?_, ?_⟩
    · rw [SingleRef, ctx, counters ours]
      exact account.tracks
    · rw [same]
      exact account.once

theorem ReleaseExact.drop {pending taken : Nat}
    (account : ReleaseExact heap index ([released].count index + pending) taken)
    (several : heap.counters (heap.ctx released).refcnt ≠ 1) :
    ReleaseExact (heap.setCounter (heap.ctx released).refcnt
      (heap.counters (heap.ctx released).refcnt - 1)) index pending taken := by
  have once := account.once
  by_cases ours : released = index
  · subst ours
    simp only [List.count_singleton_self] at account once
    have more : pending ≠ 0 := by
      rintro rfl
      exact several ((account.tracks.eq_one_iff (by decide) (by omega)).mpr rfl)
    refine ⟨account.own, ?_, ?_⟩
    · rw [setCounter_ctx, setCounter_self]
      have dropped := account.tracks.drop (by omega)
      rw [Nat.add_sub_cancel_left] at dropped
      exact dropped
    · rw [if_neg (by omega)] at once
      rw [if_neg more]
      exact once
  · have nothing : [released].count index = 0 := List.count_cons_of_ne ours
    rw [nothing, Nat.zero_add] at account
    refine ⟨account.own, ?_, account.once⟩
    rw [setCounter_ctx, setCounter_other]
    · exact account.tracks
    · intro equal
      exact ours (account.own released equal.symm)

theorem ReleaseExact.collect {rest : List Nat} {group : FreeGroup}
    (account : ReleaseExact heap index ((released :: rest).count index + others)
      (group.freeGroup.count index + elsewhere)) (ctx : changed.ctx = heap.ctx)
    (calls : changed.freeCalls = heap.freeCalls)
    (counters : released ≠ index → changed.counters (heap.ctx index).refcnt =
      heap.counters (heap.ctx index).refcnt)
    (last : released = index → 0 < (released :: rest).count index + others →
      (released :: rest).count index + others = 1) :
    ReleaseExact changed index (rest.count index + others)
      (([released] ++ group.freeGroup).count index + elsewhere) := by
  have split : (released :: rest).count index = [released].count index + rest.count index :=
    show ([released] ++ rest).count index = _ from List.count_append
  rw [split, Nat.add_assoc] at account
  rw [List.count_append, Nat.add_assoc]
  refine account.take ctx calls counters ?_
  rintro rfl
  have one := last rfl
  rw [split, List.count_singleton_self] at one
  omega

theorem releaser_step_exact
    (account : ReleaseExact heap index (releaser.pending.count index + others)
      (releaser.taken.count index + elsewhere)) (stepped : releaser.step heap = some result) :
    ReleaseExact result.1 index (result.2.pending.count index + others)
      (result.2.taken.count index + elsewhere) := by
  obtain ⟨work, stage, group⟩ := releaser
  cases work with
  | nil =>
    simp only [Releaser.step] at stepped
    split at stepped
    · cases stepped
    · obtain ⟨ctx, counters, calls⟩ := flushGroup_fields heap group
      have moved := calls index
      cases stepped
      cases stage <;>
        exact account.of_fields ctx counters (by
          simp only [Releaser.taken, List.count_nil, List.head?_nil, Option.toList_none,
            List.nil_append] at moved ⊢
          omega)
  | cons released rest =>
    cases stage with
    | flagTest =>
      simp only [Releaser.step] at stepped
      split at stepped
      next single =>
        cases stepped
        refine ReleaseExact.collect account rfl rfl (fun _ => rfl) ?_
        rintro rfl held
        exact Nat.le_antisymm (account.tracks.alone single) held
      next =>
        cases stepped
        exact account
    | counterRead =>
      simp only [Releaser.step] at stepped
      split at stepped
      next one =>
        cases stepped
        refine ReleaseExact.collect account rfl rfl (fun _ => rfl) ?_
        rintro rfl held
        exact (account.tracks.eq_one_iff (by decide) held).mp one
      next =>
        cases stepped
        exact account
    | fetchAdd =>
      simp only [Releaser.step] at stepped
      split at stepped
      next one =>
        cases stepped
        refine ReleaseExact.collect account rfl rfl ?_ ?_
        · intro differ
          refine setCounter_other _ _ ?_
          intro equal
          exact differ (account.own released equal.symm)
        · rintro rfl held
          exact (account.tracks.eq_one_iff (by decide) held).mp one
      next several =>
        cases stepped
        rw [Releaser.pending, ← List.singleton_append, List.count_append, Nat.add_assoc] at account
        exact account.drop several
    | collect =>
      simp only [Releaser.step, Option.some.injEq] at stepped
      obtain ⟨ctx, counters, calls⟩ := addToGroup_fields heap group released
      have moved := calls index
      subst stepped
      refine account.of_fields ctx counters ?_
      simp only [Releaser.taken, List.head?_cons, Option.toList_some] at moved ⊢
      omega

theorem sum_map_split (amount : Releaser → Nat) (before after : List Releaser)
    (releaser : Releaser) :
    ((before ++ releaser :: after).map amount).sum =
      amount releaser + ((before.map amount).sum + (after.map amount).sum) := by
  simp only [List.map_append, List.map_cons, List.sum_append, List.sum_cons]
  omega

theorem pendingOf_cons (index : Nat) (releaser : Releaser) (rest : List Releaser) :
    pendingOf index (releaser :: rest) = releaser.pending.count index + pendingOf index rest := by
  rw [pendingOf, pendingOf, List.map_cons, List.sum_cons]

theorem takenOf_cons (index : Nat) (releaser : Releaser) (rest : List Releaser) :
    takenOf index (releaser :: rest) = releaser.taken.count index + takenOf index rest := by
  rw [takenOf, takenOf, List.map_cons, List.sum_cons]

theorem pendingOf_split (index : Nat) (before after : List Releaser) (releaser : Releaser) :
    pendingOf index (before ++ releaser :: after) =
      releaser.pending.count index + (pendingOf index before + pendingOf index after) :=
  sum_map_split _ before after releaser

theorem takenOf_split (index : Nat) (before after : List Releaser) (releaser : Releaser) :
    takenOf index (before ++ releaser :: after) =
      releaser.taken.count index + (takenOf index before + takenOf index after) :=
  sum_map_split _ before after releaser

def ReleaseInv (index : Nat) (state : Releasing) : Prop :=
  ReleaseExact state.heap index (pendingOf index state.releasers) (takenOf index state.releasers)

theorem deliverOne_release {delivered : PdHeap × Option MExt} {pending taken : Nat}
    (account : ReleaseExact heap index pending taken)
    (result : deliverOne heap pd = some delivered) :
    ReleaseExact delivered.1 index pending taken := by
  rw [deliverOne] at result
  split at result
  · rw [Option.map_eq_some_iff] at result
    obtain ⟨owner, _, rfl⟩ := result
    have refcnt (other : Nat) : ((heap.setCtx owner { heap.ctx owner with
        flags := (heap.ctx owner).flags &&& ~~~ctxSingleRef ||| ctxMbufUsed
        mOrigLen := pd.length }).ctx other).refcnt = (heap.ctx other).refcnt :=
      setCtx_forall (fun other ctx => ctx.refcnt = (heap.ctx other).refcnt) (by rfl)
        (fun _ => rfl) other
    refine ⟨?_, ?_, account.once⟩
    · intro other equal
      exact account.own other ((refcnt other).symm.trans (equal.trans (refcnt index)))
    · rw [setCtx_counters, refcnt index]
      exact account.tracks.weaken
        (singleRef_of_cleared heap owner index (delivered_not_single (heap.ctx owner).flags))
  · cases result
    exact account

theorem releaseMove_inv {next : Releasing} {step : ReleaseStep} (inv : ReleaseInv index state)
    (moved : ReleaseMove state step next) : ReleaseInv index next := by
  cases step with
  | releaser number =>
    obtain ⟨before, releaser, after, result, split, _, stepped, rfl⟩ := moved
    rw [ReleaseInv, split, pendingOf_split, takenOf_split] at inv
    rw [ReleaseInv, pendingOf_split, takenOf_split]
    exact releaser_step_exact inv stepped
  | deliver pd =>
    obtain ⟨delivered, result, rfl⟩ := moved
    exact deliverOne_release inv result

def ReleaseStage.left : ReleaseStage → Nat
  | .flagTest => 5
  | .counterRead => 4
  | .fetchAdd => 3
  | .collect => 2

def Releaser.left (releaser : Releaser) : Nat :=
  (match releaser.work with
    | [] => 0
    | _ :: rest => 5 * rest.length + releaser.stage.left) +
  if releaser.group.freeGroup = [] then 0 else 1

def Releasing.left (state : Releasing) : Nat :=
  (state.releasers.map Releaser.left).sum

theorem left_begun (work : List Nat) (group : FreeGroup) :
    Releaser.left ⟨work, .flagTest, group⟩ ≤ 5 * work.length + 1 := by
  cases work with
  | nil =>
    simp only [Releaser.left]
    split <;> omega
  | cons released rest =>
    simp only [Releaser.left, ReleaseStage.left, List.length_cons]
    split <;> omega

theorem releaser_step_left (stepped : releaser.step heap = some result) :
    result.2.left < releaser.left := by
  obtain ⟨work, stage, group⟩ := releaser
  cases work with
  | nil =>
    simp only [Releaser.step] at stepped
    split at stepped
    · cases stepped
    next waiting =>
      cases stepped
      simp [Releaser.left, waiting]
  | cons released rest =>
    cases stage with
    | flagTest | counterRead =>
      simp only [Releaser.step] at stepped
      split at stepped <;> cases stepped <;> simp [Releaser.left, ReleaseStage.left]
    | fetchAdd =>
      simp only [Releaser.step] at stepped
      split at stepped
      · cases stepped
        simp [Releaser.left, ReleaseStage.left]
      · cases stepped
        cases rest with
        | nil => simp [Releaser.left, ReleaseStage.left]
        | cons next rest => simp [Releaser.left, ReleaseStage.left, Nat.mul_add]
    | collect =>
      simp only [Releaser.step, Option.some.injEq] at stepped
      subst stepped
      have bound := left_begun rest (addToGroup heap group released).2
      have head : 5 * rest.length + 2 ≤ Releaser.left ⟨released :: rest, .collect, group⟩ := by
        simp [Releaser.left, ReleaseStage.left]
      exact Nat.lt_of_le_of_lt bound (by omega)

def Releasing.Finished (state : Releasing) : Prop :=
  ∀ releaser ∈ state.releasers, releaser.work = [] ∧ releaser.group.freeGroup = []

theorem releaser_step_or_done (heap : PdHeap) (releaser : Releaser) :
    (∃ result, releaser.step heap = some result) ∨
      (releaser.work = [] ∧ releaser.group.freeGroup = []) := by
  obtain ⟨work, stage, group⟩ := releaser
  cases work with
  | nil =>
    by_cases empty : group.freeGroup = []
    · exact .inr ⟨rfl, empty⟩
    · exact .inl ⟨_, if_neg empty⟩
  | cons released rest =>
    cases stage with
    | flagTest | counterRead | fetchAdd =>
      simp only [Releaser.step]
      split <;> exact .inl ⟨_, rfl⟩
    | collect => exact .inl ⟨_, rfl⟩

theorem finished_or_moves (state : Releasing) :
    state.Finished ∨ ∃ number next, ReleaseMove state (.releaser number) next := by
  by_cases finished : state.Finished
  · exact .inl finished
  · simp only [Releasing.Finished, not_forall] at finished
    obtain ⟨releaser, member, working⟩ := finished
    obtain ⟨before, after, split⟩ := List.append_of_mem member
    rcases releaser_step_or_done state.heap releaser with ⟨result, stepped⟩ | done
    · exact .inr ⟨before.length, _, before, releaser, after, result, split, rfl, stepped, rfl⟩
    · exact absurd done working

def ReleaseStep.ofReleaser : ReleaseStep → Bool
  | .releaser _ => true
  | .deliver _ => false

theorem run_left {start final : Releasing} {steps : List ReleaseStep}
    (run : Run ReleaseMove start steps final) :
    steps.countP ReleaseStep.ofReleaser + final.left ≤ start.left := by
  induction run with
  | nil => simp
  | snoc before moved ih =>
    rename_i taken state step next
    rw [List.countP_append, List.countP_singleton]
    cases step with
    | releaser number =>
      obtain ⟨front, releaser, after, result, split, _, stepped, rfl⟩ := moved
      have lower := releaser_step_left stepped
      simp only [Releasing.left, split, sum_map_split, ReleaseStep.ofReleaser,
        if_true] at ih ⊢
      omega
    | deliver pd =>
      obtain ⟨delivered, _, rfl⟩ := moved
      simp only [ReleaseStep.ofReleaser, Bool.false_eq_true, if_false, Nat.add_zero]
      exact ih

def pdUses (pd : Pd) (numExtra : BitVec 32) : Nat :=
  (if pd.has pdInject then 1 else 0) + (if pd.has pdToStack then 1 else 0) +
    if pd.has pdExtraRefs then numExtra.toNat else 0

theorem both_flags_iff (pd : Pd) :
    pd.flags &&& (pdInject ||| pdToStack) = pdInject ||| pdToStack ↔
      pd.has pdInject ∧ pd.has pdToStack := by
  have inject : pdInject = BitVec.twoPow 16 4 := rfl
  have stack : pdToStack = BitVec.twoPow 16 5 := rfl
  simp only [Pd.has, BitVec.and_or_distrib_left, inject, stack, BitVec.and_twoPow]
  cases pd.flags.getLsbD 4 <;> cases pd.flags.getLsbD 5 <;> decide

theorem pdUses_eq (numExtra : BitVec 32) (plain : ¬pd.has pdMgmtOnly)
    (used : pd.has pdInject ∨ pd.has pdToStack) :
    pdUses pd numExtra = 1 + wantedRefs pd numExtra := by
  rw [pdUses, wantedRefs, if_neg plain, ← Nat.add_assoc]
  congr 1
  by_cases inject : pd.has pdInject
  · by_cases stack : pd.has pdToStack
    · rw [if_pos inject, if_pos stack, if_pos ((both_flags_iff pd).mpr ⟨inject, stack⟩)]
    · rw [if_pos inject, if_neg stack, if_neg fun both => stack ((both_flags_iff pd).mp both).2]
  · have stack := used.resolve_left inject
    rw [if_neg inject, if_pos stack, if_neg fun both => inject ((both_flags_iff pd).mp both).1]

theorem refAcquire_others {pkts : List Pd} (heap : PdHeap)
    (others : ∀ pd ∈ pkts, pd.ctx ≠ some index)
    (own : ∀ other, (heap.ctx other).refcnt = (heap.ctx index).refcnt → other = index)
    (result : uinetPdRefAcquire heap pkts numExtra = some acquired) :
    acquired.ctx index = heap.ctx index ∧
      acquired.counters (heap.ctx index).refcnt = heap.counters (heap.ctx index).refcnt ∧
      acquired.freeCalls = heap.freeCalls ∧
      ∀ other, (acquired.ctx other).refcnt = (heap.ctx other).refcnt := by
  induction pkts generalizing heap with
  | nil =>
    cases result
    exact ⟨rfl, rfl, rfl, fun _ => rfl⟩
  | cons pd rest ih =>
    rw [uinetPdRefAcquire, List.foldlM_cons, Option.bind_eq_bind,
      Option.bind_eq_some_iff] at result
    obtain ⟨first, one, remaining⟩ := result
    obtain ⟨ctx, counter⟩ := refAcquireOne_other (others pd List.mem_cons_self) own one
    obtain ⟨_, calls, refcnt⟩ := refAcquireOne_frame one
    obtain ⟨ctxs, counters, called, kept⟩ := ih first
      (fun other member => others other (List.mem_cons_of_mem pd member))
      (fun other equal => own other (by rw [← refcnt other, ← refcnt index, equal])) remaining
    refine ⟨ctxs.trans ctx, ?_, called.trans calls,
      fun other => (kept other).trans (refcnt other)⟩
    rw [ctx] at counters
    exact counters.trans counter

theorem refAcquire_exact {before after : List Pd} (descriptor : pd.ctx = some index)
    (others : ∀ other ∈ before ++ after, other.ctx ≠ some index)
    (own : ∀ other, (heap.ctx other).refcnt = (heap.ctx index).refcnt → other = index)
    (sole : heap.counters (heap.ctx index).refcnt = 1) (quiet : heap.freeCalls = [])
    (plain : ¬pd.has pdMgmtOnly) (used : pd.has pdInject ∨ pd.has pdToStack)
    (fits : pdUses pd numExtra ≤ 2 ^ 32)
    (result : uinetPdRefAcquire heap (before ++ pd :: after) numExtra = some acquired) :
    ReleaseExact acquired index (pdUses pd numExtra) 0 := by
  have uses := pdUses_eq numExtra plain used
  rw [uinetPdRefAcquire, List.foldlM_append, Option.bind_eq_bind, Option.bind_eq_some_iff] at result
  obtain ⟨first, earlier, result⟩ := result
  rw [List.foldlM_cons, Option.bind_eq_bind, Option.bind_eq_some_iff] at result
  obtain ⟨second, one, later⟩ := result
  obtain ⟨ctx, counter, calls, refcnt⟩ := refAcquire_others heap
    (fun other member => others other (List.mem_append_left after member)) own earlier
  have ownFirst : ∀ other, (first.ctx other).refcnt = (first.ctx index).refcnt → other = index := by
    intro other equal
    rw [refcnt, refcnt] at equal
    exact own other equal
  have solely : first.counters (first.ctx index).refcnt = 1 := by
    rw [ctx, counter]
    exact sole
  have tracks := refAcquireOne_tracks descriptor Nat.one_pos
    (by omega) (by rw [solely]; exact Tracks.fresh _) one
  obtain ⟨_, callsOne, refcntOne⟩ := refAcquireOne_frame one
  have ownSecond : ∀ other, (second.ctx other).refcnt = (second.ctx index).refcnt →
      other = index := by
    intro other equal
    rw [refcntOne, refcntOne] at equal
    exact ownFirst other equal
  obtain ⟨ctxLast, counterLast, callsLast, refcntLast⟩ := refAcquire_others second (fun other member => others other (List.mem_append_right before member))
    ownSecond later
  refine ⟨?_, ?_, ?_⟩
  · intro other equal
    rw [refcntLast, refcntLast] at equal
    exact ownSecond other equal
  · rw [SingleRef, ctxLast, counterLast, refcntOne, uses]
    exact tracks
  · rw [handed, callsLast, callsOne, calls, quiet, if_neg (by omega)]
    rfl

structure HandedOnce (index : Nat) (state : Releasing) : Prop where
  atMostOnce : handed index state.heap ≤ 1
  last : 0 < handed index state.heap + takenOf index state.releasers →
    ∀ releaser ∈ state.releasers, index ∉ releaser.pending
  finished : state.Finished → handed index state.heap = 1

theorem pendingOf_eq_zero (zero : pendingOf index releasers = 0) :
    ∀ releaser ∈ releasers, index ∉ releaser.pending := by
  intro releaser member waiting
  obtain ⟨before, after, split⟩ := List.append_of_mem member
  rw [split, pendingOf_split] at zero
  have positive := List.count_pos_iff.mpr waiting
  omega

theorem finished_counts (index : Nat)
    (finished : ∀ releaser ∈ releasers, releaser.work = [] ∧ releaser.group.freeGroup = []) :
    pendingOf index releasers = 0 ∧ takenOf index releasers = 0 := by
  induction releasers with
  | nil => exact ⟨rfl, rfl⟩
  | cons releaser rest ih =>
    obtain ⟨pending, taken⟩ := ih fun other member =>
      finished other (List.mem_cons_of_mem releaser member)
    obtain ⟨work, group⟩ := finished releaser List.mem_cons_self
    have nothing : releaser.pending = [] ∧ releaser.taken = [] := by
      simp only [Releaser.pending, Releaser.taken, work, group]
      cases releaser.stage <;> exact ⟨rfl, rfl⟩
    refine ⟨?_, ?_⟩
    · rw [pendingOf_cons, nothing.1, pending]
      rfl
    · rw [takenOf_cons, nothing.2, taken]
      rfl

theorem ReleaseInv.handedOnce (inv : ReleaseInv index state) : HandedOnce index state := by
  have once := inv.once
  refine ⟨?_, ?_, ?_⟩
  · split at once <;> omega
  · intro closed
    apply pendingOf_eq_zero
    by_contra waiting
    rw [if_neg waiting] at once
    omega
  · intro finished
    obtain ⟨pending, taken⟩ := finished_counts index finished
    rw [if_pos pending, taken] at once
    exact once

theorem begun_counts (index : Nat) (calls : List ReleaseCall) :
    pendingOf index (calls.map ReleaseCall.begin) =
        (calls.map fun call => call.ctxs.count index).sum ∧
      takenOf index (calls.map ReleaseCall.begin) = 0 := by
  induction calls with
  | nil => exact ⟨rfl, rfl⟩
  | cons call rest ih =>
    obtain ⟨pending, taken⟩ := ih
    refine ⟨?_, ?_⟩
    · rw [List.map_cons, List.map_cons, List.sum_cons, pendingOf_cons, pending]
      rfl
    · rw [List.map_cons, takenOf_cons, taken]
      rfl

/-- After the references of a descriptor were acquired and however the steps of
the releasing calls interleave, its context is handed to its pool exactly once;
the calls always return. -/
theorem released_exactly_once (heap acquired : PdHeap) (before after : List Pd) (pd : Pd)
    (numExtra : BitVec 32) (index : Nat) (calls : List ReleaseCall) (steps : List ReleaseStep)
    (final : Releasing) (descriptor : pd.ctx = some index)
    (others : ∀ other ∈ before ++ after, other.ctx ≠ some index)
    (own : ∀ other, (heap.ctx other).refcnt = (heap.ctx index).refcnt → other = index)
    (sole : heap.counters (heap.ctx index).refcnt = 1) (quiet : heap.freeCalls = [])
    (plain : ¬pd.has pdMgmtOnly) (used : pd.has pdInject ∨ pd.has pdToStack)
    (fits : pdUses pd numExtra ≤ 2 ^ 32)
    (acquire : uinetPdRefAcquire heap (before ++ pd :: after) numExtra = some acquired)
    (each : (calls.map fun call => call.ctxs.count index).sum = pdUses pd numExtra)
    (run : Run ReleaseMove ⟨acquired, calls.map ReleaseCall.begin⟩ steps final) :
    HandedOnce index final ∧
      (final.Finished ∨ ∃ number next, ReleaseMove final (.releaser number) next) ∧
      steps.countP ReleaseStep.ofReleaser ≤
        Releasing.left ⟨acquired, calls.map ReleaseCall.begin⟩ := by
  obtain ⟨pending, taken⟩ := begun_counts index calls
  have start : ReleaseInv index ⟨acquired, calls.map ReleaseCall.begin⟩ := by
    rw [ReleaseInv, pending, taken, each]
    exact refAcquire_exact descriptor others own sole quiet plain used fits acquire
  have inv : ReleaseInv index final := by
    refine Run.invariant (ReleaseInv index) start ?_ run
    intro state step next inv moved
    exact releaseMove_inv inv moved
  refine ⟨inv.handedOnce, finished_or_moves final, ?_⟩
  have bound := run_left run
  omega

def allocatedHeap : PdHeap :=
  (mbufAllocDesc (freshPool 0 id (fun _ => 0)).heap 0 (frameOf 0)).1

theorem allocatedHeap_own (other : Nat)
    (equal : (allocatedHeap.ctx other).refcnt = (allocatedHeap.ctx 0).refcnt) : other = 0 := by
  have wired : Wired allocatedHeap :=
    mbufAllocDesc_wired 0 (frameOf 0) (freshPool_inv 0 id (fun _ => 0) 0).wired
  rw [wired.refcnt, wired.refcnt] at equal
  injection equal

theorem released_exactly_once_racing :
    ∃ acquired final, uinetPdRefAcquire allocatedHeap [frameOf 0x31] 0 = some acquired ∧
      Run ReleaseMove ⟨acquired, [ReleaseCall.refRelease [0],
          .dropInjected [⟨frameOf 0x31, fun _ => rfl⟩]].map ReleaseCall.begin⟩
        [.releaser 0, .releaser 1, .releaser 0, .releaser 1, .releaser 0, .releaser 1,
          .releaser 1, .releaser 1] final ∧
      handed 0 final.heap = 1 ∧ HandedOnce 0 final := by
  have acquire : ∃ acquired,
      uinetPdRefAcquire allocatedHeap [frameOf 0x31] 0 = some acquired := ⟨_, rfl⟩
  obtain ⟨acquired, acquire⟩ := acquire
  have run : ∃ final, Run ReleaseMove ⟨acquired, [ReleaseCall.refRelease [0],
        .dropInjected [⟨frameOf 0x31, fun _ => rfl⟩]].map ReleaseCall.begin⟩
      [.releaser 0, .releaser 1, .releaser 0, .releaser 1, .releaser 0, .releaser 1,
        .releaser 1, .releaser 1] final ∧ handed 0 final.heap = 1 := by
    cases acquire
    exact ⟨_, Run.snoc (Run.snoc (Run.snoc (Run.snoc (Run.snoc (Run.snoc (Run.snoc (Run.snoc
      Run.nil ⟨[], _, _, _, rfl, rfl, rfl, rfl⟩) ⟨[_], _, _, _, rfl, rfl, rfl, rfl⟩)
      ⟨[], _, _, _, rfl, rfl, rfl, rfl⟩) ⟨[_], _, _, _, rfl, rfl, rfl, rfl⟩)
      ⟨[], _, _, _, rfl, rfl, rfl, rfl⟩) ⟨[_], _, _, _, rfl, rfl, rfl, rfl⟩)
      ⟨[_], _, _, _, rfl, rfl, rfl, rfl⟩) ⟨[_], _, _, _, rfl, rfl, rfl, rfl⟩, rfl⟩
  obtain ⟨final, run, once⟩ := run
  exact ⟨acquired, final, acquire, run, once,
    (released_exactly_once allocatedHeap acquired [] [] (frameOf 0x31) 0 0 _ _ final rfl nofun
      allocatedHeap_own rfl rfl (by decide) (.inl rfl) (by decide) acquire rfl run).1⟩

theorem extra_ref_alone_not_handed :
    ∃ acquired final, uinetPdRefAcquire allocatedHeap [frameOf 0x81] 1 = some acquired ∧
      (allocatedHeap.counters (allocatedHeap.ctx 0).refcnt = 1 ∧ SingleRef allocatedHeap 0) ∧
      pdUses (frameOf 0x81) 1 = 1 ∧
      Run ReleaseMove ⟨acquired, [ReleaseCall.refRelease [0]].map ReleaseCall.begin⟩
        [.releaser 0, .releaser 0, .releaser 0] final ∧
      final.Finished ∧ handed 0 final.heap = 0 := by
  refine ⟨_, _, rfl, ⟨rfl, (by decide : (1 : BitVec 16) ≠ 0)⟩, rfl, Run.snoc (Run.snoc (Run.snoc Run.nil
    ⟨[], _, _, _, rfl, rfl, rfl, rfl⟩) ⟨[], _, _, _, rfl, rfl, rfl, rfl⟩)
    ⟨[], _, _, _, rfl, rfl, rfl, rfl⟩, ?_, rfl⟩
  intro releaser member
  cases List.mem_singleton.mp member
  exact ⟨rfl, rfl⟩

end Libunsod.Uinet
