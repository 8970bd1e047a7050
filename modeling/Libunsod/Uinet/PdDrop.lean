import Libunsod.Uinet.PdRef
import Libunsod.Uinet.PdRing

/-!
Contexts freed in groups. `uinet_pd_ref_release`, `uinet_pd_drop_injected` and `uinet_pd_drop`
collect the contexts they free and call a pool's free routine for a group at a time; each is
compared with freeing one context after the other. `uinet_pd_drop` looks at no reference count.
-/

namespace Libunsod.Uinet

open RingLog (Holds slotAfter store storeAll)
open Runs (Run)

def pdDrop : BitVec 16 := 0x0040

def contexts (flag : BitVec 16) (pds : List Pd) : List Nat :=
  (pds.filter (Pd.has flag)).filterMap Pd.ctx

section Groups

variable (test : PdHeap → Nat → PdHeap × Bool)

def freeAlone (heap : PdHeap) (index : Nat) : PdHeap :=
  let tested := test heap index
  if tested.2 then poolFree tested.1 (ctxPool heap index) [index] else tested.1

def freedBy : PdHeap → List Nat → List Nat
  | _, [] => []
  | heap, index :: rest =>
      let tested := test heap index
      if tested.2 then index :: freedBy tested.1 rest else freedBy tested.1 rest

def testAll (heap : PdHeap) (ctxs : List Nat) : PdHeap :=
  ctxs.foldl (fun heap index => (test heap index).1) heap

def groupLoop : List Nat → PdHeap → FreeGroup → PdHeap × FreeGroup
  | [], heap, group => (heap, group)
  | index :: rest, heap, group =>
      let tested := test heap index
      if tested.2 then
        let added := addToGroup tested.1 group index
        groupLoop rest added.1 added.2
      else groupLoop rest tested.1 group

def flaggedLoop (flag : BitVec 16) : List Pd → PdHeap → FreeGroup → Option (PdHeap × FreeGroup)
  | [], heap, group => some (heap, group)
  | pd :: rest, heap, group =>
      if pd.has flag then
        pd.ctx.bind fun index =>
          let tested := test heap index
          if tested.2 then
            let added := addToGroup tested.1 group index
            flaggedLoop flag rest added.1 added.2
          else flaggedLoop flag rest tested.1 group
      else flaggedLoop flag rest heap group

end Groups

def uinetPdDropInjected (heap : PdHeap) (pds : List Pd) : Option PdHeap :=
  (flaggedLoop releaseTest pdInject pds heap .none).map fun done => flushGroup done.1 done.2

def dropTest (heap : PdHeap) (_ : Nat) : PdHeap × Bool :=
  (heap, true)

def uinetPdDrop (heap : PdHeap) (pkts : List Pd) : Option PdHeap :=
  (flaggedLoop dropTest pdDrop pkts heap .none).map fun done => flushGroup done.1 done.2

structure Grouped (heap : PdHeap) (groups : List (BitVec 32 × List Nat)) (freed : List Nat) :
    Prop where
  flat : groups.flatMap Prod.snd = freed
  filled : ∀ group ∈ groups, group.2 ≠ [] ∧ group.2.length ≤ pdFreeBatchSize
  pools : ∀ group ∈ groups, ∀ index ∈ group.2, ctxPool heap index = group.1

structure Batched (heap one final : PdHeap) (freed : List Nat) : Prop where
  groups : ∃ groups, final.freeCalls = heap.freeCalls ++ groups ∧ Grouped heap groups freed
  alone : one.freeCalls = heap.freeCalls ++ freed.map fun index => (ctxPool heap index, [index])
  same : { final with freeCalls := [] } = { one with freeCalls := [] }

variable {heap : PdHeap} {ctxs freed : List Nat} {pds : List Pd} {flag : BitVec 16}
  {groups : List (BitVec 32 × List Nat)} {test : PdHeap → Nat → PdHeap × Bool}

theorem poolFree_eq (heap : PdHeap) (poolId : BitVec 32) (ctxs : List Nat) :
    poolFree heap poolId ctxs = { heap with
      freeCalls := heap.freeCalls ++ [(poolId, ctxs)]
      zone := if poolId = heap.mbufPoolId.zeroExtend 32
        then (ctxs.map PoolOp.free).reverse ++ heap.zone else heap.zone } := by
  rw [poolFree]
  split
  · rw [freeDescs_eq]
  · rfl

theorem ctxPool_poolFree (heap : PdHeap) (poolId : BitVec 32) (ctxs : List Nat) :
    ctxPool (poolFree heap poolId ctxs) = ctxPool heap := by
  rw [poolFree_eq]
  rfl

def freeAll (heap : PdHeap) (groups : List (BitVec 32 × List Nat)) : PdHeap :=
  groups.foldl (fun heap group => poolFree heap group.1 group.2) heap

theorem freeAll_append (heap : PdHeap) (groups others : List (BitVec 32 × List Nat)) :
    freeAll heap (groups ++ others) = freeAll (freeAll heap groups) others :=
  List.foldl_append

theorem freeAll_eq (heap : PdHeap) (groups : List (BitVec 32 × List Nat))
    (pools : ∀ group ∈ groups, ∀ index ∈ group.2, ctxPool heap index = group.1) :
    freeAll heap groups = { heap with
      freeCalls := heap.freeCalls ++ groups
      zone := (((groups.flatMap Prod.snd).filter fun index =>
        ctxPool heap index = heap.mbufPoolId.zeroExtend 32).map PoolOp.free).reverse ++
          heap.zone } := by
  induction groups generalizing heap with
  | nil => simp [freeAll]
  | cons group rest ih =>
    have own : (group.2.filter fun index =>
        ctxPool heap index = heap.mbufPoolId.zeroExtend 32) =
          if group.1 = heap.mbufPoolId.zeroExtend 32 then group.2 else [] := by
      rw [List.filter_congr (q := fun _ => group.1 = heap.mbufPoolId.zeroExtend 32)
        fun index member => by rw [pools group List.mem_cons_self index member]]
      split <;> simp [*]
    have behind := ih (poolFree heap group.1 group.2) fun other member => by
      rw [ctxPool_poolFree]
      exact pools other (List.mem_cons_of_mem _ member)
    rw [ctxPool_poolFree] at behind
    rw [freeAll, List.foldl_cons, ← freeAll, behind, poolFree_eq, List.flatMap_cons,
      List.filter_append, own]
    split <;> simp

structure Tests (test : PdHeap → Nat → PdHeap × Bool) : Prop where
  commutes : ∀ heap poolId ctxs index, test (poolFree heap poolId ctxs) index =
    (poolFree (test heap index).1 poolId ctxs, (test heap index).2)
  pools : ∀ heap index, ctxPool (test heap index).1 = ctxPool heap
  calls : ∀ heap index, (test heap index).1.freeCalls = heap.freeCalls

theorem dropTest_tests : Tests dropTest :=
  ⟨fun _ _ _ _ => rfl, fun _ _ => rfl, fun _ _ => rfl⟩

theorem releaseTest_tests : Tests releaseTest := by
  refine ⟨?_, ?_, ?_⟩
  · intro heap poolId ctxs index
    simp only [poolFree_eq, releaseTest]
    split
    · rfl
    · split <;> rfl
  all_goals
    intro heap index
    rw [releaseTest]
    split
    · rfl
    · split <;> rfl

theorem Tests.testAll_pools (tests : Tests test) (heap : PdHeap) (ctxs : List Nat) :
    ctxPool (testAll test heap ctxs) = ctxPool heap ∧
      (testAll test heap ctxs).freeCalls = heap.freeCalls := by
  induction ctxs generalizing heap with
  | nil => exact ⟨rfl, rfl⟩
  | cons index rest ih =>
    obtain ⟨pools, calls⟩ := ih (test heap index).1
    exact ⟨pools.trans (tests.pools heap index), calls.trans (tests.calls heap index)⟩

theorem Tests.poolFree_after (tests : Tests test) (heap : PdHeap) (poolId : BitVec 32)
    (others ctxs : List Nat) :
    testAll test (poolFree heap poolId others) ctxs =
        poolFree (testAll test heap ctxs) poolId others ∧
      freedBy test (poolFree heap poolId others) ctxs = freedBy test heap ctxs := by
  induction ctxs generalizing heap with
  | nil => exact ⟨rfl, rfl⟩
  | cons index rest ih =>
    obtain ⟨after, freed⟩ := ih (test heap index).1
    simp only [testAll, List.foldl_cons, freedBy, tests.commutes] at after ⊢
    exact ⟨after, by rw [freed]⟩

theorem Tests.alone (tests : Tests test) (heap : PdHeap) (ctxs : List Nat) :
    ctxs.foldl (freeAlone test) heap = freeAll (testAll test heap ctxs)
      ((freedBy test heap ctxs).map fun index => (ctxPool heap index, [index])) := by
  induction ctxs generalizing heap with
  | nil => rfl
  | cons index rest ih =>
    rw [List.foldl_cons, ih, freeAlone, freedBy]
    split
    · obtain ⟨after, freed⟩ := tests.poolFree_after (test heap index).1 (ctxPool heap index)
        [index] rest
      simp only [after, freed, ctxPool_poolFree, tests.pools]
      rfl
    · simp only [tests.pools]
      rfl

def groupCalls (group : FreeGroup) : List (BitVec 32 × List Nat) :=
  if group.freeGroup = [] then [] else [(group.curPoolId, group.freeGroup)]

theorem flushGroup_eq (heap : PdHeap) (group : FreeGroup) :
    flushGroup heap group = freeAll heap (groupCalls group) := by
  rw [flushGroup, groupCalls]
  split <;> rfl

theorem Tests.flush_after (tests : Tests test) (heap : PdHeap) (group : FreeGroup)
    (ctxs : List Nat) :
    testAll test (flushGroup heap group) ctxs = flushGroup (testAll test heap ctxs) group ∧
      freedBy test (flushGroup heap group) ctxs = freedBy test heap ctxs ∧
      ctxPool (flushGroup heap group) = ctxPool heap := by
  simp only [flushGroup]
  split
  · exact ⟨rfl, rfl, rfl⟩
  · obtain ⟨after, freed⟩ := tests.poolFree_after heap group.curPoolId group.freeGroup ctxs
    exact ⟨after, freed, ctxPool_poolFree ..⟩

theorem groupCalls_grouped {group : FreeGroup} (fits : group.freeGroup.length ≤ pdFreeBatchSize)
    (pool : ∀ index ∈ group.freeGroup, ctxPool heap index = group.curPoolId) :
    Grouped heap (groupCalls group) group.freeGroup := by
  rw [groupCalls]
  split
  next empty => exact ⟨by simp [empty], by simp, by simp⟩
  next some_ =>
    refine ⟨by simp, ?_, ?_⟩
    · simpa using ⟨some_, fits⟩
    · simpa using pool

theorem Grouped.append {others : List (BitVec 32 × List Nat)} {more : List Nat}
    (first : Grouped heap groups freed) (second : Grouped heap others more) :
    Grouped heap (groups ++ others) (freed ++ more) := by
  refine ⟨by rw [List.flatMap_append, first.flat, second.flat], ?_, ?_⟩
  · intro group member
    rcases List.mem_append.mp member with early | late
    · exact first.filled group early
    · exact second.filled group late
  · intro group member
    rcases List.mem_append.mp member with early | late
    · exact first.pools group early
    · exact second.pools group late

theorem Tests.grouped (tests : Tests test) (ctxs : List Nat) (heap : PdHeap) (group : FreeGroup)
    (fits : group.freeGroup.length ≤ pdFreeBatchSize)
    (pool : ∀ index ∈ group.freeGroup, ctxPool heap index = group.curPoolId) :
    ∃ groups, flushGroup (groupLoop test ctxs heap group).1 (groupLoop test ctxs heap group).2 =
        freeAll (testAll test heap ctxs) groups ∧
      Grouped heap groups (group.freeGroup ++ freedBy test heap ctxs) := by
  induction ctxs generalizing heap group with
  | nil =>
    refine ⟨groupCalls group, flushGroup_eq heap group, ?_⟩
    rw [freedBy, List.append_nil]
    exact groupCalls_grouped fits pool
  | cons index rest ih =>
    have own := tests.pools heap index
    rw [groupLoop, freedBy]
    by_cases found : (test heap index).2 = true
    · simp only [found, ↓reduceIte, addToGroup]
      split
      · obtain ⟨after, freed, pools⟩ := tests.flush_after (test heap index).1 group rest
        obtain ⟨groups, final, grouped⟩ := ih (flushGroup (test heap index).1 group)
          ⟨ctxPool (test heap index).1 index, [index]⟩ (by simp [pdFreeBatchSize]) (by simp [pools])
        rw [freed] at grouped
        refine ⟨groupCalls group ++ groups, ?_, (groupCalls_grouped fits pool).append
          ⟨grouped.flat, grouped.filled, ?_⟩⟩
        · rw [final, after, flushGroup_eq, ← freeAll_append]
          rfl
        · simpa only [pools, own] using grouped.pools
      next room =>
        rw [not_or, not_not] at room
        obtain ⟨groups, final, grouped⟩ := ih (test heap index).1
          { group with freeGroup := group.freeGroup ++ [index] }
          (by simp only [List.length_append, List.length_singleton]; omega) (by
            intro other member
            rcases List.mem_append.mp member with held | new
            · rw [own]
              exact pool other held
            · rw [List.mem_singleton] at new
              exact new ▸ room.1)
        rw [List.append_assoc, List.singleton_append] at grouped
        exact ⟨groups, final, grouped.flat, grouped.filled, own ▸ grouped.pools⟩
    · simp only [found, Bool.false_eq_true, ↓reduceIte]
      obtain ⟨groups, final, grouped⟩ := ih (test heap index).1 group fits (own ▸ pool)
      exact ⟨groups, final, grouped.flat, grouped.filled, own ▸ grouped.pools⟩

theorem Tests.batched (tests : Tests test) (heap : PdHeap) (ctxs : List Nat) :
    Batched heap (ctxs.foldl (freeAlone test) heap)
      (flushGroup (groupLoop test ctxs heap .none).1 (groupLoop test ctxs heap .none).2)
      (freedBy test heap ctxs) := by
  obtain ⟨groups, final, grouped⟩ := tests.grouped ctxs heap .none (by decide) (by
    simp [FreeGroup.none])
  obtain ⟨pools, calls⟩ := tests.testAll_pools heap ctxs
  have batch := freeAll_eq (testAll test heap ctxs) groups (by rw [pools]; exact grouped.pools)
  have single := freeAll_eq (testAll test heap ctxs)
    ((freedBy test heap ctxs).map fun index => (ctxPool heap index, [index])) (by simp [pools])
  have flat : ((freedBy test heap ctxs).map fun index =>
      (ctxPool heap index, [index])).flatMap Prod.snd = freedBy test heap ctxs := by
    simp [List.flatMap_map]
  rw [final, batch, tests.alone heap ctxs, single, flat, grouped.flat]
  exact ⟨⟨groups, by rw [calls], grouped⟩, by rw [calls], rfl⟩

theorem refReleaseLoop_eq (ctxs : List Nat) (heap : PdHeap) (group : FreeGroup) :
    refReleaseLoop ctxs heap group = groupLoop releaseTest ctxs heap group := by
  induction ctxs generalizing heap group with
  | nil => rfl
  | cons index rest ih => simp only [refReleaseLoop, groupLoop, ih]

theorem contexts_cons (flag : BitVec 16) (pd : Pd) (rest : List Pd) :
    contexts flag (pd :: rest) =
      if pd.has flag then pd.ctx.toList ++ contexts flag rest else contexts flag rest := by
  rw [contexts, List.filter_cons]
  split
  · cases ctx : pd.ctx <;> simp [contexts, ctx]
  · rfl

def HasContexts (flag : BitVec 16) (pds : List Pd) : Prop :=
  ∀ pd ∈ pds, pd.has flag = true → pd.ctx ≠ none

theorem HasContexts.cons {pd : Pd} {rest : List Pd} (present : HasContexts flag (pd :: rest)) :
    HasContexts flag rest ∧ (pd.has flag = true → ∃ index, pd.ctx = some index) :=
  ⟨fun other member => present other (List.mem_cons_of_mem _ member),
    fun has => Option.ne_none_iff_exists'.mp (present pd List.mem_cons_self has)⟩

theorem flaggedLoop_eq (test : PdHeap → Nat → PdHeap × Bool) (present : HasContexts flag pds)
    (heap : PdHeap) (group : FreeGroup) :
    flaggedLoop test flag pds heap group =
      some (groupLoop test (contexts flag pds) heap group) := by
  induction pds generalizing heap group with
  | nil => rfl
  | cons pd rest ih =>
    obtain ⟨behind, here⟩ := present.cons
    rw [flaggedLoop, contexts_cons]
    split
    next has =>
      obtain ⟨index, ctx⟩ := here has
      simp only [ctx, Option.bind_some, Option.toList_some, List.singleton_append, groupLoop,
        ih behind]
      split <;> rfl
    · exact ih behind heap group

theorem uinetPdDropInjected_batched (present : HasContexts pdInject pds) (heap : PdHeap) :
    ∃ final, uinetPdDropInjected heap pds = some final ∧
      Batched heap ((contexts pdInject pds).foldl (freeAlone releaseTest) heap) final
        (freedBy releaseTest heap (contexts pdInject pds)) := by
  refine ⟨_, ?_, releaseTest_tests.batched heap (contexts pdInject pds)⟩
  rw [uinetPdDropInjected, flaggedLoop_eq releaseTest present, Option.map_some]

theorem freedBy_dropTest (heap : PdHeap) (ctxs : List Nat) : freedBy dropTest heap ctxs = ctxs := by
  induction ctxs with
  | nil => rfl
  | cons index rest ih => rw [freedBy, dropTest, if_pos rfl, ih]

theorem freedBy_sublist (test : PdHeap → Nat → PdHeap × Bool) (heap : PdHeap) (ctxs : List Nat) :
    (freedBy test heap ctxs).Sublist ctxs := by
  induction ctxs generalizing heap with
  | nil => exact List.Sublist.slnil
  | cons index rest ih =>
    rw [freedBy]
    split
    · exact (ih _).cons_cons index
    · exact (ih _).cons index

theorem releaseTest_found {index : Nat} (found : (releaseTest heap index).2 = true) :
    (releaseTest heap index).1 = heap := by
  rw [releaseTest] at found ⊢
  split
  · rfl
  next shared =>
    rw [if_neg shared] at found
    split
    · rfl
    next more =>
      rw [if_neg more] at found
      exact absurd (of_decide_eq_true found) more

theorem freeAlone_of_last (last : freedBy releaseTest heap ctxs = ctxs) :
    ctxs.foldl (freeAlone releaseTest) heap = ctxs.foldl (freeAlone dropTest) heap := by
  induction ctxs generalizing heap with
  | nil => rfl
  | cons index rest ih =>
    rw [freedBy] at last
    by_cases found : (releaseTest heap index).2 = true
    · have same := releaseTest_found found
      simp only [found, ↓reduceIte, same, List.cons.injEq, true_and] at last
      have next := (releaseTest_tests.poolFree_after heap (ctxPool heap index) [index] rest).2
      rw [List.foldl_cons, List.foldl_cons, freeAlone, freeAlone, if_pos found, same]
      exact ih (next.trans last)
    · simp only [found, Bool.false_eq_true, ↓reduceIte] at last
      have short := (freedBy_sublist releaseTest (releaseTest heap index).1 rest).length_le
      rw [last, List.length_cons] at short
      omega

/-- The three functions free in groups what they would free one by one. For `uinet_pd_drop` that
is every context it is given; it releases references only if all of them are last ones. -/
theorem pd_contexts_freed_in_groups (heap : PdHeap) (ctxs : List Nat) (pds : List Pd)
    (inject : HasContexts pdInject pds) (drop : HasContexts pdDrop pds) :
    Batched heap (ctxs.foldl (freeAlone releaseTest) heap) (uinetPdRefRelease heap ctxs)
        (freedBy releaseTest heap ctxs) ∧
      (∃ final, uinetPdDropInjected heap pds = some final ∧
        Batched heap ((contexts pdInject pds).foldl (freeAlone releaseTest) heap) final
          (freedBy releaseTest heap (contexts pdInject pds))) ∧
      ∃ final, uinetPdDrop heap pds = some final ∧
        Batched heap ((contexts pdDrop pds).foldl (freeAlone dropTest) heap) final
          (contexts pdDrop pds) ∧
        (Batched heap ((contexts pdDrop pds).foldl (freeAlone releaseTest) heap) final
            (freedBy releaseTest heap (contexts pdDrop pds)) ↔
          freedBy releaseTest heap (contexts pdDrop pds) = contexts pdDrop pds) := by
  refine ⟨?_, uinetPdDropInjected_batched inject heap, ?_⟩
  · have batched := releaseTest_tests.batched heap ctxs
    rw [← refReleaseLoop_eq] at batched
    exact batched
  · have batched := dropTest_tests.batched heap (contexts pdDrop pds)
    rw [freedBy_dropTest] at batched
    refine ⟨_, by rw [uinetPdDrop, flaggedLoop_eq dropTest drop, Option.map_some], batched, ?_, ?_⟩
    · rintro ⟨⟨groups, calls, grouped⟩, _, _⟩
      obtain ⟨others, same, all⟩ := batched.groups
      rw [same] at calls
      rw [← grouped.flat, ← List.append_cancel_left calls, all.flat]
    · intro last
      rw [freeAlone_of_last last, last]
      exact batched

def countedHeap (refcnt : BitVec 32) : PdHeap where
  ctx index := uinetPdMbufZinitPdCtx 1 index 0
  counters _ := refcnt
  zone := []
  freeCalls := []
  rteFreed := []
  mbufPoolId := 1

def dropFrame (ctx : Nat) : Pd :=
  ⟨pdDrop, 60, 1, 0, 0, some ctx, 0⟩

theorem pd_contexts_freed_in_groups_two :
    ∃ final, uinetPdDrop (countedHeap 1) [dropFrame 4, frame 5, dropFrame 6] = some final ∧
      final.freeCalls = [(1, [4, 6])] ∧
      Batched (countedHeap 1) ([4, 6].foldl (freeAlone releaseTest) (countedHeap 1)) final [4, 6] := by
  obtain ⟨_, _, final, dropped, _, alike⟩ := pd_contexts_freed_in_groups (countedHeap 1) []
    [dropFrame 4, frame 5, dropFrame 6] (by unfold HasContexts; decide)
    (by unfold HasContexts; decide)
  have freed : uinetPdDrop (countedHeap 1) [dropFrame 4, frame 5, dropFrame 6] = some _ := rfl
  rw [freed, Option.some.injEq] at dropped
  exact ⟨final, freed.trans (congrArg some dropped), dropped ▸ rfl, alike.mpr rfl⟩

theorem uinetPdDrop_frees_shared :
    ∃ final, uinetPdDrop (countedHeap 2) [dropFrame 4] = some final ∧
      final.freeCalls = [(1, [4])] ∧
      ([4].foldl (freeAlone releaseTest) (countedHeap 2)).freeCalls = [] ∧
      freedBy releaseTest (countedHeap 2) [4] = [] :=
  ⟨_, rfl, rfl, rfl, rfl⟩

end Libunsod.Uinet
