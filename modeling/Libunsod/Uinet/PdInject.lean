import Libunsod.Uinet.PdDrop

/-!
What `if_dpdk_inject_tx_pkts` does with the descriptors it is given, and which descriptors the
transmit-inject path follows to a context. The descriptors that find no room are dropped by a
second pass over the rest of the list.
-/

namespace Libunsod.Uinet

open RingLog (Holds store storeAll)
open Runs (Run)

variable {ring : PdRing} {pds pkts : List Pd}

theorem injectLoop_rejects (state : Injecting) (few : pkts.length < 2 ^ 32)
    (none_ : state.numDrops = 0) (nothing : state.toCheck = []) :
    injected (injectLoop pkts state).toCheck = (injected pkts).drop state.space.toNat := by
  rw [(injectLoop_drops state (by simpa [none_] using few) (by simp [none_])).2, nothing]
  split
  · rfl
  next fits =>
    rw [List.drop_eq_nil_of_le (by simpa [none_] using fits)]
    rfl

structure TouchTrace where
  sc : Softc
  touched : List Pd

def TouchMove (given : Pd → Prop) (state : TouchTrace) (event : TxEvent) (next : TouchTrace) :
    Prop :=
  match event with
  | .inject pkts =>
      pkts.length < 2 ^ 32 ∧ (∀ pd ∈ pkts, given pd) ∧
        next = ⟨(ifDpdkInjectTxPkts state.sc pkts).1,
          state.touched ++ injected (ifDpdkInjectTxPkts state.sc pkts).2⟩
  | .begin => state.sc.sender = .idle ∧ next = { state with sc := processBegin state.sc }
  | .wake timedOut stopCheck =>
      state.sc.sender = .waiting ∧
        next = { state with sc := processWake state.sc timedOut stopCheck }
  | .visit nSnd =>
      ∃ locals, state.sc.sender = .sending locals ∧
        locals.localCurInjectTake ≠ locals.curInjectPut ∧
        next = ⟨(processVisit state.sc locals nSnd).getD state.sc,
          state.touched ++ [state.sc.txInjectRing.descs locals.localCurInjectTake.toNat]⟩
  | .finish nSnd =>
      ∃ locals, state.sc.sender = .sending locals ∧
        locals.localCurInjectTake = locals.curInjectPut ∧
        next = { state with sc := processFinish state.sc locals nSnd }

structure FreshTouch (start : TouchTrace) (numDescs : BitVec 32) (memory : Nat → Pd) : Prop where
  ring : start.sc.txInjectRing = uinetPdRingAlloc numDescs memory
  sender : start.sc.sender = .idle
  curInjectTake : start.sc.curInjectTake = 0
  touched : start.touched = []

structure Written (holds : Pd → Prop) (state : TouchTrace) (stored : Nat) : Prop where
  touched : ∀ pd ∈ state.touched, holds pd
  positive : 0 < state.sc.txInjectRing.numDescs.toNat
  slots : ∀ slot < stored, slot < state.sc.txInjectRing.numDescs.toNat →
    holds (state.sc.txInjectRing.descs slot)
  put : state.sc.txInjectRing.put.toNat = stored % state.sc.txInjectRing.numDescs.toNat
  take : ∃ early ≤ stored, state.sc.txInjectRing.take.toNat =
    early % state.sc.txInjectRing.numDescs.toNat
  cur : state.sc.sender = .idle → state.sc.txUseThread = true → ∃ early ≤ stored,
    state.sc.curInjectTake.toNat = early % state.sc.txInjectRing.numDescs.toNat
  sender : ∀ locals, state.sc.sender = .sending locals → ∃ early late, early ≤ late ∧
    late ≤ stored ∧
    locals.localCurInjectTake.toNat = early % state.sc.txInjectRing.numDescs.toNat ∧
    locals.curInjectPut.toNat = late % state.sc.txInjectRing.numDescs.toNat

variable {holds : Pd → Prop} {state next : TouchTrace} {stored : Nat}

theorem storeAll_all {size count : Nat} {slots : Nat → Pd} (items : List Pd)
    (earlier : ∀ slot < count, slot < size → holds (slots slot)) (all : ∀ pd ∈ items, holds pd) :
    ∀ slot < count + items.length, slot < size → holds (storeAll size slots count items slot) := by
  induction items generalizing slots count with
  | nil => exact earlier
  | cons item rest ih =>
    intro slot before inside
    refine ih ?_ (fun pd member => all pd (List.mem_cons_of_mem _ member)) slot
      (by rw [List.length_cons] at before; omega) inside
    intro slot early inside
    rw [store]
    split
    · exact all item List.mem_cons_self
    next other =>
      refine earlier slot ?_ inside
      have different : slot ≠ count := fun same => other (by rw [same, Nat.mod_eq_of_lt (same ▸ inside)])
      omega

theorem Written.inject (written : Written holds state stored) (few : pkts.length < 2 ^ 32)
    (given : ∀ pd ∈ injected pkts, holds pd) :
    ∃ stored, Written holds ⟨(ifDpdkInjectTxPkts state.sc pkts).1,
      state.touched ++ injected (ifDpdkInjectTxPkts state.sc pkts).2⟩ stored := by
  have more (others : List Pd) (listed : ∀ pd ∈ others, pd ∈ injected pkts) :
      ∀ pd ∈ state.touched ++ others, holds pd := by
    intro pd member
    rcases List.mem_append.mp member with old | new
    · exact written.touched pd old
    · exact given pd (listed pd new)
  by_cases disabled : state.sc.txDisabled = true
  · simp only [ifDpdkInjectTxPkts, disabled, ↓reduceIte]
    exact ⟨stored, { written with touched := more _ fun _ => id }⟩
  · simp only [ifDpdkInjectTxPkts, disabled, Bool.false_eq_true, ↓reduceIte]
    generalize uinetPdRingSpace state.sc.txInjectRing = space
    obtain ⟨ring, cur⟩ := injectLoop_stores pkts ⟨state.sc.txInjectRing, state.sc.txInjectRing.put,
      space, 0, []⟩ stored written.positive written.put
    have rejected := injectLoop_rejects ⟨state.sc.txInjectRing, state.sc.txInjectRing.put,
      space, 0, []⟩ few rfl rfl
    have slots := storeAll_all ((injected pkts).take space.toNat) written.slots
      fun pd member => given pd (List.mem_of_mem_take member)
    have grows : stored ≤ stored + ((injected pkts).take space.toNat).length :=
      Nat.le_add_right _ _
    rw [ring, rejected]
    refine ⟨stored + ((injected pkts).take space.toNat).length,
      more _ fun _ => List.mem_of_mem_drop, written.positive, slots, ?_, ?_, ?_, ?_⟩
    · simp only [cur, List.length_take]
      rfl
    · obtain ⟨early, before, take⟩ := written.take
      exact ⟨early, before.trans grows, take⟩
    · intro idle thread
      obtain ⟨early, before, at_⟩ := written.cur idle thread
      exact ⟨early, before.trans grows, at_⟩
    · intro locals sending
      obtain ⟨early, late, order, before, at_⟩ := written.sender locals sending
      exact ⟨early, late, order, before.trans grows, at_⟩

theorem Written.fetch (written : Written holds state stored) (done : Bool) :
    Written holds { state with sc := fetchRing state.sc done } stored := by
  obtain ⟨early, before, take⟩ := written.take
  refine ⟨written.touched, written.positive, written.slots, written.put, written.take, ?_, ?_⟩
  · cases done <;> simp [fetchRing]
  · intro locals sending
    cases done with
    | true => simp [fetchRing] at sending
    | false =>
      simp only [fetchRing, Bool.false_eq_true, ↓reduceIte, Sender.sending.injEq] at sending
      subst sending
      exact ⟨early, stored, before, Nat.le_refl _, take, written.put⟩

theorem Written.step {given : Pd → Prop} {event : TxEvent} (written : Written holds state stored)
    (used : ∀ pd, given pd → pd.has pdInject → holds pd)
    (move : TouchMove given state event next) : ∃ stored, Written holds next stored := by
  cases event with
  | inject pkts =>
    obtain ⟨few, all, rfl⟩ := move
    refine written.inject few fun pd member => ?_
    obtain ⟨listed, has⟩ := List.mem_filter.mp member
    exact used pd (all pd listed) has
  | begin =>
    obtain ⟨idle, rfl⟩ := move
    rw [processBegin]
    split
    next thread =>
      have released : Written holds { state with sc := { state.sc with
          txInjectRing := { state.sc.txInjectRing with take := state.sc.curInjectTake } } } stored :=
        { written with take := written.cur idle thread }
      dsimp only
      split
      · exact ⟨stored, { released with cur := by rintro ⟨⟩, sender := by rintro _ ⟨⟩ }⟩
      · exact ⟨stored, released.fetch false⟩
    · exact ⟨stored, written.fetch false⟩
  | wake timedOut stopCheck =>
    obtain ⟨waiting, rfl⟩ := move
    rw [processWake]
    split
    · exact ⟨stored, written⟩
    · exact ⟨stored, written.fetch _⟩
  | visit nSnd =>
    obtain ⟨locals, sending, apart, rfl⟩ := move
    obtain ⟨early, late, order, before, at_, put⟩ := written.sender locals sending
    have behind : early < late := by
      refine Nat.lt_of_le_of_ne order fun same => apart (BitVec.eq_of_toNat_eq ?_)
      rw [at_, put, same]
    have inside := Nat.mod_lt early written.positive
    have touched : ∀ pd ∈ state.touched ++
        [state.sc.txInjectRing.descs locals.localCurInjectTake.toNat], holds pd := by
      intro pd member
      rcases List.mem_append.mp member with old | new
      · exact written.touched pd old
      · rw [List.mem_singleton.mp new, at_]
        exact written.slots _ (by have := Nat.mod_le early state.sc.txInjectRing.numDescs.toNat
                                  omega) inside
    refine ⟨stored, ?_⟩
    cases result : processVisit state.sc locals nSnd with
    | none => exact { written with touched := touched }
    | some after =>
      obtain ⟨ring, moved, sender, taken, kept⟩ := processVisit_fields result
      rw [Option.getD_some]
      refine ⟨touched, ring ▸ written.positive, ring ▸ written.slots, ring ▸ written.put,
        ring ▸ written.take, by simp [sender], ?_⟩
      intro others now
      rw [sender, Sender.sending.injEq] at now
      subst now
      refine ⟨early + 1, late, behind, before, ?_, by rw [kept, put, ring]⟩
      rw [taken, ringNext_toNat (at_ ▸ inside), at_, ring]
      exact RingLog.slotAfter_mod early written.positive
  | finish nSnd =>
    obtain ⟨locals, sending, same, rfl⟩ := move
    obtain ⟨early, late, order, before, at_, put⟩ := written.sender locals sending
    obtain ⟨idle, kept, threaded, direct⟩ := processFinish_fields state.sc locals nSnd
    refine ⟨stored, ?_⟩
    cases thread : state.sc.txUseThread with
    | true =>
      obtain ⟨ring, cur⟩ := threaded thread
      refine ⟨written.touched, ring ▸ written.positive, ring ▸ written.slots, ring ▸ written.put,
        ring ▸ written.take, fun _ _ => ⟨early, order.trans before, ?_⟩, by simp [idle]⟩
      rw [cur, ring]
      exact at_
    | false =>
      have ring := direct thread
      refine ⟨written.touched, by rw [ring]; exact written.positive, by rw [ring]; exact written.slots,
        by rw [ring]; exact written.put, ⟨early, order.trans before, by rw [ring]; exact at_⟩, ?_,
        by simp [idle]⟩
      intro _ use
      rw [kept, thread] at use
      cases use

theorem FreshTouch.written {numDescs : BitVec 32} {memory : Nat → Pd}
    (fresh : FreshTouch state numDescs memory) : Written holds state 0 := by
  have zero : (0 : BitVec 32).toNat = 0 := rfl
  refine ⟨by simp [fresh.touched], ?_, nofun, ?_, ⟨0, Nat.le_refl _, ?_⟩,
    fun _ _ => ⟨0, Nat.le_refl _, ?_⟩, ?_⟩
  · rw [fresh.ring, uinetPdRingAlloc]
    split
    · exact Nat.one_pos
    next nonzero =>
      exact Nat.pos_of_ne_zero fun none_ => nonzero (BitVec.eq_of_toNat_eq none_)
  · rw [fresh.ring, Nat.zero_mod]
    rfl
  · rw [fresh.ring, Nat.zero_mod]
    rfl
  · rw [fresh.curInjectTake, Nat.zero_mod, zero]
  · simp [fresh.sender]

/-- The descriptors with INJECT and MGMT_ONLY, and no others, are used as if they had a context:
by the drop pass when the ring is full or transmit is disabled, and by the processing otherwise. -/
theorem mgmt_only_untouched_iff (given : Pd → Prop) :
    (∀ numDescs memory start events final, FreshTouch start numDescs memory →
      Run (TouchMove given) start events final → ∀ pd ∈ final.touched, ¬pd.has pdMgmtOnly) ↔
    ∀ pd, given pd → pd.has pdInject → ¬pd.has pdMgmtOnly := by
  constructor
  · intro untouched pd here inject
    have run : Run (TouchMove given) ⟨{ (attached true 2).sc with txDisabled := true }, []⟩
        [.inject [pd]] _ := .snoc .nil ⟨by simp, by simpa using here, rfl⟩
    refine untouched 2 _ _ _ _ ⟨rfl, rfl, rfl, rfl⟩ run pd ?_
    simp [ifDpdkInjectTxPkts, injected, inject]
  · intro plain numDescs memory start events final fresh run
    obtain ⟨stored, written⟩ := run.invariant
      (fun state => ∃ stored, Written (fun pd => ¬pd.has pdMgmtOnly) state stored)
      ⟨0, fresh.written⟩ fun state event next held move => held.elim fun stored written =>
        written.step plain move
    exact written.touched

def pdFlushFlow : BitVec 16 := 0x0100

def flushFrame : Pd :=
  ⟨pdInject ||| pdFlushFlow ||| pdMgmtOnly, 0, 0, 0, 0, none, 0⟩

theorem flush_context_read :
    ∃ final, Run (TouchMove (· = flushFrame)) ⟨(attached true 2).sc, []⟩
        [.inject [flushFrame], .inject [flushFrame], .begin, .visit 0] final ∧
      final.touched = [flushFrame, flushFrame] ∧ flushFrame.has pdMgmtOnly ∧
      (∀ sc locals nSnd, sc.txInjectRing.descs locals.localCurInjectTake.toNat = flushFrame →
        processVisit sc locals nSnd = none) ∧
      uinetPdDropInjected (countedHeap 1) [flushFrame] = none := by
  refine ⟨_, Run.snoc (Run.snoc (Run.snoc (Run.snoc Run.nil ⟨by decide, by simp, rfl⟩)
    ⟨by decide, by simp, rfl⟩) ⟨rfl, rfl⟩) ⟨_, rfl, by decide, rfl⟩, by decide, by decide, ?_,
    by decide⟩
  intro sc locals nSnd flush
  simp only [processVisit, flush]
  rfl

end Libunsod.Uinet
