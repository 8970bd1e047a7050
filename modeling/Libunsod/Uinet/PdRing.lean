import Libunsod.Base.Runs
import Libunsod.Uinet.PdRingCore

/-!
The transmit-inject ring is a bounded queue. Every interleaving of injecting and
processing calls keeps the ring in step with a queue that accepts what it has
room for: descriptors are processed in the order of their injection, and none is
overwritten before its slot was released.
-/

namespace Libunsod.Uinet

open RingLog (Fifo Holds slotAfter store storeAll)
open Runs (Run)

variable {ring : PdRing} {pd : Pd} {pkts : List Pd} {nSnd : Nat}

theorem toNat_succ (word : BitVec 32) (room : word.toNat + 1 < 2 ^ 32) :
    (word + 1).toNat = word.toNat + 1 := by
  rw [BitVec.toNat_add]
  exact Nat.mod_eq_of_lt room

theorem toNat_pred {word : BitVec 32} (some_ : word ≠ 0) :
    ∃ less, word.toNat = less + 1 ∧ (word - 1).toNat = less := by
  have positive : 0 < word.toNat :=
    Nat.pos_of_ne_zero fun zero => some_ (BitVec.eq_of_toNat_eq zero)
  refine ⟨word.toNat - 1, by omega, ?_⟩
  rw [BitVec.toNat_sub_of_le (by rw [BitVec.le_def]; exact positive)]
  rfl

theorem ringNext_toNat {cur : BitVec 32} (inside : cur.toNat < ring.numDescs.toNat) :
    (uinetPdRingNext ring cur).toNat = slotAfter ring.numDescs.toNat cur.toNat := by
  have wide := ring.numDescs.isLt
  have sum := toNat_succ cur (by omega)
  rw [uinetPdRingNext, slotAfter, ← sum]
  by_cases last : cur + 1 = ring.numDescs
  · rw [if_pos last, if_pos (by rw [last])]
    rfl
  · rw [if_neg last, if_neg (fun same => last (BitVec.eq_of_toNat_eq same))]

theorem ringSpace_toNat (small : ring.numDescs.toNat ≤ 2 ^ 31)
    (put : ring.put.toNat < ring.numDescs.toNat) (take : ring.take.toNat < ring.numDescs.toNat) :
    (uinetPdRingSpace ring).toNat =
      if ring.put.toNat < ring.take.toNat then ring.take.toNat - ring.put.toNat - 1
      else ring.take.toNat + ring.numDescs.toNat - ring.put.toNat - 1 := by
  have one : (1 : BitVec 32).toNat = 1 := rfl
  have space : (ring.take - ring.put - 1).toNat =
      (2 ^ 32 - 1 + (2 ^ 32 - ring.put.toNat + ring.take.toNat) % 2 ^ 32) % 2 ^ 32 := by
    rw [BitVec.toNat_sub, BitVec.toNat_sub, one]
  have sign := BitVec.toInt_eq_toNat_cond (ring.take - ring.put - 1)
  simp only [uinetPdRingSpace]
  by_cases ahead : ring.put.toNat < ring.take.toNat
  · have plain : (ring.take - ring.put - 1).toNat = ring.take.toNat - ring.put.toNat - 1 := by
      rw [space]
      omega
    have positive : ¬(ring.take - ring.put - 1).toInt < 0 := by
      rw [sign, if_pos (by omega)]
      omega
    rw [if_neg positive, if_pos ahead, plain]
  · have wrapped : (ring.take - ring.put - 1).toNat =
        2 ^ 32 - 1 - (ring.put.toNat - ring.take.toNat) := by
      rw [space]
      omega
    have negative : (ring.take - ring.put - 1).toInt < 0 := by
      rw [sign, if_neg (by omega)]
      omega
    rw [if_pos negative, if_neg ahead, BitVec.toNat_add, wrapped]
    omega

theorem ringSpace_of_counts {released accepted : Nat} (positive : 0 < ring.numDescs.toNat)
    (small : ring.numDescs.toNat ≤ 2 ^ 31) (put : ring.put.toNat = accepted % ring.numDescs.toNat)
    (take : ring.take.toNat = released % ring.numDescs.toNat) (order : released ≤ accepted)
    (bounded : accepted ≤ released + (ring.numDescs.toNat - 1)) :
    (uinetPdRingSpace ring).toNat = ring.numDescs.toNat - 1 - (accepted - released) := by
  have putLt : ring.put.toNat < ring.numDescs.toNat := put ▸ Nat.mod_lt _ positive
  have takeLt : ring.take.toNat < ring.numDescs.toNat := take ▸ Nat.mod_lt _ positive
  rw [ringSpace_toNat small putLt takeLt]
  generalize ring.numDescs.toNat = size at *
  have split : accepted % size = (released % size + (accepted - released)) % size := by
    rw [Nat.mod_add_mod]
    congr 1
    omega
  by_cases fits : released % size + (accepted - released) < size
  · rw [Nat.mod_eq_of_lt fits] at split
    rw [if_neg (by omega)]
    omega
  · have past : (released % size + (accepted - released)) % size =
        released % size + (accepted - released) - size := by
      rw [Nat.mod_eq_sub_mod (by omega)]
      exact Nat.mod_eq_of_lt (by omega)
    rw [past] at split
    rw [if_pos (by omega)]
    omega

def injected (pkts : List Pd) : List Pd :=
  pkts.filter (Pd.has pdInject)

theorem injected_cons (pd : Pd) (rest : List Pd) :
    injected (pd :: rest) =
      if pd.has pdInject then pd :: injected rest else injected rest := by
  rw [injected, List.filter_cons]
  rfl

theorem injectOne_store {state : Injecting} (rest : List Pd) (inject : pd.has pdInject = true)
    (space : state.space ≠ 0) :
    injectOne state pd rest = { state with
      ring := { state.ring with descs := store state.ring.descs state.cur.toNat pd }
      cur := uinetPdRingNext state.ring state.cur
      space := state.space - 1 } := by
  rw [injectOne, if_pos inject, if_pos space]

theorem injectOne_drop {state : Injecting} (rest : List Pd) (inject : pd.has pdInject = true)
    (space : state.space = 0) :
    injectOne state pd rest = { state with
      numDrops := state.numDrops + 1
      toCheck := if state.numDrops = 0 then pd :: rest else state.toCheck } := by
  rw [injectOne, if_pos inject, if_neg (not_not.mpr space)]

theorem injectOne_skip (state : Injecting) (rest : List Pd) (other : ¬pd.has pdInject = true) :
    injectOne state pd rest = state := by
  rw [injectOne, if_neg other]

def PdRing.fill (ring : PdRing) (count : Nat) (pds : List Pd) : PdRing :=
  { ring with descs := storeAll ring.numDescs.toNat ring.descs count pds }

theorem injectLoop_stores (pkts : List Pd) (state : Injecting) (count : Nat)
    (positive : 0 < state.ring.numDescs.toNat)
    (cur : state.cur.toNat = count % state.ring.numDescs.toNat) :
    (injectLoop pkts state).ring =
        state.ring.fill count ((injected pkts).take state.space.toNat) ∧
      (injectLoop pkts state).cur.toNat =
        (count + min state.space.toNat (injected pkts).length) % state.ring.numDescs.toNat := by
  induction pkts generalizing state count with
  | nil => simp [injectLoop, injected, PdRing.fill, storeAll, cur]
  | cons pd rest ih =>
    rw [injectLoop, injected_cons]
    by_cases inject : pd.has pdInject = true
    · rw [if_pos inject]
      by_cases space : state.space = 0
      · have nothing : state.space.toNat = 0 := by
          rw [space]
          rfl
        rw [injectOne_drop rest inject space]
        obtain ⟨ring, last⟩ := ih { state with
          numDrops := state.numDrops + 1
          toCheck := if state.numDrops = 0 then pd :: rest else state.toCheck } count positive cur
        simp only [nothing, List.take_zero, Nat.zero_min] at ring last ⊢
        exact ⟨ring, last⟩
      · obtain ⟨less, whole, fewer⟩ := toNat_pred space
        have next : (uinetPdRingNext state.ring state.cur).toNat =
            (count + 1) % state.ring.numDescs.toNat := by
          rw [ringNext_toNat (cur ▸ Nat.mod_lt _ positive), cur]
          exact RingLog.slotAfter_mod count positive
        rw [injectOne_store rest inject space]
        obtain ⟨ring, last⟩ := ih { state with
            ring := { state.ring with descs := store state.ring.descs state.cur.toNat pd }
            cur := uinetPdRingNext state.ring state.cur
            space := state.space - 1 } (count + 1) positive next
        simp only [fewer, whole, cur] at ring last ⊢
        refine ⟨?_, ?_⟩
        · rw [ring, List.take_succ_cons]
          rfl
        · rw [last, List.length_cons]
          congr 1
          omega
    · rw [injectOne_skip state rest inject, if_neg inject]
      exact ih state count positive cur

theorem injectLoop_drops (state : Injecting) (few : state.numDrops.toNat + pkts.length < 2 ^ 32)
    (dropping : state.numDrops ≠ 0 → state.space = 0) :
    (injectLoop pkts state).numDrops =
        state.numDrops + BitVec.ofNat 32 ((injected pkts).length - state.space.toNat) ∧
      injected (injectLoop pkts state).toCheck =
        if state.numDrops = 0 ∧ state.space.toNat < (injected pkts).length
        then (injected pkts).drop state.space.toNat else injected state.toCheck := by
  induction pkts generalizing state with
  | nil => simp [injectLoop, injected]
  | cons pd rest ih =>
    simp only [List.length_cons] at few
    rw [injectLoop]
    by_cases inject : pd.has pdInject = true
    · have split : injected (pd :: rest) = pd :: injected rest := by
        rw [injected_cons, if_pos inject]
      by_cases space : state.space = 0
      · have nothing : state.space.toNat = 0 := by
          rw [space]
          rfl
        have more := toNat_succ state.numDrops (by omega)
        have counted : state.numDrops + 1 ≠ 0 := by
          intro zero
          rw [zero] at more
          have nothing : (0 : BitVec 32).toNat = 0 := rfl
          omega
        rw [injectOne_drop rest inject space]
        obtain ⟨drops, check⟩ := ih { state with
          numDrops := state.numDrops + 1
          toCheck := if state.numDrops = 0 then pd :: rest else state.toCheck }
          (by simp only [more]; omega) (fun _ => space)
        simp only [nothing, counted, false_and, ↓reduceIte, Nat.sub_zero] at drops check
        rw [drops, check, nothing, split]
        refine ⟨?_, ?_⟩
        · rw [BitVec.add_assoc, List.length_cons, Nat.sub_zero, Nat.add_comm, BitVec.ofNat_add]
          rfl
        · by_cases first : state.numDrops = 0
          · rw [if_pos first, if_pos ⟨first, by simp⟩, split, List.drop_zero]
          · rw [if_neg first, if_neg fun both => first both.1]
      · obtain ⟨less, whole, fewer⟩ := toNat_pred space
        have noDrops : state.numDrops = 0 := by
          by_contra some_
          exact space (dropping some_)
        rw [injectOne_store rest inject space, split]
        obtain ⟨drops, check⟩ := ih { state with
            ring := { state.ring with descs := store state.ring.descs state.cur.toNat pd }
            cur := uinetPdRingNext state.ring state.cur
            space := state.space - 1 } (by simp only; omega) (fun some_ => absurd noDrops some_)
        simp only [fewer, whole, List.length_cons, Nat.add_lt_add_iff_right,
          List.drop_succ_cons, Nat.add_sub_add_right] at drops check ⊢
        exact ⟨drops, check⟩
    · rw [injectOne_skip state rest inject, injected_cons, if_neg inject]
      exact ih state (by omega) dropping

structure TxTrace where
  sc : Softc
  fifo : Fifo Pd
  read : List Pd
  rejected : Nat
  reported : BitVec 32

variable {state next : TxTrace}

inductive TxEvent where
  | inject (pkts : List Pd)
  | begin
  | wake (timedOut stopCheck : Bool)
  | visit (nSnd : Nat)
  | finish (nSnd : Nat)

def TxTrace.capacity (state : TxTrace) : Nat :=
  state.sc.txInjectRing.numDescs.toNat - 1

def TxTrace.room (state : TxTrace) : Nat :=
  state.fifo.room state.capacity

def fetchedDrops (before after : Softc) : BitVec 32 :=
  before.txInjectRing.drops - after.txInjectRing.drops

def TxMove (state : TxTrace) (event : TxEvent) (next : TxTrace) : Prop :=
  match event with
  | .inject pkts =>
      state.sc.txDisabled = false ∧ pkts.length < 2 ^ 32 ∧
        (state.sc.txUseThread = false → state.sc.sender = .idle) ∧
        next = { state with
          sc := (ifDpdkInjectTxPkts state.sc pkts).1
          fifo := state.fifo.offer state.capacity (injected pkts)
          rejected := state.rejected + ((injected pkts).length - state.room) }
  | .begin =>
      state.sc.sender = .idle ∧
        next = { state with
          sc := processBegin state.sc
          fifo := if state.sc.txUseThread then state.fifo.release else state.fifo
          reported := state.reported + fetchedDrops state.sc (processBegin state.sc) }
  | .wake timedOut stopCheck =>
      state.sc.sender = .waiting ∧
        next = { state with
          sc := processWake state.sc timedOut stopCheck
          reported := state.reported +
            fetchedDrops state.sc (processWake state.sc timedOut stopCheck) }
  | .visit nSnd =>
      ∃ locals, state.sc.sender = .sending locals ∧
        locals.localCurInjectTake ≠ locals.curInjectPut ∧
        ∃ sc, processVisit state.sc locals nSnd = some sc ∧
          next = { state with
            sc := sc
            fifo := state.fifo.process
            read := state.read ++
              [state.sc.txInjectRing.descs locals.localCurInjectTake.toNat] }
  | .finish nSnd =>
      ∃ locals, state.sc.sender = .sending locals ∧
        locals.localCurInjectTake = locals.curInjectPut ∧
        next = { state with
          sc := processFinish state.sc locals nSnd
          fifo := if state.sc.txUseThread then state.fifo else state.fifo.release }

structure RingFaithful (state : TxTrace) : Prop where
  put : state.sc.txInjectRing.put.toNat < state.sc.txInjectRing.numDescs.toNat
  take : state.sc.txInjectRing.take.toNat < state.sc.txInjectRing.numDescs.toNat
  bounded : state.fifo.unreleased ≤ state.sc.txInjectRing.numDescs.toNat - 1
  avail : (uinetPdRingAvail state.sc.txInjectRing).toNat = state.fifo.unreleased
  processed : state.read = state.fifo.accepted.take state.fifo.processed
  order : state.fifo.released ≤ state.read.length
  kept : Holds state.sc.txInjectRing.descs state.sc.txInjectRing.numDescs.toNat
    state.fifo.accepted state.fifo.released
  counted : BitVec.ofNat 32 state.rejected = state.reported + state.sc.txInjectRing.drops
  turnedAway : ∀ pkts : List Pd, state.sc.txDisabled = false → pkts.length < 2 ^ 32 →
    injected (ifDpdkInjectTxPkts state.sc pkts).2 = (injected pkts).drop state.room

def SenderAt (state : TxTrace) : Prop :=
  match state.sc.sender with
  | .idle =>
      if state.sc.txUseThread then
        state.sc.curInjectTake.toNat =
          state.fifo.processed % state.sc.txInjectRing.numDescs.toNat
      else state.fifo.released = state.fifo.processed
  | .waiting => state.fifo.released = state.fifo.processed
  | .sending locals =>
      locals.localCurInjectTake.toNat =
          state.fifo.processed % state.sc.txInjectRing.numDescs.toNat ∧
        ∃ seen, state.fifo.processed ≤ seen ∧ seen ≤ state.fifo.accepted.length ∧
          locals.curInjectPut.toNat = seen % state.sc.txInjectRing.numDescs.toNat
  | .stopped => True

structure TxInv (state : TxTrace) : Prop where
  positive : 0 < state.sc.txInjectRing.numDescs.toNat
  small : state.sc.txInjectRing.numDescs.toNat ≤ 2 ^ 31
  within : state.fifo.Within state.capacity
  put : state.sc.txInjectRing.put.toNat =
    state.fifo.accepted.length % state.sc.txInjectRing.numDescs.toNat
  take : state.sc.txInjectRing.take.toNat =
    state.fifo.released % state.sc.txInjectRing.numDescs.toNat
  kept : Holds state.sc.txInjectRing.descs state.sc.txInjectRing.numDescs.toNat
    state.fifo.accepted state.fifo.released
  processed : state.read = state.fifo.accepted.take state.fifo.processed
  counted : BitVec.ofNat 32 state.rejected = state.reported + state.sc.txInjectRing.drops
  sender : SenderAt state

theorem TxInv.space (invariant : TxInv state) :
    (uinetPdRingSpace state.sc.txInjectRing).toNat = state.room := by
  have within := invariant.within
  exact ringSpace_of_counts invariant.positive invariant.small invariant.put invariant.take
    (Nat.le_trans within.order within.done) within.bounded

theorem TxInv.inject_ring (invariant : TxInv state) (enabled : state.sc.txDisabled = false)
    (few : pkts.length < 2 ^ 32) :
    ∃ put, (ifDpdkInjectTxPkts state.sc pkts).1 = { state.sc with
        txInjectRing := { state.sc.txInjectRing.fill state.fifo.accepted.length
            ((injected pkts).take state.room) with
          put := put
          drops := state.sc.txInjectRing.drops +
            BitVec.ofNat 32 ((injected pkts).length - state.room) }
        txPktsToSend := if state.sc.txUseThread then state.sc.txPktsToSend + 1
          else state.sc.txPktsToSend } ∧
      put.toNat = (state.fifo.accepted.length + min state.room (injected pkts).length) %
        state.sc.txInjectRing.numDescs.toNat ∧
      injected (ifDpdkInjectTxPkts state.sc pkts).2 = (injected pkts).drop state.room := by
  obtain ⟨ring, cur⟩ := injectLoop_stores pkts
    ⟨state.sc.txInjectRing, state.sc.txInjectRing.put, uinetPdRingSpace state.sc.txInjectRing, 0, []⟩
    state.fifo.accepted.length invariant.positive invariant.put
  obtain ⟨drops, check⟩ := injectLoop_drops
    ⟨state.sc.txInjectRing, state.sc.txInjectRing.put, uinetPdRingSpace state.sc.txInjectRing, 0, []⟩
    (by simpa using few) (fun some_ => absurd rfl some_)
  simp only [invariant.space, true_and] at ring cur drops check
  rw [show ∀ word : BitVec 32, 0 + word = word from BitVec.zero_add] at drops
  refine ⟨_, ?_, cur, ?_⟩
  · simp only [ifDpdkInjectTxPkts, enabled, Bool.false_eq_true, ↓reduceIte, ring, drops]
    rfl
  · simp only [ifDpdkInjectTxPkts, enabled, Bool.false_eq_true, ↓reduceIte, check]
    split
    · rfl
    next enough => exact (List.drop_eq_nil_of_le (Nat.not_lt.mp enough)).symm

theorem TxInv.faithful (invariant : TxInv state) : RingFaithful state := by
  have within := invariant.within
  have order := within.order
  have done := within.done
  have bounded := within.bounded
  have positive := invariant.positive
  simp only [TxTrace.capacity] at bounded
  have space := invariant.space
  refine ⟨invariant.put ▸ Nat.mod_lt _ positive, invariant.take ▸ Nat.mod_lt _ positive, ?_, ?_,
    invariant.processed, ?_, invariant.kept, invariant.counted, ?_⟩
  · simp only [Fifo.unreleased]
    omega
  · simp only [TxTrace.room, TxTrace.capacity, Fifo.room, Fifo.unreleased] at space
    have wide := state.sc.txInjectRing.numDescs.isLt
    have one : (1 : BitVec 32).toNat = 1 := rfl
    rw [uinetPdRingAvail, BitVec.toNat_sub, BitVec.toNat_sub, space, one, Fifo.unreleased]
    omega
  · rw [invariant.processed, List.length_take]
    omega
  · intro pkts enabled few
    exact (invariant.inject_ring enabled few).choose_spec.2.2

theorem TxInv.step_inject (invariant : TxInv state) (move : TxMove state (.inject pkts) next) :
    TxInv next := by
  obtain ⟨enabled, few, alone, rfl⟩ := move
  obtain ⟨put, same, position, _⟩ := invariant.inject_ring enabled few
  have within := invariant.within
  have order := within.order
  have done := within.done
  have bounded := within.bounded
  have positive := invariant.positive
  have small := (within.offer (injected pkts)).bounded
  simp only [same]
  simp only [TxTrace.capacity] at bounded small
  refine ⟨positive, invariant.small, within.offer _, ?_, invariant.take, ?_, ?_, ?_, ?_⟩
  · simp only [Fifo.offer, List.length_append, List.length_take]
    exact position
  · refine invariant.kept.appendAll _ _ ?_
    simp only [Fifo.offer, List.length_append] at small
    simp only [TxTrace.room, TxTrace.capacity]
    omega
  · simp only [Fifo.offer]
    rw [List.take_append_of_le_length done]
    exact invariant.processed
  · simp only
    rw [BitVec.ofNat_add, invariant.counted, BitVec.add_assoc]
  · have sender := invariant.sender
    simp only [SenderAt] at sender ⊢
    cases at_ : state.sc.sender with
    | idle | waiting =>
      rw [at_] at sender
      exact sender
    | sending locals =>
      rw [at_] at sender
      obtain ⟨place, seen, low, high, same⟩ := sender
      refine ⟨place, seen, low, ?_, same⟩
      simp only [Fifo.offer, List.length_append]
      omega
    | stopped => trivial

theorem TxInv.fetch (done : Bool) (invariant : TxInv state)
    (released : state.fifo.released = state.fifo.processed) :
    TxInv { state with
      sc := fetchRing state.sc done
      reported := state.reported + fetchedDrops state.sc (fetchRing state.sc done) } := by
  refine ⟨invariant.positive, invariant.small, invariant.within, invariant.put, invariant.take,
    invariant.kept, invariant.processed, ?_, ?_⟩
  · have zero : state.sc.txInjectRing.drops - 0 = state.sc.txInjectRing.drops :=
      BitVec.sub_zero _
    simp only [fetchedDrops, fetchRing, zero]
    rw [invariant.counted]
    exact (BitVec.add_zero _).symm
  · cases done with
    | true => trivial
    | false =>
      refine ⟨?_, state.fifo.accepted.length, invariant.within.done, Nat.le_refl _, invariant.put⟩
      rw [← released]
      exact invariant.take

theorem TxInv.step_begin (invariant : TxInv state) (move : TxMove state .begin next) :
    TxInv next := by
  obtain ⟨at_, rfl⟩ := move
  have sender := invariant.sender
  simp only [SenderAt, at_] at sender
  by_cases thread : state.sc.txUseThread = true
  · rw [if_pos thread] at sender
    have released : TxInv { state with
        sc := { state.sc with
          txInjectRing := { state.sc.txInjectRing with take := state.sc.curInjectTake }
          sender := .waiting }
        fifo := state.fifo.release } :=
      ⟨invariant.positive, invariant.small, invariant.within.release, invariant.put, sender,
        invariant.kept.release invariant.within.order, invariant.processed, invariant.counted,
        rfl⟩
    have body : processBegin state.sc =
        if state.sc.txPktsToSend = 0 then { state.sc with
          txInjectRing := { state.sc.txInjectRing with take := state.sc.curInjectTake }
          sender := .waiting }
        else fetchRing { state.sc with
          txInjectRing := { state.sc.txInjectRing with take := state.sc.curInjectTake } } false := by
      rw [processBegin, if_pos thread]
    rw [body, if_pos thread]
    split
    · refine { released with counted := ?_ }
      simp only [fetchedDrops, BitVec.sub_self]
      rw [invariant.counted]
      exact congrArg (· + _) (BitVec.add_zero _).symm
    · exact released.fetch false rfl
  · rw [if_neg thread] at sender
    rw [processBegin, if_neg thread, if_neg thread]
    exact invariant.fetch false sender

theorem TxInv.step_wake {timedOut stopCheck : Bool} (invariant : TxInv state)
    (move : TxMove state (.wake timedOut stopCheck) next) : TxInv next := by
  obtain ⟨at_, rfl⟩ := move
  have sender := invariant.sender
  simp only [SenderAt, at_] at sender
  simp only [processWake]
  split
  · simp only [fetchedDrops, BitVec.sub_self]
    refine { invariant with counted := ?_ }
    rw [invariant.counted]
    exact congrArg (· + _) (BitVec.add_zero _).symm
  · exact invariant.fetch _ sender

theorem processVisit_fields {sc after : Softc} {locals : Sending}
    (result : processVisit sc locals nSnd = some after) :
    after.txInjectRing = sc.txInjectRing ∧ ∃ moved, after.sender = .sending moved ∧
      moved.localCurInjectTake = uinetPdRingNext sc.txInjectRing locals.localCurInjectTake ∧
      moved.curInjectPut = locals.curInjectPut := by
  simp only [processVisit] at result
  split at result
  · simp at result
  · cases result
    simp only [sendBurst]
    split
    · split
      · exact ⟨rfl, _, rfl, rfl, rfl⟩
      · exact ⟨rfl, _, rfl, rfl, rfl⟩
    · exact ⟨rfl, _, rfl, rfl, rfl⟩

theorem TxInv.step_visit (invariant : TxInv state) (move : TxMove state (.visit nSnd) next) :
    TxInv next := by
  obtain ⟨locals, at_, more, after, result, rfl⟩ := move
  obtain ⟨ring, moved, sending, position, stop⟩ := processVisit_fields result
  have sender := invariant.sender
  simp only [SenderAt, at_] at sender
  obtain ⟨place, seen, low, high, put⟩ := sender
  have within := invariant.within
  have order := within.order
  have positive := invariant.positive
  have before : state.fifo.processed < seen := by
    refine Nat.lt_of_le_of_ne low fun same => more (BitVec.eq_of_toNat_eq ?_)
    rw [place, put, same]
  have listed : state.fifo.accepted[state.fifo.processed]? =
      some (state.sc.txInjectRing.descs locals.localCurInjectTake.toNat) := by
    have inside : state.fifo.processed < state.fifo.accepted.length := by omega
    rw [place, invariant.kept _ _ order (List.getElem?_eq_getElem inside),
      List.getElem?_eq_getElem inside]
  refine ⟨?_, ?_, ?_, ?_, ?_, ?_, ?_, ?_, ?_⟩
  · rw [ring]
    exact positive
  · rw [ring]
    exact invariant.small
  · have kept := within.process (by omega)
    simp only [TxTrace.capacity, ring] at kept ⊢
    exact kept
  · simp only [ring, Fifo.process]
    exact invariant.put
  · simp only [ring, Fifo.process]
    exact invariant.take
  · simp only [ring, Fifo.process]
    exact invariant.kept
  · simp only [Fifo.process]
    rw [List.take_add_one, listed, invariant.processed]
    rfl
  · simp only [ring]
    exact invariant.counted
  · simp only [SenderAt, sending, ring, Fifo.process, position, stop]
    refine ⟨?_, seen, before, high, put⟩
    rw [ringNext_toNat (place ▸ Nat.mod_lt _ positive), place]
    exact RingLog.slotAfter_mod _ positive

theorem processFinish_fields (sc : Softc) (locals : Sending) (nSnd : Nat) :
    (processFinish sc locals nSnd).sender = .idle ∧
      (processFinish sc locals nSnd).txUseThread = sc.txUseThread ∧
      (sc.txUseThread = true →
        (processFinish sc locals nSnd).txInjectRing = sc.txInjectRing ∧
        (processFinish sc locals nSnd).curInjectTake = locals.localCurInjectTake) ∧
      (sc.txUseThread = false → (processFinish sc locals nSnd).txInjectRing =
        { sc.txInjectRing with take := locals.localCurInjectTake }) := by
  simp only [processFinish, sendBurst]
  split <;> split <;> split <;> simp_all

theorem TxInv.step_finish (invariant : TxInv state) (move : TxMove state (.finish nSnd) next) :
    TxInv next := by
  obtain ⟨locals, at_, done, rfl⟩ := move
  obtain ⟨idle, mode, threaded, plain⟩ := processFinish_fields state.sc locals nSnd
  have sender := invariant.sender
  simp only [SenderAt, at_] at sender
  obtain ⟨place, _⟩ := sender
  generalize processFinish state.sc locals nSnd = after at *
  cases thread : state.sc.txUseThread with
  | true =>
    obtain ⟨ring, position⟩ := threaded thread
    simp only [↓reduceIte]
    refine ⟨ring ▸ invariant.positive, ring ▸ invariant.small, ?_, ring ▸ invariant.put,
      ring ▸ invariant.take, ring ▸ invariant.kept, invariant.processed,
      ring ▸ invariant.counted, ?_⟩
    · have within := invariant.within
      simp only [TxTrace.capacity, ring] at within ⊢
      exact within
    · simp only [SenderAt, idle, mode, thread, ↓reduceIte, position, ring]
      exact place
  | false =>
    have ring := plain thread
    simp only [Bool.false_eq_true, ↓reduceIte]
    have within := invariant.within.release
    simp only [TxTrace.capacity] at within
    refine ⟨?_, ?_, ?_, ?_, ?_, ?_, invariant.processed, ?_, ?_⟩
    · rw [ring]
      exact invariant.positive
    · rw [ring]
      exact invariant.small
    · simp only [TxTrace.capacity, ring]
      exact within
    · rw [ring]
      exact invariant.put
    · rw [ring]
      exact place
    · rw [ring]
      exact invariant.kept.release invariant.within.order
    · rw [ring]
      exact invariant.counted
    · simp only [SenderAt, idle, mode, thread, Bool.false_eq_true, ↓reduceIte]
      rfl

theorem TxInv.step (state : TxTrace) (event : TxEvent) (next : TxTrace) (invariant : TxInv state)
    (move : TxMove state event next) : TxInv next := by
  cases event with
  | inject pkts => exact invariant.step_inject move
  | begin => exact invariant.step_begin move
  | wake timedOut stopCheck => exact invariant.step_wake move
  | visit nSnd => exact invariant.step_visit move
  | finish nSnd => exact invariant.step_finish move

structure FreshRing (start : TxTrace) (numDescs : BitVec 32) (memory : Nat → Pd) : Prop where
  ring : start.sc.txInjectRing = uinetPdRingAlloc numDescs memory
  sender : start.sc.sender = .idle
  curInjectTake : start.sc.curInjectTake = 0
  fifo : start.fifo = .empty
  read : start.read = []
  rejected : start.rejected = 0
  reported : start.reported = 0

theorem FreshRing.txInv {start : TxTrace} {numDescs : BitVec 32} {memory : Nat → Pd}
    (fresh : FreshRing start numDescs memory) (small : numDescs.toNat ≤ 2 ^ 31) : TxInv start := by
  have positive : 0 < start.sc.txInjectRing.numDescs.toNat := by
    rw [fresh.ring, uinetPdRingAlloc]
    split
    · exact Nat.one_pos
    next some_ => exact Nat.pos_of_ne_zero fun zero => some_ (BitVec.eq_of_toNat_eq zero)
  refine ⟨positive, ?_, ?_, ?_, ?_, ?_, ?_, ?_, ?_⟩
  · rw [fresh.ring, uinetPdRingAlloc]
    split
    · exact Nat.one_le_two_pow
    · exact small
  · rw [fresh.fifo]
    exact Fifo.empty_within _
  · rw [fresh.fifo, Fifo.empty, List.length_nil, Nat.zero_mod, fresh.ring]
    rfl
  · rw [fresh.fifo, Fifo.empty, Nat.zero_mod, fresh.ring]
    rfl
  · rw [fresh.fifo]
    intro index item _ listed
    simp [Fifo.empty] at listed
  · rw [fresh.read, fresh.fifo]
    rfl
  · rw [fresh.rejected, fresh.reported, fresh.ring]
    rfl
  · simp only [SenderAt, fresh.sender, fresh.fifo, Fifo.empty]
    split
    · rw [fresh.curInjectTake, Nat.zero_mod]
      rfl
    · trivial

/-- In every interleaving, threaded or not, a ring of at most 2^31 descriptors
is the bounded queue. -/
theorem tx_ring_faithful (start final : TxTrace) (events : List TxEvent) (numDescs : BitVec 32)
    (memory : Nat → Pd) (fresh : FreshRing start numDescs memory)
    (small : numDescs.toNat ≤ 2 ^ 31) (run : Run TxMove start events final) :
    RingFaithful final := by
  have reached : TxInv final := Run.invariant TxInv (fresh.txInv small) TxInv.step run
  exact reached.faithful

def attached (txUseThread : Bool) (numDescs : BitVec 32) : TxTrace where
  sc :=
    { txDisabled := false
      txUseThread := txUseThread
      txPktsToSend := 0
      txInjectRing := uinetPdRingAlloc numDescs fun _ => ⟨0, 0, 0, 0, 0, none, 0⟩
      curInjectTake := 0
      sender := .idle
      ifOpackets := 0
      ifOerrors := 0
      ifOcopies := 0
      ifObytes := 0
      sent := []
      refReleased := [] }
  fifo := .empty
  read := []
  rejected := 0
  reported := 0

def frame (ctx : Nat) : Pd :=
  ⟨pdInject, 60, 0, 0, 0, some ctx, BitVec.ofNat 64 ctx⟩

theorem tx_ring_faithful_two :
    ∃ final, Run TxMove (attached true 2)
        [.inject [frame 7, frame 8], .begin, .visit 0, .inject [frame 9], .finish 1, .begin,
          .inject [frame 10]] final ∧
      final.fifo.accepted = [frame 7, frame 10] ∧ final.rejected = 2 ∧ RingFaithful final := by
  exact Run.exists_with_two (fun _ run => tx_ring_faithful (attached true 2) _ _ 2
    (fun _ => ⟨0, 0, 0, 0, 0, none, 0⟩) ⟨rfl, rfl, rfl, rfl, rfl, rfl, rfl⟩ (by decide) run)
    ⟨_, Run.snoc (Run.snoc (Run.snoc (Run.snoc (Run.snoc (Run.snoc (Run.snoc Run.nil
      ⟨rfl, by decide, nofun, rfl⟩) ⟨rfl, rfl⟩) ⟨_, rfl, by decide, _, rfl, rfl⟩)
      ⟨rfl, by decide, nofun, rfl⟩) ⟨_, rfl, rfl, rfl⟩) ⟨rfl, rfl⟩)
      ⟨rfl, by decide, nofun, rfl⟩, rfl, rfl⟩

theorem injectTxPkts_put (sc : Softc) (pkts : List Pd) (count : Nat)
    (enabled : sc.txDisabled = false) (positive : 0 < sc.txInjectRing.numDescs.toNat)
    (put : sc.txInjectRing.put.toNat = count % sc.txInjectRing.numDescs.toNat) :
    ((ifDpdkInjectTxPkts sc pkts).1.txInjectRing.numDescs = sc.txInjectRing.numDescs ∧
      (ifDpdkInjectTxPkts sc pkts).1.txInjectRing.take = sc.txInjectRing.take) ∧
    (ifDpdkInjectTxPkts sc pkts).1.txInjectRing.put.toNat =
      (count + min (uinetPdRingSpace sc.txInjectRing).toNat (injected pkts).length) %
        sc.txInjectRing.numDescs.toNat := by
  obtain ⟨ring, cur⟩ := injectLoop_stores pkts
    ⟨sc.txInjectRing, sc.txInjectRing.put, uinetPdRingSpace sc.txInjectRing, 0, []⟩ count positive
    put
  simp only [ifDpdkInjectTxPkts, enabled, Bool.false_eq_true, ↓reduceIte, ring]
  exact ⟨⟨rfl, rfl⟩, cur⟩

theorem hugeRing_overrun (all : injected pkts = pkts) (filling : pkts.length = 0x80000001) :
    ∃ final, Run TxMove (attached false 0x80000002) [.inject pkts, .inject [frame 8]] final ∧
      final.sc.txInjectRing.put = final.sc.txInjectRing.take ∧
      final.fifo.unreleased = 0x80000001 ∧
      uinetPdRingAvail final.sc.txInjectRing = 0 := by
  obtain ⟨⟨sizeFull, takeFull⟩, putFull⟩ := injectTxPkts_put (attached false 0x80000002).sc pkts 0
    rfl (by decide) rfl
  have spaceEmpty : (uinetPdRingSpace (attached false 0x80000002).sc.txInjectRing).toNat =
      0x80000001 := by decide
  rw [all, filling, spaceEmpty] at putFull
  have run : Run TxMove (attached false 0x80000002) [.inject pkts] _ :=
    Run.snoc Run.nil ⟨rfl, by rw [filling]; decide, fun _ => rfl, rfl⟩
  have enabled : (ifDpdkInjectTxPkts (attached false 0x80000002).sc pkts).1.txDisabled = false :=
    rfl
  have idle : (ifDpdkInjectTxPkts (attached false 0x80000002).sc pkts).1.sender = .idle := rfl
  generalize (ifDpdkInjectTxPkts (attached false 0x80000002).sc pkts).1 = full at *
  have spaceFull : (uinetPdRingSpace full.txInjectRing).toNat = 0x7ffffffe := by
    have put : full.txInjectRing.put = 0x80000001 := BitVec.eq_of_toNat_eq putFull
    rw [uinetPdRingSpace, sizeFull, takeFull, put]
    decide
  obtain ⟨⟨sizeLost, takeLost⟩, putLost⟩ := injectTxPkts_put full [frame 8] 0x80000001 enabled
    (by rw [sizeFull]; decide) (by rw [putFull, sizeFull, Nat.zero_add, Nat.min_self])
  rw [spaceFull, sizeFull] at putLost
  have empty : (ifDpdkInjectTxPkts full [frame 8]).1.txInjectRing.put = 0 :=
    BitVec.eq_of_toNat_eq putLost
  have size : (attached false 0x80000002).sc.txInjectRing.numDescs.toNat = 0x80000002 := by decide
  have start : (attached false 0x80000002).fifo = .empty := rfl
  refine ⟨_, Run.snoc run ⟨enabled, by decide, fun _ => idle, rfl⟩, ?_, ?_, ?_⟩
  · simp only
    rw [empty, takeLost, takeFull]
    rfl
  · simp only [Fifo.unreleased, Fifo.offer, Fifo.room, TxTrace.capacity, all, sizeFull, size, start,
      Fifo.empty, List.length_append, List.length_take, List.length_nil, filling]
    omega
  · simp only
    rw [uinetPdRingAvail, uinetPdRingSpace, empty, takeLost, takeFull, sizeLost, sizeFull]
    decide

theorem tx_ring_lost_when_huge :
    ∃ final, Run TxMove (attached false 0x80000002)
        [.inject (List.replicate 0x80000001 (frame 7)), .inject [frame 8]] final ∧
      final.sc.txInjectRing.put = final.sc.txInjectRing.take ∧
      final.fifo.unreleased = 0x80000001 ∧ ¬RingFaithful final := by
  have all : injected (List.replicate 0x80000001 (frame 7)) =
      List.replicate 0x80000001 (frame 7) := by
    rw [injected, List.filter_replicate, if_pos (by decide)]
  obtain ⟨final, run, empty, unreleased, avail⟩ := hugeRing_overrun all List.length_replicate
  refine ⟨final, run, empty, unreleased, fun faithful => ?_⟩
  have same := faithful.avail
  rw [avail, unreleased] at same
  exact absurd same (by decide)

end Libunsod.Uinet
