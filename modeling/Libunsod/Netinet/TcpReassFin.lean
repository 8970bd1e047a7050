import Libunsod.Netinet.TcpReassSegq
import Libunsod.Netinet.TcpReassStream

/-!
The FIN behind the end of a stream. It is queued with the entry of the segment
that carries it, and goes with that entry: when a longer segment without it
covers the entry, or the segment itself is a duplicate of one without it, the
FIN is lost although it was received.
-/

namespace Libunsod.Netinet

open Runs (Run)
open Spans (Span Buffer)

variable {ticks : Nat}

structure FinState where
  tp : Tcpcb
  position : Nat
  given : Bool
  reports : Nat

inductive FinCall where
  | segment (seg : Segment) (env : ReassEnv)
  | deliverHoles (ticks : Nat)

variable {call : FinCall}

def FinState.ending (state : FinState) (seg : Segment) : Nat :=
  state.position + (seg.thSeq - state.tp.rcvNxt).toNat + seg.tlen

def FinState.moved (state : FinState) (tp : Tcpcb) : FinState :=
  { state with tp, position := state.position + (tp.rcvNxt - state.tp.rcvNxt).toNat }

def FinCall.Allowed (stop : Nat) (state : FinState) : FinCall → Prop
  | .segment seg env => GivenSegment state.tp seg ∧
      (0 < seg.tlen ∨ seg.thFlags &&& thFin ≠ 0) ∧ state.ending seg ≤ stop ∧
      (seg.thFlags &&& thFin ≠ 0 → state.ending seg = stop) ∧ env.zalloc ≠ none ∧
      ¬Refused state.tp env seg
  | .deliverHoles _ => True

def FinCall.perform (state : FinState) : FinCall → Option FinState
  | .segment seg env => (tcpReass state.tp (some seg) env).map fun result =>
      { state.moved (finProcessing result.tp result.flags) with
        given := state.given || decide (seg.thFlags &&& thFin ≠ 0)
        reports := state.reports + finCount result.flags }
  | .deliverHoles ticks => (tcpReassDeliverHoles state.tp ticks).map fun tp =>
      { state.moved tp with
        reports := state.reports + (tp.cantrcvmore.toNat - state.tp.cantrcvmore.toNat) }

def FinMove (stop : Nat) (state : FinState) (call : FinCall) (next : FinState) : Prop :=
  call.Allowed stop state ∧ call.perform state = some next

def FinCall.Careful (stop : Nat) (bare : Bool) (state : FinState) : FinCall → Prop
  | .segment seg _ =>
      if bare then seg.thFlags &&& thFin ≠ 0 → seg.tlen = 0
      else state.ending seg = stop → seg.thFlags &&& thFin ≠ 0
  | .deliverHoles _ => True

structure FinReported (stop : Nat) (start : Tcpcb) (state : FinState) : Prop where
  once : state.given = true → stop ≤ state.position → state.reports = 1
  atMost : state.reports ≤ 1
  complete : 0 < state.reports → stop ≤ state.position ∧
    ∃ appended, state.tp.soRcv = start.soRcv ++ appended ∧ (cellsOf appended).length = stop
  returns : ∀ call : FinCall, call.Allowed stop state → ∃ next, call.perform state = some next

def FinEntry (stop : Nat) (bare : Bool) (flags : BitVec 8) (first last : Nat) : Prop :=
  last ≤ stop ∧ (flags &&& thFin ≠ 0 → last = stop) ∧ (first = last → flags &&& thFin ≠ 0) ∧
    if bare then flags &&& thFin ≠ 0 → first = last else last = stop → flags &&& thFin ≠ 0

theorem finEntry_trims (stop : Nat) (bare : Bool) : TrimClosed (FinEntry stop bare) := by
  rintro flags start later last ⟨within, ends, empty, style⟩ behind inside
  refine ⟨within, ends, fun same => absurd same (Nat.ne_of_lt inside), ?_⟩
  cases bare with
  | true => exact fun fin => absurd (style fin) (by omega)
  | false => exact style

theorem finEntry_keeps (stop : Nat) (bare : Bool) : KeepsFin (FinEntry stop bare) := by
  rintro flags start last other first final fin ⟨_, ends, _, style⟩ ⟨within, _, empty, own⟩ covers
    overlaps
  have reached := ends fin
  cases bare with
  | true =>
    have bareFin := style fin
    exact empty (overlaps.resolve_left (by omega))
  | false => exact own (by omega)

def finView (stop : Nat) (bare : Bool) (start : Tcpcb) : View :=
  .since start (FinEntry stop bare) (finEntry_trims stop bare)

theorem finView_finEmpty (stop : Nat) (bare : Bool) (start : Tcpcb) :
    FinEmpty (finView stop bare start).extra :=
  fun _ _ own => own.2.2.1 rfl

structure FinOpen (stop : Nat) (bare : Bool) (start : Tcpcb) (state : FinState)
    (buffer : Buffer UInt8) : Prop where
  lined : Lined (finView stop bare start) state.tp buffer
  receives : state.tp.cantrcvmore = false
  tState : state.tp.tState = .established
  position : buffer.next = state.position
  level : buffer.cells.length = buffer.next
  waits : ∀ span ∈ buffer.spans, buffer.next < span.start
  queued : state.given = true → HasFin state.tp.tSegq
  unreported : state.reports = 0

structure FinShut (stop : Nat) (start : Tcpcb) (state : FinState) : Prop where
  shut : state.tp.cantrcvmore = true
  beyond : stop < state.position
  complete : ∃ appended, state.tp.soRcv = start.soRcv ++ appended ∧
    (cellsOf appended).length = stop
  reported : state.reports = 1

section Run

variable {stop : Nat} {bare : Bool} {start : Tcpcb} {state next : FinState}
  {buffer : Buffer UInt8}

theorem FinOpen.segment {seg : Segment} {env : ReassEnv}
    (invariant : FinOpen stop bare start state buffer)
    (allowed : (FinCall.segment seg env).Allowed stop state)
    (careful : (FinCall.segment seg env).Careful stop bare state)
    (performed : (FinCall.segment seg env).perform state = some next) :
    (∃ after, FinOpen stop bare start next after) ∨ FinShut stop start next := by
  obtain ⟨given, sent, within, ends, alloc, accepted⟩ := allowed
  simp only [FinCall.perform, Option.map_eq_some_iff] at performed
  obtain ⟨result, returned, rfl⟩ := performed
  have established : tcpsHaveEstablished state.tp.tState = true := by
    rw [invariant.tState]
    rfl
  have last : (givenSpan state.tp buffer.next seg).stop = state.ending seg := by
    rw [givenSpan_stop buffer.next given, FinState.ending, invariant.position]
  have first : (givenSpan state.tp buffer.next seg).start + seg.tlen = state.ending seg := by
    rw [givenSpan, FinState.ending, invariant.position]
  have own : FinEntry stop bare seg.thFlags (givenSpan state.tp buffer.next seg).start
      (givenSpan state.tp buffer.next seg).stop := by
    rw [last]
    refine ⟨within, ends, fun same => sent.resolve_left (by omega), ?_⟩
    cases bare with
    | true =>
      intro fin
      have none : seg.tlen = 0 := careful fin
      omega
    | false => exact careful
  rcases tcpReass_segq invariant.lined given own returned with
    ⟨none, _⟩ | ⟨te, lead, replace, middle, _, lined, same, presented⟩
  · exact absurd ((chooseEntry_eq_none_iff _ established alloc).mp none) accepted
  · have queued := invariant.lined.keepsFin (finEntry_keeps stop bare) lined own
    have lined : Lined (finView stop bare start) middle (buffer.insert _) := lined
    obtain ⟨after, facts⟩ := present_presented lined
      (same.cantrcvmore.trans invariant.receives) (same.tState ▸ established)
      (fun _ _ => trivial) presented
    have open_ := facts.cantrcvmore.trans (same.cantrcvmore.trans invariant.receives)
    have tState := facts.tState.trans (same.tState.trans invariant.tState)
    have level := facts.delivers.length invariant.level
    have forward : buffer.next ≤ after.next := facts.forward
    have reach : after.next ≤ buffer.next + 2 ^ 31 := facts.reach
    by_cases fin : result.flags &&& thFin ≠ 0
    · right
      have count : finCount result.flags = 1 := if_pos fin
      have running : result.tp.tState ≠ .timeWait := by
        rw [tState]
        decide
      have stopped : after.next = stop := by
        rcases facts.reported with none | ⟨flags, _, masked, fits⟩
        · simp [none] at fin
        · refine fits.2.1 ?_
          rw [masked, BitVec.and_assoc, BitVec.and_self] at fin
          exact fin
      have moved := invariant.lined.rcvNxt_sub (facts.lined.finProcessing result.flags running)
        (Nat.le_add_right_of_le forward) (show after.next + finCount _ < _ by omega)
      obtain ⟨appended, whole, cells, _⟩ := facts.lined.got open_
      refine ⟨?_, ?_, ⟨appended, ?_, by rw [cells, level, stopped]⟩, ?_⟩
      · simp only [FinState.moved, finProcessing, if_pos fin, if_neg running]
      · have reached : state.position + _ = after.next + finCount result.flags :=
          invariant.position ▸ moved
        simp only [FinState.moved]
        omega
      · obtain ⟨_, _, _, kept⟩ := finProcessing_eq result.tp result.flags
        simp only [FinState.moved, kept]
        exact whole
      · simp only [invariant.unreported, count]
    · left
      have count : finCount result.flags = 0 := if_neg fin
      have none : result.flags = 0 := by
        rcases facts.reported with none | ⟨flags, _, masked, _⟩
        · exact none
        · rw [masked, BitVec.and_assoc, BitVec.and_self, ← masked, not_not] at fin
          exact fin
      have plain : finProcessing result.tp result.flags = result.tp := if_neg fin
      have moved := invariant.lined.rcvNxt_sub facts.lined forward (by omega)
      refine ⟨after, ?_⟩
      simp only [FinState.moved, plain]
      refine ⟨facts.lined, open_, tState, invariant.position ▸ moved.symm, level, facts.waits,
        fun has => ?_, by simp only [invariant.unreported, count]⟩
      refine (facts.fins (finEntry_keeps stop bare) (queued ?_)).resolve_left (absurd none)
      rw [Bool.or_eq_true, decide_eq_true_eq] at has
      exact has.imp_left invariant.queued

theorem FinOpen.deliverHoles (invariant : FinOpen stop bare start state buffer)
    (performed : (FinCall.deliverHoles ticks).perform state = some next) :
    (∃ after, FinOpen stop bare start next after) ∨ FinShut stop start next := by
  obtain ⟨final, returned, delivered⟩ := tcpReassDeliverHoles_segq ticks (fun _ => trivial)
    fun _ => invariant.lined
  obtain ⟨floor, after, delivering, away⟩ := delivered (.inr (finView_finEmpty stop bare start))
  simp only [FinCall.perform, returned, Option.map_some, Option.some.injEq] at performed
  subst performed
  have reach := delivering.reach
  have moved := invariant.lined.rcvNxt_sub delivering.segq delivering.forward (by omega)
  rw [invariant.position] at moved
  cases shut : final.cantrcvmore with
  | false =>
    left
    obtain ⟨_, delivers, tState, _⟩ := delivering.receives shut
    have lined := delivering.widen.lined shut
    refine ⟨after, lined, shut, tState.trans invariant.tState, moved.symm,
      delivers.length invariant.level, ?_, fun has => delivering.fins shut (invariant.queued has),
      ?_⟩
    · rcases away with rfl | away
      · exact invariant.waits
      · exact lined.gap away
    · simp only [invariant.unreported, Bool.toNat_false, Nat.zero_sub]
  | true =>
    right
    obtain ⟨flags, first, last, cells, fin, fits, past, ⟨appended, whole, same, _⟩, level⟩ :=
      delivering.ended invariant.receives shut
    have stopped : last = stop := fits.2.1 fin
    refine ⟨shut, ?_, ⟨appended, whole, ?_⟩, ?_⟩
    · show stop < state.position + _
      rw [moved, ← stopped]
      exact past
    · rw [same, level invariant.level, stopped]
    · simp only [invariant.unreported, invariant.receives, Bool.toNat_true, Bool.toNat_false]

theorem FinShut.deliverHoles (invariant : FinShut stop start state)
    (performed : (FinCall.deliverHoles ticks).perform state = some next) :
    FinShut stop start next := by
  obtain ⟨final, returned, stays, kept⟩ :=
    tcpReassDeliverHoles_shut state.tp ticks invariant.shut
  simp only [FinCall.perform, returned, Option.map_some, Option.some.injEq] at performed
  subst performed
  obtain ⟨appended, whole, length⟩ := invariant.complete
  refine ⟨stays, Nat.lt_add_right _ invariant.beyond, ⟨appended, kept.trans whole, length⟩, ?_⟩
  simp only [invariant.reported, stays, invariant.shut, Nat.sub_self]

theorem FinOpen.step (invariant : FinOpen stop bare start state buffer)
    (moved : FinMove stop state call next) (careful : call.Careful stop bare state) :
    (∃ after, FinOpen stop bare start next after) ∨ FinShut stop start next := by
  cases call with
  | segment seg env => exact invariant.segment moved.1 careful moved.2
  | deliverHoles ticks => exact invariant.deliverHoles moved.2

theorem FinShut.step (invariant : FinShut stop start state) (moved : FinMove stop state call next) :
    FinShut stop start next := by
  cases call with
  | segment seg env =>
    have within : state.ending seg ≤ stop := moved.1.2.2.1
    have beyond := invariant.beyond
    rw [FinState.ending] at within
    omega
  | deliverHoles ticks => exact invariant.deliverHoles moved.2

theorem FinOpen.finReported (invariant : FinOpen stop bare start state buffer) :
    FinReported stop start state := by
  have none := invariant.unreported
  refine ⟨fun has reached => ?_, by omega, by omega, fun call allowed => ?_⟩
  · obtain ⟨q, member, fin⟩ := invariant.queued has
    obtain ⟨span, inside, carried⟩ := mem_carried (List.Forall₂.flip invariant.lined.queue) member
    have waits := invariant.waits span inside
    have ends : span.stop = stop := carried.fit.own.2.1 fin
    have size := span.start_le_stop
    have position := invariant.position
    omega
  · cases call with
    | segment seg env =>
      obtain ⟨result, returned⟩ := tcpReass_returns state.tp seg env allowed.2.2.2.2.1
      exact ⟨_, by rw [FinCall.perform, returned]; rfl⟩
    | deliverHoles ticks =>
      obtain ⟨final, returned, _⟩ := tcpReassDeliverHoles_segq ticks (fun _ => trivial)
        fun _ => invariant.lined
      exact ⟨_, by rw [FinCall.perform, returned]; rfl⟩

theorem FinShut.finReported (invariant : FinShut stop start state) :
    FinReported stop start state := by
  have one := invariant.reported
  refine ⟨fun _ _ => one, by omega, fun _ => ⟨Nat.le_of_lt invariant.beyond, invariant.complete⟩,
    fun call allowed => ?_⟩
  cases call with
  | segment seg env =>
    obtain ⟨result, returned⟩ := tcpReass_returns state.tp seg env allowed.2.2.2.2.1
    exact ⟨_, by rw [FinCall.perform, returned]; rfl⟩
  | deliverHoles ticks =>
    obtain ⟨final, returned, _⟩ := tcpReassDeliverHoles_shut state.tp ticks invariant.shut
    exact ⟨_, by rw [FinCall.perform, returned]; rfl⟩

end Run

/-- In every run the FIN is reported once, when everything before it has been
delivered, if every segment that ends at `stop` has the FIN or only empty ones do. -/
theorem fin_reported (stop : Nat) (bare : Bool) (start : Tcpcb) (calls : List FinCall)
    (final : FinState) (established : start.tState = .established)
    (receives : start.cantrcvmore = false) (empty : start.tSegq = [])
    (run : Run (fun state call next => FinMove stop state call next ∧
      call.Careful stop bare state) ⟨start, 0, false, 0⟩ calls final) :
    FinReported stop start final := by
  have reached : (∃ buffer, FinOpen stop bare start final buffer) ∨ FinShut stop start final := by
    refine Run.invariant (fun state => (∃ buffer, FinOpen stop bare start state buffer) ∨
      FinShut stop start state) ?_ ?_ run
    · refine .inl ⟨.empty, lined_start rfl rfl empty, receives, established, rfl, rfl, ?_, ?_, rfl⟩
      · simp [Buffer.empty]
      · rintro ⟨⟩
    · rintro state call next (⟨buffer, invariant⟩ | invariant) ⟨moved, careful⟩
      · exact invariant.step moved careful
      · exact .inr (invariant.step moved)
  rcases reached with ⟨buffer, invariant⟩ | invariant
  · exact invariant.finReported
  · exact invariant.finReported

theorem fin_reported_early :
    ∃ final, Run (fun state call next => FinMove 3 state call next ∧ call.Careful 3 false state)
        ⟨quietTcpcb .established false 0, 0, false, 0⟩
        [.segment ⟨1, thFin, 2, [7, 8]⟩ (roomyEnv 0 (some 0)),
          .segment ⟨0, 0, 1, [6]⟩ (roomyEnv 0 (some 1))] final ∧
      final.reports = 1 ∧ final.position = 4 ∧
      FinReported 3 (quietTcpcb .established false 0) final := by
  exact Run.exists_with_two (fun _ run => fin_reported 3 false _ _ _ rfl rfl rfl run)
    ⟨_, .snoc (.snoc .nil ⟨⟨⟨⟨rfl, by decide, by decide, by decide⟩, .inl (by decide), by decide,
      by decide, by decide, by decide⟩, rfl⟩, fun _ => by decide⟩)
      ⟨⟨⟨⟨rfl, by decide, by decide, by decide⟩, .inl (by decide), by decide, by decide,
        by decide, by decide⟩, rfl⟩, fun wrong => absurd wrong (by decide)⟩, rfl, rfl⟩

theorem fin_lost_by_overlap :
    ∃ final, Run (FinMove 4) ⟨quietTcpcb .established false 0, 0, false, 0⟩
        [.segment ⟨2, thFin, 2, [8, 9]⟩ (roomyEnv 0 (some 0)),
          .segment ⟨1, 0, 3, [7, 8, 9]⟩ (roomyEnv 0 (some 1)),
          .segment ⟨0, 0, 1, [6]⟩ (roomyEnv 0 (some 2))] final ∧
      final.given = true ∧ final.position = 4 ∧ final.reports = 0 ∧ final.tp.tSegq = [] ∧
      ¬FinReported 4 (quietTcpcb .established false 0) final := by
  refine ⟨_, .snoc (.snoc (.snoc .nil
    ⟨⟨⟨rfl, by decide, by decide, by decide⟩, .inl (by decide), by decide, by decide,
      by decide, by decide⟩, rfl⟩)
    ⟨⟨⟨rfl, by decide, by decide, by decide⟩, .inl (by decide), by decide, by decide,
      by decide, by decide⟩, rfl⟩)
    ⟨⟨⟨rfl, by decide, by decide, by decide⟩, .inl (by decide), by decide, by decide,
      by decide, by decide⟩, rfl⟩, rfl, rfl, rfl, rfl, fun reported => ?_⟩
  have once := reported.once rfl (Nat.le_refl 4)
  cases once

end Libunsod.Netinet
