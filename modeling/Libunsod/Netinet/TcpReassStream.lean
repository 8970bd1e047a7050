import Libunsod.Netinet.TcpReassQueue

/-!
Reassembly gives the receiver the stream that was sent. The segments of a run
are pieces of one stream, in any order and with any overlap; the socket buffer
gets every position in front of `rcv_nxt` once, a byte of the stream where an
accepted segment has it and a hole where none has.
-/

namespace Libunsod.Netinet

open Runs (Run)
open Spans (Span Buffer Covers)

variable {tp : Tcpcb} {env : ReassEnv} {buffer : Buffer UInt8}

def Refused (tp : Tcpcb) (env : ReassEnv) (seg : Segment) : Prop :=
  tp.passive = false ∧ seg.thSeq ≠ tp.rcvNxt ∧
    env.sbHiwat / env.tMaxseg + 1 ≤ BitVec.ofInt 32 tp.tSegqlen

instance (tp : Tcpcb) (env : ReassEnv) (seg : Segment) : Decidable (Refused tp env seg) :=
  inferInstanceAs (Decidable (_ ∧ _ ∧ _))

def acceptedAfter (tp : Tcpcb) (env : ReassEnv) (seg : Segment) (position : Nat)
    (accepted : List (Span UInt8)) : List (Span UInt8) :=
  if Refused tp env seg then accepted else ⟨position, seg.m⟩ :: accepted

theorem chooseEntry_eq_none_iff (seg : Segment) (established : tcpsHaveEstablished tp.tState = true)
    (alloc : env.zalloc ≠ none) : chooseEntry tp env seg = none ↔ Refused tp env seg := by
  obtain ⟨index, alloc⟩ := Option.ne_none_iff_exists'.mp alloc
  simp only [chooseEntry, alloc, Refused, queueLimitReached, notNext, established, Bool.not_true,
    Bool.or_false]
  cases tp.passive with
  | true | false => simp

structure StreamState where
  tp : Tcpcb
  position : Nat
  accepted : List (Span UInt8)

variable {state : StreamState}

inductive StreamCall where
  | segment (offset : Nat) (seg : Segment) (env : ReassEnv)
  | push (env : ReassEnv)
  | deliverHoles (ticks : Nat)

def StreamCall.Allowed (stream : Nat → UInt8) (window : Nat) (state : StreamState) :
    StreamCall → Prop
  | .segment offset seg env =>
      seg.thSeq = state.tp.rcvNxt + BitVec.ofNat 32 offset ∧ seg.tlen = seg.m.length ∧
        (Span.mk (state.position + offset) seg.m).Reads stream ∧ offset + seg.tlen ≤ window ∧
        env.zalloc ≠ none
  | .push _ => True
  | .deliverHoles _ => state.tp.passive = true

def StreamCall.perform (tp : Tcpcb) : StreamCall → Option Tcpcb
  | .segment _ seg env => (tcpReass tp (some seg) env).map Reassembled.tp
  | .push env => (tcpReass tp none env).map Reassembled.tp
  | .deliverHoles ticks => tcpReassDeliverHoles tp ticks

def StreamState.after (state : StreamState) (call : StreamCall) (tp : Tcpcb) : StreamState where
  tp := tp
  position := state.position + (tp.rcvNxt - state.tp.rcvNxt).toNat
  accepted := match call with
    | .segment offset seg env =>
        acceptedAfter state.tp env seg (state.position + offset) state.accepted
    | .push _ => state.accepted
    | .deliverHoles _ => state.accepted

def StreamMove (stream : Nat → UInt8) (window : Nat) (state : StreamState) (call : StreamCall)
    (next : StreamState) : Prop :=
  call.Allowed stream window state ∧
    ∃ tp, call.perform state.tp = some tp ∧ tp.cantrcvmore = false ∧ next = state.after call tp

def StreamDelivered (stream : Nat → UInt8) (start : Tcpcb) (state : StreamState) : Prop :=
  state.tp.rcvNxt = start.rcvNxt + BitVec.ofNat 32 state.position ∧
    ∃ appended, state.tp.soRcv = start.soRcv ++ appended ∧
      (start.passive = false →
        (∀ size, Appended.hole size ∉ appended) ∧
        cellsOf appended = (List.range state.position).map (fun spot => some (stream spot)) ∧
        (∀ spot, spot < state.position → Covers state.accepted spot) ∧
        ¬Covers state.accepted state.position) ∧
      (start.passive = true →
        (cellsOf appended).length = state.position ∧
        ∀ spot, spot < state.position →
          (Covers state.accepted spot → (cellsOf appended)[spot]? = some (some (stream spot))) ∧
          (¬Covers state.accepted spot → (cellsOf appended)[spot]? = some none))

def streamView (start : Tcpcb) : View where
  irs := start.rcvNxt
  old := start.soRcv
  kind each := start.passive = false → ∀ size, each ≠ .hole size
  extra _ _ _ := True
  data _ _ _ := by rintro ⟨⟩
  trims _ _ _ _ _ _ _ := trivial

structure StreamInv (stream : Nat → UInt8) (start : Tcpcb) (state : StreamState)
    (buffer : Buffer UInt8) : Prop where
  lined : Lined (streamView start) state.tp buffer
  receives : state.tp.cantrcvmore = false
  consistent : buffer.Consistent stream state.accepted
  position : buffer.next = state.position
  tState : state.tp.tState = .established
  passive : state.tp.passive = start.passive
  waits : start.passive = false → ∀ span ∈ buffer.spans, buffer.next < span.start
  full : start.passive = false → buffer.Full state.accepted

section Run

variable {stream : Nat → UInt8} {window : Nat} {start : Tcpcb}

theorem streamView_holes (passive : start.passive = true) (size : Int) :
    (streamView start).kind (.hole size) := by
  intro active
  rw [passive] at active
  cases active

theorem StreamInv.present {before after : Buffer UInt8} {call : StreamCall} {middle : Tcpcb}
    {lead : Bool} {flags : BitVec 8} (invariant : StreamInv stream start state buffer)
    (same : SameSide state.tp middle) (next : before.next = buffer.next)
    (consistent : before.Consistent stream (state.after call tp).accepted)
    (full : start.passive = false → lead = false ∧ before.Full (state.after call tp).accepted)
    (presented : Presented (streamView start) lead middle tp flags before after) :
    StreamInv stream start (state.after call tp) after := by
  have forward := presented.forward
  have reach := presented.reach
  have moved := invariant.lined.rcvNxt_sub presented.lined (by omega) (by omega)
  rw [invariant.position] at moved
  refine ⟨presented.lined, ?_, presented.delivers.consistent consistent, moved.symm, ?_, ?_,
    fun _ => presented.waits, ?_⟩
  · exact presented.cantrcvmore.trans (same.cantrcvmore.trans invariant.receives)
  · exact presented.tState.trans (same.tState.trans invariant.tState)
  · exact presented.passive.trans (same.passive.trans invariant.passive)
  · intro active
    obtain ⟨rfl, before⟩ := full active
    exact presented.delivers.full consistent before

theorem StreamInv.segment {offset : Nat} {seg : Segment} {result : Reassembled}
    (small : window < 2 ^ 31) (invariant : StreamInv stream start state buffer)
    (allowed : (StreamCall.segment offset seg env).Allowed stream window state)
    (returned : tcpReass state.tp (some seg) env = some result) :
    ∃ after, StreamInv stream start (state.after (.segment offset seg env) result.tp) after := by
  obtain ⟨sequence, length, reads, fits, alloc⟩ := allowed
  obtain ⟨place, given⟩ := given_of_offset sequence length fits small
  have established : tcpsHaveEstablished state.tp.tState = true := by
    rw [invariant.tState]
    rfl
  have refused := chooseEntry_eq_none_iff seg established alloc
  have span : givenSpan state.tp buffer.next seg = ⟨state.position + offset, seg.m⟩ := by
    rw [givenSpan, place, invariant.position]
  rcases tcpReass_segq invariant.lined given trivial returned with
    ⟨none, same, _⟩ | ⟨te, lead, replace, middle, chosen, lined, same, presented⟩
  · have still : state.after (.segment offset seg env) result.tp = state := by
      simp only [StreamState.after, acceptedAfter, refused.mp none, ↓reduceIte, same,
        BitVec.sub_self, BitVec.toNat_zero, Nat.add_zero]
    rw [still]
    exact ⟨buffer, invariant⟩
  · have accepts : (state.after (.segment offset seg env) result.tp).accepted =
        ⟨state.position + offset, seg.m⟩ :: state.accepted := by
      refine if_neg fun turned => ?_
      rw [refused.mpr turned] at chosen
      cases chosen
    have leads := (chooseEntry_lead chosen).1
    have lined : Lined (streamView start) middle (buffer.insert _) := lined
    obtain ⟨after, facts⟩ := present_presented lined
      (same.cantrcvmore.trans invariant.receives) (same.tState ▸ established)
      (fun leading => streamView_holes (invariant.passive.symm.trans (leads leading))) presented
    have next : (buffer.insert (givenSpan state.tp buffer.next seg)).next = buffer.next := rfl
    refine ⟨after, invariant.present same next ?_ ?_ facts⟩
    · rw [accepts, span]
      refine buffer.insert_consistent invariant.consistent ?_ reads
      rw [invariant.position]
      exact Nat.le_add_right _ _
    · intro active
      refine ⟨?_, fun spot early => ?_⟩
      · cases lead with
        | false => rfl
        | true =>
          rw [← invariant.passive, leads rfl] at active
          cases active
      · rw [accepts]
        exact (Spans.covers_cons _ _ _).mpr (.inr (invariant.full active spot early))

theorem StreamInv.step (small : window < 2 ^ 31) (state : StreamState) (buffer : Buffer UInt8)
    (call : StreamCall) (invariant : StreamInv stream start state buffer)
    (allowed : call.Allowed stream window state) :
    ∃ tp, call.perform state.tp = some tp ∧
      (tp.cantrcvmore = false → ∃ after, StreamInv stream start (state.after call tp) after) := by
  cases call with
  | segment offset seg env =>
    obtain ⟨result, returned⟩ := tcpReass_returns state.tp seg env allowed.2.2.2.2
    refine ⟨result.tp, by simp [StreamCall.perform, returned], fun _ => ?_⟩
    exact invariant.segment small allowed returned
  | push env =>
    have established : tcpsHaveEstablished state.tp.tState = true := by
      rw [invariant.tState]
      rfl
    obtain ⟨⟨tp, flags⟩, presented⟩ := present_returns state.tp env.ticks false
    obtain ⟨after, facts⟩ := present_presented invariant.lined
      invariant.receives established (by rintro ⟨⟩) presented
    refine ⟨tp, by simp [StreamCall.perform, tcpReass, presented], fun _ => ⟨after, ?_⟩⟩
    exact invariant.present ⟨rfl, rfl, rfl⟩ rfl invariant.consistent
      (fun active => ⟨rfl, invariant.full active⟩) facts
  | deliverHoles ticks =>
    have passive : start.passive = true := invariant.passive.symm.trans allowed
    obtain ⟨final, returned, delivered⟩ := tcpReassDeliverHoles_segq ticks
      (streamView_holes passive) fun _ => invariant.lined
    refine ⟨final, returned, fun open_ => ?_⟩
    obtain ⟨floor, after, delivering, _⟩ := delivered (.inl open_)
    obtain ⟨_, delivers, state_, kept⟩ := delivering.receives open_
    have reach := delivering.reach
    have moved := invariant.lined.rcvNxt_sub delivering.segq delivering.forward (by omega)
    rw [invariant.position] at moved
    refine ⟨after, delivering.widen.lined open_, open_,
      delivers.consistent invariant.consistent, moved.symm, state_.trans invariant.tState,
      kept.trans invariant.passive, ?_, ?_⟩
    · simp [passive]
    · simp [passive]

theorem StreamInv.delivered (invariant : StreamInv stream start state buffer) :
    StreamDelivered stream start state := by
  obtain ⟨appended, whole, cells, kinds⟩ := invariant.lined.got invariant.receives
  have consistent := invariant.consistent
  have position := invariant.position
  have length := consistent.length
  rw [position] at length
  refine ⟨position ▸ invariant.lined.rcvNxt, appended, whole, ?_, ?_⟩
  · intro active
    have full := invariant.full active
    refine ⟨fun size member => kinds _ member active size rfl, ?_, ?_, ?_⟩
    · rw [cells]
      apply List.ext_getElem?
      intro spot
      by_cases early : spot < state.position
      · rw [consistent.filled spot (position ▸ early) (full spot (position ▸ early))]
        simp [early]
      · rw [List.getElem?_eq_none (by omega)]
        simp [early]
    · exact fun spot early => full spot (position ▸ early)
    · rw [← position]
      exact consistent.waits (invariant.waits active)
  · intro _
    rw [cells]
    refine ⟨length, fun spot early => ⟨?_, ?_⟩⟩
    · exact consistent.filled spot (position ▸ early)
    · exact consistent.missing spot (position ▸ early)

/-- In every run the socket buffer holds the stream up to `rcv_nxt`, and every
call a state allows returns. -/
theorem tcpReass_stream_delivered (stream : Nat → UInt8) (window : Nat) (small : window < 2 ^ 31)
    (start : Tcpcb) (established : start.tState = .established) (empty : start.tSegq = [])
    (receives : start.cantrcvmore = false) (calls : List StreamCall) (final : StreamState)
    (run : Run (StreamMove stream window) ⟨start, 0, []⟩ calls final) :
    StreamDelivered stream start final ∧
      ∀ call : StreamCall, call.Allowed stream window final →
        ∃ tp, call.perform final.tp = some tp := by
  have reached : ∃ buffer, StreamInv stream start final buffer := by
    refine Run.invariant (fun state => ∃ buffer, StreamInv stream start state buffer) ?_ ?_ run
    · refine ⟨.empty, lined_start rfl rfl empty, receives, Buffer.empty_consistent stream, rfl,
        established, rfl, ?_, ?_⟩
      · simp [Buffer.empty]
      · intro _ spot early
        simp [Buffer.empty] at early
    · rintro state call next ⟨buffer, invariant⟩ ⟨allowed, tp, returned, open_, rfl⟩
      obtain ⟨result, performed, keeps⟩ := invariant.step small state buffer call allowed
      rw [returned, Option.some.injEq] at performed
      subst performed
      exact keeps open_
  obtain ⟨buffer, invariant⟩ := reached
  refine ⟨invariant.delivered, fun call allowed => ?_⟩
  obtain ⟨tp, performed, _⟩ := invariant.step small final buffer call allowed
  exact ⟨tp, performed⟩

theorem tcpReass_stream_delivered_swapped :
    ∃ final, Run (StreamMove UInt8.ofNat 100) ⟨quietTcpcb .established false 0xffffffff, 0, []⟩
        [.segment 2 ⟨1, 0, 2, [2, 3]⟩ (roomyEnv 7 (some 0)), .segment 0 ⟨0xffffffff, 0, 3, [0, 1, 2]⟩
          (roomyEnv 9 (some 1))] final ∧
      final.position = 4 ∧ StreamDelivered UInt8.ofNat (quietTcpcb .established false 0xffffffff) final := by
  have reads (length : Nat) (start : Nat) (bytes : List UInt8)
      (listed : bytes = (List.range length).map fun index => UInt8.ofNat (start + index)) :
      (Span.mk start bytes).Reads UInt8.ofNat := by
    intro index byte found
    simp only [listed, List.getElem?_map, Option.map_eq_some_iff] at found
    obtain ⟨spot, place, rfl⟩ := found
    obtain ⟨_, rfl⟩ := List.getElem?_eq_some_iff.mp place
    simp
  refine Run.exists_with (fun _ run => (tcpReass_stream_delivered UInt8.ofNat 100 (by decide)
    (quietTcpcb .established false 0xffffffff) rfl rfl rfl _ _ run).1)
    ⟨_, Run.snoc (Run.snoc Run.nil ⟨⟨rfl, rfl, ?_, ?_, nofun⟩, _, rfl, rfl, rfl⟩)
      ⟨⟨rfl, rfl, ?_, ?_, nofun⟩, _, rfl, rfl, rfl⟩, rfl⟩
  · exact reads 3 0 _ rfl
  · decide
  · exact reads 2 2 _ rfl
  · decide

end Run

end Libunsod.Netinet
