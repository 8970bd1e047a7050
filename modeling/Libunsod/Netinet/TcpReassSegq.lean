import Libunsod.Netinet.TcpReassQueue
import Libunsod.Netinet.TcpReassZone

/-!
The order of `t_segq` over whole runs. Segments with and without a FIN, the
delivery of holes, the processing of a FIN and flushes come in any order; the
entries stay sorted and disjoint, and `tcp_reass_deliver_holes` never computes
a hole of negative size.
-/

namespace Libunsod.Netinet

open Runs (Run)
open Spans (Span Buffer)

variable {seg : Segment} {env : ReassEnv} {final : Tcpcb}

def finProcessed : TcpState → TcpState
  | .synReceived => .closeWait
  | .established => .closeWait
  | .finWait1 => .closing
  | .finWait2 => .timeWait
  | state => state

def finProcessing (tp : Tcpcb) (thflags : BitVec 8) : Tcpcb :=
  if thflags &&& thFin ≠ 0 then
    let shut := if tp.tState = .timeWait then tp
      else { tp with cantrcvmore := true, rcvNxt := tp.rcvNxt + 1 }
    { shut with tState := finProcessed shut.tState }
  else tp

inductive SegqCall where
  | segment (seg : Segment) (env : ReassEnv)
  | inOrder (seg : Segment)
  | push (env : ReassEnv)
  | deliverHoles (ticks : Nat)
  | flush
  | connection (tState : TcpState)
  | shutdown

def SegqCall.perform (tp : Tcpcb) : SegqCall → Option Tcpcb
  | .segment seg env =>
      if tp.tState = .timeWait then some tp
      else (tcpReass tp (some seg) env).map fun result => finProcessing result.tp result.flags
  | .inOrder seg =>
      let received := { tp with rcvNxt := tp.rcvNxt + BitVec.ofNat 32 seg.tlen }
      some (finProcessing (sbappendData received seg.m) seg.thFlags)
  | .push env => (tcpReass tp none env).map Reassembled.tp
  | .deliverHoles ticks => tcpReassDeliverHoles tp ticks
  | .flush => some (tcpReassFlush tp)
  | .connection tState => some { tp with tState := tState }
  | .shutdown => some { tp with cantrcvmore := true }

def SegqCall.Allowed (tp : Tcpcb) : SegqCall → Prop
  | .segment seg env => GivenSegment tp seg ∧ (0 < seg.tlen ∨ seg.thFlags &&& thFin ≠ 0) ∧
      ∃ index, env.zalloc = some index ∧ FreshEntry tp (.zone index)
  | .inOrder seg => seg.thSeq = tp.rcvNxt ∧ tp.tSegq = [] ∧ tp.tState ≠ .timeWait ∧
      seg.tlen = seg.m.length
  | _ => True

def SegqMove (tp : Tcpcb) (call : SegqCall) (next : Tcpcb) : Prop :=
  call.Allowed tp ∧ call.perform tp = some next

def segqPosition (tp : Tcpcb) (q : TsegQent) : Nat :=
  (q.tqeSeq + BitVec.ofNat 32 tp.cantrcvmore.toNat - tp.rcvNxt).toNat

structure SegqSound (tp : Tcpcb) : Prop where
  ordered : tp.tSegq.Pairwise fun left right =>
    segqPosition tp left + left.tqeLen ≤ segqPosition tp right
  counted : tp.tSegqlen = tp.tSegq.length
  ahead : tp.cantrcvmore = false → ∀ q ∈ tp.tSegq, 0 ≤ (q.tqeSeq - tp.rcvNxt).toInt
  returns : ∀ call : SegqCall, call.Allowed tp → ∃ next, call.perform tp = some next

theorem pairwise_carried {Left Right : Type} {related : Left → Right → Prop}
    {before : Left → Left → Prop} {sorted : Right → Right → Prop} {lefts : List Left}
    {rights : List Right} (all : List.Forall₂ related lefts rights)
    (transfer : ∀ left right other next, related left right → related other next →
      sorted right next → before left other)
    (ordered : rights.Pairwise sorted) : lefts.Pairwise before := by
  induction all with
  | nil => exact .nil
  | cons first rest ih =>
    obtain ⟨ahead, later⟩ := List.pairwise_cons.mp ordered
    refine List.pairwise_cons.mpr ⟨?_, ih later⟩
    intro other member
    obtain ⟨next, inside, own⟩ := mem_carried (List.Forall₂.flip rest) member
    exact transfer _ _ _ _ first own (ahead next inside)

theorem finProcessing_eq (tp : Tcpcb) (flags : BitVec 8) :
    ∃ rcvNxt cantrcvmore tState, finProcessing tp flags = { tp with
      rcvNxt := rcvNxt, cantrcvmore := cantrcvmore, tState := tState } := by
  simp only [finProcessing]
  split
  · split <;> exact ⟨_, _, _, rfl⟩
  · exact ⟨_, _, _, rfl⟩

theorem finCount_masked (flags : BitVec 8) : finCount (flags &&& thFin) = finCount flags := by
  simp only [finCount, BitVec.and_assoc, BitVec.and_self]

theorem tcpReassFlush_eq (tp : Tcpcb) :
    ∃ queue length zone, tcpReassFlush tp = { tp with
      tSegq := queue, tSegqlen := length, zone := zone } :=
  tcpReassFlushLoop_invariant (fun flushed _ => ∃ queue length zone, flushed = { tp with
      tSegq := queue, tSegqlen := length, zone := zone })
    (by rintro _ _ rest ⟨_, _, _, rfl⟩; exact ⟨rest, _, _, rfl⟩) tp.tSegq tp ⟨_, _, _, rfl⟩

section Calls

variable {view : View} {floor high : Nat} {tp : Tcpcb} {buffer : Buffer UInt8}

theorem Segq.finProcessing (flags : BitVec 8) (segq : Segq view high tp buffer.next buffer)
    (running : tp.tState ≠ .timeWait) :
    Segq view high (finProcessing tp flags) buffer.next
      { buffer with next := buffer.next + finCount flags } := by
  have near := segq.near
  by_cases fin : flags &&& thFin ≠ 0
  · have bit := tp.cantrcvmore.toNat_le
    simp only [Netinet.finProcessing, finCount, if_pos fin, if_neg running]
    refine ⟨?_, Nat.le_succ _, Nat.le_refl _, ?_, segq.queue, segq.ordered, by rintro ⟨⟩⟩
    · exact (congrArg (· + 1) segq.rcvNxt).trans (SerialNumber.add_ofNat view.irs buffer.next 1)
    · simp only [Bool.toNat_true]
      omega
  · simp only [Netinet.finProcessing, finCount, if_neg fin]
    exact segq

theorem segment_segq {result : Reassembled} (holes : ∀ size, view.kind (.hole size))
    (fine : FinEmpty view.extra) (segq : Segq view (buffer.next + 2 ^ 31) tp floor buffer)
    (given : GivenSegment tp seg) (own : view.extra seg.thFlags (givenSpan tp buffer.next seg).start
      (givenSpan tp buffer.next seg).stop) (running : tp.tState ≠ .timeWait)
    (returned : tcpReass tp (some seg) env = some result) :
    ∃ floor after, Segq view (after.next + 2 ^ 31)
      (Netinet.finProcessing result.tp result.flags) floor after := by
  rcases tcpReass_segq segq given own returned with
    ⟨_, same, none⟩ | ⟨te, lead, replace, middle, _, queued, received, presented⟩
  · rw [same, none]
    exact ⟨floor, buffer, segq⟩
  · rcases present_segq queued (fun _ => holes) presented with
      ⟨none, ⟨timer, kept⟩, _⟩ | ⟨low, last, span, after, above, _, carried, advanced⟩
    · rw [none, kept]
      exact ⟨floor, buffer.insert (givenSpan tp buffer.next seg), { queued with }⟩
    · have state : result.tp.tState ≠ .timeWait := by
        rw [advanced.tState, received.tState]
        exact running
      have forward := queued.forward (.inr fine) carried above
      have reached := advanced.next
      rw [← finCount_masked, ← advanced.reported] at forward
      refine ⟨_, _, (advanced.segq.finProcessing result.flags state).widen ?_⟩
      exact Nat.add_le_add_right (reached ▸ forward) _

theorem inOrder_segq (seg : Segment) (segq : Segq view high tp floor buffer)
    (empty : tp.tSegq = []) :
    Lined view (sbappendData { tp with rcvNxt := tp.rcvNxt + BitVec.ofNat 32 seg.tlen } seg.m)
      ⟨buffer.next + seg.tlen, [], buffer.cells ++ seg.m.map some⟩ := by
  have moved : tp.rcvNxt + BitVec.ofNat 32 seg.tlen =
      view.irs + BitVec.ofNat 32 (buffer.next + seg.tlen) := by
    rw [segq.rcvNxt, SerialNumber.add_ofNat]
  rw [sbappendData_eq]
  refine segq_empty moved empty rfl fun open_ => (segq.got open_).data (if_neg ?_)
  exact fun shut => Bool.false_ne_true (open_.symm.trans shut)

def segqView (start : Tcpcb) : View :=
  .since start (fun flags first last => first = last → flags &&& thFin ≠ 0)
    fun _ _ _ _ _ _ inside same => absurd same (Nat.ne_of_lt inside)

structure SegqInv (start tp : Tcpcb) : Prop where
  segq : ∃ floor buffer, Segq (segqView start) (buffer.next + 2 ^ 31) tp floor buffer
  accounted : Accounted tp []
  unstacked : Unstacked tp

theorem segqView_finEmpty (start : Tcpcb) : FinEmpty (segqView start).extra :=
  fun _ _ own => own rfl

variable {start : Tcpcb}

theorem SegqInv.step_segment (invariant : SegqInv start tp)
    (allowed : (SegqCall.segment seg env).Allowed tp)
    (result : (SegqCall.segment seg env).perform tp = some final) : SegqInv start final := by
  obtain ⟨given, sent, index, alloc, fresh⟩ := allowed
  obtain ⟨floor, buffer, segq⟩ := invariant.segq
  have zoned : env.zalloc ≠ none := by simp [alloc]
  by_cases waiting : tp.tState = .timeWait
  · simp only [SegqCall.perform, waiting, ↓reduceIte, Option.some.injEq] at result
    exact result ▸ invariant
  · simp only [SegqCall.perform, if_neg waiting, Option.map_eq_some_iff] at result
    obtain ⟨reassembled, returned, rfl⟩ := result
    obtain ⟨kept, clean⟩ := call_exact reassembled.tp (.segment seg env) invariant.accounted
      invariant.unstacked
      (by
        intro other found
        rw [alloc, Option.some.injEq] at found
        exact found ▸ fresh)
      (fun used => absurd used.1 zoned) (fun leaks => zoned leaks.1.1)
      (by simp only [ReassCall.perform, returned, Option.map_some])
    obtain ⟨_, _, _, same⟩ := finProcessing_eq reassembled.tp reassembled.flags
    refine ⟨?_, by rw [same]; exact { kept with }, by rw [same]; exact clean⟩
    · refine segment_segq (fun _ => trivial) (segqView_finEmpty start) segq given ?_ waiting
        returned
      intro same
      have stop := givenSpan_stop buffer.next given
      have first : (givenSpan tp buffer.next seg).start =
        buffer.next + (seg.thSeq - tp.rcvNxt).toNat := rfl
      exact sent.resolve_left (by omega)

theorem SegqInv.step {call : SegqCall} (invariant : SegqInv start tp)
    (moved : SegqMove tp call final) : SegqInv start final := by
  obtain ⟨allowed, result⟩ := moved
  obtain ⟨floor, buffer, segq⟩ := invariant.segq
  cases call with
  | segment seg env => exact invariant.step_segment allowed result
  | inOrder seg =>
    obtain ⟨_, empty, running, _⟩ := allowed
    cases result
    have received := inOrder_segq seg segq empty
    have finished := (received.finProcessing seg.thFlags (by
      rw [sbappendData_eq]
      exact running)).widen (Nat.add_le_add_right (Nat.le_add_right _ _) _)
    obtain ⟨_, _, _, same⟩ := finProcessing_eq (sbappendData _ seg.m) seg.thFlags
    refine ⟨⟨_, _, finished⟩, ?_, ?_⟩
    · rw [same, sbappendData_eq]
      exact { invariant.accounted with }
    · rw [same, sbappendData_eq]
      exact invariant.unstacked
  | push env =>
    obtain ⟨kept, clean⟩ := call_exact final (.push env) invariant.accounted
      invariant.unstacked trivial trivial id result
    refine ⟨?_, kept, clean⟩
    obtain ⟨reassembled, returned, rfl⟩ := Option.map_eq_some_iff.mp result
    rcases present_segq segq (by rintro ⟨⟩) (tcpReass_push returned) with
      ⟨_, ⟨timer, same⟩, _⟩ | ⟨low, last, span, after, _, starts, carried, advanced⟩
    · rw [same]
      exact ⟨floor, buffer, { segq with }⟩
    · have edge := starts rfl
      have above := carried.fit.above
      have size := span.start_le_stop
      have reached := advanced.next
      exact ⟨_, after, advanced.segq.widen (by omega)⟩
  | deliverHoles ticks =>
    obtain ⟨kept, clean⟩ := call_exact final (.deliverHoles ticks) invariant.accounted
      invariant.unstacked trivial trivial id result
    refine ⟨?_, kept, clean⟩
    have fine := segqView_finEmpty start
    obtain ⟨delivered, same, keeps⟩ := tcpReassDeliverHoles_segq ticks (fun _ => trivial)
      fun _ => segq
    simp only [SegqCall.perform, same, Option.some.injEq] at result
    obtain ⟨low, after, delivering, _⟩ := keeps (.inr fine)
    exact ⟨low, after, result ▸ delivering.widen⟩
  | flush =>
    cases result
    obtain ⟨kept, nothing⟩ := tcpReassFlush_accounted invariant.accounted invariant.unstacked
    obtain ⟨_, _, _, same⟩ := tcpReassFlush_eq tp
    refine ⟨⟨buffer.next, ⟨buffer.next, [], buffer.cells⟩, ?_⟩, kept, by simp [Unstacked, nothing]⟩
    rw [same] at nothing ⊢
    exact segq_empty segq.rcvNxt nothing rfl segq.got
  | connection tState =>
    cases result
    exact ⟨⟨floor, buffer, { segq with }⟩, { invariant.accounted with }, invariant.unstacked⟩
  | shutdown =>
    cases result
    have lag := segq.lag
    have near := segq.near
    have bit := tp.cantrcvmore.toNat_le
    refine ⟨⟨floor, buffer, { segq with lag := ?_, near := ?_, got := by rintro ⟨⟩ }⟩,
      { invariant.accounted with }, invariant.unstacked⟩
    · simp only [Bool.toNat_true]
      omega
    · simp only [Bool.toNat_true]
      omega

theorem Segq.position {q : TsegQent} {span : Span UInt8} (segq : Segq view high tp floor buffer)
    (carried : view.Entry floor high q span) :
    segqPosition tp q + buffer.next = span.start + tp.cantrcvmore.toNat := by
  have place := segq.place carried
  rw [segqPosition, carried.seq, segq.rcvNxt, SerialNumber.add_ofNat,
    SerialNumber.sub_toNat view.irs (by omega) (by omega)]
  omega

theorem SegqInv.sound (invariant : SegqInv start tp) : SegqSound tp := by
  obtain ⟨floor, buffer, segq⟩ := invariant.segq
  refine ⟨?_, invariant.accounted.counted, ?_, ?_⟩
  · refine pairwise_carried segq.queue ?_ segq.ordered
    intro left span right other carried follows apart
    have first := segq.position carried
    have second := segq.position follows
    have length := carried.len
    simp only [Span.stop] at apart
    omega
  · intro open_ q member
    obtain ⟨span, _, carried⟩ := mem_carried (List.Forall₂.flip segq.queue) member
    obtain ⟨forward, hole⟩ := segq.hole_size carried open_
    omega
  · intro call allowed
    cases call with
    | segment seg env =>
      obtain ⟨_, _, index, alloc, _⟩ := allowed
      obtain ⟨result, returned⟩ := tcpReass_returns tp seg env (by simp [alloc])
      simp only [SegqCall.perform, returned]
      split <;> exact ⟨_, rfl⟩
    | push env =>
      obtain ⟨pair, presented⟩ := present_returns tp env.ticks false
      simp [SegqCall.perform, tcpReass, presented]
    | deliverHoles ticks =>
      obtain ⟨final, result, _⟩ := tcpReassDeliverHoles_segq ticks (fun _ => trivial)
        fun _ => segq
      exact ⟨final, result⟩
    | _ => exact ⟨_, rfl⟩

end Calls

/-- In every run of the calls, `t_segq` is in order and counted, and no call meets the panic for a
hole of negative size. -/
theorem segq_sound (start final : Tcpcb) (calls : List SegqCall) (fresh : NoEntries start)
    (run : Run SegqMove start calls final) : SegqSound final := by
  have initial : SegqInv start start :=
    ⟨⟨_, .empty, lined_start rfl rfl fresh.tSegq⟩, fresh.accounted, fresh.unstacked⟩
  have reached : SegqInv start final :=
    Run.invariant _ initial (fun tp call next invariant moved => invariant.step moved) run
  exact reached.sound

theorem segq_sound_lagging :
    ∃ final, Run SegqMove (quietTcpcb .established true 0)
        [.segment ⟨2, thFin, 1, [7]⟩ (roomyEnv 0 (some 0)),
          .segment ⟨3, thFin, 0, []⟩ (roomyEnv 4000 (some 1)), .deliverHoles 5000] final ∧
      final.cantrcvmore = true ∧ final.rcvNxt = 4 ∧ addrs final.tSegq = [.zone 1] ∧
      SegqSound final := by
  have run : Run SegqMove (quietTcpcb .established true 0)
      [.segment ⟨2, thFin, 1, [7]⟩ (roomyEnv 0 (some 0)),
        .segment ⟨3, thFin, 0, []⟩ (roomyEnv 4000 (some 1)), .deliverHoles 5000] _ :=
    .snoc (.snoc (.snoc .nil
      ⟨⟨⟨rfl, by decide, by decide, by decide⟩, .inl (by decide), 0, rfl, nofun⟩, rfl⟩)
      ⟨⟨⟨rfl, by decide, by decide, by decide⟩, .inr (by decide), 1, rfl, by decide⟩, rfl⟩)
      ⟨trivial, rfl⟩
  exact ⟨_, run, rfl, rfl, rfl, segq_sound _ _ _ ⟨rfl, rfl, rfl⟩ run⟩

end Libunsod.Netinet
