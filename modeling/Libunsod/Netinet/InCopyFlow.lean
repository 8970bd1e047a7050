import Libunsod.Netinet.InCopyRun

/-!
The end of a copied flow. The descriptor that ends it is only sent by a finishing flush, when mode
ON is left for OFF or the connection is dropped in it, and only if the flush finds something in the
queue or a total that is not zero.
-/

namespace Libunsod.Netinet

open Runs Uinet

variable {mode : BitVec 32}

namespace Copying

variable {copying : Copying}

def Open (copying : Copying) : Prop :=
  ∀ pd ∈ copying.inp.injected.flatten, pd.has pdFlushFlow = false

def Closed (copying : Copying) : Prop :=
  ∃ front last, copying.inp.injected.flatten = front ++ [last] ∧ last.has pdFlushFlow = true ∧
    ∀ pd ∈ front, pd.has pdFlushFlow = false

def Markable (copying : Copying) : Prop :=
  copying.inp.copyq ≠ [] ∨ 0 < copying.inp.copyTotal

/-- Once a packet was injected, mode ON ends with a finishing flush that has something to mark,
and it is not set again. -/
def Tidy (copying : Copying) : CopyStep → Prop
  | .copy .. => True
  | .mode heap optval scratch => (ipCtloutput { copying with heap := heap } optval scratch).1 = 0 →
      if optval &&& ipCopyModeOn ≠ 0 then copying.Open
      else copying.inp.copyMode &&& ipCopyModeOn ≠ 0 →
        packetsOf copying.inp.injected.flatten ≠ [] → optval = ipCopyModeOff ∧ copying.Markable
  | .drop .. => copying.inp.copyMode &&& ipCopyModeOn ≠ 0 →
      packetsOf copying.inp.injected.flatten ≠ [] → copying.Markable

structure Flow (copying : Copying) : Prop where
  one : copying.Open ∨
    copying.Closed ∧ (copying.inp.copyMode &&& ipCopyModeOn = 0 ∨ copying.dropped = true)
  ended : copying.inp.copyMode &&& ipCopyModeOn = 0 ∨ copying.dropped = true →
    packetsOf copying.inp.injected.flatten ≠ [] → copying.Closed

theorem Flow.isOpen (flow : copying.Flow) (alive : copying.dropped = false)
    (on : copying.inp.copyMode &&& ipCopyModeOn ≠ 0) : copying.Open := by
  rcases flow.one with isOpen | ⟨_, off | dropped⟩
  · exact isOpen
  · exact absurd off on
  · rw [alive] at dropped
    contradiction

theorem Open.flush (isOpen : copying.Open) (kept : copying.Kept) (scratch : Pd) :
    (copying.inCopyFlush false scratch).Open := by
  obtain ⟨gone, moves, -⟩ := inCopyFlush_moves false scratch kept.filled
  intro pd member
  rw [moves.sent] at member
  rcases List.mem_append.mp member with old | new
  · exact isOpen pd old
  · apply (kept.waiting pd _).has.2
    rw [moves.queue]
    refine List.mem_append_left _ ?_
    split at new
    · exact new
    · cases new

theorem Flow.inCopy (flow : copying.Flow) (lives : copying.Lives)
    (alive : copying.dropped = false) (chain : List CopyMbuf) (scratch : Pd) :
    (copying.inCopy chain scratch).Flow := by
  have all : (copying.inCopy chain scratch).Kept ∧
      (copying.inCopy chain scratch).dropped = false ∧ (copying.inCopy chain scratch).Flow := by
    apply inCopy_keeps fun next => next.Kept ∧ next.dropped = false ∧ next.Flow
    · intro m _ next ⟨kept, alive, flow⟩
      obtain ⟨sameMode, sameInjected, _⟩ := next.add_fields m
      refine ⟨kept.add m, alive, ?_, ?_⟩
      · simp only [Open, Closed, sameMode, sameInjected]
        exact flow.one
      · simp only [Closed, sameMode, sameInjected]
        exact flow.ended
    · intro next ⟨kept, alive, flow⟩ on
      obtain ⟨mode, dropped, -⟩ := kept.flush_fields false scratch
      refine ⟨kept.flush false scratch, dropped.trans alive,
        .inl ((flow.isOpen alive on).flush kept scratch), ?_⟩
      rw [mode, dropped, alive]
      rintro (off | gone)
      · exact absurd off on
      · cases gone
    · exact ⟨lives.kept, alive, flow⟩
  exact all.2.2

theorem closing_closed (isOpen : copying.Open) (kept : copying.Kept) (scratch : Pd)
    (copies : copying.inp.copyif = true) (more : copying.Markable) :
    (copying.inCopyFlush true scratch).Closed := by
  obtain ⟨_, moves, -⟩ := inCopyFlush_moves true scratch kept.filled
  have sent := moves.sent
  rw [if_pos copies, if_pos rfl] at sent
  by_cases none : copying.inp.copyq = []
  · have counted := more.resolve_left fun some_ => some_ none
    refine ⟨_, _, ?_, (flushPd_has scratch copying.inp).2, isOpen⟩
    rw [sent, closing, if_pos none, if_pos counted]
  · have some_ : copying.inp.copyq.flatten ≠ [] := by
      obtain ⟨node, rest, nodes⟩ := List.exists_cons_of_ne_nil none
      have first := kept.filled node (by simp [nodes])
      rw [nodes]
      simp [first]
    obtain ⟨front, last, ends⟩ := (List.eq_nil_or_concat _).resolve_left some_
    rw [List.concat_eq_append] at ends
    have waiting := kept.waiting
    rw [ends] at waiting
    refine ⟨copying.inp.injected.flatten ++ front, Pd.marked last, ?_, ?_, ?_⟩
    · rw [sent, closing, if_neg none, ends, markLast_concat, List.append_assoc]
    · exact (waiting last (by simp)).marked_has.2
    · intro pd member
      rcases List.mem_append.mp member with old | new
      · exact isOpen pd old
      · exact (waiting pd (List.mem_append_left _ new)).has.2

theorem finish_quiet (kept : copying.Kept) (scratch : Pd)
    (nothing : ¬(copying.inp.copyif = true ∧ copying.Markable)) :
    (copying.inCopyFlush true scratch).inp.injected.flatten = copying.inp.injected.flatten := by
  obtain ⟨_, moves, -⟩ := inCopyFlush_moves true scratch kept.filled
  rw [moves.sent]
  split
  · rename_i copies
    obtain ⟨none, zero⟩ := not_or.mp fun more => nothing ⟨copies, more⟩
    rw [if_pos rfl, closing, if_pos (not_not.mp none), if_neg zero, List.append_nil]
  · exact List.append_nil _

theorem finish_cases (isOpen : copying.Open) (lives : copying.Lives) (scratch : Pd)
    (tidy : packetsOf copying.inp.injected.flatten ≠ [] → copying.Markable) :
    (copying.inCopyFlush true scratch).Closed ∨ (copying.inCopyFlush true scratch).Open ∧
      packetsOf (copying.inCopyFlush true scratch).inp.injected.flatten = [] := by
  by_cases more : copying.inp.copyif = true ∧ copying.Markable
  · exact .inl (closing_closed isOpen lives.kept scratch more.1 more.2)
  · have same := finish_quiet lives.kept scratch more
    refine .inr ⟨?_, ?_⟩
    · rw [Open, same]
      exact isOpen
    · rw [same]
      by_contra some_
      refine more ⟨?_, tidy some_⟩
      rw [← Bool.not_eq_false]
      intro without
      rw [lives.unsent without] at some_
      exact some_ rfl

theorem Flow.changeMode (flow : copying.Flow) (lives : copying.Lives)
    (alive : copying.dropped = false) (accepted : ValidMode mode)
    (tidy : if mode = copyOn then copying.Open else copying.inp.copyMode &&& ipCopyModeOn ≠ 0 →
      packetsOf copying.inp.injected.flatten ≠ [] → mode = copyOff ∧ copying.Markable)
    (scratch : Pd) : (copying.changeMode mode scratch).Flow := by
  obtain ⟨moved, changed, cases_⟩ := changeMode_cases lives.valid accepted scratch
  have off : copyOff &&& ipCopyModeOn = 0 := by decide
  have on : copyOn &&& ipCopyModeOn ≠ 0 := by decide
  have maybe : copyMaybe &&& ipCopyModeOn = 0 := by decide
  rw [changed]
  rcases cases_ with ⟨same, stays⟩ | ⟨rfl, rfl⟩ | ⟨rfl, was, rfl⟩ | ⟨rfl, was, rfl⟩
  · rw [same]
    by_cases turns : mode = copyOn
    · rw [if_pos turns] at tidy
      refine ⟨.inl tidy, ?_⟩
      rintro (isOff | gone)
      · rw [turns] at isOff
        exact absurd isOff on
      · cases alive.symm.trans gone
    · have notOn : mode &&& ipCopyModeOn = 0 := by
        rcases accepted with rfl | rfl | rfl
        · exact off
        · exact maybe
        · exact absurd rfl turns
      refine ⟨flow.one.imp id fun closed => ⟨closed.1, .inl notOn⟩, fun _ some_ => ?_⟩
      by_cases wasOn : copying.inp.copyMode &&& ipCopyModeOn = 0
      · exact flow.ended (.inl wasOn) some_
      · rw [if_neg turns] at tidy
        have left := stays (tidy wasOn some_).1
        rw [left] at wasOn
        exact absurd off wasOn
  · rw [if_pos rfl] at tidy
    have kept := lives.kept.setMode copyOn
    have dropped := (kept.flush_fields false scratch).2.1.trans alive
    have isOpen : (copying.setMode copyOn).Open := tidy
    refine ⟨.inl (isOpen.flush kept scratch), ?_⟩
    rintro (isOff | gone)
    · exact absurd isOff on
    · cases dropped.symm.trans gone
  · refine ⟨?_, fun _ => ?_⟩
    · simp only [Open, Closed, Copying.setMode, inCopyDispose_injected]
      exact flow.one.imp id fun closed => ⟨closed.1, .inl off⟩
    · simp only [Closed, Copying.setMode, inCopyDispose_injected]
      exact flow.ended (.inl (by rw [was]; exact maybe))
  · rw [was, if_neg (by decide)] at tidy
    have isOpen := flow.isOpen alive (by rw [was]; exact on)
    rcases finish_cases isOpen lives scratch fun some_ => (tidy on some_).2 with
      closed | ⟨stillOpen, none⟩
    · exact ⟨.inr ⟨closed, .inl off⟩, fun _ _ => closed⟩
    · exact ⟨.inl stillOpen, fun _ some_ => absurd none some_⟩

theorem Flow.inPcbdrop (flow : copying.Flow) (lives : copying.Lives)
    (alive : copying.dropped = false) (heap : PdHeap) (scratch : Pd)
    (tidy : copying.Tidy (.drop heap scratch)) : (copying.inPcbdrop scratch).Flow := by
  unfold Copying.inPcbdrop
  dsimp only
  split
  · rename_i on
    rcases finish_cases (flow.isOpen alive on) lives scratch (tidy on) with
      closed | ⟨stillOpen, none⟩
    · exact ⟨.inr ⟨closed, .inr rfl⟩, fun _ _ => closed⟩
    · exact ⟨.inl stillOpen, fun _ some_ => absurd none some_⟩
  · rename_i notOn
    refine ⟨?_, fun _ => ?_⟩
    · simp only [Open, Closed, inCopyDispose_injected]
      exact flow.one.imp id fun closed => ⟨closed.1, .inr trivial⟩
    · simp only [Closed, inCopyDispose_injected]
      exact flow.ended (.inl (not_not.mp notOn))

theorem Flow.withHeap (flow : copying.Flow) (heap : PdHeap) : Flow { copying with heap := heap } :=
  ⟨flow.one, flow.ended⟩

theorem Flow.step (flow : copying.Flow) (lives : copying.Lives) {label : CopyStep}
    (enabled : copying.Enabled label) (tidy : copying.Tidy label) : (copying.step label).Flow := by
  cases label with
  | copy heap chain scratch =>
    exact (flow.withHeap heap).inCopy (lives.withHeap heap) enabled chain scratch
  | mode heap optval scratch =>
    obtain ⟨alive, small⟩ := enabled
    rcases ipCtloutput_accepts { copying with heap := heap } scratch small with
      refused | ⟨mode, accepted, on, off, answer, changed⟩
    · rw [Copying.step, refused]
      exact flow.withHeap heap
    · rw [Copying.step, changed]
      have tidied := tidy answer
      simp only [← on, ← off] at tidied
      exact (flow.withHeap heap).changeMode (lives.withHeap heap) alive accepted tidied scratch
  | drop heap scratch =>
    exact (flow.withHeap heap).inPcbdrop (lives.withHeap heap) enabled heap scratch tidy

def tidyMove (before : Copying) (label : CopyStep) (after : Copying) : Prop :=
  copyMove before label after ∧ before.Tidy label

theorem flow_of_run (valid : ValidMode mode) {limit : BitVec 64} {copyif : Bool}
    {serialno : BitVec 64} {heap : PdHeap} {labels : List CopyStep}
    (run : Run tidyMove (Copying.start mode limit copyif serialno heap) labels copying) :
    copying.Lives ∧ copying.Flow := by
  have flow : (Copying.start mode limit copyif serialno heap).Flow := by
    refine ⟨.inl ?_, ?_⟩
    · simp [Open, Copying.start, InpCopy.fresh]
    · exact fun _ some_ => absurd rfl some_
  refine run.invariant (fun copying => copying.Lives ∧ copying.Flow)
    ⟨Lives.start valid limit copyif serialno heap, flow⟩ ?_
  rintro before label after ⟨lives, flow⟩ ⟨⟨enabled, rfl⟩, tidy⟩
  exact ⟨lives.step enabled, flow.step lives enabled tidy⟩

end Copying

open Copying

/-- Every descriptor queued for a connection is injected once, in the order of arrival, or released
once, and none waits after the drop or in mode OFF. Where the mbufs have the counters of their
contexts, each reference is given back on the counter it was taken on. A flow whose steps are tidy
ends with the one descriptor that says so. -/
theorem copied_packets_end_once {mode : BitVec 32} (valid : ValidMode mode) (limit : BitVec 64)
    (copyif : Bool) (serialno : BitVec 64) (heap : PdHeap) {labels : List CopyStep}
    {copying : Copying}
    (run : Run copyMove (Copying.start mode limit copyif serialno heap) labels copying) :
    copying.Accounted ∧
      (copying.inp.copyMode = copyOff ∨ copying.dropped = true → copying.inp.copyq = []) ∧
      (∀ refcnt, Run (sharedMove refcnt) (Copying.start mode limit copyif serialno heap) labels
        copying → copying.Settled refcnt) ∧
      (Run tidyMove (Copying.start mode limit copyif serialno heap) labels copying →
        copying.dropped = true → packetsOf copying.inp.injected.flatten ≠ [] →
          copying.Closed) := by
  have lives := lives_of_run valid run
  refine ⟨lives.kept.accounted, lives.idle, fun _ => settled_of_run lives.kept.accounted, ?_⟩
  intro tidy dropped
  exact (flow_of_run valid tidy).2.ended (.inr dropped)

def zeroedPd : Pd := ⟨0, 0, 0, 0, 0, none, 0⟩

theorem copied_packets_end_once_single :
    ∃ copying, Run copyMove (Copying.start copyOn 0 true 1 sixtyBytes)
        [.copy sixtyBytes (List.replicate 17 sixtyMbuf) zeroedPd, .drop sixtyBytes zeroedPd]
        copying ∧
      copying.dropped = true ∧ packetsOf copying.inp.injected.flatten ≠ [] ∧
      copying.Accounted ∧ copying.inp.copyq = [] ∧ copying.Settled .cluster ∧ copying.Closed := by
  have allowed : Allowed (fun state label => Copying.Enabled state label ∧
      state.Tidy label ∧ Shared .cluster label) Copying.step
      (Copying.start copyOn 0 true 1 sixtyBytes)
      [.copy sixtyBytes (List.replicate 17 sixtyMbuf) zeroedPd, .drop sixtyBytes zeroedPd] := by
    refine ⟨⟨rfl, trivial, fun _ => rfl, fun m member => ?_⟩, ⟨rfl, fun _ _ => .inl ?_, fun _ => rfl⟩,
      trivial⟩
    · rw [List.eq_of_mem_replicate member]
      rfl
    · exact List.cons_ne_nil _ _
  have all := allowed.run_and
  have tidy : Run tidyMove _ _ _ := all.mono fun _ _ _ moved => ⟨moved.1, moved.2.1⟩
  have shared : Run (sharedMove .cluster) _ _ _ :=
    all.mono fun _ _ _ moved => ⟨moved.1, moved.2.2⟩
  have run := all.mono fun _ _ _ moved => moved.1
  obtain ⟨accounted, empty, settled, closed⟩ :=
    copied_packets_end_once (.inr (.inr rfl)) 0 true 1 sixtyBytes run
  exact ⟨_, run, rfl, List.cons_ne_nil _ _, accounted, empty (.inr rfl), settled _ shared,
    closed tidy rfl (List.cons_ne_nil _ _)⟩

def rteMbuf : CopyMbuf := ⟨⟨.rte 3, .ifDpdkFreeRteBuf 3 7, 8192⟩, 7, rfl, true⟩

theorem copied_packets_without_end :
    (∃ copying, Run copyMove (Copying.start copyOn 0 true 1 sixtyBytes)
        [.copy sixtyBytes (List.replicate 16 sixtyMbuf) zeroedPd, .drop sixtyBytes zeroedPd]
        copying ∧
      copying.dropped = true ∧ (packetsOf copying.inp.injected.flatten).length = 16 ∧
      (copying.inp.injected.flatten.filter (·.has pdFlushFlow)).length = 0) ∧
    (∃ copying, Run copyMove (Copying.start copyOn 0 true 1 sixtyBytes)
        [.copy sixtyBytes [sixtyMbuf] zeroedPd, .mode sixtyBytes copyOff zeroedPd,
          .mode sixtyBytes copyOn zeroedPd, .copy sixtyBytes [sixtyMbuf] zeroedPd,
          .drop sixtyBytes zeroedPd] copying ∧
      copying.dropped = true ∧
      (copying.inp.injected.flatten.filter (·.has pdFlushFlow)).length = 2) ∧
    (∃ copying, Run copyMove (Copying.start copyOn 0 true 1 sixtyBytes)
        [.copy sixtyBytes (List.replicate 17 sixtyMbuf) zeroedPd,
          .mode sixtyBytes copyMaybe zeroedPd, .drop sixtyBytes zeroedPd] copying ∧
      copying.dropped = true ∧ (packetsOf copying.inp.injected.flatten).length = 16 ∧
      (copying.inp.injected.flatten.filter (·.has pdFlushFlow)).length = 0) ∧
    ∃ copying, Run copyMove (Copying.start copyMaybe 0 true 1 sixtyBytes)
        [.copy sixtyBytes [rteMbuf] zeroedPd, .drop sixtyBytes zeroedPd] copying ∧
      copying.inp.injected = [] ∧ copying.taken = [.rte 3] ∧ copying.given = [.cluster 7] := by
  have small : copyOff < 16 ∧ copyOn < 16 ∧ copyMaybe < 16 := by decide
  refine ⟨⟨_, Allowed.run ⟨rfl, rfl, trivial⟩, rfl, rfl, rfl⟩, ⟨_, Allowed.run ⟨rfl,
    ⟨rfl, small.1⟩, ⟨rfl, small.2.1⟩, rfl, rfl, trivial⟩, rfl, rfl⟩, ⟨_, Allowed.run ⟨rfl,
    ⟨rfl, small.2.2⟩, rfl, trivial⟩, rfl, rfl, rfl⟩,
    ⟨_, Allowed.run ⟨rfl, rfl, trivial⟩, rfl, rfl, rfl⟩⟩

end Libunsod.Netinet
