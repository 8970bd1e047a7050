import Libunsod.Netinet.TcpReassHoles
import Libunsod.Netinet.TcpReassSpans

/-!
The reassembly queue as a buffer of spans, through every call that changes it. `rcv_nxt` is where
the buffer goes on. It can be one position past the place where the first entry starts, but only
when the receive side is shut: a FIN takes a sequence number, and an entry that starts where the
FIN did may still be queued.
-/

namespace Libunsod.Netinet

open Spans (Span Buffer Ordered)

variable {queue : List TsegQent} {raised top low : Nat} {final : Tcpcb} {state : Presenting}
  {origin : Buffer UInt8} {replace : Bool} {env : ReassEnv} {seg : Segment}

variable {fits : BitVec 8 → Nat → Nat → Prop} {ticks : Nat} {flags : BitVec 8} {lead : Bool}

def cellsOf : List Appended → List (Option UInt8)
  | [] => []
  | .data bytes :: rest => bytes.map some ++ cellsOf rest
  | .hole size :: rest => List.replicate size.toNat none ++ cellsOf rest

theorem cellsOf_append (first second : List Appended) :
    cellsOf (first ++ second) = cellsOf first ++ cellsOf second := by
  induction first with
  | nil => rfl
  | cons appended rest ih =>
    cases appended <;> simp only [List.cons_append, cellsOf, ih, List.append_assoc]

structure View where
  irs : Seq
  old : List Appended
  kind : Appended → Prop
  extra : BitVec 8 → Nat → Nat → Prop
  data : ∀ bytes, kind (.data bytes)
  trims : TrimClosed extra

def View.since (start : Tcpcb) (extra : BitVec 8 → Nat → Nat → Prop) (trims : TrimClosed extra) :
    View :=
  ⟨start.rcvNxt, start.soRcv, fun _ => True, extra, fun _ => trivial, trims⟩

structure InQueue (extra : BitVec 8 → Nat → Nat → Prop) (floor high : Nat) (flags : BitVec 8)
    (start stop : Nat) : Prop where
  above : floor ≤ start
  below : start < high
  ends : stop ≤ high
  short : stop < start + 2 ^ 31
  own : extra flags start stop

abbrev View.Entry (view : View) (floor high : Nat) : TsegQent → Span UInt8 → Prop :=
  Carries view.irs (InQueue view.extra floor high)

def View.Got (view : View) (tp : Tcpcb) (cells : List (Option UInt8)) : Prop :=
  ∃ appended, tp.soRcv = view.old ++ appended ∧ cellsOf appended = cells ∧
    ∀ each ∈ appended, view.kind each

structure Segq (view : View) (high : Nat) (tp : Tcpcb) (floor : Nat) (buffer : Buffer UInt8) :
    Prop where
  rcvNxt : tp.rcvNxt = view.irs + BitVec.ofNat 32 buffer.next
  behind : floor ≤ buffer.next
  lag : buffer.next ≤ floor + tp.cantrcvmore.toNat
  near : high ≤ floor + tp.cantrcvmore.toNat + 2 ^ 31
  queue : List.Forall₂ (view.Entry floor high) tp.tSegq buffer.spans
  ordered : Ordered buffer.spans
  got : tp.cantrcvmore = false → view.Got tp buffer.cells

abbrev Lined (view : View) (tp : Tcpcb) (buffer : Buffer UInt8) : Prop :=
  Segq view (buffer.next + 2 ^ 31) tp buffer.next buffer

def KeepsFin (extra : BitVec 8 → Nat → Nat → Prop) : Prop :=
  ∀ flags start stop other first last, flags &&& thFin ≠ 0 → extra flags start stop →
    extra other first last → stop ≤ last → start < last ∨ first = last → other &&& thFin ≠ 0

def HasFin (queue : List TsegQent) : Prop :=
  ∃ q ∈ queue, q.tqeFlags &&& thFin ≠ 0

theorem mem_carried {Left Right : Type} {related : Left → Right → Prop} {lefts : List Left}
    {rights : List Right} (all : List.Forall₂ related lefts rights) {right : Right}
    (member : right ∈ rights) : ∃ left ∈ lefts, related left right := by
  induction all with
  | nil => cases member
  | cons first rest ih =>
    rcases List.mem_cons.mp member with rfl | later
    · exact ⟨_, List.mem_cons_self, first⟩
    · obtain ⟨left, inside, own⟩ := ih later
      exact ⟨left, List.mem_cons_of_mem _ inside, own⟩

section Positions

variable {view : View} {floor high : Nat} {tp moved : Tcpcb} {buffer after : Buffer UInt8}
  {q : TsegQent} {rest : List TsegQent} {span : Span UInt8} {more : List (Span UInt8)}

theorem View.Got.append {cells : List (Option UInt8)} {filler : List Appended}
    (got : view.Got tp cells) (received : moved.soRcv = tp.soRcv ++ filler)
    (allowed : ∀ each ∈ filler, view.kind each) : view.Got moved (cells ++ cellsOf filler) := by
  obtain ⟨appended, whole, shown, kinds⟩ := got
  refine ⟨appended ++ filler, ?_, ?_, ?_⟩
  · rw [received, whole, List.append_assoc]
  · rw [cellsOf_append, shown]
  · intro each member
    rcases List.mem_append.mp member with early | late
    · exact kinds each early
    · exact allowed each late

theorem View.Got.data {cells : List (Option UInt8)} {bytes : List UInt8}
    (got : view.Got tp cells) (received : moved.soRcv = tp.soRcv ++ [.data bytes]) :
    view.Got moved (cells ++ bytes.map some) := by
  have whole := got.append received (by simpa using view.data bytes)
  simpa only [cellsOf, List.append_nil] using whole

theorem View.trimClosed (view : View) (floor high : Nat) :
    TrimClosed (InQueue view.extra floor high) := by
  intro flags start later stop inside further rest
  have above := inside.above
  have ends := inside.ends
  have short := inside.short
  refine ⟨?_, ?_, ends, ?_, view.trims _ _ _ _ inside.own further rest⟩
  · omega
  · omega
  · omega

theorem carried_raise {spans : List (Span UInt8)}
    (carried : List.Forall₂ (view.Entry floor high) queue spans)
    (above : ∀ span ∈ spans, raised ≤ span.start) (wide : high ≤ top) :
    List.Forall₂ (view.Entry raised top) queue spans := by
  induction carried with
  | nil => exact .nil
  | cons first rest ih =>
    rename_i q span queue spans
    have fit := first.fit
    refine .cons ⟨first.toShows, ⟨?_, ?_, ?_, fit.short, fit.own⟩⟩ ?_
    · exact above span List.mem_cons_self
    · exact Nat.lt_of_lt_of_le fit.below wide
    · exact Nat.le_trans fit.ends wide
    · exact ih fun other member => above other (List.mem_cons_of_mem span member)

theorem entryEnd_carried (carried : Carries view.irs fits q span) :
    entryEnd q = view.irs + BitVec.ofNat 32 span.stop := by
  rw [entryEnd, carried.seq, carried.len, SerialNumber.add_ofNat]
  rfl

theorem Segq.bounds (segq : Segq view high tp floor buffer) (member : span ∈ buffer.spans) :
    floor ≤ span.start ∧ span.start < high ∧ span.stop ≤ high ∧
      span.stop < span.start + 2 ^ 31 := by
  obtain ⟨q, _, carried⟩ := mem_carried segq.queue member
  exact ⟨carried.fit.above, carried.fit.below, carried.fit.ends, carried.fit.short⟩

theorem Segq.widen (segq : Segq view high tp floor buffer) (wide : high ≤ buffer.next + 2 ^ 31) :
    Segq view (buffer.next + 2 ^ 31) tp floor buffer := by
  have lag := segq.lag
  refine { segq with near := by omega, queue := ?_ }
  exact carried_raise segq.queue (fun span member => (segq.bounds member).1) wide

theorem segq_empty (rcvNxt : tp.rcvNxt = view.irs + BitVec.ofNat 32 buffer.next)
    (queue : tp.tSegq = []) (spans : buffer.spans = [])
    (got : tp.cantrcvmore = false → view.Got tp buffer.cells) :
    Lined view tp buffer := by
  refine ⟨rcvNxt, Nat.le_refl _, Nat.le_add_right _ _, by omega, ?_, ?_, got⟩
  · rw [queue, spans]
    exact .nil
  · rw [spans]
    exact .nil

theorem lined_start (begins : tp.rcvNxt = view.irs) (old : tp.soRcv = view.old)
    (queue : tp.tSegq = []) : Lined view tp .empty := by
  refine segq_empty ?_ queue rfl fun _ => ⟨[], ?_, rfl, by simp⟩
  · rw [begins]
    exact (BitVec.add_zero _).symm
  · rw [old, List.append_nil]

theorem Segq.raise (segq : Segq view high tp floor buffer)
    (rcvNxt : moved.rcvNxt = view.irs + BitVec.ofNat 32 after.next) (left : moved.tSegq = queue)
    (carried : List.Forall₂ (view.Entry floor high) queue after.spans)
    (ordered : Ordered after.spans) (higher : floor ≤ raised)
    (above : ∀ span ∈ after.spans, raised ≤ span.start) (behind : raised ≤ after.next)
    (lag : after.next ≤ raised + moved.cantrcvmore.toNat)
    (shut : tp.cantrcvmore.toNat ≤ moved.cantrcvmore.toNat)
    (got : moved.cantrcvmore = false → view.Got moved after.cells) :
    Segq view high moved raised after := by
  have near := segq.near
  refine ⟨rcvNxt, behind, lag, by omega, ?_, ordered, got⟩
  rw [left]
  exact carried_raise carried above (Nat.le_refl _)

theorem Segq.first (segq : Segq view high tp floor buffer) (queue : tp.tSegq = q :: rest) :
    ∃ span more, buffer.spans = span :: more := by
  have all := segq.queue
  rw [queue] at all
  generalize buffer.spans = spans at all ⊢
  cases all with
  | cons => exact ⟨_, _, rfl⟩

theorem Segq.head (segq : Segq view high tp floor buffer) (queue : tp.tSegq = q :: rest)
    (spans : buffer.spans = span :: more) : view.Entry floor high q span ∧
      List.Forall₂ (view.Entry floor high) rest more ∧ (∀ other ∈ more, span.stop ≤ other.start) ∧
      Ordered more := by
  have all := segq.queue
  have ordered := segq.ordered
  rw [queue, spans] at all
  rw [spans, Spans.ordered_cons] at ordered
  obtain ⟨carried, others⟩ := List.forall₂_cons.mp all
  exact ⟨carried, others, ordered⟩

theorem Segq.advance (segq : Segq view high tp floor buffer) (queue : tp.tSegq = q :: rest)
    (spans : buffer.spans = span :: more) (left : moved.tSegq = rest) (kept : after.spans = more)
    (rcvNxt : moved.rcvNxt = view.irs + BitVec.ofNat 32 after.next) (behind : span.stop ≤ after.next)
    (lag : after.next ≤ span.stop + moved.cantrcvmore.toNat)
    (shut : tp.cantrcvmore.toNat ≤ moved.cantrcvmore.toNat)
    (got : moved.cantrcvmore = false → view.Got moved after.cells) :
    Segq view high moved span.stop after := by
  obtain ⟨first, others, apart, sorted⟩ := segq.head queue spans
  have above := first.fit.above
  have size := span.start_le_stop
  exact segq.raise rcvNxt left (kept ▸ others) (kept ▸ sorted) (by omega) (kept ▸ apart) behind lag
    shut got

theorem Segq.place (segq : Segq view high tp floor buffer)
    (carried : view.Entry floor high q span) : floor ≤ span.start ∧ span.start < high ∧
      floor ≤ buffer.next ∧ buffer.next ≤ floor + tp.cantrcvmore.toNat ∧
      high ≤ floor + tp.cantrcvmore.toNat + 2 ^ 31 ∧ tp.cantrcvmore.toNat ≤ 1 :=
  ⟨carried.fit.above, carried.fit.below, segq.behind, segq.lag, segq.near,
    tp.cantrcvmore.toNat_le⟩

theorem Segq.hole_size (segq : Segq view high tp floor buffer)
    (carried : view.Entry floor high q span) (open_ : tp.cantrcvmore = false) :
    buffer.next ≤ span.start ∧ (q.tqeSeq - tp.rcvNxt).toInt = (span.start : Int) - buffer.next := by
  have place := segq.place carried
  simp only [open_, Bool.toNat_false, Nat.add_zero] at place
  refine ⟨by omega, ?_⟩
  rw [carried.seq, segq.rcvNxt]
  exact sub_toInt_near view.irs ⟨by omega, by omega⟩

theorem Segq.edge_eq (segq : Segq view high tp floor buffer)
    (carried : view.Entry floor high q span) (edge : q.tqeSeq = tp.rcvNxt) :
    span.start = buffer.next := by
  have place := segq.place carried
  rw [carried.seq, segq.rcvNxt] at edge
  rcases Nat.le_total buffer.next span.start with ordered | ordered
  · exact SerialNumber.eq_of_eq ordered (by omega) edge
  · exact (SerialNumber.eq_of_eq ordered (by omega) edge.symm).symm

theorem Segq.gap (segq : Segq view high tp buffer.next buffer)
    (away : ∀ q rest, tp.tSegq = q :: rest → q.tqeSeq ≠ tp.rcvNxt) :
    ∀ span ∈ buffer.spans, buffer.next < span.start := by
  intro span member
  cases queue : tp.tSegq with
  | nil =>
    obtain ⟨q, linked, _⟩ := mem_carried segq.queue member
    rw [queue] at linked
    cases linked
  | cons q rest =>
    obtain ⟨first, more, spans⟩ := segq.first queue
    obtain ⟨head, _, apart, _⟩ := segq.head queue spans
    have above := head.fit.above
    have size := first.start_le_stop
    have off : first.start ≠ buffer.next := by
      intro same
      apply away q rest queue
      rw [head.seq, segq.rcvNxt, same]
    rw [spans] at member
    rcases List.mem_cons.mp member with rfl | later
    · omega
    · have late := apart span later
      omega

theorem Segq.led (segq : Segq view high tp floor buffer) (queue : tp.tSegq = q :: rest)
    (edge : q.tqeSeq = tp.rcvNxt ∨ lead = true)
    (holes : lead = true → ∀ size, view.kind (.hole size)) (spans : buffer.spans = span :: more) :
    ∃ front, Segq view high (tp.led q lead) front.next front ∧ front.next = span.start ∧
      front.spans = span :: more ∧
      (tp.cantrcvmore = false → Buffer.Delivers lead buffer front) ∧ floor ≤ span.start ∧
      (lead = false → span.start = buffer.next) := by
  obtain ⟨head, others, apart, _⟩ := segq.head queue spans
  have above := head.fit.above
  have size := span.start_le_stop
  have behind (other : Span UInt8) (member : other ∈ span :: more) : span.start ≤ other.start := by
    rcases List.mem_cons.mp member with rfl | later
    · exact Nat.le_refl _
    · exact Nat.le_trans size (apart other later)
  cases lead with
  | false =>
    have starts := segq.edge_eq head (edge.resolve_right (by rintro ⟨⟩))
    refine ⟨buffer, ?_, starts.symm, spans, fun _ => .refl, above, fun _ => starts⟩
    exact segq.raise (starts ▸ head.seq) queue (spans ▸ .cons head others) segq.ordered segq.behind
      (starts ▸ spans ▸ behind) (Nat.le_refl _) (Nat.le_add_right _ _) (Nat.le_refl _) segq.got
  | true =>
    refine ⟨buffer.skip span.start, ?_, rfl, spans,
      fun open_ => .skip .refl spans (segq.hole_size head open_).1 rfl, above, by rintro ⟨⟩⟩
    refine segq.raise head.seq queue (spans ▸ .cons head others) segq.ordered above (spans ▸ behind)
      (Nat.le_refl _) (Nat.le_add_right _ _) (Nat.le_refl _) ?_
    intro open_
    have open_ : tp.cantrcvmore = false := open_
    obtain ⟨forward, hole⟩ := segq.hole_size head open_
    have received : (tp.led q true).soRcv =
        tp.soRcv ++ [.hole ((span.start : Int) - buffer.next)] := by
      simp only [Tcpcb.led, open_, Bool.not_false, Bool.and_self, ↓reduceIte, hole]
    have got := (segq.got open_).append received (by simpa using holes rfl _)
    have count : ((span.start : Int) - buffer.next).toNat = span.start - buffer.next := by
      omega
    simp only [cellsOf, List.append_nil, count] at got
    exact got

theorem Segq.deliver_got (segq : Segq view high tp floor buffer)
    (carried : view.Entry floor high q span) (open_ : tp.cantrcvmore = false)
    (holes : ∀ size, view.kind (.hole size)) :
    view.Got (tp.delivered q rest) ((buffer.skip span.start).take span more).cells := by
  obtain ⟨forward, hole⟩ := segq.hole_size carried open_
  have received : (tp.delivered q rest).soRcv =
      tp.soRcv ++ (holeBefore tp.received q ++ [.data q.tqeM]) := by
    simp only [Tcpcb.delivered, Received.deliver, Tcpcb.received, open_, Bool.false_eq_true,
      ↓reduceIte, List.append_assoc]
  have count : ((span.start : Int) - buffer.next).toNat = span.start - buffer.next := by omega
  have gap : cellsOf (holeBefore tp.received q) =
      List.replicate (span.start - buffer.next) none := by
    simp only [holeBefore, Tcpcb.received, hole]
    split
    · rw [show span.start - buffer.next = 0 by omega]
      rfl
    · simp only [cellsOf, List.append_nil, count]
  have got := (segq.got open_).append received (by
    intro each member
    rcases List.mem_append.mp member with early | late
    · simp only [holeBefore] at early
      split at early
      · cases early
      · exact List.mem_singleton.mp early ▸ holes _
    · exact List.mem_singleton.mp late ▸ view.data _)
  rw [cellsOf_append, gap, ← List.append_assoc] at got
  simp only [cellsOf, List.append_nil, carried.bytes] at got
  exact got

def finCount (flags : BitVec 8) : Nat :=
  if flags &&& thFin ≠ 0 then 1 else 0

theorem Segq.deliver (segq : Segq view high tp floor buffer) (queue : tp.tSegq = q :: rest)
    (holes : ∀ size, view.kind (.hole size)) (spans : buffer.spans = span :: more) :
    Segq view high (tp.delivered q rest) span.stop
      { (buffer.skip span.start).take span more with next := span.stop + finCount q.tqeFlags } := by
  obtain ⟨head, _⟩ := segq.head queue spans
  have ends := entryEnd_carried head
  have bit := tp.cantrcvmore.toNat_le
  by_cases fin : q.tqeFlags &&& thFin ≠ 0
  · have shut : (tp.delivered q rest).cantrcvmore = true := if_pos fin
    rw [finCount, if_pos fin]
    refine segq.advance queue spans rfl rfl ?_ (Nat.le_succ _) (by rw [shut]; exact Nat.le_refl _)
      (by rw [shut]; exact bit) (by simp [shut])
    exact (if_pos fin).trans (ends ▸ SerialNumber.add_ofNat view.irs span.stop 1)
  · have shut : (tp.delivered q rest).cantrcvmore = tp.cantrcvmore := if_neg fin
    rw [finCount, if_neg fin]
    refine segq.advance queue spans rfl rfl ((if_neg fin).trans ends) (Nat.le_refl _)
      (Nat.le_add_right _ _) (by rw [shut]) ?_
    intro open_
    exact segq.deliver_got head (shut ▸ open_) holes

theorem Segq.present (segq : Segq view high tp buffer.next buffer) (zone : List ZoneOp)
    (queue : tp.tSegq = q :: rest) (spans : buffer.spans = span :: more)
    (starts : buffer.next = span.start) :
    Segq view high (tp.taken q rest zone) span.stop (buffer.take span more) := by
  obtain ⟨head, _⟩ := segq.head queue spans
  refine segq.advance queue spans rfl rfl ?_ (Nat.le_refl _) (Nat.le_add_right _ _)
    (Nat.le_refl _) ?_
  · simp only [Tcpcb.taken]
    rw [segq.rcvNxt, head.len, SerialNumber.add_ofNat, starts]
    rfl
  · intro open_
    have open_ : tp.cantrcvmore = false := open_
    have received : (tp.taken q rest zone).soRcv = tp.soRcv ++ [.data span.data] := by
      simp only [Tcpcb.taken, open_, Bool.false_eq_true, ↓reduceIte, head.bytes]
    exact (segq.got open_).data received

structure Advanced (view : View) (high : Nat) (lead : Bool) (origin : Buffer UInt8)
    (tp final : Tcpcb) (flags : BitVec 8) (last : TsegQent) (span : Span UInt8)
    (after : Buffer UInt8) : Prop extends SameSide tp final where
  reported : flags = last.tqeFlags &&& thFin
  next : after.next = span.stop
  segq : Segq view high final after.next after
  delivers : tp.cantrcvmore = false → Buffer.Delivers lead origin after
  gap : ∀ other ∈ after.spans, after.next < other.start
  fins : KeepsFin view.extra → HasFin tp.tSegq → flags ≠ 0 ∨ HasFin final.tSegq

theorem presentLoop_advanced (rest : List TsegQent) (state : Presenting)
    (q : TsegQent) (buffer : Buffer UInt8) (span : Span UInt8) (more : List (Span UInt8))
    (segq : Segq view high state.tp buffer.next buffer) (queue : state.tp.tSegq = q :: rest)
    (spans : buffer.spans = span :: more) (starts : buffer.next = span.start)
    (before : state.tp.cantrcvmore = false → Buffer.Delivers lead origin buffer)
    (all : List.Forall₂ (Carries view.irs fits) (q :: rest) (span :: more)) :
    ∃ last lastSpan after, Carries view.irs fits last lastSpan ∧
      Advanced view high lead origin state.tp (presentLoop state q rest).1.tp
        (presentLoop state q rest).2 last lastSpan after := by
  induction rest generalizing state q buffer span more with
  | nil =>
    obtain ⟨zone, same⟩ := presentOne_tp state q []
    obtain ⟨carried, others⟩ := List.forall₂_cons.mp all
    cases others
    simp only [presentLoop, same]
    refine ⟨q, span, buffer.take span [], carried, ⟨rfl, rfl, rfl⟩, rfl, rfl,
      segq.present _ queue spans starts, fun open_ => .take (before open_) spans starts.symm,
      by simp [Buffer.take], ?_⟩
    rintro keeps ⟨p, member, fin⟩
    rw [queue, List.mem_singleton] at member
    subst member
    exact .inl fin
  | cons nq rest ih =>
    obtain ⟨zone, same⟩ := presentOne_tp state q (nq :: rest)
    have taken := segq.present zone queue spans starts
    have delivered (open_ : state.tp.cantrcvmore = false) :=
      Buffer.Delivers.take (before open_) spans starts.symm
    obtain ⟨head, _⟩ := segq.head queue spans
    obtain ⟨second, further, following⟩ := taken.first rfl
    obtain ⟨secondHead, _⟩ := taken.head rfl following
    simp only [presentLoop]
    generalize presentOne state q (nq :: rest) = presented at same ih ⊢
    obtain ⟨tp, replace, reclaimed⟩ := presented
    obtain rfl : tp = state.tp.taken q (nq :: rest) zone := same
    split
    next contiguous =>
      have meets : second.start = span.stop := taken.edge_eq secondHead contiguous
      obtain ⟨last, lastSpan, after, lastCarried, advanced⟩ :=
        ih ⟨state.tp.taken q (nq :: rest) zone, replace, reclaimed⟩ nq (buffer.take span more) second
          further taken rfl following meets.symm delivered
          (following ▸ (List.forall₂_cons.mp all).2)
      refine ⟨last, lastSpan, after, lastCarried, { advanced with fins := ?_ }⟩
      rintro keeps ⟨p, member, fin⟩
      refine advanced.fins keeps ?_
      rw [queue] at member
      rcases List.mem_cons.mp member with rfl | later
      · have size := span.start_le_stop
        have secondSize := second.start_le_stop
        refine ⟨nq, List.mem_cons_self, keeps _ _ _ _ _ _ fin head.fit.own secondHead.fit.own
          (by omega) ?_⟩
        omega
      · exact ⟨p, later, fin⟩
    next apart =>
      refine ⟨q, span, buffer.take span more, (List.forall₂_cons.mp all).1, ⟨rfl, rfl, rfl⟩, rfl, rfl,
        taken, delivered, taken.gap ?_, ?_⟩
      · rintro head others ⟨⟩
        exact apart
      · rintro keeps ⟨p, member, fin⟩
        rw [queue] at member
        rcases List.mem_cons.mp member with rfl | later
        · exact .inl fin
        · exact .inr ⟨p, later, fin⟩

theorem Segq.replaced {replaced : Tcpcb} (segq : Segq view high state.tp floor buffer)
    (found : replaceTqs state = some replaced) :
    Segq view high replaced floor buffer ∧ SameSide state.tp replaced ∧
      (HasFin state.tp.tSegq → HasFin replaced.tSegq) := by
  simp only [replaceTqs] at found
  split at found
  · split at found
    · cases found
    · cases found
      refine ⟨{ segq with queue := ?_ }, ⟨rfl, rfl, rfl⟩, ?_⟩
      · refine List.forall₂_map_left_iff.mpr (segq.queue.imp ?_)
        intro queued span carried
        split
        · exact { carried with }
        · exact carried
      · rintro ⟨queued, member, fin⟩
        refine ⟨_, List.mem_map_of_mem member, ?_⟩
        split <;> exact fin
  · cases found
    exact ⟨segq, ⟨rfl, rfl, rfl⟩, id⟩

theorem present_segq (segq : Segq view high tp floor buffer)
    (holes : lead = true → ∀ size, view.kind (.hole size))
    (result : present tp ticks lead replace = some (final, flags)) :
    (flags = 0 ∧ (∃ timer, final = { tp with ttReassdl := timer }) ∧
        (tcpsHaveEstablished tp.tState = true →
          ∀ q rest, tp.tSegq = q :: rest → q.tqeSeq ≠ tp.rcvNxt)) ∨
      ∃ low last span after, floor ≤ low ∧ (lead = false → low = buffer.next) ∧
        view.Entry low high last span ∧
          Advanced view high lead buffer tp final flags last span after := by
  cases present_cases result with
  | quiet timer waits =>
    exact .inl ⟨rfl, ⟨timer, rfl⟩, fun established q rest queue => (waits established q rest queue).2⟩
  | presents q rest replaced _ queue edge found =>
    right
    obtain ⟨span, more, spans⟩ := segq.first queue
    obtain ⟨front, ledSegq, starts, frontSpans, before, above, reached⟩ :=
      segq.led queue edge holes spans
    obtain ⟨last, lastSpan, after, carried, advanced⟩ := presentLoop_advanced rest
      ⟨tp.led q lead, replace, none⟩ q front span more ledSegq queue frontSpans starts before
      (queue ▸ frontSpans ▸ ledSegq.queue)
    obtain ⟨kept, same, fins⟩ := advanced.segq.replaced found
    refine ⟨span.start, last, lastSpan, after, above, reached, starts ▸ carried, { advanced with
      cantrcvmore := same.cantrcvmore.trans advanced.cantrcvmore
      tState := same.tState.trans advanced.tState
      passive := same.passive.trans advanced.passive
      segq := { kept with }
      fins := fun keeps fin => (advanced.fins keeps fin).imp_right fins }⟩

structure Presented (view : View) (lead : Bool) (tp final : Tcpcb) (flags : BitVec 8)
    (buffer after : Buffer UInt8) : Prop extends SameSide tp final where
  lined : Lined view final after
  delivers : Buffer.Delivers lead buffer after
  forward : buffer.next ≤ after.next
  reach : after.next ≤ buffer.next + 2 ^ 31
  waits : ∀ span ∈ after.spans, after.next < span.start
  reported : flags = 0 ∨ ∃ own start, flags = own &&& thFin ∧ view.extra own start after.next
  fins : KeepsFin view.extra → HasFin tp.tSegq → flags ≠ 0 ∨ HasFin final.tSegq

theorem present_presented (lined : Lined view tp buffer)
    (open_ : tp.cantrcvmore = false) (established : tcpsHaveEstablished tp.tState = true)
    (holes : lead = true → ∀ size, view.kind (.hole size))
    (result : present tp ticks lead replace = some (final, flags)) :
    ∃ after, Presented view lead tp final flags buffer after := by
  rcases present_segq lined holes result with
    ⟨none, ⟨timer, rfl⟩, away⟩ | ⟨low, last, span, after, above, _, carried, advanced⟩
  · exact ⟨buffer, ⟨rfl, rfl, rfl⟩, { lined with }, .refl, Nat.le_refl _, Nat.le_add_right _ _,
      lined.gap (away established), .inl none, fun _ => .inr⟩
  · have reached := carried.fit.above
    have ends := carried.fit.ends
    have size := span.start_le_stop
    have next := advanced.next
    refine ⟨after, { advanced with
      lined := advanced.segq.widen (by omega)
      delivers := advanced.delivers open_
      forward := by omega
      reach := by omega
      waits := advanced.gap
      reported := .inr ⟨_, span.start, advanced.reported, ?_⟩ }⟩
    rw [next]
    exact carried.fit.own

theorem present_returns (tp : Tcpcb) (ticks : Nat) (lead : Bool) :
    ∃ pair, present tp ticks lead false = some pair := by
  simp only [present]
  split
  · exact ⟨_, rfl⟩
  · split
    · exact ⟨_, rfl⟩
    · split
      · exact ⟨_, rfl⟩
      · simp only [presentRun, replaceTqs, presentLoop_replace, Bool.false_eq_true, ↓reduceIte]
        exact ⟨_, rfl⟩

theorem chooseEntry_lead {te : Entry} {lead : Bool}
    (chosen : chooseEntry tp env seg = some (te, lead)) :
    (lead = true → tp.passive = true) ∧ (te = .tqs → env.zalloc = none) := by
  simp only [chooseEntry] at chosen
  cases passive : tp.passive with
  | true =>
    refine ⟨fun _ => rfl, ?_⟩
    rintro rfl
    cases alloc : env.zalloc with
    | none => rfl
    | some index => simp [passive, alloc] at chosen
  | false =>
    simp only [passive, Bool.not_false, Bool.and_true] at chosen
    split at chosen
    · cases chosen
    next below =>
      cases alloc : env.zalloc with
      | none =>
        refine ⟨?_, fun _ => rfl⟩
        simp only [alloc] at chosen
        split at chosen
        · cases chosen
        next kept =>
          rintro rfl
          simp [below, kept] at chosen
      | some index =>
        simp only [alloc, Option.some.injEq, Prod.mk.injEq] at chosen
        obtain ⟨rfl, rfl⟩ := chosen
        exact ⟨fun leading => absurd leading below, by rintro ⟨⟩⟩

theorem tcpReass_returns (tp : Tcpcb) (seg : Segment) (env : ReassEnv) (alloc : env.zalloc ≠ none) :
    ∃ result, tcpReass tp (some seg) env = some result := by
  simp only [tcpReass]
  cases chosen : chooseEntry tp env seg with
  | none => exact ⟨_, rfl⟩
  | some pair =>
    obtain ⟨te, lead⟩ := pair
    have zoned : ¬te = .tqs := fun stack => alloc ((chooseEntry_lead chosen).2 stack)
    simp only [zoned, decide_false, Bool.and_false]
    cases enqueue (umaZalloc tp te) env.ticks seg te with
    | none =>
      obtain ⟨result, presented⟩ :=
        present_returns (releaseDuplicate (umaZalloc tp te) te) env.ticks lead
      simp [presented]
    | some queued =>
      obtain ⟨result, presented⟩ := present_returns queued.1 env.ticks lead
      simp [presented]

structure GivenSegment (tp : Tcpcb) (seg : Segment) : Prop where
  length : seg.tlen = seg.m.length
  short : seg.tlen < 2 ^ 31
  starts : (seg.thSeq - tp.rcvNxt).toNat < 2 ^ 31
  ends : (seg.thSeq - tp.rcvNxt).toNat + seg.tlen ≤ 2 ^ 31

theorem given_of_offset {offset window : Nat}
    (sequence : seg.thSeq = tp.rcvNxt + BitVec.ofNat 32 offset) (length : seg.tlen = seg.m.length)
    (fits : offset + seg.tlen ≤ window) (small : window < 2 ^ 31) :
    (seg.thSeq - tp.rcvNxt).toNat = offset ∧ GivenSegment tp seg := by
  have place : (seg.thSeq - tp.rcvNxt).toNat = offset := by
    rw [sequence, BitVec.add_comm, BitVec.add_sub_cancel, BitVec.toNat_ofNat]
    exact Nat.mod_eq_of_lt (by omega)
  exact ⟨place, length, by omega, by omega, by omega⟩

def givenSpan (tp : Tcpcb) (next : Nat) (seg : Segment) : Span UInt8 :=
  ⟨next + (seg.thSeq - tp.rcvNxt).toNat, seg.m⟩

theorem givenSpan_stop (next : Nat) (given : GivenSegment tp seg) :
    (givenSpan tp next seg).stop = next + (seg.thSeq - tp.rcvNxt).toNat + seg.tlen := by
  rw [given.length]
  rfl

theorem Segq.given (segq : Segq view (buffer.next + 2 ^ 31) tp floor buffer)
    (given : GivenSegment tp seg) (own : view.extra seg.thFlags (givenSpan tp buffer.next seg).start
      (givenSpan tp buffer.next seg).stop) :
    CarriedSegment view.irs (InQueue view.extra floor (buffer.next + 2 ^ 31)) seg
      (givenSpan tp buffer.next seg) ∧
      NearAll buffer.spans (givenSpan tp buffer.next seg) := by
  have behind := segq.behind
  have lag := segq.lag
  have bit := tp.cantrcvmore.toNat_le
  have short := given.short
  have starts := given.starts
  have ends := given.ends
  have stop := givenSpan_stop buffer.next given
  have start : (givenSpan tp buffer.next seg).start =
    buffer.next + (seg.thSeq - tp.rcvNxt).toNat := rfl
  constructor
  · refine ⟨?_, given.length, rfl, ⟨by omega, by omega, by omega, by omega, own⟩⟩
    rw [start, ← SerialNumber.add_ofNat, ← segq.rcvNxt, BitVec.ofNat_toNat, BitVec.setWidth_eq,
      BitVec.add_comm, BitVec.sub_add_cancel]
  · constructor
    · intro span member
      have bounds := segq.bounds member
      constructor <;> omega
    · intro span member early
      have bounds := segq.bounds member
      have spanSize := span.start_le_stop
      constructor <;> omega
    · intro span member late
      have bounds := segq.bounds member
      constructor <;> omega

theorem tcpReass_segq {result : Reassembled}
    (segq : Segq view (buffer.next + 2 ^ 31) tp floor buffer) (given : GivenSegment tp seg)
    (own : view.extra seg.thFlags (givenSpan tp buffer.next seg).start
      (givenSpan tp buffer.next seg).stop) (returned : tcpReass tp (some seg) env = some result) :
    (chooseEntry tp env seg = none ∧ result.tp = tp ∧ result.flags = 0) ∨
      ∃ te lead replace middle, chooseEntry tp env seg = some (te, lead) ∧
        Segq view (buffer.next + 2 ^ 31) middle floor
          (buffer.insert (givenSpan tp buffer.next seg)) ∧ SameSide tp middle ∧
        present middle env.ticks lead replace = some (result.tp, result.flags) := by
  generalize result.tp = final, result.flags = flags, tcpReass_cases returned = outcome
  obtain ⟨segment, near⟩ := segq.given given own
  cases outcome with
  | refused nothing => exact .inl ⟨nothing, rfl, rfl⟩
  | duplicate te lead chosen again presented =>
    rcases linked_carried (view.trimClosed _ _) env.ticks te near segq.ordered segment segq.queue with
      ⟨_, unchanged⟩ | ⟨trimmed, left, _⟩
    · have whole : buffer.insert (givenSpan tp buffer.next seg) = buffer := by
        simp only [Buffer.insert, unchanged]
      refine .inr ⟨te, lead, false, tp.passed te, chosen, ?_, ⟨rfl, rfl, rfl⟩, presented⟩
      rw [whole]
      exact { segq with }
    · exact absurd (again.symm.trans left) (by simp)
  | linked te lead trimmed chosen left presented =>
    rcases linked_carried (view.trimClosed _ _) env.ticks te near segq.ordered segment segq.queue with
      ⟨again, _⟩ | ⟨other, found, carried⟩
    · exact absurd (left.symm.trans again) (by simp)
    · rw [left] at found
      cases found
      exact .inr ⟨te, lead, _, tp.linked env.ticks seg trimmed te, chosen,
        { segq with queue := carried, ordered := Spans.insert_ordered _ segq.ordered },
        ⟨rfl, rfl, rfl⟩, presented⟩

def FinEmpty (extra : BitVec 8 → Nat → Nat → Prop) : Prop :=
  ∀ flags start, extra flags start start → flags &&& thFin ≠ 0

theorem Segq.keepsFin {new : Span UInt8} (keeps : KeepsFin view.extra)
    (segq : Segq view high tp floor buffer) (queued : Segq view high moved floor (buffer.insert new))
    (own : view.extra flags new.start new.stop) (has : HasFin tp.tSegq ∨ flags &&& thFin ≠ 0) :
    HasFin moved.tSegq := by
  have origin : ∃ other span, (span ∈ buffer.spans ∨ span = new) ∧ other &&& thFin ≠ 0 ∧
      view.extra other span.start span.stop := by
    rcases has with ⟨q, member, fin⟩ | fin
    · obtain ⟨span, inside, carried⟩ := mem_carried (List.Forall₂.flip segq.queue) member
      exact ⟨_, span, .inl inside, fin, carried.fit.own⟩
    · exact ⟨flags, new, .inr rfl, fin, own⟩
  obtain ⟨other, span, member, fin, fits⟩ := origin
  obtain ⟨last, inside, covers, overlaps⟩ :=
    Spans.insert_reaches segq.ordered member
  obtain ⟨q, linked, carried⟩ := mem_carried queued.queue inside
  exact ⟨q, linked, keeps _ _ _ _ _ _ fin fits carried.fit.own covers overlaps⟩

theorem Segq.forward (segq : Segq view high tp floor buffer)
    (fine : tp.cantrcvmore = false ∨ FinEmpty view.extra) (carried : view.Entry low high q span)
    (above : floor ≤ low) : buffer.next ≤ span.stop + finCount q.tqeFlags := by
  have lag := segq.lag
  have reached := carried.fit.above
  have size := span.start_le_stop
  rcases fine with open_ | empties
  · simp only [open_, Bool.toNat_false, Nat.add_zero] at lag
    omega
  · have bit := tp.cantrcvmore.toNat_le
    by_cases empty : span.start = span.stop
    · have own := carried.fit.own
      rw [← empty] at own
      have count : finCount q.tqeFlags = 1 := if_pos (empties _ _ own)
      omega
    · omega

structure Delivering (view : View) (start : Tcpcb) (origin : Buffer UInt8) (tp : Tcpcb)
    (floor : Nat) (after : Buffer UInt8) : Prop where
  segq : Segq view (origin.next + 2 ^ 31) tp floor after
  forward : origin.next ≤ after.next
  reach : after.next ≤ origin.next + 2 ^ 31 + 1
  receives : tp.cantrcvmore = false → start.cantrcvmore = false ∧
    Buffer.Delivers true origin after ∧ tp.tState = start.tState ∧ tp.passive = start.passive
  fins : tp.cantrcvmore = false → HasFin start.tSegq → HasFin tp.tSegq
  ended : start.cantrcvmore = false → tp.cantrcvmore = true →
    ∃ flags first last cells, flags &&& thFin ≠ 0 ∧ view.extra flags first last ∧
      last < after.next ∧ view.Got tp cells ∧
      (origin.cells.length = origin.next → cells.length = last)

theorem Delivering.deliver {start : Tcpcb}
    (delivering : Delivering view start origin tp floor buffer) (queue : tp.tSegq = q :: rest)
    (holes : ∀ size, view.kind (.hole size)) (fine : tp.cantrcvmore = false ∨ FinEmpty view.extra) :
    ∃ floor after, Delivering view start origin (tp.delivered q rest) floor after := by
  obtain ⟨span, more, spans⟩ := delivering.segq.first queue
  obtain ⟨carried, _⟩ := delivering.segq.head queue spans
  have delivered := delivering.segq.deliver queue holes spans
  have ahead := delivering.segq.forward fine carried (Nat.le_refl _)
  have ends := carried.fit.ends
  have taken (open_ : tp.cantrcvmore = false) :
      Buffer.Delivers true origin ((buffer.skip span.start).take span more) :=
    .take (.skip (delivering.receives open_).2.1 spans
      (delivering.segq.hole_size carried open_).1 rfl) spans rfl
  have earlier (started : start.cantrcvmore = false) (closed : tp.cantrcvmore = true) :
      ∃ flags first last cells, flags &&& thFin ≠ 0 ∧ view.extra flags first last ∧
        last < span.stop + finCount q.tqeFlags ∧ view.Got (tp.delivered q rest) cells ∧
        (origin.cells.length = origin.next → cells.length = last) := by
    obtain ⟨flags, first, last, cells, own, fits, past, got, level⟩ :=
      delivering.ended started closed
    refine ⟨flags, first, last, cells, own, fits, Nat.lt_of_lt_of_le past ahead, ?_, level⟩
    have kept : (tp.delivered q rest).soRcv = tp.soRcv := if_pos closed
    rw [View.Got, kept]
    exact got
  by_cases fin : q.tqeFlags &&& thFin ≠ 0
  · have shut : (tp.delivered q rest).cantrcvmore = true := if_pos fin
    have count : finCount q.tqeFlags = 1 := if_pos fin
    refine ⟨_, _, delivered, Nat.le_trans delivering.forward ahead, ?_, by simp [shut], by simp [shut],
      ?_⟩
    · simp only [count]
      omega
    · intro started _
      cases before : tp.cantrcvmore with
      | true => exact earlier started before
      | false =>
        refine ⟨_, _, span.stop, _, fin, carried.fit.own, ?_,
          delivering.segq.deliver_got carried before holes, (taken before).length⟩
        rw [count]
        exact Nat.lt_succ_self _
  · have shut : (tp.delivered q rest).cantrcvmore = tp.cantrcvmore := if_neg fin
    have count : finCount q.tqeFlags = 0 := if_neg fin
    have kept : (tp.delivered q rest).tState = tp.tState := if_neg fin
    refine ⟨_, _, delivered, Nat.le_trans delivering.forward ahead, ?_, ?_, ?_, ?_⟩
    · simp only [count]
      omega
    · intro open_
      rw [shut] at open_
      obtain ⟨receives, _, state, passive⟩ := delivering.receives open_
      rw [count]
      exact ⟨receives, taken open_, kept.trans state, passive⟩
    · intro open_ has
      obtain ⟨entry, member, own⟩ := delivering.fins (shut ▸ open_) has
      rw [queue, List.mem_cons] at member
      rcases member with rfl | later
      · exact absurd own fin
      · exact ⟨entry, later, own⟩
    · exact fun started closed => earlier started (shut ▸ closed)

theorem tcpReassDeliverHoles_segq (ticks : Nat) (holes : ∀ size, view.kind (.hole size))
    (segq : tp.cantrcvmore = false ∨ FinEmpty view.extra →
      Segq view (buffer.next + 2 ^ 31) tp floor buffer) :
    ∃ final, tcpReassDeliverHoles tp ticks = some final ∧
      (final.cantrcvmore = false ∨ FinEmpty view.extra →
        ∃ floor after, Delivering view tp buffer final floor after ∧
          (after = buffer ∨ ∀ q rest, final.tSegq = q :: rest → q.tqeSeq ≠ final.rcvNxt)) := by
  have start (fine : tp.cantrcvmore = false ∨ FinEmpty view.extra) :
      Delivering view tp buffer tp floor buffer :=
    ⟨segq fine, Nat.le_refl _, by omega, fun open_ => ⟨open_, .refl, rfl, rfl⟩,
      fun _ => id, fun open_ shut => by simp [open_] at shut⟩
  simp only [tcpReassDeliverHoles]
  cases furthest : furthestExpired tp ticks with
  | none => exact ⟨tp, rfl, fun fine => ⟨_, _, start fine, .inl rfl⟩⟩
  | some p =>
    obtain ⟨final, result, _, ⟨listed, delivered⟩, away⟩ := deliverHolesLoop_total
      (fun moved queue => moved.tSegq = queue ∧
        (moved.cantrcvmore = false ∨ FinEmpty view.extra →
          ∃ floor after, Delivering view tp buffer moved floor after))
      (by
        rintro moved q rest ⟨queue, delivering⟩ open_
        obtain ⟨floor, after, delivering⟩ := delivering (.inl open_)
        obtain ⟨_, _, spans⟩ := delivering.segq.first queue
        obtain ⟨forward, hole⟩ :=
          delivering.segq.hole_size (delivering.segq.head queue spans).1 open_
        omega)
      (by
        rintro moved q rest ⟨queue, delivering⟩
        refine ⟨rfl, fun fine => ?_⟩
        have before : moved.cantrcvmore = false ∨ FinEmpty view.extra := by
          refine fine.imp_left ?_
          intro open_
          simp only [Tcpcb.delivered, Received.deliver] at open_
          split at open_
          · cases open_
          · exact open_
        obtain ⟨floor, after, delivering⟩ := delivering before
        exact delivering.deliver queue holes before)
      p tp.tSegq false tp ⟨rfl, fun fine => ⟨_, _, start fine⟩⟩
    simp only [result, Option.bind_eq_bind, Option.bind_some]
    refine ⟨_, rfl, ?_⟩
    intro fine
    obtain ⟨floor, after, delivering⟩ := delivered fine
    exact ⟨floor, after, { delivering with segq := { delivering.segq with } },
      .inr fun q rest queue => away q rest (listed.symm.trans queue)⟩

theorem Delivering.widen {start : Tcpcb}
    (delivering : Delivering view start origin tp floor after) :
    Segq view (after.next + 2 ^ 31) tp floor after :=
  delivering.segq.widen (Nat.add_le_add_right delivering.forward _)

theorem Segq.lined (segq : Segq view (buffer.next + 2 ^ 31) tp floor buffer)
    (open_ : tp.cantrcvmore = false) : Lined view tp buffer := by
  have behind := segq.behind
  have lag := segq.lag
  simp only [open_, Bool.toNat_false, Nat.add_zero] at lag
  obtain rfl : floor = buffer.next := Nat.le_antisymm behind lag
  exact segq

theorem Segq.rcvNxt_sub (segq : Segq view high tp floor buffer)
    (final : Segq view top moved low after) (forward : buffer.next ≤ after.next)
    (reach : after.next < buffer.next + 2 ^ 32) :
    buffer.next + (moved.rcvNxt - tp.rcvNxt).toNat = after.next := by
  rw [final.rcvNxt, segq.rcvNxt, SerialNumber.sub_toNat view.irs forward reach]
  omega

end Positions

end Libunsod.Netinet
