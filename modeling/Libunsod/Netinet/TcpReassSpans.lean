import Libunsod.Base.SerialNumber
import Libunsod.Base.Spans
import Libunsod.Netinet.TcpReassCalls
import Mathlib.Data.List.Forall2

/-!
The reassembly queue as an ordered buffer of spans. Positions count from the
sequence number `irs`; as long as everything queued fits in half the sequence
space, the signed word arithmetic of `tcp_reass` is arithmetic on positions.
-/

namespace Libunsod.Netinet

open Spans (Span Buffer)

variable {seg : Segment} {new : Span UInt8} {spans : List (Span UInt8)}

structure Shows (irs : Seq) (q : TsegQent) (span : Span UInt8) : Prop where
  seq : q.tqeSeq = irs + BitVec.ofNat 32 span.start
  len : q.tqeLen = span.data.length
  bytes : q.tqeM = span.data

section Lists

variable {Left Right : Type} {related : Left → Right → Prop}

theorem forall₂_split_while {leftTest : Left → Bool} {rightTest : Right → Bool} {lefts : List Left}
    {rights : List Right} (all : List.Forall₂ related lefts rights)
    (agree : ∀ left, ∀ right ∈ rights, related left right → leftTest left = rightTest right) :
    List.Forall₂ related (lefts.takeWhile leftTest) (rights.takeWhile rightTest) ∧
      List.Forall₂ related (lefts.dropWhile leftTest) (rights.dropWhile rightTest) := by
  induction all with
  | nil => exact ⟨.nil, .nil⟩
  | cons first rest ih =>
    rename_i left right lefts rights
    have same := agree left right List.mem_cons_self first
    obtain ⟨taken, dropped⟩ := ih fun other span member =>
      agree other span (List.mem_cons_of_mem right member)
    cases test : leftTest left with
    | true =>
      have other : rightTest right = true := by rw [← same, test]
      simp only [List.takeWhile_cons, List.dropWhile_cons, test, other, ↓reduceIte]
      exact ⟨.cons first taken, dropped⟩
    | false =>
      have other : rightTest right = false := by rw [← same, test]
      simp only [List.takeWhile_cons, List.dropWhile_cons, test, other, Bool.false_eq_true,
        ↓reduceIte]
      exact ⟨.nil, .cons first rest⟩

theorem forall₂_getLast? {lefts : List Left} {rights : List Right}
    (all : List.Forall₂ related lefts rights) :
    Option.Rel related lefts.getLast? rights.getLast? := by
  induction all with
  | nil => exact .none
  | cons first rest ih =>
    cases rest with
    | nil => exact .some first
    | cons second more => simpa [List.getLast?_cons_cons] using ih

end Lists

def Near (left right : Nat) : Prop :=
  left < right + 2 ^ 31 ∧ right ≤ left + 2 ^ 31

theorem sub_toInt_near (irs : Seq) {left right : Nat} (near : Near left right) :
    (irs + BitVec.ofNat 32 left - (irs + BitVec.ofNat 32 right)).toInt = (left : Int) - right :=
  SerialNumber.sub_toInt_of_le (by decide) irs near.1 near.2

structure Carries (irs : Seq) (fits : BitVec 8 → Nat → Nat → Prop) (q : TsegQent)
    (span : Span UInt8) : Prop extends Shows irs q span where
  fit : fits q.tqeFlags span.start span.stop

structure CarriedSegment (irs : Seq) (fits : BitVec 8 → Nat → Nat → Prop) (seg : Segment)
    (span : Span UInt8) : Prop where
  seq : seg.thSeq = irs + BitVec.ofNat 32 span.start
  len : seg.tlen = span.data.length
  bytes : seg.m = span.data
  fit : fits seg.thFlags span.start span.stop

def TrimClosed (fits : BitVec 8 → Nat → Nat → Prop) : Prop :=
  ∀ flags start later stop, fits flags start stop → start ≤ later → later < stop →
    fits flags later stop

structure NearAll (spans : List (Span UInt8)) (new : Span UInt8) : Prop where
  starts : ∀ span ∈ spans, Near span.start new.start
  stops : ∀ span ∈ spans, span.start ≤ new.start → Near span.stop new.start
  ends : ∀ span ∈ spans, new.start < span.start → Near new.stop span.start

section Placement

variable {irs : Seq} {fits : BitVec 8 → Nat → Nat → Prop}

theorem notAfter_eq_startsBy (segment : CarriedSegment irs fits seg new) {q : TsegQent}
    {span : Span UInt8} (carried : Carries irs fits q span) (near : Near span.start new.start) :
    notAfter seg q = Spans.startsBy new span := by
  simp only [notAfter, seqGt, Spans.startsBy, carried.seq, segment.seq, sub_toInt_near irs near]
  by_cases later : new.start < span.start
  · simp [later]
  · simp [later]
    omega

theorem trimSegment_carried (closed : TrimClosed fits) (segment : CarriedSegment irs fits seg new)
    {p : Option TsegQent} {previous : Option (Span UInt8)}
    (carried : Option.Rel (Carries irs fits) p previous)
    (near : ∀ last, previous = some last → last.start ≤ new.start ∧ Near last.stop new.start) :
    Option.Rel (CarriedSegment irs fits) (trimSegment p seg) (Spans.trim previous new) := by
  cases carried with
  | none => exact .some segment
  | some shown =>
    rename_i p previous
    have size := previous.start_le_stop
    obtain ⟨early, close⟩ := near previous rfl
    have stopSeq : p.tqeSeq + BitVec.ofNat 32 p.tqeLen =
        irs + BitVec.ofNat 32 previous.stop := by
      rw [shown.seq, shown.len, SerialNumber.add_ofNat]
      rfl
    have difference := sub_toInt_near irs close
    simp only [trimSegment, Spans.trim, stopSeq, segment.seq, difference]
    by_cases overlaps : new.start < previous.stop
    · have positive : (0 : Int) < (previous.stop : Int) - new.start := by omega
      simp only [overlaps, positive, ↓reduceIte]
      by_cases whole : new.stop ≤ previous.stop
      · have long : (seg.tlen : Int) ≤ (previous.stop : Int) - new.start := by
          simp only [Span.stop] at whole ⊢
          rw [segment.len]
          omega
        simp only [whole, long, ↓reduceIte]
        exact .none
      · have short : ¬(seg.tlen : Int) ≤ (previous.stop : Int) - new.start := by
          simp only [Span.stop] at whole ⊢
          rw [segment.len]
          omega
        simp only [whole, short, ↓reduceIte]
        have count : ((previous.stop : Int) - new.start).toNat = previous.stop - new.start := by
          omega
        have word : BitVec.ofInt 32 ((previous.stop : Int) - new.start) =
            BitVec.ofNat 32 (previous.stop - new.start) := by
          rw [← BitVec.ofInt_natCast]
          congr 1
          omega
        refine .some ⟨?_, ?_, ?_, ?_⟩
        · rw [word, SerialNumber.add_ofNat]
          rfl
        · simp only [count, segment.len, Span.dropFront, List.length_drop]
        · simp only [count, segment.bytes, Span.dropFront]
        · rw [Span.dropFront_stop _ _ (by omega)]
          refine closed _ _ _ _ segment.fit ?_ ?_ <;> simp only [Span.dropFront] <;> omega
    · have negative : ¬(0 : Int) < (previous.stop : Int) - new.start := by omega
      simp only [overlaps, negative, ↓reduceIte]
      exact .some segment

theorem trimFollowing_carried (closed : TrimClosed fits) (stop : Nat) {queue : List TsegQent}
    (carried : List.Forall₂ (Carries irs fits) queue spans)
    (near : ∀ span ∈ spans, Near stop span.start) :
    List.Forall₂ (Carries irs fits) (trimFollowing (irs + BitVec.ofNat 32 stop) queue).2
      (Spans.cut stop spans) := by
  induction carried with
  | nil => exact .nil
  | cons first rest ih =>
    rename_i q span queue spans
    have difference := sub_toInt_near irs (near span List.mem_cons_self)
    simp only [trimFollowing, Spans.cut, first.seq, difference]
    by_cases apart : stop ≤ span.start
    · have nothing : (stop : Int) - span.start ≤ 0 := by omega
      simp only [apart, nothing, ↓reduceIte]
      exact .cons first rest
    · have something : ¬(stop : Int) - span.start ≤ 0 := by omega
      simp only [apart, something, ↓reduceIte]
      by_cases partly : stop < span.stop
      · have short : (stop : Int) - span.start < (q.tqeLen : Int) := by
          simp only [Span.stop] at partly
          rw [first.len]
          omega
        have count : ((stop : Int) - span.start).toNat = stop - span.start := by omega
        simp only [partly, short, ↓reduceIte, count]
        refine .cons ⟨⟨?_, ?_, ?_⟩, ?_⟩ rest
        · simp only [trimEntry, Span.dropFront]
          rw [first.seq, SerialNumber.add_ofNat]
        · simp only [trimEntry, Span.dropFront, first.len, List.length_drop]
        · simp only [trimEntry, Span.dropFront, first.bytes]
        · rw [Span.dropFront_stop _ _ (by omega)]
          refine closed _ _ _ _ first.fit ?_ ?_ <;> simp only [Span.dropFront] <;> omega
      · have long : ¬(stop : Int) - span.start < (q.tqeLen : Int) := by
          simp only [Span.stop] at partly
          rw [first.len]
          omega
        simp only [partly, long, ↓reduceIte]
        exact ih fun other member => near other (List.mem_cons_of_mem span member)

theorem linked_carried (closed : TrimClosed fits) {tp : Tcpcb} (ticks : Nat) (te : Entry)
    (near : NearAll spans new) (ordered : Spans.Ordered spans)
    (segment : CarriedSegment irs fits seg new)
    (carried : List.Forall₂ (Carries irs fits) tp.tSegq spans) :
    (Duplicate tp seg ∧ Spans.insert spans new = spans) ∨
      ∃ trimmed, trimSegment (entriesUpTo tp seg).getLast? seg = some trimmed ∧
        List.Forall₂ (Carries irs fits) (tp.linked ticks seg trimmed te).tSegq
          (Spans.insert spans new) := by
  obtain ⟨before, after⟩ := forall₂_split_while carried
    fun q span member shown => notAfter_eq_startsBy segment shown (near.starts span member)
  have around := Spans.around_split new ordered
  have inside (span : Span UInt8) (member : span ∈ spans.takeWhile (Spans.startsBy new)) :
      span ∈ spans := by
    rw [around.whole]
    exact List.mem_append_left _ member
  have trimmed := trimSegment_carried closed segment (forall₂_getLast? before) (by
    intro last final
    have member := List.mem_of_getLast? final
    exact ⟨around.early last member, near.stops last (inside last member) (around.early last member)⟩)
  simp only [Spans.insert, Duplicate, Tcpcb.linked, entriesUpTo, entriesAfter]
  generalize seen : trimSegment (tp.tSegq.takeWhile (notAfter seg)).getLast? seg = kept at trimmed
  generalize rest : Spans.trim (spans.takeWhile (Spans.startsBy new)).getLast? new = left at trimmed
  cases trimmed with
  | none => exact .inl ⟨rfl, rfl⟩
  | some shown =>
    rename_i kept span
    have stop := (Spans.trim_some around.orderedBefore around.early rest).2.1
    have stopSeq : segmentEnd kept = irs + BitVec.ofNat 32 span.stop := by
      rw [segmentEnd, shown.seq, shown.len, SerialNumber.add_ofNat]
      rfl
    have cut := trimFollowing_carried closed span.stop after (by
      intro other member
      rw [stop]
      refine near.ends other ?_ (around.late other member)
      rw [around.whole]
      exact List.mem_append_right _ member)
    refine .inr ⟨kept, rfl, ?_⟩
    rw [stopSeq]
    exact List.rel_append before (.cons ⟨⟨shown.seq, shown.len, shown.bytes⟩, shown.fit⟩ cut)

end Placement

end Libunsod.Netinet
