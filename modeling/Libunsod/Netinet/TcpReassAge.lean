import Libunsod.Netinet.TcpReassZone

/-!
The age queue against the reassembly queue. `t_segageq` is to link exactly the
entries of `t_segq`, oldest first, so that the deadline of the next hole is read
from the oldest entry that is still queued. Two places take an entry out of
`t_segq` only: the loop over covered entries and `tcp_reass_flush`.
-/

namespace Libunsod.Netinet

open Runs (Run)
open TailQueue (Holds)

variable {tp final : Tcpcb} {clock : Nat} {linked aged held : List Entry} {env : ReassEnv}
  {seg trimmed : Segment} {q : TsegQent} {rest : List TsegQent} {ticks : Nat}

structure AgedAs (tp : Tcpcb) (clock : Nat) (linked aged : List Entry) : Prop where
  holds : Holds tp.tSegageq aged
  same : aged.Perm linked
  sorted : aged.Pairwise fun first second => tp.tqeTicks first ≤ tp.tqeTicks second
  past : ∀ entry ∈ aged, tp.tqeTicks entry ≤ clock

theorem AgedAs.remove_first {entry : Entry} (agedAs : AgedAs tp clock (entry :: linked) aged) :
    AgedAs { tp with tSegageq := tp.tSegageq.remove entry } clock linked (aged.erase entry) := by
  have member : entry ∈ aged := agedAs.same.mem_iff.mpr List.mem_cons_self
  refine ⟨TailQueue.remove_holds_erase agedAs.holds member, ?_,
    agedAs.sorted.sublist List.erase_sublist,
    fun other inside => agedAs.past other (List.mem_of_mem_erase inside)⟩
  have erased := agedAs.same.erase entry
  rwa [List.erase_cons_head] at erased

theorem PresentOne.keepsAge {state next : Presenting} (one : PresentOne state q rest next)
    (agedAs : ∃ aged, AgedAs state.tp clock (addrs (q :: rest)) aged) :
    ∃ aged, AgedAs next.tp clock (addrs rest) aged := by
  obtain ⟨aged, agedAs⟩ := agedAs
  cases one with
  | stack | reclaim | free => exact ⟨_, { agedAs.remove_first with }⟩

theorem replaceTqs_aged {state : Presenting} {replaced : Tcpcb} {reclaimed : Entry}
    (agedAs : AgedAs state.tp clock (addrs state.tp.tSegq) aged)
    (missing : reclaimed ∉ addrs state.tp.tSegq) (member : .tqs ∈ addrs state.tp.tSegq)
    (replacing : state.replaceTqsInList = true) (kept : state.reclaimedTqe = some reclaimed)
    (result : replaceTqs state = some replaced) :
    ∃ aged, AgedAs replaced clock (addrs replaced.tSegq) aged := by
  simp only [replaceTqs, replacing, ↓reduceIte, kept, Option.some.injEq] at result
  subst result
  have inside : .tqs ∈ aged := agedAs.same.mem_iff.mpr member
  have outside : reclaimed ∉ aged := fun found => missing (agedAs.same.mem_iff.mp found)
  obtain ⟨before, after, split⟩ := List.append_of_mem inside
  have holds := agedAs.holds
  have same := agedAs.same
  have sorted := agedAs.sorted
  have past := agedAs.past
  rw [split] at holds same sorted past outside
  obtain ⟨_, _, early, late, _⟩ := TailQueue.split_nodup before after .tqs holds.nodup
  have inserted := TailQueue.insertAfter_holds holds outside
  have removed := TailQueue.remove_holds inserted
  simp only [List.mem_append, List.mem_cons, not_or] at outside
  have others (entry : Entry) (listed : entry ∈ before ∨ entry ∈ after) :
      (if entry = reclaimed then state.tp.tqeTicks .tqs else state.tp.tqeTicks entry) =
        state.tp.tqeTicks entry := by
    rw [if_neg]
    rintro rfl
    rcases listed with first | second
    · exact outside.1 first
    · exact outside.2.2 second
  refine ⟨before ++ reclaimed :: after, removed, ?_, ?_, ?_⟩
  · rw [replaced_addrs, ← map_replaced reclaimed early late]
    exact same.map _
  · rw [List.pairwise_append, List.pairwise_cons] at sorted ⊢
    obtain ⟨front, ⟨behind, back⟩, across⟩ := sorted
    refine ⟨?_, ⟨?_, ?_⟩, ?_⟩
    · refine front.imp_of_mem ?_
      intro first second firstIn secondIn ordered
      simp only [others first (.inl firstIn), others second (.inl secondIn)]
      exact ordered
    · intro second secondIn
      simp only [↓reduceIte, others second (.inr secondIn)]
      exact behind second secondIn
    · refine back.imp_of_mem ?_
      intro first second firstIn secondIn ordered
      simp only [others first (.inr firstIn), others second (.inr secondIn)]
      exact ordered
    · intro first firstIn second secondIn
      simp only [others first (.inl firstIn)]
      rcases List.mem_cons.mp secondIn with rfl | later
      · simp only [↓reduceIte]
        exact across first firstIn .tqs List.mem_cons_self
      · simp only [others second (.inr later)]
        exact across first firstIn second (List.mem_cons_of_mem _ later)
  · intro entry listed
    rcases List.mem_append.mp listed with first | second
    · simp only [others entry (.inl first)]
      exact past entry (List.mem_append_left _ first)
    · rcases List.mem_cons.mp second with rfl | later
      · simp only [↓reduceIte]
        exact past .tqs (List.mem_append_right _ List.mem_cons_self)
      · simp only [others entry (.inr later)]
        exact past entry (List.mem_append_right _ (List.mem_cons_of_mem _ later))

theorem present_aged {lead replace : Bool} {flags : BitVec 8} (accounted : Accounted tp held)
    (agedAs : ∃ aged, AgedAs tp clock (addrs tp.tSegq) aged)
    (replacing : replace = true → ∃ q rest, tp.tSegq = q :: rest ∧ q.addr ≠ .tqs ∧
      .tqs ∈ addrs rest) (result : present tp ticks lead replace = some (final, flags)) :
    ∃ aged, AgedAs final clock (addrs final.tSegq) aged := by
  obtain ⟨aged, agedAs⟩ := agedAs
  cases present_cases result with
  | quiet => exact ⟨aged, { agedAs with }⟩
  | presents q rest replaced _ queue _ found =>
    suffices ∃ aged, AgedAs replaced clock (addrs replaced.tSegq) aged by
      obtain ⟨aged, done⟩ := this
      exact ⟨aged, { done with }⟩
    have front (same : replace = true) : q.addr ≠ .tqs ∧ .tqs ∈ addrs rest := by
      obtain ⟨first, others, split, facts⟩ := replacing same
      rw [queue] at split
      cases split
      exact facts
    have led : Accounted (tp.led q lead) held := { accounted with }
    obtain ⟨⟨listed, balanced⟩, tracked, reclaimed⟩ := presentLoop_accounted led queue front
    rw [queue] at agedAs
    obtain ⟨aged, loopAged⟩ := presentLoop_invariant
      (fun state queue => ∃ aged, AgedAs state.tp clock (addrs queue) aged)
      (fun _ _ _ _ one => one.keepsAge) rest ⟨tp.led q lead, replace, none⟩ q
      (fun _ one => one.keepsAge ⟨aged, { agedAs with }⟩)
    rw [← listed] at loopAged tracked
    rw [reclaimed] at balanced
    generalize loop : (presentLoop ⟨tp.led q lead, replace, none⟩ q rest).1 = state at *
    cases set : state.replaceTqsInList with
    | false =>
      simp only [replaceTqs, set, Bool.false_eq_true, ↓reduceIte, Option.some.injEq] at found
      subst found
      exact ⟨aged, loopAged⟩
    | true =>
      rw [set, eq_comm, Bool.and_eq_true, decide_eq_true_eq] at tracked
      obtain ⟨rfl, inside⟩ := tracked
      simp only [↓reduceIte, Option.toList_some] at reclaimed balanced
      have missing : q.addr ∉ addrs state.tp.tSegq := by
        have nodup := balanced.balance.nodup_iff.mp balanced.unique
        simp only [List.cons_append, List.nil_append, List.nodup_cons, List.mem_append,
          not_or] at nodup
        intro linked
        refine nodup.1.2 ?_
        simp only [zoneAddrs, List.mem_filter, decide_eq_true_eq]
        exact ⟨linked, (front rfl).1⟩
      exact replaceTqs_aged loopAged missing inside set reclaimed found

def Dropped (tp : Tcpcb) (env : ReassEnv) (seg : Segment) : Prop :=
  tp.passive = false ∧ notNext tp seg = true ∧
    (queueLimitReached tp env seg = true ∨ env.zalloc = none)

theorem chooseEntry_of_dropped (dropped : Dropped tp env seg) : chooseEntry tp env seg = none := by
  obtain ⟨passive, apart, limit | alloc⟩ := dropped
  · simp [chooseEntry, passive, limit]
  · simp only [chooseEntry, alloc, passive, apart]
    simp

def CoversEntry (tp : Tcpcb) (seg : Segment) : Prop :=
  ∃ q rest, entriesAfter tp seg = q :: rest ∧ 0 < (segmentEnd seg - q.tqeSeq).toInt ∧
    q.tqeLen ≤ (segmentEnd seg - q.tqeSeq).toInt

theorem trimFollowing_nothing (apart : ¬CoversEntry tp seg)
    (left : trimSegment (entriesUpTo tp seg).getLast? seg = some trimmed) :
    (trimFollowing (segmentEnd trimmed) (entriesAfter tp seg)).1 = [] := by
  rw [trimSegment_end left]
  cases behind : entriesAfter tp seg with
  | nil => rfl
  | cons q rest =>
    rw [trimFollowing]
    split
    · rfl
    next positive =>
      split
      · rfl
      next whole =>
        exact absurd ⟨q, rest, behind, Int.not_le.mp positive, Int.not_lt.mp whole⟩ apart

theorem linked_aged {te : Entry} (agedAs : ∃ aged, AgedAs tp clock (addrs tp.tSegq) aged)
    (later : clock ≤ ticks) (notLinked : te ∉ addrs tp.tSegq)
    (nothing : (trimFollowing (segmentEnd trimmed) (entriesAfter tp seg)).1 = []) :
    ∃ aged, AgedAs (tp.linked ticks seg trimmed te) ticks
      (addrs (tp.linked ticks seg trimmed te).tSegq) aged := by
  obtain ⟨aged, agedAs⟩ := agedAs
  have fresh : te ∉ aged := fun found => notLinked (agedAs.same.mem_iff.mp found)
  have parts := segq_addrs tp seg trimmed
  rw [nothing, addrs_nil, List.nil_append] at parts
  have others (entry : Entry) (listed : entry ∈ aged) :
      (if entry = te then ticks else tp.tqeTicks entry) = tp.tqeTicks entry := by
    rw [if_neg]
    rintro rfl
    exact fresh listed
  refine ⟨aged ++ [te], TailQueue.insertTail_holds agedAs.holds fresh, ?_, ?_, ?_⟩
  · simp only [Tcpcb.linked, addrs_append, addrs_cons]
    refine List.perm_iff_count.mpr fun entry => ?_
    have count := (agedAs.same.trans (List.Perm.of_eq parts)).count_eq entry
    simp only [List.count_append, List.count_cons, List.count_nil] at count ⊢
    omega
  · rw [List.pairwise_append]
    refine ⟨?_, List.pairwise_singleton _ _, ?_⟩
    · refine agedAs.sorted.imp_of_mem ?_
      intro first second firstIn secondIn ordered
      simp only [Tcpcb.linked, others first firstIn, others second secondIn]
      exact ordered
    · intro first firstIn second secondIn
      rw [List.mem_singleton] at secondIn
      simp only [Tcpcb.linked, secondIn, ↓reduceIte, others first firstIn]
      exact Nat.le_trans (agedAs.past first firstIn) later
  · intro entry listed
    rcases List.mem_append.mp listed with old | new
    · simp only [Tcpcb.linked, others entry old]
      exact Nat.le_trans (agedAs.past entry old) later
    · rw [List.mem_singleton] at new
      simp only [Tcpcb.linked, new, ↓reduceIte]
      exact Nat.le_refl _

theorem AgedAs.later (agedAs : AgedAs tp clock linked aged) (later : clock ≤ ticks) :
    AgedAs tp ticks linked aged :=
  { agedAs with past := fun entry listed => Nat.le_trans (agedAs.past entry listed) later }

theorem segment_aged {flags : BitVec 8} (accounted : Accounted tp held) (unstacked : Unstacked tp)
    (agedAs : ∃ aged, AgedAs tp clock (addrs tp.tSegq) aged) (later : clock ≤ env.ticks)
    (fresh : ∀ index, env.zalloc = some index → FreshEntry tp (.zone index))
    (apart : ¬Dropped tp env seg → ¬Duplicate tp seg → ¬CoversEntry tp seg)
    (result : SegmentCase tp seg env final flags) :
    ∃ aged, AgedAs final env.ticks (addrs final.tSegq) aged := by
  cases result with
  | refused =>
    obtain ⟨aged, agedAs⟩ := agedAs
    exact ⟨aged, agedAs.later later⟩
  | duplicate te lead _ _ presented =>
    obtain ⟨aged, agedAs⟩ := agedAs
    exact present_aged (passed_accounted te accounted) ⟨aged, { agedAs.later later with }⟩
      (by rintro ⟨⟩) presented
  | linked te lead trimmed chosen left presented =>
    have queued : ¬Dropped tp env seg := by
      intro dropped
      rw [chooseEntry_of_dropped dropped] at chosen
      simp at chosen
    have nothing := trimFollowing_nothing (apart queued (by simp [Duplicate, left])) left
    obtain ⟨notLinked, new⟩ := accounted.chosen_fresh unstacked fresh chosen
    refine present_aged (linked_accounted env.ticks seg trimmed accounted unstacked notLinked new)
      (linked_aged agedAs later notLinked nothing) ?_ presented
    intro replace
    simp only [Bool.and_eq_true, Bool.not_eq_true', decide_eq_true_eq] at replace
    obtain ⟨⟨some, _⟩, rfl⟩ := replace
    obtain ⟨clean, _⟩ := segq_unstacked seg trimmed unstacked
    simp only [Tcpcb.linked]
    cases front : entriesUpTo tp seg with
    | nil => simp [front] at some
    | cons first others =>
      rw [front, addrs_cons, List.mem_cons, not_or] at clean
      exact ⟨first, _, rfl, Ne.symm clean.1, by simp⟩

structure AgeQueueExact (tp : Tcpcb) : Prop where
  exact_ : ∃ aged, Holds tp.tSegageq aged ∧ aged.Perm (addrs tp.tSegq) ∧
    aged.Pairwise fun first second => tp.tqeTicks first ≤ tp.tqeTicks second
  oldest : ∀ entry, tp.tSegageq.first = some entry →
    entry ∈ outstanding tp.zone ∧ entry ∈ addrs tp.tSegq ∧
      ∀ q ∈ tp.tSegq, tp.tqeTicks entry ≤ tp.tqeTicks q.addr

theorem AgedAs.oldest {entry : Entry} (agedAs : AgedAs tp clock (addrs tp.tSegq) aged)
    (first : tp.tSegageq.first = some entry) :
    entry ∈ addrs tp.tSegq ∧ ∀ q ∈ tp.tSegq, tp.tqeTicks entry ≤ tp.tqeTicks q.addr := by
  rw [agedAs.holds.first] at first
  cases listed : aged with
  | nil => simp [listed] at first
  | cons head rest =>
    rw [listed, List.head?_cons, Option.some.injEq] at first
    constructor
    · rw [← agedAs.same.mem_iff, listed, first]
      exact List.mem_cons_self
    · intro q member
      have inside : q.addr ∈ aged := agedAs.same.mem_iff.mpr (List.mem_map_of_mem member)
      have sorted := agedAs.sorted
      rw [listed] at inside sorted
      rw [← first]
      rcases List.mem_cons.mp inside with same | behind
      · exact Nat.le_of_eq (congrArg tp.tqeTicks same.symm)
      · exact (List.pairwise_cons.mp sorted).1 q.addr behind

theorem AgedAs.ageQueueExact (agedAs : AgedAs tp clock (addrs tp.tSegq) aged)
    (accounted : Accounted tp held) (unstacked : Unstacked tp) : AgeQueueExact tp := by
  refine ⟨⟨aged, agedAs.holds, agedAs.same, agedAs.sorted⟩, ?_⟩
  intro entry first
  obtain ⟨linked, older⟩ := agedAs.oldest first
  refine ⟨?_, linked, older⟩
  rw [accounted.balance.mem_iff, zoneAddrs_of_unstacked unstacked]
  exact List.mem_append_right held linked

structure AgeState where
  tp : Tcpcb
  clock : Nat

def ReassCall.time (clock : Nat) : ReassCall → Nat
  | .segment _ env => env.ticks
  | .push env => env.ticks
  | .deliverHoles ticks => ticks
  | .flush => clock
  | .connection _ _ _ => clock

def AgeMove (state : AgeState) (call : ReassCall) (next : AgeState) : Prop :=
  ReassMove state.tp call next.tp ∧ next.clock = call.time state.clock ∧ state.clock ≤ next.clock

theorem ageMove_of_result {state : AgeState} {call : ReassCall}
    (result : call.perform state.tp = some tp) (honest : call.Honest state.tp)
    (later : state.clock ≤ call.time state.clock) :
    AgeMove state call ⟨tp, call.time state.clock⟩ :=
  ⟨⟨honest, result⟩, rfl, later⟩

def ReassCall.KeepsAge (tp : Tcpcb) : ReassCall → Prop
  | .segment seg env => ¬Dropped tp env seg → ¬Duplicate tp seg → ¬CoversEntry tp seg
  | .flush => tp.tSegq = []
  | _ => True

theorem call_aged (state next : AgeState) (held : List Entry) (call : ReassCall)
    (accounted : Accounted state.tp held) (unstacked : Unstacked state.tp)
    (agedAs : ∃ aged, AgedAs state.tp state.clock (addrs state.tp.tSegq) aged)
    (keeps : call.KeepsAge state.tp) (move : AgeMove state call next) :
    ∃ aged, AgedAs next.tp next.clock (addrs next.tp.tSegq) aged := by
  obtain ⟨⟨honest, result⟩, time, later⟩ := move
  rw [time] at later ⊢
  cases call with
  | segment seg env =>
    obtain ⟨reassembled, returned, same⟩ := Option.map_eq_some_iff.mp result
    rw [← same]
    exact segment_aged accounted unstacked agedAs later honest keeps (tcpReass_cases returned)
  | push env =>
    obtain ⟨reassembled, returned, same⟩ := Option.map_eq_some_iff.mp result
    obtain ⟨aged, agedAs⟩ := agedAs
    rw [← same]
    exact present_aged accounted ⟨aged, agedAs.later later⟩ (by rintro ⟨⟩)
      (tcpReass_push returned)
  | deliverHoles ticks =>
    obtain ⟨aged, agedAs⟩ := agedAs
    obtain ⟨_, rfl, done⟩ := tcpReassDeliverHoles_invariant
      (fun tp queue => tp.tSegq = queue ∧ ∃ aged, AgedAs tp ticks (addrs queue) aged)
      (fun _ _ _ ⟨_, _, agedAs⟩ => ⟨rfl, _, { agedAs.remove_first with }⟩)
      (fun _ _ _ ⟨listed, _, agedAs⟩ => ⟨listed, _, { agedAs with }⟩)
      ⟨rfl, aged, agedAs.later later⟩ result
    exact done
  | flush =>
    have nothing : state.tp.tSegq = [] := keeps
    have same : next.tp = state.tp := by
      simpa [ReassCall.perform, tcpReassFlush, nothing, tcpReassFlushLoop] using result.symm
    rw [same]
    exact agedAs
  | connection tState rcvNxt cantrcvmore =>
    obtain ⟨aged, agedAs⟩ := agedAs
    rw [← Option.some.inj result]
    exact ⟨aged, { agedAs with }⟩

/-- In every run whose calls take no entry out of `t_segq` alone and leave no
stack entry behind, the age queue is exact after every call. -/
theorem age_queue_exact_of_kept (start final : AgeState) (calls : List ReassCall)
    (fresh : NoEntries start.tp) (empty : start.tp.tSegageq = .empty)
    (run : Run (fun state call next => AgeMove state call next ∧ call.KeepsAge state.tp ∧
      call.Resolved state.tp) start calls final) : AgeQueueExact final.tp := by
  have reached : (∃ held, Accounted final.tp held) ∧ Unstacked final.tp ∧
      ∃ aged, AgedAs final.tp final.clock (addrs final.tp.tSegq) aged := by
    refine Run.invariant (fun state => (∃ held, Accounted state.tp held) ∧ Unstacked state.tp ∧
      ∃ aged, AgedAs state.tp state.clock (addrs state.tp.tSegq) aged) ?_ ?_ run
    · refine ⟨⟨[], fresh.accounted⟩, fresh.unstacked, [], ?_, ?_, List.Pairwise.nil, by simp⟩
      · rw [empty]
        exact TailQueue.empty_holds
      · rw [fresh.tSegq]
        exact List.Perm.refl []
    · rintro state call next ⟨⟨held, accounted⟩, unstacked, agedAs⟩ ⟨move, keeps, resolved⟩
      obtain ⟨leaked, kept, clean, _⟩ := call_accounted state.tp next.tp held call accounted
        unstacked move.1.1 resolved move.1.2
      exact ⟨⟨leaked ++ held, kept⟩, clean,
        call_aged state next held call accounted unstacked agedAs keeps move⟩
  obtain ⟨⟨held, accounted⟩, unstacked, aged, agedAs⟩ := reached
  exact agedAs.ageQueueExact accounted unstacked

theorem age_queue_exact_of_filled :
    ∃ final, Run (fun state call next => AgeMove state call next ∧ call.KeepsAge state.tp ∧
        call.Resolved state.tp) ⟨quietTcpcb .established true 0, 0⟩
        [.segment ⟨10, 0, 2, [1, 2]⟩ (roomyEnv 3 (some 0)),
          .segment ⟨20, 0, 1, [3]⟩ (roomyEnv 4 (some 1)),
          .segment ⟨0, 0, 10, List.replicate 10 0⟩ (roomyEnv 6 (some 2))] final ∧
      addrs final.tp.tSegq = [.zone 1] ∧ AgeQueueExact final.tp := by
  have used (tp : Tcpcb) (seg : Segment) (ticks index : Nat) :
      ¬StackEntryUsed tp (roomyEnv ticks (some index)) seg := by
    simp [StackEntryUsed, roomyEnv]
  refine Run.exists_with (fun _ run => age_queue_exact_of_kept _ _ _ ⟨rfl, rfl, rfl⟩ rfl run)
    ⟨_, Run.snoc (Run.snoc (Run.snoc Run.nil
      ⟨ageMove_of_result rfl ?_ (by decide), ?_, fun stack => absurd stack (used _ _ _ _)⟩)
      ⟨ageMove_of_result rfl ?_ (by decide), ?_, fun stack => absurd stack (used _ _ _ _)⟩)
      ⟨ageMove_of_result rfl ?_ (by decide), ?_, fun stack => absurd stack (used _ _ _ _)⟩, rfl⟩
  · rintro index ⟨⟩
    decide
  · rintro _ _ ⟨q, rest, behind, positive, _⟩
    cases behind
    exact absurd positive (by decide)
  · rintro index ⟨⟩
    decide
  · rintro _ _ ⟨q, rest, behind, _⟩
    cases behind
  · rintro index ⟨⟩
    decide
  · rintro _ _ ⟨q, rest, behind, _⟩
    cases behind

theorem age_queue_keeps_covered :
    ∃ final, Run AgeMove ⟨quietTcpcb .established true 0, 0⟩
        [.segment ⟨10, 0, 2, [1, 2]⟩ (roomyEnv 3 (some 0)),
          .segment ⟨8, 0, 6, List.replicate 6 0⟩ (roomyEnv 4 (some 1))] final ∧
      addrs final.tp.tSegq = [.zone 1] ∧ final.tp.tSegageq.first = some (.zone 0) ∧
      ¬AgeQueueExact final.tp := by
  refine ⟨_, Run.snoc (Run.snoc Run.nil (ageMove_of_result rfl ?_ (by decide)))
    (ageMove_of_result rfl ?_ (by decide)), rfl, rfl, ?_⟩
  · rintro index ⟨⟩
    decide
  · rintro index ⟨⟩
    decide
  · intro exact_
    obtain ⟨_, linked, _⟩ := exact_.oldest (.zone 0) rfl
    exact absurd linked (by decide)

end Libunsod.Netinet
