import Libunsod.Base.Runs
import Libunsod.Netinet.TcpReassCore

/-!
What the calls on the reassembly queue can do, said once: the ways through
`tcp_reass`, an invariant rule for each of its loops, and the place where the
entry of a new segment ends up.
-/

namespace Libunsod.Netinet

variable {queue : List TsegQent} {final tp : Tcpcb} {seg trimmed : Segment} {env : ReassEnv}

inductive ReassCall where
  | segment (seg : Segment) (env : ReassEnv)
  | push (env : ReassEnv)
  | deliverHoles (ticks : Nat)
  | flush
  | connection (tState : TcpState) (rcvNxt : Seq) (cantrcvmore : Bool)

def ReassCall.perform (tp : Tcpcb) : ReassCall → Option Tcpcb
  | .segment seg env => (tcpReass tp (some seg) env).map Reassembled.tp
  | .push env => (tcpReass tp none env).map Reassembled.tp
  | .deliverHoles ticks => tcpReassDeliverHoles tp ticks
  | .flush => some (tcpReassFlush tp)
  | .connection tState rcvNxt cantrcvmore =>
      some { tp with tState := tState, rcvNxt := rcvNxt, cantrcvmore := cantrcvmore }

def quietTcpcb (tState : TcpState) (passive : Bool) (rcvNxt : Seq) : Tcpcb where
  tState := tState
  passive := passive
  rcvNxt := rcvNxt
  tSegq := []
  tSegqlen := 0
  tSegageq := .empty
  tqeTicks _ := 0
  tReassdl := 0
  tcpReassdl := 5000
  ttReassdl := none
  soRcv := []
  cantrcvmore := false
  zone := []

def roomyEnv (ticks : Nat) (zalloc : Option Nat) : ReassEnv where
  ticks := ticks
  zalloc := zalloc
  sbHiwat := 65536
  tMaxseg := 1460

def addrs (queue : List TsegQent) : List Entry :=
  queue.map TsegQent.addr

@[simp] theorem addrs_nil : addrs [] = [] :=
  rfl

@[simp] theorem addrs_cons (q : TsegQent) (rest : List TsegQent) :
    addrs (q :: rest) = q.addr :: addrs rest :=
  rfl

@[simp] theorem addrs_append (first second : List TsegQent) :
    addrs (first ++ second) = addrs first ++ addrs second :=
  List.map_append

def afterRun (next : Seq) : List TsegQent → List TsegQent
  | [] => []
  | q :: rest =>
      if q.tqeSeq = next then afterRun (next + BitVec.ofNat 32 q.tqeLen) rest else q :: rest

theorem afterRun_suffix (next : Seq) (queue : List TsegQent) :
    ∃ taken, queue = taken ++ afterRun next queue := by
  induction queue generalizing next with
  | nil => exact ⟨[], rfl⟩
  | cons q rest ih =>
    rw [afterRun]
    split
    · obtain ⟨taken, split⟩ := ih (next + BitVec.ofNat 32 q.tqeLen)
      refine ⟨q :: taken, ?_⟩
      nth_rewrite 1 [split]
      rfl
    · exact ⟨[], rfl⟩

theorem sbappendData_eq (tp : Tcpcb) (bytes : List UInt8) :
    sbappendData tp bytes =
      { tp with soRcv := if tp.cantrcvmore then tp.soRcv else tp.soRcv ++ [.data bytes] } := by
  rw [sbappendData]
  split <;> rfl

def Tcpcb.taken (tp : Tcpcb) (q : TsegQent) (rest : List TsegQent) (zone : List ZoneOp) : Tcpcb :=
  { tp with
    rcvNxt := tp.rcvNxt + BitVec.ofNat 32 q.tqeLen
    tSegq := rest
    tSegageq := tp.tSegageq.remove q.addr
    tSegqlen := tp.tSegqlen - 1
    soRcv := if tp.cantrcvmore then tp.soRcv else tp.soRcv ++ [.data q.tqeM]
    zone := zone }

inductive PresentOne (state : Presenting) (q : TsegQent) (rest : List TsegQent) :
    Presenting → Prop where
  | stack (own : q.addr = .tqs) : PresentOne state q rest
      ⟨state.tp.taken q rest state.tp.zone, false, state.reclaimedTqe⟩
  | reclaim (zoned : q.addr ≠ .tqs) (replaces : state.replaceTqsInList = true)
      (nothing : state.reclaimedTqe = none) : PresentOne state q rest
      ⟨state.tp.taken q rest state.tp.zone, state.replaceTqsInList, some q.addr⟩
  | free (zoned : q.addr ≠ .tqs)
      (keeps : ¬(state.replaceTqsInList = true ∧ state.reclaimedTqe = none)) :
      PresentOne state q rest ⟨state.tp.taken q rest (.zfree q.addr :: state.tp.zone),
        state.replaceTqsInList, state.reclaimedTqe⟩

theorem presentOne_cases (state : Presenting) (q : TsegQent) (rest : List TsegQent) :
    PresentOne state q rest (presentOne state q rest) := by
  simp only [presentOne, sbappendData_eq]
  split
  next own => exact .stack own
  next zoned =>
    split
    next reclaims => exact .reclaim zoned reclaims.1 reclaims.2
    next keeps => exact .free zoned keeps

theorem presentOne_tp (state : Presenting) (q : TsegQent) (rest : List TsegQent) :
    ∃ zone, (presentOne state q rest).tp = state.tp.taken q rest zone := by
  generalize presentOne state q rest = next, presentOne_cases state q rest = one
  cases one <;> exact ⟨_, rfl⟩

theorem presentLoop_invariant (holds : Presenting → List TsegQent → Prop)
    (step : ∀ state q rest next, PresentOne state q rest next → holds state (q :: rest) →
      holds next rest)
    (rest : List TsegQent) (state : Presenting) (q : TsegQent)
    (initial : ∀ next, PresentOne state q rest next → holds next rest) :
    holds (presentLoop state q rest).1
      (afterRun (state.tp.rcvNxt + BitVec.ofNat 32 q.tqeLen) rest) := by
  induction rest generalizing state q with
  | nil => exact initial _ (presentOne_cases state q [])
  | cons nq rest ih =>
    have first := initial _ (presentOne_cases state q (nq :: rest))
    obtain ⟨zone, same⟩ := presentOne_tp state q (nq :: rest)
    have next : (presentOne state q (nq :: rest)).tp.rcvNxt =
        state.tp.rcvNxt + BitVec.ofNat 32 q.tqeLen := by
      rw [same]
      rfl
    rw [presentLoop, afterRun, next]
    split
    next contiguous =>
      rw [← next]
      exact ih (presentOne state q (nq :: rest)) nq fun later one => step _ nq rest later one first
    · exact first

theorem presentLoop_replace (rest : List TsegQent) (state : Presenting) (q : TsegQent)
    (plain : state.replaceTqsInList = false) :
    (presentLoop state q rest).1.replaceTqsInList = false := by
  have step (state : Presenting) (q : TsegQent) (rest : List TsegQent) (next : Presenting)
      (one : PresentOne state q rest next) (plain : state.replaceTqsInList = false) :
      next.replaceTqsInList = false := by
    cases one with
    | stack => rfl
    | reclaim | free => exact plain
  exact presentLoop_invariant (fun state _ => state.replaceTqsInList = false) step rest state q
    fun next one => step state q rest next one plain

theorem tcpReassFlushLoop_invariant (holds : Tcpcb → List TsegQent → Prop)
    (step : ∀ tp q rest, holds tp (q :: rest) →
      holds (umaZfree { tp with tSegq := rest, tSegqlen := tp.tSegqlen - 1 } q.addr) rest)
    (queue : List TsegQent) (tp : Tcpcb) (initial : holds tp queue) :
    holds (tcpReassFlushLoop queue tp) [] := by
  induction queue generalizing tp with
  | nil => exact initial
  | cons q rest ih => exact ih _ (step tp q rest initial)

def Tcpcb.led (tp : Tcpcb) (q : TsegQent) (lead : Bool) : Tcpcb :=
  { tp with
    rcvNxt := q.tqeSeq
    soRcv := if lead && !tp.cantrcvmore then tp.soRcv ++ [.hole (q.tqeSeq - tp.rcvNxt).toInt]
      else tp.soRcv }

theorem led_eq {q : TsegQent} {lead : Bool} (edge : q.tqeSeq = tp.rcvNxt ∨ lead = true) :
    (if lead then deliverLeading tp q else tp) = tp.led q lead := by
  cases lead with
  | false => simp [Tcpcb.led, edge.resolve_right (by simp)]
  | true =>
    simp only [↓reduceIte, deliverLeading, sbappendstream, Tcpcb.led, Bool.true_and]
    split
    next shut => simp [shut]
    next receives => simp [receives]

theorem rearm_eq (tp : Tcpcb) (ticks : Nat) :
    rearm tp ticks = { tp with ttReassdl := (rearm tp ticks).ttReassdl } := by
  simp only [rearm]
  split <;> rfl

inductive PresentCase (tp : Tcpcb) (ticks : Nat) (lead replace : Bool) :
    Tcpcb → BitVec 8 → Prop where
  | quiet (timer : Option Nat)
      (waits : tcpsHaveEstablished tp.tState = true →
        ∀ q rest, tp.tSegq = q :: rest → lead = false ∧ q.tqeSeq ≠ tp.rcvNxt)
      (armed : timer = tp.ttReassdl ∧ (tp.passive = true →
          tcpsHaveEstablished tp.tState = true → tp.tSegq = []) ∨
        timer = (tcpTimerActivate tp ticks (tcpReassNextHoleDeadline tp ticks)).ttReassdl) :
      PresentCase tp ticks lead replace { tp with ttReassdl := timer } 0
  | presents (q : TsegQent) (rest : List TsegQent) (replaced : Tcpcb)
      (established : tcpsHaveEstablished tp.tState = true) (queue : tp.tSegq = q :: rest)
      (edge : q.tqeSeq = tp.rcvNxt ∨ lead = true)
      (found : replaceTqs (presentLoop ⟨tp.led q lead, replace, none⟩ q rest).1 = some replaced) :
      PresentCase tp ticks lead replace
        { replaced with ttReassdl := (rearm replaced ticks).ttReassdl }
        (presentLoop ⟨tp.led q lead, replace, none⟩ q rest).2

theorem present_cases {ticks : Nat} {lead replace : Bool} {flags : BitVec 8}
    (result : present tp ticks lead replace = some (final, flags)) :
    PresentCase tp ticks lead replace final flags := by
  simp only [present, Bool.not_eq_true'] at result
  split at result
  next early =>
    cases result
    exact .quiet _ (by simp [early]) (.inl ⟨rfl, by simp [early]⟩)
  next established =>
    rw [Bool.not_eq_false] at established
    split at result
    next empty =>
      cases result
      exact .quiet _ (by simp [empty]) (.inl ⟨rfl, fun _ _ => empty⟩)
    next q rest queue =>
      split at result
      next waits =>
        have away : tcpsHaveEstablished tp.tState = true → ∀ head others, tp.tSegq = head :: others →
            lead = false ∧ head.tqeSeq ≠ tp.rcvNxt := by
          rintro _ head others listed
          rw [queue] at listed
          cases listed
          exact ⟨waits.2, waits.1⟩
        split at result
        · cases result
          exact .quiet _ away (.inr rfl)
        next active =>
          cases result
          exact .quiet _ away (.inl ⟨rfl, fun passive => absurd passive active⟩)
      next presents =>
        have edge : q.tqeSeq = tp.rcvNxt ∨ lead = true := by
          rw [not_and_or, not_not, Bool.not_eq_false] at presents
          exact presents
        simp only [presentRun, Option.map_eq_some_iff, Prod.mk.injEq, led_eq edge] at result
        obtain ⟨replaced, found, rfl, rfl⟩ := result
        rw [rearm_eq]
        exact .presents q rest replaced established queue edge found

structure SameSide (before after : Tcpcb) : Prop where
  cantrcvmore : after.cantrcvmore = before.cantrcvmore
  tState : after.tState = before.tState
  passive : after.passive = before.passive

theorem dequeueCovered_eq (covered : List TsegQent) (tp : Tcpcb) :
    dequeueCovered tp covered = { tp with
      tSegqlen := tp.tSegqlen - covered.length
      zone := (covered.map fun q => .zfree q.addr).reverse ++ tp.zone } := by
  induction covered generalizing tp with
  | nil => simp [dequeueCovered]
  | cons q rest ih =>
    have next := ih (umaZfree { tp with tSegqlen := tp.tSegqlen - 1 } q.addr)
    simp only [dequeueCovered, List.foldl_cons, umaZfree] at next ⊢
    rw [next]
    simp only [List.length_cons, List.map_cons, List.reverse_cons, List.append_assoc,
      List.singleton_append]
    congr 1
    omega

def Tcpcb.passed (tp : Tcpcb) (te : Entry) : Tcpcb :=
  { tp with zone := if te = .tqs then tp.zone else .zfree te :: .zalloc te :: tp.zone }

def Tcpcb.linked (tp : Tcpcb) (ticks : Nat) (seg trimmed : Segment) (te : Entry) : Tcpcb :=
  let following := trimFollowing (segmentEnd trimmed) (entriesAfter tp seg)
  { tp with
    tSegq := entriesUpTo tp seg ++
      ⟨te, trimmed.thSeq, trimmed.tlen, trimmed.thFlags, trimmed.m⟩ :: following.2
    tSegqlen := tp.tSegqlen + 1 - following.1.length
    tSegageq := tp.tSegageq.insertTail te
    tqeTicks := fun entry => if entry = te then ticks else tp.tqeTicks entry
    zone := (following.1.map fun q => .zfree q.addr).reverse ++
      if te = .tqs then tp.zone else .zalloc te :: tp.zone }

theorem umaZalloc_eq (tp : Tcpcb) (te : Entry) :
    umaZalloc tp te = { tp with zone := if te = .tqs then tp.zone else .zalloc te :: tp.zone } := by
  rw [umaZalloc]
  split <;> rfl

theorem releaseDuplicate_eq (tp : Tcpcb) (te : Entry) :
    releaseDuplicate (umaZalloc tp te) te = tp.passed te := by
  by_cases stack : te = .tqs <;> simp [releaseDuplicate, umaZalloc, umaZfree, Tcpcb.passed, stack]

theorem enqueue_eq (tp : Tcpcb) (ticks : Nat) (seg : Segment) (te : Entry) :
    enqueue (umaZalloc tp te) ticks seg te =
      (trimSegment (entriesUpTo tp seg).getLast? seg).map fun trimmed =>
        (tp.linked ticks seg trimmed te, trimmed.tlen) := by
  simp only [enqueue, umaZalloc_eq, entriesUpTo, entriesAfter, dequeueCovered_eq, insertEntry]
  split
  next none => rw [none]; rfl
  next kept some => rw [some]; rfl

def Duplicate (tp : Tcpcb) (seg : Segment) : Prop :=
  trimSegment (entriesUpTo tp seg).getLast? seg = none

inductive SegmentCase (tp : Tcpcb) (seg : Segment) (env : ReassEnv) : Tcpcb → BitVec 8 → Prop where
  | refused (nothing : chooseEntry tp env seg = none) : SegmentCase tp seg env tp 0
  | duplicate (te : Entry) (lead : Bool) {final : Tcpcb} {flags : BitVec 8}
      (chosen : chooseEntry tp env seg = some (te, lead)) (again : Duplicate tp seg)
      (presented : present (tp.passed te) env.ticks lead false = some (final, flags)) :
      SegmentCase tp seg env final flags
  | linked (te : Entry) (lead : Bool) (trimmed : Segment) {final : Tcpcb} {flags : BitVec 8}
      (chosen : chooseEntry tp env seg = some (te, lead))
      (left : trimSegment (entriesUpTo tp seg).getLast? seg = some trimmed)
      (presented : present (tp.linked env.ticks seg trimmed te) env.ticks lead
        (!(entriesUpTo tp seg).isEmpty && tp.passive && te = .tqs) = some (final, flags)) :
      SegmentCase tp seg env final flags

theorem tcpReass_cases {result : Reassembled}
    (returned : tcpReass tp (some seg) env = some result) :
    SegmentCase tp seg env result.tp result.flags := by
  simp only [tcpReass] at returned
  split at returned
  next nothing =>
    cases returned
    exact .refused nothing
  next te lead chosen =>
    simp only [enqueue_eq, releaseDuplicate_eq] at returned
    cases left : trimSegment (entriesUpTo tp seg).getLast? seg with
    | none =>
      simp only [left, Option.map_none, Option.bind_eq_bind, Option.bind_eq_some_iff,
        Option.some.injEq] at returned
      obtain ⟨pair, presented, rfl⟩ := returned
      exact .duplicate te lead chosen left presented
    | some trimmed =>
      simp only [left, Option.map_some, Option.bind_eq_bind, Option.bind_eq_some_iff,
        Option.some.injEq] at returned
      obtain ⟨pair, presented, rfl⟩ := returned
      exact .linked te lead trimmed chosen left presented

theorem tcpReass_push {result : Reassembled} (returned : tcpReass tp none env = some result) :
    present tp env.ticks false false = some (result.tp, result.flags) := by
  simp only [tcpReass, Option.bind_eq_bind, Option.bind_eq_some_iff, Option.some.injEq] at returned
  obtain ⟨pair, presented, rfl⟩ := returned
  exact presented

theorem trimFollowing_addrs (stop : Seq) (queue : List TsegQent) :
    addrs (trimFollowing stop queue).1 ++ addrs (trimFollowing stop queue).2 = addrs queue := by
  induction queue with
  | nil => rfl
  | cons q rest ih =>
    rw [trimFollowing]
    split
    · rfl
    · split
      · rfl
      · simp only [addrs_cons, List.cons_append, ih]

theorem entries_split (tp : Tcpcb) (seg : Segment) :
    tp.tSegq = entriesUpTo tp seg ++ entriesAfter tp seg :=
  List.takeWhile_append_dropWhile.symm

theorem trimSegment_end {p : Option TsegQent} (left : trimSegment p seg = some trimmed) :
    segmentEnd trimmed = segmentEnd seg := by
  cases p with
  | none =>
    simp only [trimSegment, Option.some.injEq] at left
    rw [left]
  | some p =>
    simp only [trimSegment] at left
    split at left
    next positive =>
      split at left
      · simp at left
      next short =>
        cases left
        generalize (p.tqeSeq + BitVec.ofNat 32 p.tqeLen - seg.thSeq).toInt = i at *
        have natural : i = (i.toNat : Int) := by omega
        have word : BitVec.ofInt 32 i = BitVec.ofNat 32 i.toNat := by
          rw [← BitVec.ofInt_natCast, ← natural]
        simp only [segmentEnd]
        rw [word, BitVec.add_assoc, ← BitVec.ofNat_add]
        congr 2
        omega
    · simp only [Option.some.injEq] at left
      rw [left]

def runEnd (next : Seq) : List TsegQent → Seq
  | [] => next
  | q :: rest => runEnd (next + BitVec.ofNat 32 q.tqeLen) rest

theorem afterRun_append (next : Seq) (first second : List TsegQent) :
    afterRun next (first ++ second) =
      if afterRun next first = [] then afterRun (runEnd next first) second
      else afterRun next first ++ second := by
  induction first generalizing next with
  | nil => simp [afterRun, runEnd]
  | cons q rest ih =>
    simp only [List.cons_append, afterRun, runEnd]
    split
    · exact ih (next + BitVec.ofNat 32 q.tqeLen)
    · simp

def entryEnd (q : TsegQent) : Seq :=
  q.tqeSeq + BitVec.ofNat 32 q.tqeLen

theorem runEnd_eq_entryEnd (next : Seq) {last : TsegQent} (contiguous : afterRun next queue = [])
    (final : queue.getLast? = some last) : runEnd next queue = entryEnd last := by
  induction queue generalizing next with
  | nil => simp at final
  | cons q rest ih =>
    rw [afterRun] at contiguous
    split at contiguous
    next same =>
      cases rest with
      | nil =>
        simp only [List.getLast?_singleton, Option.some.injEq] at final
        rw [← final, entryEnd, same]
        rfl
      | cons second others =>
        rw [List.getLast?_cons_cons] at final
        exact ih (next + BitVec.ofNat 32 q.tqeLen) contiguous final
    · simp at contiguous

def RunsInto (tp : Tcpcb) (seg : Segment) : Prop :=
  ∃ first rest last, entriesUpTo tp seg = first :: rest ∧
    (entriesUpTo tp seg).getLast? = some last ∧ afterRun (entryEnd first) rest = [] ∧
    0 ≤ (entryEnd last - seg.thSeq).toInt

theorem trimSegment_meets {p : TsegQent} (left : trimSegment (some p) seg = some trimmed) :
    trimmed.thSeq = entryEnd p ↔ 0 ≤ (entryEnd p - seg.thSeq).toInt := by
  simp only [trimSegment] at left
  split at left
  next positive =>
    split at left
    · simp at left
    · cases left
      constructor
      · intro _
        exact Int.le_of_lt positive
      · intro _
        simp only [entryEnd, BitVec.ofInt_toInt]
        rw [BitVec.add_comm, BitVec.sub_add_cancel]
  next nonpositive =>
    cases left
    constructor
    · intro same
      rw [same, BitVec.sub_self]
      exact Int.le_refl 0
    · intro reaches
      have zero : (entryEnd p - seg.thSeq).toInt = (0#32).toInt := by
        rw [BitVec.toInt_zero]
        exact Int.le_antisymm (Int.not_lt.mp nonpositive) reaches
      have difference : entryEnd p - seg.thSeq = 0#32 := BitVec.eq_of_toInt_eq zero
      rw [← BitVec.sub_add_cancel (entryEnd p) seg.thSeq, difference, BitVec.zero_add]

theorem afterRun_linked {first : TsegQent} (e : TsegQent) {rest : List TsegQent}
    (kept : List TsegQent) (front : entriesUpTo tp seg = first :: rest)
    (left : trimSegment (entriesUpTo tp seg).getLast? seg = some trimmed)
    (starts : e.tqeSeq = trimmed.thSeq) :
    (RunsInto tp seg ∧ afterRun (entryEnd first) (rest ++ e :: kept) =
        afterRun (entryEnd e) kept) ∨
      (¬RunsInto tp seg ∧ ∃ waiting, (∃ taken, rest = taken ++ waiting) ∧
        afterRun (entryEnd first) (rest ++ e :: kept) = waiting ++ e :: kept) := by
  rw [afterRun_append]
  cases final : (entriesUpTo tp seg).getLast? with
  | none => simp [front] at final
  | some last =>
    rw [final] at left
    have meets := trimSegment_meets left
    by_cases contiguous : afterRun (entryEnd first) rest = []
    · have whole : runEnd (entryEnd first) rest = entryEnd last := by
        have same := runEnd_eq_entryEnd first.tqeSeq
          (by simpa [afterRun, entryEnd] using contiguous) (front ▸ final)
        simpa [runEnd, entryEnd] using same
      simp only [contiguous, ↓reduceIte, whole, afterRun, starts, meets]
      by_cases reaches : 0 ≤ (entryEnd last - seg.thSeq).toInt
      · left
        refine ⟨⟨first, rest, last, front, final, contiguous, reaches⟩, ?_⟩
        simp only [reaches, ↓reduceIte]
        rw [← meets.mpr reaches, ← starts]
        rfl
      · right
        refine ⟨?_, [], ⟨rest, (List.append_nil rest).symm⟩, by simp only [reaches]; rfl⟩
        rintro ⟨_, _, other, _, found, _, reached⟩
        rw [final, Option.some.injEq] at found
        exact reaches (found ▸ reached)
    · right
      refine ⟨?_, afterRun (entryEnd first) rest, afterRun_suffix _ _, by simp [contiguous]⟩
      rintro ⟨other, others, _, found, _, reached, _⟩
      rw [front, List.cons.injEq] at found
      exact contiguous (found.1 ▸ found.2 ▸ reached)

end Libunsod.Netinet
