import Libunsod.Netinet.TcpReassAge
import Libunsod.Netinet.TcpReassQueue

/-!
The deadline timer of a passive connection. A queue that waits for a hole is to
have `TT_REASSDL` armed for the oldest entry, so that the entry is delivered
when it is `TP_REASSDL` ticks old. A callout armed for a tick is called by the
hardclock that makes the clock pass that tick. The timer is left running when the
entry it was armed for is delivered early, and a firing that finds no expired
entry does not arm it again.
-/

namespace Libunsod.Netinet

open Runs (Run)

variable {tp before final : Tcpcb} {clock : Nat} {delta : BitVec 32} {replace : Bool} {q : TsegQent}
  {seg trimmed : Segment} {te : Entry} {held : List Entry} {env : ReassEnv} {state next : AgeState}

variable {after : Tcpcb} {ticks : Nat} {flags : BitVec 8} {lead : Bool} {rest : List TsegQent}

def dueAt (tp : Tcpcb) (entry : Entry) : Nat :=
  tp.tqeTicks entry + (tpReassdl tp).toNat

def Recent (tp : Tcpcb) (clock : Nat) : Prop :=
  ∀ q ∈ tp.tSegq, clock < tp.tqeTicks q.addr + 2 ^ 32

def InTime (tp : Tcpcb) (limit : Nat) : Prop :=
  ∀ due, tp.ttReassdl = some due → ∀ q ∈ tp.tSegq, due ≤ max (dueAt tp q.addr) limit

structure Timed (tp : Tcpcb) (clock : Nat) : Prop where
  idle : tp.tSegq = [] → tp.ttReassdl = none
  armed : tp.tSegq ≠ [] → tcpTimerActive tp = true
  inTime : InTime tp (clock + 1)

theorem ticksSince_toNat {entry : Entry} (past : tp.tqeTicks entry ≤ clock)
    (recent : clock < tp.tqeTicks entry + 2 ^ 32) :
    (ticksSince tp clock entry).toNat = clock - tp.tqeTicks entry := by
  have difference := SerialNumber.sub_toNat (0#32) past recent
  rwa [BitVec.zero_add, BitVec.zero_add] at difference

theorem expired_iff {entry : Entry} (past : tp.tqeTicks entry ≤ clock)
    (recent : clock < tp.tqeTicks entry + 2 ^ 32) :
    expired tp clock entry = true ↔ dueAt tp entry ≤ clock := by
  rw [expired, decide_eq_true_eq, BitVec.le_def, ticksSince_toNat past recent, dueAt]
  omega

theorem calloutTicks_bounds (some_ : delta ≠ 0) :
    1 ≤ calloutTicks delta ∧ calloutTicks delta ≤ delta.toNat := by
  have positive : 0 < delta.toNat := by
    rw [Nat.pos_iff_ne_zero]
    exact fun zero => some_ (BitVec.eq_of_toNat_eq zero)
  rw [calloutTicks]
  split <;> omega

theorem nextHoleDeadline_spec (agedAs : ∃ aged, AgedAs tp clock (addrs tp.tSegq) aged)
    (recent : Recent tp clock) :
    (tp.tSegq = [] ∧ tcpReassNextHoleDeadline tp clock = 0) ∨
      tp.tSegq ≠ [] ∧ tcpReassNextHoleDeadline tp clock ≠ 0 ∧
        ((tcpReassNextHoleDeadline tp clock).toNat = 1 ∧ (∃ q ∈ tp.tSegq, dueAt tp q.addr ≤ clock) ∨
          ∀ q ∈ tp.tSegq,
            clock + (tcpReassNextHoleDeadline tp clock).toNat ≤ dueAt tp q.addr) := by
  obtain ⟨aged, agedAs⟩ := agedAs
  cases first : tp.tSegageq.first with
  | none =>
    left
    have nothing := agedAs.holds.first
    rw [first, eq_comm, List.head?_eq_none_iff] at nothing
    have same := agedAs.same
    rw [nothing, List.nil_perm] at same
    exact ⟨List.map_eq_nil_iff.mp same, by simp only [tcpReassNextHoleDeadline, first]⟩
  | some entry =>
    right
    obtain ⟨linked, older⟩ := agedAs.oldest first
    obtain ⟨queued, member, rfl⟩ := List.mem_map.mp linked
    have past := agedAs.past queued.addr (agedAs.same.mem_iff.mpr linked)
    have since := ticksSince_toNat past (recent queued member)
    have due := expired_iff past (recent queued member)
    refine ⟨List.ne_nil_of_mem member, ?_⟩
    simp only [tcpReassNextHoleDeadline, first]
    split
    next late => exact ⟨by decide, .inl ⟨rfl, queued, member, due.mp late⟩⟩
    next early =>
      have short : ticksSince tp clock queued.addr < tpReassdl tp := by
        rw [expired, decide_eq_true_eq, BitVec.not_le] at early
        exact early
      have rest : (tpReassdl tp - ticksSince tp clock queued.addr).toNat =
          (tpReassdl tp).toNat - (clock - tp.tqeTicks queued.addr) := by
        rw [BitVec.toNat_sub_of_le (BitVec.le_of_lt short), since]
      rw [BitVec.lt_def, since] at short
      refine ⟨?_, .inr ?_⟩
      · intro zero
        have nothing : (0 : BitVec 32).toNat = 0 := rfl
        rw [zero, nothing] at rest
        omega
      · intro q inside
        have order := older q inside
        rw [rest, dueAt]
        omega

theorem activate_timed (agedAs : ∃ aged, AgedAs tp clock (addrs tp.tSegq) aged)
    (recent : Recent tp clock) :
    Timed (tcpTimerActivate tp clock (tcpReassNextHoleDeadline tp clock)) clock ∧
      ((∀ q ∈ tp.tSegq, clock < dueAt tp q.addr) →
        InTime (tcpTimerActivate tp clock (tcpReassNextHoleDeadline tp clock)) 0) := by
  rcases nextHoleDeadline_spec agedAs recent with ⟨nothing, zero⟩ | ⟨some_, positive, bound⟩
  · rw [zero]
    exact ⟨⟨fun _ => rfl, fun other => absurd nothing other, nofun⟩, fun _ => nofun⟩
  · have ticks := calloutTicks_bounds positive
    generalize tcpReassNextHoleDeadline tp clock = delta at *
    have timer : (tcpTimerActivate tp clock delta).ttReassdl = some (clock + calloutTicks delta) :=
      if_neg positive
    have inTime (limit : Nat) (enough : (∃ q ∈ tp.tSegq, dueAt tp q.addr ≤ clock) →
        clock + 1 ≤ limit) : InTime (tcpTimerActivate tp clock delta) limit := by
      intro due found q member
      rw [timer, Option.some.injEq] at found
      have same : dueAt (tcpTimerActivate tp clock delta) q.addr = dueAt tp q.addr := rfl
      rw [same, ← found]
      rcases bound with ⟨one, late⟩ | early
      · have late := enough late
        omega
      · have own := early q member
        omega
    refine ⟨⟨fun nothing => absurd nothing some_, fun _ => ?_, inTime _ fun _ => Nat.le_refl _⟩, ?_⟩
    · rw [tcpTimerActive, timer]
      rfl
    · intro later
      refine inTime 0 ?_
      rintro ⟨q, member, late⟩
      have early := later q member
      omega

structure SameConnection (before after : Tcpcb) : Prop extends SameSide before after where
  own : after.tReassdl = before.tReassdl
  shared : after.tcpReassdl = before.tcpReassdl

theorem tpReassdl_same (own : after.tReassdl = before.tReassdl)
    (shared : after.tcpReassdl = before.tcpReassdl) : tpReassdl after = tpReassdl before := by
  simp only [tpReassdl, own, shared]

def AgesFrom (before after : Tcpcb) : Prop :=
  ∀ q ∈ after.tSegq, ∃ origin ∈ before.tSegq,
    after.tqeTicks q.addr = before.tqeTicks origin.addr

theorem AgesFrom.recent (ages : AgesFrom before after) (recent : Recent before clock) :
    Recent after clock := by
  intro q member
  obtain ⟨origin, inside, same⟩ := ages q member
  rw [same]
  exact recent origin inside

theorem AgesFrom.inTime {limit : Nat} (ages : AgesFrom before after)
    (connection : SameConnection before after) (timer : after.ttReassdl = before.ttReassdl)
    (inTime : InTime before limit) : InTime after limit := by
  intro due found q member
  obtain ⟨origin, inside, same⟩ := ages q member
  rw [timer] at found
  have bound := inTime due found origin inside
  rwa [dueAt, ← same, ← tpReassdl_same connection.own connection.shared] at bound

theorem presentLoop_kept {replaced : Tcpcb}
    (found : replaceTqs (presentLoop ⟨tp, replace, none⟩ q rest).1 = some replaced)
    (queue : tp.tSegq = q :: rest) (replacing : replace = true → .tqs ∈ addrs tp.tSegq) :
    SameConnection tp replaced ∧ replaced.ttReassdl = tp.ttReassdl ∧ AgesFrom tp replaced := by
  have step (state : Presenting) (q : TsegQent) (rest : List TsegQent) (next : Presenting)
      (one : PresentOne state q rest next) (before : SameConnection tp state.tp ∧
        state.tp.tqeTicks = tp.tqeTicks ∧ state.tp.ttReassdl = tp.ttReassdl ∧
        (state.replaceTqsInList = true → replace = true)) :
      next.tp.tSegq = rest ∧ SameConnection tp next.tp ∧ next.tp.tqeTicks = tp.tqeTicks ∧
        next.tp.ttReassdl = tp.ttReassdl ∧ (next.replaceTqsInList = true → replace = true) := by
    obtain ⟨connection, memory, timer, flag⟩ := before
    cases one with
    | stack => exact ⟨rfl, { connection with }, memory, timer, nofun⟩
    | reclaim | free => exact ⟨rfl, { connection with }, memory, timer, flag⟩
  obtain ⟨listed, connection, memory, timer, flag⟩ := presentLoop_invariant
    (fun state queue => state.tp.tSegq = queue ∧ SameConnection tp state.tp ∧
      state.tp.tqeTicks = tp.tqeTicks ∧ state.tp.ttReassdl = tp.ttReassdl ∧
      (state.replaceTqsInList = true → replace = true))
    (fun state q rest next one before => step state q rest next one before.2) rest
    ⟨tp, replace, none⟩ q
    (fun next one => step _ q rest next one ⟨⟨⟨rfl, rfl, rfl⟩, rfl, rfl⟩, rfl, rfl, id⟩)
  have inside : ∀ other ∈ (presentLoop ⟨tp, replace, none⟩ q rest).1.tp.tSegq,
      other ∈ tp.tSegq := by
    intro other member
    obtain ⟨taken, split⟩ := afterRun_suffix (tp.rcvNxt + BitVec.ofNat 32 q.tqeLen) rest
    rw [listed] at member
    rw [queue, split]
    exact List.mem_cons_of_mem _ (List.mem_append_right _ member)
  simp only [replaceTqs] at found
  split at found
  next set =>
    split at found
    · cases found
    next reclaimed kept =>
      cases found
      refine ⟨{ connection with }, timer, ?_⟩
      intro other member
      obtain ⟨queued, queuedIn, rfl⟩ := List.mem_map.mp member
      obtain ⟨stack, stackIn, onStack⟩ := List.mem_map.mp (replacing (flag set))
      simp only [memory]
      split
      · exact ⟨stack, stackIn, by rw [onStack, if_pos rfl]⟩
      · by_cases again : queued.addr = reclaimed
        · exact ⟨stack, stackIn, by rw [onStack, if_pos again]⟩
        · exact ⟨queued, inside queued queuedIn, if_neg again⟩
  · cases found
    exact ⟨connection, timer, fun other member => ⟨other, inside other member, by rw [memory]⟩⟩

theorem present_timed (result : present tp ticks lead replace = some (final, flags))
    (established : tcpsHaveEstablished tp.tState = true) (passive : tp.passive = true)
    (idle : tp.tSegq = [] → tp.ttReassdl = none) (inTime : InTime tp (ticks + 1))
    (recent : Recent tp ticks) (replacing : replace = true → .tqs ∈ addrs tp.tSegq)
    (agedAs : ∃ aged, AgedAs final ticks (addrs final.tSegq) aged) :
    Timed final ticks ∧ Recent final ticks ∧ SameConnection tp final := by
  obtain ⟨aged, agedAs⟩ := agedAs
  cases present_cases result with
  | quiet timer _ armed =>
    refine ⟨?_, recent, ⟨rfl, rfl, rfl⟩, rfl, rfl⟩
    rcases armed with ⟨rfl, empty⟩ | rfl
    · exact ⟨idle, fun some_ => absurd (empty passive established) some_, inTime⟩
    · exact (activate_timed ⟨aged, { agedAs with }⟩ recent).1
  | presents q rest replaced _ queue _ found =>
    obtain ⟨connection, timer, ages⟩ := presentLoop_kept found queue replacing
    have fromStart : AgesFrom tp replaced := ages
    have replacedRecent := fromStart.recent recent
    have replacedInTime := fromStart.inTime { connection with } timer inTime
    have replacedAged : ∃ aged, AgedAs replaced ticks (addrs replaced.tSegq) aged :=
      ⟨aged, { agedAs with }⟩
    refine ⟨?_, replacedRecent, { connection with }⟩
    rw [← rearm_eq, rearm]
    split
    · exact (activate_timed replacedAged replacedRecent).1
    next running =>
      simp only [Bool.or_eq_true, Bool.not_eq_true', decide_eq_true_eq, not_or,
        Bool.not_eq_false] at running
      refine ⟨fun nothing => ?_, fun _ => running.1, replacedInTime⟩
      rcases nextHoleDeadline_spec replacedAged replacedRecent with ⟨_, zero⟩ | ⟨some_, _⟩
      · exact absurd zero running.2
      · exact absurd nothing some_

theorem linked_age (member : q ∈ (tp.linked clock seg trimmed te).tSegq) :
    (tp.linked clock seg trimmed te).tqeTicks q.addr = clock ∨
      ∃ origin ∈ tp.tSegq,
        (tp.linked clock seg trimmed te).tqeTicks q.addr = tp.tqeTicks origin.addr := by
  by_cases new : q.addr = te
  · exact .inl (if_pos new)
  · right
    have listed : q.addr ∈ addrs tp.tSegq := by
      have inside : q.addr ∈ addrs (tp.linked clock seg trimmed te).tSegq :=
        List.mem_map_of_mem member
      simp only [Tcpcb.linked, addrs_append, addrs_cons, List.mem_append, List.mem_cons, new,
        false_or] at inside
      rw [segq_addrs tp seg trimmed, List.mem_append, List.mem_append]
      exact inside.imp_right .inr
    obtain ⟨origin, inside, same⟩ := List.mem_map.mp listed
    exact ⟨origin, inside, (if_neg new).trans (by rw [same])⟩

theorem linked_recent (seg trimmed : Segment) (te : Entry) (recent : Recent tp clock) :
    Recent (tp.linked clock seg trimmed te) clock := by
  intro q member
  rcases linked_age member with new | ⟨origin, inside, same⟩
  · rw [new]
    exact Nat.lt_add_of_pos_right (by decide)
  · rw [same]
    exact recent origin inside

theorem linked_inTime (seg trimmed : Segment) (te : Entry) (timed : Timed tp clock)
    (agedAs : ∃ aged, AgedAs tp clock (addrs tp.tSegq) aged) :
    InTime (tp.linked clock seg trimmed te) (clock + 1) := by
  intro due found q member
  have found : tp.ttReassdl = some due := found
  have settings : tpReassdl (tp.linked clock seg trimmed te) = tpReassdl tp := rfl
  rw [dueAt, settings]
  rcases linked_age member with new | ⟨origin, inside, same⟩
  · rw [new]
    cases waiting : tp.tSegq with
    | nil => simp [timed.idle waiting] at found
    | cons first others =>
      have inside : first ∈ tp.tSegq := by
        rw [waiting]
        exact List.mem_cons_self
      obtain ⟨aged, agedAs⟩ := agedAs
      have past := agedAs.past first.addr
        (agedAs.same.mem_iff.mpr (List.mem_map_of_mem inside))
      have bound := timed.inTime due found first inside
      rw [dueAt] at bound
      omega
  · rw [same]
    exact timed.inTime due found origin inside

theorem segment_timed (agedAs : ∃ aged, AgedAs tp env.ticks (addrs tp.tSegq) aged)
    (finalAged : ∃ aged, AgedAs final env.ticks (addrs final.tSegq) aged)
    (established : tcpsHaveEstablished tp.tState = true) (passive : tp.passive = true)
    (timed : Timed tp env.ticks) (recent : Recent tp env.ticks)
    (result : SegmentCase tp seg env final flags) :
    Timed final env.ticks ∧ Recent final env.ticks ∧ SameConnection tp final := by
  cases result with
  | refused => exact ⟨timed, recent, ⟨rfl, rfl, rfl⟩, rfl, rfl⟩
  | duplicate te lead _ _ presented =>
    obtain ⟨done, young, connection⟩ := present_timed presented established passive timed.idle
      timed.inTime recent (by rintro ⟨⟩) finalAged
    exact ⟨done, young, { connection with }⟩
  | linked te lead trimmed _ _ presented =>
    obtain ⟨done, young, connection⟩ := present_timed presented established passive
      (fun nothing => by simp [Tcpcb.linked] at nothing) (linked_inTime seg trimmed te timed agedAs)
      (linked_recent seg trimmed te recent)
      (fun replace => by
        simp only [Bool.and_eq_true, decide_eq_true_eq] at replace
        simp [Tcpcb.linked, replace.2]) finalAged
    exact ⟨done, young, { connection with }⟩

structure Fired (tp final : Tcpcb) (delivered : List TsegQent) : Prop where
  split : tp.tSegq = delivered ++ final.tSegq
  received : final.received = delivered.foldl Received.deliver tp.received
  memory : final.tqeTicks = tp.tqeTicks
  settings : tpReassdl final = tpReassdl tp
  passive : final.passive = tp.passive
  established : tcpsHaveEstablished tp.tState = true → tcpsHaveEstablished final.tState = true

theorem fire_timed (distinct : (addrs tp.tSegq).Nodup)
    (agedAs : ∃ aged, AgedAs tp clock (addrs tp.tSegq) aged) (recent : Recent tp clock)
    (finds : tp.tSegq ≠ [] → ∃ q ∈ tp.tSegq, expired tp clock q.addr = true)
    (finalAged : ∃ aged, AgedAs final clock (addrs final.tSegq) aged)
    (result : tcpTimerReassdl tp clock = some final) :
    ∃ delivered, Fired tp final delivered ∧ Timed final clock ∧ Recent final clock ∧
      InTime final 0 := by
  obtain ⟨aged, agedAs⟩ := agedAs
  simp only [tcpTimerReassdl, tcpReassDeliverHoles] at result
  cases furthest : furthestExpired { tp with ttReassdl := none } clock with
  | none =>
    simp only [furthest, Option.some.injEq] at result
    have nothing : tp.tSegq = [] := by
      by_contra some_
      obtain ⟨q, member, late⟩ := finds some_
      have early := (furthestExpired_eq_none_iff _ clock).mp furthest q member
      exact absurd (late.symm.trans early) (by decide)
    subst result
    exact ⟨[], ⟨rfl, rfl, rfl, rfl, rfl, id⟩, ⟨fun _ => rfl,
      fun some_ => absurd nothing some_, by rintro _ ⟨⟩⟩, recent,
      by rintro _ ⟨⟩⟩
  | some p =>
    simp only [furthest, Option.bind_eq_bind, Option.bind_eq_some_iff,
      Option.some.injEq] at result
    obtain ⟨after, loop, rfl⟩ := result
    obtain ⟨delivered, front, reaches⟩ := deliverHolesLoop_delivers false
      { tp with ttReassdl := none } rfl loop
    have reached := reaches rfl (furthestExpired_member furthest)
    have early := furthestExpired_reaches distinct furthest front.split reached
    have inside : ∀ q ∈ after.tSegq, q ∈ tp.tSegq := by
      intro q member
      rw [front.split]
      exact List.mem_append_right _ member
    have settings : tpReassdl after = tpReassdl tp :=
      tpReassdl_same front.timer.own front.timer.shared
    have afterRecent : Recent after clock := by
      intro q member
      rw [front.timer.memory]
      exact recent q (inside q member)
    have waits : ∀ q ∈ after.tSegq, clock < dueAt after q.addr := by
      intro q member
      have linked : q.addr ∈ addrs tp.tSegq := List.mem_map_of_mem (inside q member)
      have past := agedAs.past q.addr (agedAs.same.mem_iff.mpr linked)
      have due := expired_iff past (recent q (inside q member))
      have notYet : ¬expired tp clock q.addr = true := by
        have same : expired tp clock q.addr = false := early q member
        simp [same]
      rw [due] at notYet
      rw [dueAt, front.timer.memory, settings]
      exact Nat.not_le.mp notYet
    have afterAged : ∃ aged, AgedAs after clock (addrs after.tSegq) aged := by
      obtain ⟨agedAfter, done⟩ := finalAged
      exact ⟨agedAfter, { done with }⟩
    obtain ⟨armed, inTime⟩ := activate_timed afterAged afterRecent
    exact ⟨delivered, ⟨front.split, front.received, front.timer.memory, settings, front.passive,
      front.established⟩, armed,
      afterRecent, inTime waits⟩

inductive TimerStep where
  | segment (offset : Nat) (seg : Segment) (env : ReassEnv)
  | push (env : ReassEnv)
  | tick
  | fire

def TimerMove (window : Nat) (state : AgeState) (step : TimerStep) (next : AgeState) : Prop :=
  match step with
  | .segment offset seg env =>
      env.ticks = state.clock ∧ seg.thSeq = state.tp.rcvNxt + BitVec.ofNat 32 offset ∧
        seg.tlen = seg.m.length ∧ offset + seg.tlen ≤ window ∧
        (∀ index, env.zalloc = some index → FreshEntry state.tp (.zone index)) ∧
        ∃ result, tcpReass state.tp (some seg) env = some result ∧
          next = ⟨result.tp, state.clock⟩
  | .push env =>
      env.ticks = state.clock ∧
        ∃ result, tcpReass state.tp none env = some result ∧ next = ⟨result.tp, state.clock⟩
  | .tick => next = ⟨state.tp, state.clock + 1⟩
  | .fire =>
      ∃ due, state.tp.ttReassdl = some due ∧ due < state.clock ∧
        ∃ tp, tcpTimerReassdl state.tp state.clock = some tp ∧ next = ⟨tp, state.clock⟩

def TimerStep.Sound (state : AgeState) : TimerStep → Prop
  | .segment _ seg env =>
      ReassCall.KeepsAge state.tp (.segment seg env) ∧
        ReassCall.Resolved state.tp (.segment seg env)
  | .push _ => True
  | .tick => Recent state.tp (state.clock + 1)
  | .fire => state.tp.tSegq ≠ [] → ∃ q ∈ state.tp.tSegq,
      expired state.tp state.clock q.addr = true

/-- Nothing arrives, and `softclock` calls the timer before the next tick. -/
def TimerStep.Quiet (state : AgeState) : TimerStep → Prop
  | .tick => ∀ due, state.tp.ttReassdl = some due → state.clock ≤ due
  | .fire => True
  | _ => False

def timerView (start : Tcpcb) : View :=
  .since start (fun _ _ _ => True) fun _ _ _ _ _ _ _ => trivial

structure TimerInv (start : Tcpcb) (state : AgeState) : Prop where
  accounted : ∃ held, Accounted state.tp held
  unstacked : Unstacked state.tp
  aged : ∃ aged, AgedAs state.tp state.clock (addrs state.tp.tSegq) aged
  recent : Recent state.tp state.clock
  timed : Timed state.tp state.clock
  established : tcpsHaveEstablished state.tp.tState = true
  passive : state.tp.passive = true
  lined : state.tp.cantrcvmore = false → ∃ buffer, Lined (timerView start) state.tp buffer

section Runs

variable {start : Tcpcb} {window : Nat}

theorem TimerInv.step_segment (small : window < 2 ^ 31) {offset : Nat}
    (invariant : TimerInv start state)
    (move : TimerMove window state (.segment offset seg env) next)
    (sound : TimerStep.Sound state (.segment offset seg env)) : TimerInv start next := by
  obtain ⟨now, sequence, length, fits, fresh, result, returned, rfl⟩ := move
  obtain ⟨keeps, resolved⟩ := sound
  obtain ⟨held, accounted⟩ := invariant.accounted
  obtain ⟨leaked, kept, clean, _⟩ := call_accounted state.tp result.tp held (.segment seg env)
    accounted invariant.unstacked fresh resolved (by rw [ReassCall.perform, returned]; rfl)
  have outcome := tcpReass_cases returned
  have aged := segment_aged accounted
    invariant.unstacked invariant.aged (Nat.le_of_eq now.symm) fresh keeps outcome
  obtain ⟨timed, recent, connection⟩ := segment_timed (now ▸ invariant.aged) aged
    invariant.established invariant.passive (now ▸ invariant.timed) (now ▸ invariant.recent) outcome
  rw [now] at aged timed recent
  refine ⟨⟨_, kept⟩, clean, aged, recent, timed, connection.tState ▸ invariant.established,
    connection.passive.trans invariant.passive, ?_⟩
  intro receives
  obtain ⟨buffer, lined⟩ := invariant.lined (connection.cantrcvmore ▸ receives)
  obtain ⟨_, given⟩ := given_of_offset sequence length fits small
  rcases tcpReass_segq lined given trivial returned with
    ⟨_, same, _⟩ | ⟨te, lead, replace, middle, _, lined, unchanged, presented⟩
  · rw [same]
    exact ⟨buffer, lined⟩
  · have lined : Lined (timerView start) middle (buffer.insert _) := lined
    obtain ⟨after, facts⟩ := present_presented lined
      (unchanged.cantrcvmore.trans (connection.cantrcvmore ▸ receives))
      (unchanged.tState ▸ invariant.established) (fun _ _ => trivial) presented
    exact ⟨after, facts.lined⟩

theorem TimerInv.step_push (invariant : TimerInv start state)
    (move : TimerMove window state (.push env) next) : TimerInv start next := by
  obtain ⟨now, result, returned, rfl⟩ := move
  obtain ⟨held, accounted⟩ := invariant.accounted
  have performed : ReassCall.perform state.tp (.push env) = some result.tp := by
    rw [ReassCall.perform, returned]
    rfl
  obtain ⟨leaked, kept, clean, _⟩ := call_accounted state.tp result.tp held (.push env) accounted
    invariant.unstacked trivial trivial performed
  have aged := call_aged state ⟨result.tp, state.clock⟩ held (.push env) accounted
    invariant.unstacked invariant.aged trivial ⟨⟨trivial, performed⟩, now.symm, Nat.le_refl _⟩
  have presented := tcpReass_push returned
  obtain ⟨timed, recent, connection⟩ := present_timed presented
    invariant.established invariant.passive invariant.timed.idle (now ▸ invariant.timed.inTime)
    (now ▸ invariant.recent) (by rintro ⟨⟩) (now ▸ aged)
  refine ⟨⟨_, kept⟩, clean, aged, now ▸ recent, now ▸ timed,
    connection.tState ▸ invariant.established, connection.passive.trans invariant.passive, ?_⟩
  intro receives
  have open_ := connection.cantrcvmore ▸ receives
  obtain ⟨buffer, lined⟩ := invariant.lined open_
  obtain ⟨after, facts⟩ := present_presented lined open_
    invariant.established (by rintro ⟨⟩) presented
  exact ⟨after, facts.lined⟩

theorem TimerInv.step_tick (invariant : TimerInv start state)
    (move : TimerMove window state .tick next) (sound : TimerStep.Sound state .tick) :
    TimerInv start next := by
  obtain ⟨aged, agedAs⟩ := invariant.aged
  have timed := invariant.timed
  subst move
  refine { invariant with
    aged := ⟨aged, agedAs.later (Nat.le_succ _)⟩
    recent := sound
    timed := { timed with inTime := ?_ } }
  exact fun due found q member => Nat.le_trans (timed.inTime due found q member)
    (max_le_max (Nat.le_refl _) (Nat.le_succ _))

theorem fire_returns (clock : Nat)
    (lined : tp.cantrcvmore = false → ∃ buffer, Lined (timerView start) tp buffer) :
    ∃ final, tcpTimerReassdl tp clock = some final ∧
      (final.cantrcvmore = false → ∃ buffer, Lined (timerView start) final buffer) := by
  cases shut : tp.cantrcvmore with
  | true =>
    obtain ⟨final, returned, stays, _⟩ :=
      tcpReassDeliverHoles_shut { tp with ttReassdl := none } clock shut
    exact ⟨final, returned, by simp [stays]⟩
  | false =>
    obtain ⟨buffer, lined⟩ := lined shut
    have stopped : Lined (timerView start) { tp with ttReassdl := none } buffer :=
      { lined with }
    obtain ⟨final, returned, delivered⟩ := tcpReassDeliverHoles_segq clock (fun _ => trivial)
      fun _ => stopped
    refine ⟨final, returned, fun receives => ?_⟩
    obtain ⟨floor, after, delivering, _⟩ := delivered (.inl receives)
    exact ⟨after, delivering.widen.lined receives⟩

theorem TimerInv.step_fire (invariant : TimerInv start state)
    (move : TimerMove window state .fire next) (sound : TimerStep.Sound state .fire) :
    TimerInv start next ∧ InTime next.tp 0 ∧ ∃ delivered, Fired state.tp next.tp delivered := by
  obtain ⟨_, _, _, final, returned, rfl⟩ := move
  obtain ⟨held, accounted⟩ := invariant.accounted
  obtain ⟨aged, agedAs⟩ := invariant.aged
  obtain ⟨leaked, kept, clean, _⟩ := call_accounted { state.tp with ttReassdl := none } final held
    (.deliverHoles state.clock) { accounted with } invariant.unstacked trivial trivial returned
  have finalAged := call_aged ⟨{ state.tp with ttReassdl := none }, state.clock⟩
    ⟨final, state.clock⟩ held (.deliverHoles state.clock) { accounted with } invariant.unstacked
    ⟨aged, { agedAs with }⟩ trivial ⟨⟨trivial, returned⟩, rfl, Nat.le_refl _⟩
  obtain ⟨delivered, fired, timed, recent, inTime⟩ := fire_timed
    accounted.distinct invariant.aged invariant.recent sound finalAged returned
  refine ⟨⟨⟨_, kept⟩, clean, finalAged, recent, timed, fired.established invariant.established,
    fired.passive.trans invariant.passive, ?_⟩, inTime, delivered, fired⟩
  intro receives
  obtain ⟨other, again, after⟩ := fire_returns state.clock invariant.lined
  rw [returned, Option.some.injEq] at again
  subst again
  exact after receives

theorem TimerInv.step (small : window < 2 ^ 31) (state : AgeState) (step : TimerStep)
    (next : AgeState) (invariant : TimerInv start state)
    (move : TimerMove window state step next) (sound : step.Sound state) :
    TimerInv start next := by
  cases step with
  | segment offset seg env =>
    exact invariant.step_segment small move sound
  | push env => exact invariant.step_push move
  | tick => exact invariant.step_tick move sound
  | fire => exact (invariant.step_fire move sound).1

structure QuietSince (start : Tcpcb) (reached state : AgeState)
    (delivered : List TsegQent) : Prop where
  invariant : TimerInv start state
  split : reached.tp.tSegq = delivered ++ state.tp.tSegq
  received : state.tp.received = delivered.foldl Received.deliver reached.tp.received
  memory : state.tp.tqeTicks = reached.tp.tqeTicks
  settings : tpReassdl state.tp = tpReassdl reached.tp
  inTime : InTime state.tp (reached.clock + 1)

theorem QuietSince.step (reached state : AgeState) (step : TimerStep)
    (next : AgeState) (since : ∃ delivered, QuietSince start reached state delivered)
    (move : TimerMove window state step next) (sound : step.Sound state)
    (quiet : step.Quiet state) : ∃ delivered, QuietSince start reached next delivered := by
  obtain ⟨delivered, since⟩ := since
  cases step with
  | segment offset seg env | push env => exact absurd quiet id
  | tick =>
    have invariant := since.invariant.step_tick move sound
    subst move
    exact ⟨delivered, invariant, since.split, since.received, since.memory, since.settings,
      since.inTime⟩
  | fire =>
    obtain ⟨invariant, inTime, more, fired⟩ := since.invariant.step_fire move sound
    refine ⟨delivered ++ more, invariant, ?_, ?_, fired.memory.trans since.memory,
      fired.settings.trans since.settings, fun due found q member =>
        (inTime due found q member).trans (max_le_max (Nat.le_refl _) (Nat.zero_le _))⟩
    · rw [List.append_assoc, ← fired.split]
      exact since.split
    · rw [List.foldl_append, ← since.received]
      exact fired.received

structure Watched (state : AgeState) : Prop extends NoEntries state.tp where
  aged : state.tp.tSegageq = .empty
  timer : state.tp.ttReassdl = none
  established : state.tp.tState = .established
  passive : state.tp.passive = true

theorem Watched.timerInv (watched : Watched state) : TimerInv state.tp state := by
  refine ⟨⟨[], watched.toNoEntries.accounted⟩, watched.toNoEntries.unstacked, ?_, ?_,
    ⟨fun _ => watched.timer, ?_, ?_⟩, ?_, watched.passive,
    fun _ => ⟨.empty, lined_start rfl rfl watched.tSegq⟩⟩
  · refine ⟨[], ?_, ?_, .nil, by simp⟩
    · rw [watched.aged]
      exact TailQueue.empty_holds
    · rw [watched.tSegq]
      exact .refl []
  · simp [Recent, watched.tSegq]
  · simp [watched.tSegq]
  · simp [InTime, watched.timer]
  · rw [watched.established]
    rfl

/-- In every run whose steps are sound, a queue that waits has its timer armed,
a due firing returns, and once no more segments come every queued segment is
delivered, preceded by its hole, by the tick after it is `TP_REASSDL` ticks old. -/
theorem waiting_queue_delivered (window : Nat) (small : window < 2 ^ 31)
    (start reached : AgeState) (steps : List TimerStep) (watched : Watched start)
    (run : Run (fun state step next => TimerMove window state step next ∧ step.Sound state) start
      steps reached) :
    (∀ q rest, reached.tp.tSegq = q :: rest → q.tqeSeq ≠ reached.tp.rcvNxt →
      tcpTimerActive reached.tp = true) ∧
    (∀ due, reached.tp.ttReassdl = some due → due < reached.clock →
      ∃ tp, tcpTimerReassdl reached.tp reached.clock = some tp) ∧
    ∀ quiet later, Run (fun state step next => TimerMove window state step next ∧
        step.Sound state ∧ step.Quiet state) reached quiet later →
      reached.clock + 1 < later.clock →
      (∀ due, later.tp.ttReassdl = some due → later.clock ≤ due) →
      ∃ delivered, reached.tp.tSegq = delivered ++ later.tp.tSegq ∧
        later.tp.received = delivered.foldl Received.deliver reached.tp.received ∧
        ∀ q ∈ reached.tp.tSegq, dueAt reached.tp q.addr < later.clock → q ∈ delivered := by
  have invariant : TimerInv start.tp reached :=
    Run.invariant _ watched.timerInv
      (fun state step next invariant moved =>
        invariant.step small state step next moved.1 moved.2) run
  refine ⟨?_, ?_, ?_⟩
  · intro q rest queue _
    exact invariant.timed.armed (by simp [queue])
  · intro due _ _
    obtain ⟨final, returned, _⟩ := fire_returns reached.clock invariant.lined
    exact ⟨final, returned⟩
  · intro quiet later run passed settled
    obtain ⟨delivered, since⟩ : ∃ delivered,
        QuietSince start.tp reached later delivered :=
      Run.invariant (fun state => ∃ delivered,
          QuietSince start.tp reached state delivered)
        ⟨[], invariant, rfl, rfl, rfl, rfl, invariant.timed.inTime⟩
        (fun state step next since moved =>
          QuietSince.step reached state step next since moved.1 moved.2.1 moved.2.2) run
    refine ⟨delivered, since.split, since.received, ?_⟩
    intro q member late
    rw [since.split, List.mem_append] at member
    refine member.resolve_right fun waiting => ?_
    have armed := since.invariant.timed.armed (List.ne_nil_of_mem waiting)
    rw [tcpTimerActive, Option.isSome_iff_exists] at armed
    obtain ⟨due, found⟩ := armed
    have bound := since.inTime due found q waiting
    have ahead := settled due found
    rw [dueAt, since.memory, since.settings, ← dueAt] at bound
    omega

end Runs

def shortDeadline : AgeState :=
  ⟨{ quietTcpcb .established true 0 with tcpReassdl := 3 }, 0⟩

theorem waiting_queue_delivered_single :
    ∃ reached later,
      Run (fun state step next => TimerMove 100 state step next ∧ step.Sound state) shortDeadline
        [.segment 10 ⟨10, 0, 2, [1, 2]⟩ (roomyEnv 0 (some 0))] reached ∧
      Run (fun state step next => TimerMove 100 state step next ∧ step.Sound state ∧
        step.Quiet state) reached [.tick, .tick, .tick, .tick, .fire] later ∧
      later.tp.soRcv = [.hole 10, .data [1, 2]] ∧
      ∃ delivered, reached.tp.tSegq = delivered ++ later.tp.tSegq ∧
        later.tp.received = delivered.foldl Received.deliver reached.tp.received ∧
        ∀ q ∈ reached.tp.tSegq, dueAt reached.tp q.addr < later.clock → q ∈ delivered := by
  have runs : ∃ reached later,
      Run (fun state step next => TimerMove 100 state step next ∧ step.Sound state) shortDeadline
        [.segment 10 ⟨10, 0, 2, [1, 2]⟩ (roomyEnv 0 (some 0))] reached ∧
      Run (fun state step next => TimerMove 100 state step next ∧ step.Sound state ∧
        step.Quiet state) reached [.tick, .tick, .tick, .tick, .fire] later ∧
      later.tp.soRcv = [.hole 10, .data [1, 2]] ∧ reached.clock + 1 < later.clock ∧
      later.tp.ttReassdl = none := by
    refine ⟨_, _, Run.snoc Run.nil ⟨⟨rfl, rfl, rfl, by decide, ?_, _, rfl, rfl⟩, ?_, ?_⟩,
      Run.snoc (Run.snoc (Run.snoc (Run.snoc (Run.snoc Run.nil
        ⟨rfl, ?_, ?_⟩) ⟨rfl, ?_, ?_⟩) ⟨rfl, ?_, ?_⟩) ⟨rfl, ?_, ?_⟩)
        ⟨⟨3, rfl, by decide, _, rfl, rfl⟩, ?_, trivial⟩, rfl, by decide, rfl⟩
    · rintro index ⟨⟩
      decide
    · rintro _ _ ⟨q, rest, behind, _⟩
      cases behind
    · rintro ⟨exhausted, _⟩
      cases exhausted
    · exact fun _ => ⟨_, List.mem_cons_self, rfl⟩
    all_goals
      first
      | intro q member
        obtain rfl := List.mem_singleton.mp member
        decide
      | rintro due ⟨⟩
        decide
  obtain ⟨reached, later, run, quiet, bytes, passed, stopped⟩ := runs
  refine ⟨reached, later, run, quiet, bytes, ?_⟩
  exact (waiting_queue_delivered 100 (by decide) shortDeadline reached _
    ⟨⟨rfl, rfl, rfl⟩, rfl, rfl, rfl, rfl⟩ run).2.2 _ later quiet passed (by simp [stopped])

theorem timer_lost_with_entry_waiting :
    ∃ reached, Run (TimerMove 100) shortDeadline
        [.segment 10 ⟨10, 0, 2, [1, 2]⟩ (roomyEnv 0 (some 0)), .tick, .tick,
          .segment 20 ⟨20, 0, 1, [3]⟩ (roomyEnv 2 (some 1)),
          .segment 0 ⟨0, 0, 10, List.replicate 10 0⟩ (roomyEnv 2 (some 2)), .tick, .tick,
          .fire] reached ∧
      (∃ q rest, reached.tp.tSegq = q :: rest ∧ seqGt q.tqeSeq reached.tp.rcvNxt = true) ∧
      tcpTimerActive reached.tp = false := by
  refine ⟨_, Run.snoc (Run.snoc (Run.snoc (Run.snoc (Run.snoc (Run.snoc (Run.snoc (Run.snoc Run.nil
    ⟨rfl, rfl, rfl, by decide, ?_, _, rfl, rfl⟩) rfl) rfl)
    ⟨rfl, rfl, rfl, by decide, ?_, _, rfl, rfl⟩)
    ⟨rfl, rfl, rfl, by decide, ?_, _, rfl, rfl⟩) rfl) rfl) ⟨3, rfl, by decide, _, rfl, rfl⟩,
    ⟨_, _, rfl, by decide⟩, rfl⟩
  · rintro index ⟨⟩
    decide
  · rintro index ⟨⟩
    decide
  · rintro index ⟨⟩
    decide

end Libunsod.Netinet
