import Libunsod.Netinet.TcpReassCalls

/-!
What the receiver gets from `tcp_reass_deliver_holes`, entry by entry, and the
rule by which the call returns: no entry it comes to lies in front of `rcv_nxt`.
-/

namespace Libunsod.Netinet

variable {tp final : Tcpcb} {q : TsegQent} {p : Entry} {queue : List TsegQent} {ticks : Nat}

structure Received where
  rcvNxt : Seq
  cantrcvmore : Bool
  soRcv : List Appended

def Tcpcb.received (tp : Tcpcb) : Received :=
  ⟨tp.rcvNxt, tp.cantrcvmore, tp.soRcv⟩

def holeBefore (received : Received) (q : TsegQent) : List Appended :=
  if (q.tqeSeq - received.rcvNxt).toInt = 0 then []
  else [.hole (q.tqeSeq - received.rcvNxt).toInt]

def Received.deliver (received : Received) (q : TsegQent) : Received where
  rcvNxt := if q.tqeFlags &&& thFin ≠ 0 then entryEnd q + 1 else entryEnd q
  cantrcvmore := if q.tqeFlags &&& thFin ≠ 0 then true else received.cantrcvmore
  soRcv := if received.cantrcvmore then received.soRcv
    else received.soRcv ++ holeBefore received q ++ [.data q.tqeM]

def Tcpcb.delivered (tp : Tcpcb) (q : TsegQent) (rest : List TsegQent) : Tcpcb :=
  { tp with
    rcvNxt := (tp.received.deliver q).rcvNxt
    cantrcvmore := (tp.received.deliver q).cantrcvmore
    soRcv := (tp.received.deliver q).soRcv
    tState := if q.tqeFlags &&& thFin ≠ 0 then finReceived tp.tState else tp.tState
    tSegq := rest
    tSegqlen := tp.tSegqlen - 1
    tSegageq := tp.tSegageq.remove q.addr
    zone := .zfree q.addr :: tp.zone }

theorem appendHole_eq {filled : Tcpcb} (appended : appendHole tp q = some filled) :
    filled = { tp with soRcv := if tp.cantrcvmore then tp.soRcv
      else tp.soRcv ++ holeBefore tp.received q } := by
  simp only [appendHole] at appended
  split at appended
  next shut =>
    cases appended
    rw [if_pos shut]
  next receives =>
    rw [if_neg receives, holeBefore, Tcpcb.received]
    split at appended
    next zero =>
      cases appended
      rw [if_pos zero, List.append_nil]
    next positive =>
      rw [if_neg positive]
      split at appended
      · cases appended
      · cases appended
        rfl

theorem deliverHole_eq {filled : Tcpcb} (rest : List TsegQent)
    (appended : appendHole tp q = some filled) : deliverHole filled q rest = tp.delivered q rest := by
  rw [appendHole_eq appended]
  simp only [deliverHole, sbappendData_eq, umaZfree, Tcpcb.delivered, Received.deliver,
    Tcpcb.received, entryEnd]
  by_cases fin : q.tqeFlags &&& thFin = 0 <;> by_cases shut : tp.cantrcvmore = true <;>
    simp only [fin, shut, ne_eq, not_true_eq_false, not_false_eq_true, Bool.false_eq_true,
      ↓reduceIte]

theorem deliverHolesLoop_invariant (holds : Tcpcb → List TsegQent → Prop)
    (step : ∀ tp q rest, holds tp (q :: rest) → holds (tp.delivered q rest) rest)
    (contiguous : Bool) (tp : Tcpcb) (initial : holds tp queue)
    (result : deliverHolesLoop p queue contiguous tp = some final) :
    ∃ remaining, holds final remaining := by
  induction queue generalizing contiguous tp with
  | nil =>
    simp only [deliverHolesLoop, Option.some.injEq] at result
    exact ⟨[], result ▸ initial⟩
  | cons q rest ih =>
    simp only [deliverHolesLoop] at result
    split at result
    · simp only [Option.some.injEq] at result
      exact ⟨q :: rest, result ▸ initial⟩
    · simp only [Option.bind_eq_bind, Option.bind_eq_some_iff] at result
      obtain ⟨filled, appended, loop⟩ := result
      rw [deliverHole_eq rest appended] at loop
      exact ih _ _ (step tp q rest initial) loop

theorem tcpReassDeliverHoles_invariant (holds : Tcpcb → List TsegQent → Prop)
    (step : ∀ tp q rest, holds tp (q :: rest) → holds (tp.delivered q rest) rest)
    (timer : ∀ tp queue due, holds tp queue → holds { tp with ttReassdl := due } queue)
    (initial : holds tp tp.tSegq) (result : tcpReassDeliverHoles tp ticks = some final) :
    ∃ remaining, holds final remaining := by
  simp only [tcpReassDeliverHoles] at result
  split at result
  · cases result
    exact ⟨_, initial⟩
  · simp only [Option.bind_eq_bind, Option.bind_eq_some_iff, Option.some.injEq] at result
    obtain ⟨delivered, loop, rfl⟩ := result
    obtain ⟨remaining, kept⟩ := deliverHolesLoop_invariant holds step false tp initial loop
    exact ⟨remaining, timer delivered remaining _ kept⟩

structure SameTimer (before after : Tcpcb) : Prop where
  memory : after.tqeTicks = before.tqeTicks
  own : after.tReassdl = before.tReassdl
  shared : after.tcpReassdl = before.tcpReassdl

theorem finReceived_established {state : TcpState}
    (established : tcpsHaveEstablished state = true) :
    tcpsHaveEstablished (finReceived state) = true := by
  cases state with
  | synReceived => rfl
  | established => rfl
  | finWait1 => rfl
  | _ => exact established

theorem delivered_established {rest : List TsegQent}
    (established : tcpsHaveEstablished tp.tState = true) :
    tcpsHaveEstablished (tp.delivered q rest).tState = true := by
  simp only [Tcpcb.delivered]
  split
  · exact finReceived_established established
  · exact established

structure DeliveredFront (tp final : Tcpcb) (queue delivered : List TsegQent) : Prop where
  split : queue = delivered ++ final.tSegq
  received : final.received = delivered.foldl Received.deliver tp.received
  timer : SameTimer tp final
  passive : final.passive = tp.passive
  established : tcpsHaveEstablished tp.tState = true → tcpsHaveEstablished final.tState = true

theorem deliverHolesLoop_delivers (contiguous : Bool) (tp : Tcpcb) (listed : tp.tSegq = queue)
    (result : deliverHolesLoop p queue contiguous tp = some final) :
    ∃ delivered, DeliveredFront tp final queue delivered ∧
      (contiguous = false → p ∈ addrs queue → p ∈ addrs delivered) := by
  induction queue generalizing contiguous tp with
  | nil =>
    simp only [deliverHolesLoop, Option.some.injEq] at result
    subst result
    exact ⟨[], ⟨listed.symm, rfl, ⟨rfl, rfl, rfl⟩, rfl, id⟩, by simp⟩
  | cons q rest ih =>
    simp only [deliverHolesLoop] at result
    split at result
    next stops =>
      cases result
      refine ⟨[], ⟨listed.symm, rfl, ⟨rfl, rfl, rfl⟩, rfl, id⟩, ?_⟩
      intro searching
      simp [stops.1] at searching
    · simp only [Option.bind_eq_bind, Option.bind_eq_some_iff] at result
      obtain ⟨filled, appended, loop⟩ := result
      rw [deliverHole_eq rest appended] at loop
      obtain ⟨delivered, front, reaches⟩ := ih _ _ rfl loop
      refine ⟨q :: delivered, { front with
        split := by rw [List.cons_append, ← front.split]
        timer := { front.timer with }
        established := fun before => front.established (delivered_established before) }, ?_⟩
      intro searching member
      rcases List.mem_cons.mp member with same | later
      · rw [same]
        exact List.mem_cons_self
      · by_cases found : q.addr = p
        · rw [← found]
          exact List.mem_cons_self
        · refine List.mem_cons_of_mem _ (reaches ?_ later)
          simp [searching, found]

theorem foldl_last_skip (test : TsegQent → Bool) (queue : List TsegQent) (last : Option Entry)
    (none : ∀ q ∈ queue, test q = false) :
    queue.foldl (fun p q => if test q then some q.addr else p) last = last := by
  induction queue generalizing last with
  | nil => rfl
  | cons q rest ih =>
    simp only [List.foldl_cons, none q List.mem_cons_self, Bool.false_eq_true, ↓reduceIte]
    exact ih last fun other member => none other (List.mem_cons_of_mem _ member)

theorem foldl_last_mem (test : TsegQent → Bool) (queue : List TsegQent) (last : Option Entry)
    (some_ : ∃ q ∈ queue, test q = true) :
    ∃ entry ∈ addrs queue,
      queue.foldl (fun p q => if test q then some q.addr else p) last = some entry := by
  induction queue generalizing last with
  | nil => simp at some_
  | cons q rest ih =>
    simp only [List.foldl_cons]
    by_cases later : ∃ other ∈ rest, test other = true
    · obtain ⟨entry, member, found⟩ := ih (if test q then some q.addr else last) later
      exact ⟨entry, List.mem_cons_of_mem _ member, found⟩
    · have skip : ∀ other ∈ rest, test other = false := by
        intro other member
        by_contra passes
        exact later ⟨other, member, by simpa using passes⟩
      obtain ⟨other, member, passes⟩ := some_
      rcases List.mem_cons.mp member with rfl | inside
      · refine ⟨other.addr, List.mem_cons_self, ?_⟩
        rw [foldl_last_skip test rest _ skip, if_pos passes]
      · exact absurd ⟨other, inside, passes⟩ later

theorem furthestExpired_eq_none_iff (tp : Tcpcb) (ticks : Nat) :
    furthestExpired tp ticks = none ↔ ∀ q ∈ tp.tSegq, expired tp ticks q.addr = false := by
  constructor
  · intro nothing q member
    by_contra passes
    obtain ⟨entry, _, found⟩ := foldl_last_mem (fun q => expired tp ticks q.addr) tp.tSegq none
      ⟨q, member, by simpa using passes⟩
    rw [furthestExpired] at nothing
    rw [nothing] at found
    simp at found
  · exact foldl_last_skip (fun q => expired tp ticks q.addr) tp.tSegq none

theorem furthestExpired_reaches {delivered remaining : List TsegQent}
    (distinct : (addrs tp.tSegq).Nodup) (furthest : furthestExpired tp ticks = some p)
    (split : tp.tSegq = delivered ++ remaining) (reached : p ∈ addrs delivered) :
    ∀ q ∈ remaining, expired tp ticks q.addr = false := by
  intro q member
  by_contra passes
  rw [furthestExpired, split, List.foldl_append] at furthest
  obtain ⟨entry, inside, found⟩ := foldl_last_mem (fun q => expired tp ticks q.addr) remaining
    (delivered.foldl (fun p q => if expired tp ticks q.addr then some q.addr else p) none)
    ⟨q, member, by simpa using passes⟩
  rw [furthest, Option.some.injEq] at found
  rw [split, addrs_append, List.nodup_append] at distinct
  exact distinct.2.2 p reached entry inside found

theorem furthestExpired_member (furthest : furthestExpired tp ticks = some p) :
    p ∈ addrs tp.tSegq := by
  have some_ : ∃ q ∈ tp.tSegq, expired tp ticks q.addr = true := by
    by_contra nothing
    have all : ∀ q ∈ tp.tSegq, expired tp ticks q.addr = false := by
      intro q member
      by_contra passes
      exact nothing ⟨q, member, by simpa using passes⟩
    rw [(furthestExpired_eq_none_iff tp ticks).mpr all] at furthest
    simp at furthest
  obtain ⟨entry, inside, found⟩ :=
    foldl_last_mem (fun q => expired tp ticks q.addr) tp.tSegq none some_
  rw [furthestExpired] at furthest
  rw [furthest, Option.some.injEq] at found
  rw [found]
  exact inside

theorem deliverHolesLoop_total (holds : Tcpcb → List TsegQent → Prop)
    (size : ∀ tp q rest, holds tp (q :: rest) → tp.cantrcvmore = false →
      0 ≤ (q.tqeSeq - tp.rcvNxt).toInt)
    (step : ∀ tp q rest, holds tp (q :: rest) → holds (tp.delivered q rest) rest)
    (p : Entry) (queue : List TsegQent) (contiguous : Bool) (tp : Tcpcb) (initial : holds tp queue) :
    ∃ final, deliverHolesLoop p queue contiguous tp = some final ∧
      ∃ remaining, holds final remaining ∧
        ∀ q rest, remaining = q :: rest → q.tqeSeq ≠ final.rcvNxt := by
  induction queue generalizing contiguous tp with
  | nil => exact ⟨tp, rfl, [], initial, by rintro q rest ⟨⟩⟩
  | cons q rest ih =>
    simp only [deliverHolesLoop]
    split
    next stops =>
      refine ⟨tp, rfl, q :: rest, initial, ?_⟩
      rintro other others ⟨⟩
      exact stops.2
    · have filled : ∃ filled, appendHole tp q = some filled := by
        simp only [appendHole]
        split
        · exact ⟨_, rfl⟩
        next open_ =>
          have natural := size tp q rest initial (by simpa using open_)
          split
          · exact ⟨_, rfl⟩
          · exact ⟨_, if_neg (Int.not_lt.mpr natural)⟩
      obtain ⟨filled, appended⟩ := filled
      simp only [appended, Option.bind_eq_bind, Option.bind_some, deliverHole_eq rest appended]
      exact ih _ _ (step tp q rest initial)

theorem tcpReassDeliverHoles_shut (tp : Tcpcb) (ticks : Nat) (shut : tp.cantrcvmore = true) :
    ∃ final, tcpReassDeliverHoles tp ticks = some final ∧ final.cantrcvmore = true ∧
      final.soRcv = tp.soRcv := by
  simp only [tcpReassDeliverHoles]
  cases furthestExpired tp ticks with
  | none => exact ⟨tp, rfl, shut, rfl⟩
  | some p =>
    obtain ⟨final, result, _, ⟨stays, kept⟩, _⟩ := deliverHolesLoop_total
      (fun moved _ => moved.cantrcvmore = true ∧ moved.soRcv = tp.soRcv)
      (by
        rintro moved q rest ⟨stays, _⟩ open_
        rw [stays] at open_
        cases open_)
      (by
        rintro moved q rest ⟨stays, kept⟩
        simp only [Tcpcb.delivered, Received.deliver, Tcpcb.received, stays, ite_self, ↓reduceIte]
        exact ⟨trivial, kept⟩)
      p tp.tSegq false tp ⟨shut, rfl⟩
    simp only [result, Option.bind_eq_bind, Option.bind_some]
    exact ⟨_, rfl, stays, kept⟩

end Libunsod.Netinet
