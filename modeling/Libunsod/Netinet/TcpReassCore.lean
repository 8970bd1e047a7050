import Libunsod.Base.TailQueue

/-!
The TCP reassembly queue of one connection: `tcp_reass`, `tcp_reass_deliver_holes`,
`tcp_reass_flush` and the deadline timer, built with `PASSIVE_INET` and without
`INVARIANTS`, so a failed `KASSERT` goes on.

Sequence numbers are 32-bit words, and a difference that the source converts to
`int` is read as signed. The tick counter is kept unwrapped and cut to 32 bits
where the source subtracts it. A NULL dereference and a `panic` are the result
`none`.
-/

namespace Libunsod.Netinet

open TailQueue (Queue)

inductive TcpState where
  | closed
  | listen
  | synSent
  | synReceived
  | established
  | closeWait
  | finWait1
  | closing
  | lastAck
  | finWait2
  | timeWait
  deriving DecidableEq

def TcpState.number : TcpState → Nat
  | .closed => 0
  | .listen => 1
  | .synSent => 2
  | .synReceived => 3
  | .established => 4
  | .closeWait => 5
  | .finWait1 => 6
  | .closing => 7
  | .lastAck => 8
  | .finWait2 => 9
  | .timeWait => 10

def tcpsHaveEstablished (state : TcpState) : Bool :=
  TcpState.established.number ≤ state.number

abbrev Seq := BitVec 32

def seqGt (left right : Seq) : Bool :=
  0 < (left - right).toInt

def thFin : BitVec 8 := 0x01

inductive Entry where
  | tqs
  | zone (index : Nat)
  deriving DecidableEq

structure TsegQent where
  addr : Entry
  tqeSeq : Seq
  tqeLen : Nat
  tqeFlags : BitVec 8
  tqeM : List UInt8
  deriving DecidableEq

structure Segment where
  thSeq : Seq
  thFlags : BitVec 8
  tlen : Nat
  m : List UInt8
  deriving DecidableEq

inductive Appended where
  | data (bytes : List UInt8)
  | hole (size : Int)
  deriving DecidableEq

inductive ZoneOp where
  | zalloc (entry : Entry)
  | zfree (entry : Entry)
  deriving DecidableEq

structure Tcpcb where
  tState : TcpState
  passive : Bool
  rcvNxt : Seq
  tSegq : List TsegQent
  tSegqlen : Int
  tSegageq : Queue Entry
  tqeTicks : Entry → Nat
  tReassdl : BitVec 32
  tcpReassdl : BitVec 32
  ttReassdl : Option Nat
  soRcv : List Appended
  cantrcvmore : Bool
  zone : List ZoneOp

structure ReassEnv where
  ticks : Nat
  zalloc : Option Nat
  sbHiwat : BitVec 32
  tMaxseg : BitVec 32

def umaZfree (tp : Tcpcb) (entry : Entry) : Tcpcb :=
  { tp with zone := .zfree entry :: tp.zone }

def sbappendstream (tp : Tcpcb) (appended : Appended) : Tcpcb :=
  { tp with soRcv := tp.soRcv ++ [appended] }

def sbappendData (tp : Tcpcb) (bytes : List UInt8) : Tcpcb :=
  if tp.cantrcvmore then tp else sbappendstream tp (.data bytes)

def tcpReassFlushLoop : List TsegQent → Tcpcb → Tcpcb
  | [], tp => tp
  | qe :: rest, tp =>
      tcpReassFlushLoop rest
        (umaZfree { tp with tSegq := rest, tSegqlen := tp.tSegqlen - 1 } qe.addr)

def tcpReassFlush (tp : Tcpcb) : Tcpcb :=
  tcpReassFlushLoop tp.tSegq tp

def tpReassdl (tp : Tcpcb) : BitVec 32 :=
  if tp.tReassdl ≠ 0 then tp.tReassdl else tp.tcpReassdl

def ticksSince (tp : Tcpcb) (ticks : Nat) (entry : Entry) : BitVec 32 :=
  BitVec.ofNat 32 ticks - BitVec.ofNat 32 (tp.tqeTicks entry)

def expired (tp : Tcpcb) (ticks : Nat) (entry : Entry) : Bool :=
  tpReassdl tp ≤ ticksSince tp ticks entry

def tcpReassNextHoleDeadline (tp : Tcpcb) (ticks : Nat) : BitVec 32 :=
  match tp.tSegageq.first with
  | some q => if expired tp ticks q then 1 else tpReassdl tp - ticksSince tp ticks q
  | none => 0

def calloutTicks (delta : BitVec 32) : Nat :=
  if delta.toInt ≤ 0 then 1 else delta.toNat

def tcpTimerActivate (tp : Tcpcb) (ticks : Nat) (delta : BitVec 32) : Tcpcb :=
  { tp with ttReassdl := if delta = 0 then none else some (ticks + calloutTicks delta) }

def tcpTimerActive (tp : Tcpcb) : Bool :=
  tp.ttReassdl.isSome

def finReceived : TcpState → TcpState
  | .synReceived => .closeWait
  | .established => .closeWait
  | .finWait1 => .closing
  | state => state

def furthestExpired (tp : Tcpcb) (ticks : Nat) : Option Entry :=
  tp.tSegq.foldl (fun p q => if expired tp ticks q.addr then some q.addr else p) none

def appendHole (tp : Tcpcb) (q : TsegQent) : Option Tcpcb :=
  if tp.cantrcvmore then some tp
  else
    let holeSize := (q.tqeSeq - tp.rcvNxt).toInt
    if holeSize = 0 then some tp
    else if holeSize < 0 then none
    else some (sbappendstream tp (.hole holeSize))

def deliverHole (tp : Tcpcb) (q : TsegQent) (rest : List TsegQent) : Tcpcb :=
  let unlinked := { tp with
    rcvNxt := q.tqeSeq + BitVec.ofNat 32 q.tqeLen
    tSegq := rest
    tSegageq := tp.tSegageq.remove q.addr }
  let appended := sbappendData unlinked q.tqeM
  let closed := if q.tqeFlags &&& thFin ≠ 0 then
      { appended with
        cantrcvmore := true
        rcvNxt := appended.rcvNxt + 1
        tState := finReceived appended.tState }
    else appended
  umaZfree { closed with tSegqlen := closed.tSegqlen - 1 } q.addr

def deliverHolesLoop (p : Entry) : List TsegQent → Bool → Tcpcb → Option Tcpcb
  | [], _, tp => some tp
  | q :: rest, contiguous, tp =>
      if contiguous ∧ q.tqeSeq ≠ tp.rcvNxt then some tp
      else do
        let filled ← appendHole tp q
        deliverHolesLoop p rest (contiguous || q.addr = p) (deliverHole filled q rest)

def tcpReassDeliverHoles (tp : Tcpcb) (ticks : Nat) : Option Tcpcb :=
  match furthestExpired tp ticks with
  | none => some tp
  | some p => do
      let delivered ← deliverHolesLoop p tp.tSegq false tp
      some (tcpTimerActivate delivered ticks (tcpReassNextHoleDeadline delivered ticks))

def tcpTimerReassdl (tp : Tcpcb) (ticks : Nat) : Option Tcpcb :=
  tcpReassDeliverHoles { tp with ttReassdl := none } ticks

def notNext (tp : Tcpcb) (seg : Segment) : Bool :=
  seg.thSeq ≠ tp.rcvNxt || !tcpsHaveEstablished tp.tState

def queueLimitReached (tp : Tcpcb) (env : ReassEnv) (seg : Segment) : Bool :=
  notNext tp seg && env.sbHiwat / env.tMaxseg + 1 ≤ BitVec.ofInt 32 tp.tSegqlen

def chooseEntry (tp : Tcpcb) (env : ReassEnv) (seg : Segment) : Option (Entry × Bool) :=
  if queueLimitReached tp env seg && !tp.passive then none
  else match env.zalloc with
    | some index => some (.zone index, queueLimitReached tp env seg)
    | none =>
        if notNext tp seg && !tp.passive then none
        else some (.tqs, queueLimitReached tp env seg || notNext tp seg)

def umaZalloc (tp : Tcpcb) (te : Entry) : Tcpcb :=
  if te = .tqs then tp else { tp with zone := .zalloc te :: tp.zone }

def notAfter (seg : Segment) (q : TsegQent) : Bool :=
  !seqGt q.tqeSeq seg.thSeq

def entriesUpTo (tp : Tcpcb) (seg : Segment) : List TsegQent :=
  tp.tSegq.takeWhile (notAfter seg)

def entriesAfter (tp : Tcpcb) (seg : Segment) : List TsegQent :=
  tp.tSegq.dropWhile (notAfter seg)

def trimSegment (p : Option TsegQent) (seg : Segment) : Option Segment :=
  match p with
  | none => some seg
  | some p =>
      let i := (p.tqeSeq + BitVec.ofNat 32 p.tqeLen - seg.thSeq).toInt
      if 0 < i then
        if seg.tlen ≤ i then none
        else some { seg with
          thSeq := seg.thSeq + BitVec.ofInt 32 i
          tlen := seg.tlen - i.toNat
          m := seg.m.drop i.toNat }
      else some seg

def trimEntry (q : TsegQent) (i : Nat) : TsegQent :=
  { q with
    tqeSeq := q.tqeSeq + BitVec.ofNat 32 i
    tqeLen := q.tqeLen - i
    tqeM := q.tqeM.drop i }

def segmentEnd (seg : Segment) : Seq :=
  seg.thSeq + BitVec.ofNat 32 seg.tlen

def trimFollowing (stop : Seq) : List TsegQent → List TsegQent × List TsegQent
  | [] => ([], [])
  | q :: rest =>
      let i := (stop - q.tqeSeq).toInt
      if i ≤ 0 then ([], q :: rest)
      else if i < q.tqeLen then ([], trimEntry q i.toNat :: rest)
      else
        let (covered, kept) := trimFollowing stop rest
        (q :: covered, kept)

def dequeueCovered (tp : Tcpcb) (covered : List TsegQent) : Tcpcb :=
  covered.foldl (fun tp q => umaZfree { tp with tSegqlen := tp.tSegqlen - 1 } q.addr) tp

def insertEntry (tp : Tcpcb) (ticks : Nat) (te : Entry) (seg : Segment)
    (before kept : List TsegQent) : Tcpcb :=
  { tp with
    tSegq := before ++ ⟨te, seg.thSeq, seg.tlen, seg.thFlags, seg.m⟩ :: kept
    tSegageq := tp.tSegageq.insertTail te
    tqeTicks := fun entry => if entry = te then ticks else tp.tqeTicks entry }

structure Presenting where
  tp : Tcpcb
  replaceTqsInList : Bool
  reclaimedTqe : Option Entry

def presentOne (state : Presenting) (q : TsegQent) (rest : List TsegQent) : Presenting :=
  let unlinked := { state.tp with
    rcvNxt := state.tp.rcvNxt + BitVec.ofNat 32 q.tqeLen
    tSegq := rest
    tSegageq := state.tp.tSegageq.remove q.addr
    tSegqlen := state.tp.tSegqlen - 1 }
  let appended := sbappendData unlinked q.tqeM
  if q.addr = .tqs then { state with tp := appended, replaceTqsInList := false }
  else if state.replaceTqsInList ∧ state.reclaimedTqe = none then
    { state with tp := appended, reclaimedTqe := some q.addr }
  else { state with tp := umaZfree appended q.addr }

def presentLoop (state : Presenting) (q : TsegQent) :
    List TsegQent → Presenting × BitVec 8
  | [] => (presentOne state q [], q.tqeFlags &&& thFin)
  | nq :: rest =>
      let presented := presentOne state q (nq :: rest)
      if nq.tqeSeq = presented.tp.rcvNxt then presentLoop presented nq rest
      else (presented, q.tqeFlags &&& thFin)

def replaceTqs (state : Presenting) : Option Tcpcb :=
  if state.replaceTqsInList then
    match state.reclaimedTqe with
    | none => none
    | some reclaimed => some { state.tp with
        tSegq := state.tp.tSegq.map fun q =>
          if q.addr = .tqs then { q with addr := reclaimed } else q
        tSegageq := (state.tp.tSegageq.insertAfter .tqs reclaimed).remove .tqs
        tqeTicks := fun entry =>
          if entry = reclaimed then state.tp.tqeTicks .tqs else state.tp.tqeTicks entry }
  else some state.tp

def deliverLeading (tp : Tcpcb) (q : TsegQent) : Tcpcb :=
  let holed := if tp.cantrcvmore then tp
    else sbappendstream tp (.hole (q.tqeSeq - tp.rcvNxt).toInt)
  { holed with rcvNxt := q.tqeSeq }

def rearm (tp : Tcpcb) (ticks : Nat) : Tcpcb :=
  let nextDeadline := tcpReassNextHoleDeadline tp ticks
  if !tcpTimerActive tp || nextDeadline = 0 then tcpTimerActivate tp ticks nextDeadline else tp

def presentRun (tp : Tcpcb) (ticks : Nat) (replaceTqsInList : Bool) (q : TsegQent)
    (rest : List TsegQent) : Option (Tcpcb × BitVec 8) :=
  let presented := presentLoop ⟨tp, replaceTqsInList, none⟩ q rest
  (replaceTqs presented.1).map fun replaced => (rearm replaced ticks, presented.2)

def present (tp : Tcpcb) (ticks : Nat) (deliverLeadingHole replaceTqsInList : Bool) :
    Option (Tcpcb × BitVec 8) :=
  if !tcpsHaveEstablished tp.tState then some (tp, 0)
  else match tp.tSegq with
    | [] => some (tp, 0)
    | q :: rest =>
        if q.tqeSeq ≠ tp.rcvNxt ∧ !deliverLeadingHole then
          some (if tp.passive then
            tcpTimerActivate tp ticks (tcpReassNextHoleDeadline tp ticks) else tp, 0)
        else
          presentRun (if deliverLeadingHole then deliverLeading tp q else tp) ticks
            replaceTqsInList q rest

structure Reassembled where
  tp : Tcpcb
  flags : BitVec 8
  tlen : Nat

def enqueue (tp : Tcpcb) (ticks : Nat) (seg : Segment) (te : Entry) : Option (Tcpcb × Nat) :=
  let counted := { tp with tSegqlen := tp.tSegqlen + 1 }
  let before := entriesUpTo tp seg
  match trimSegment before.getLast? seg with
  | none => none
  | some trimmed =>
      let (covered, kept) := trimFollowing (segmentEnd trimmed) (entriesAfter tp seg)
      some (insertEntry (dequeueCovered counted covered) ticks te trimmed before kept,
        trimmed.tlen)

def releaseDuplicate (tp : Tcpcb) (te : Entry) : Tcpcb :=
  if te = .tqs then tp else umaZfree tp te

def tcpReass (tp : Tcpcb) (seg : Option Segment) (env : ReassEnv) : Option Reassembled :=
  match seg with
  | none => do
      let (presented, flags) ← present tp env.ticks false false
      some ⟨presented, flags, 0⟩
  | some seg =>
      match chooseEntry tp env seg with
      | none => some ⟨tp, 0, 0⟩
      | some (te, deliverLeadingHole) =>
          let obtained := umaZalloc tp te
          match enqueue obtained env.ticks seg te with
          | none => do
              let (presented, flags) ←
                present (releaseDuplicate obtained te) env.ticks deliverLeadingHole false
              some ⟨presented, flags, seg.tlen⟩
          | some (queued, tlen) => do
              let replace := !(entriesUpTo tp seg).isEmpty && tp.passive && te = .tqs
              let (presented, flags) ← present queued env.ticks deliverLeadingHole replace
              some ⟨presented, flags, tlen⟩

end Libunsod.Netinet
