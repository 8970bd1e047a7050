import Libunsod.Kern.Soreceive

/-!
`soreceive_generic` of `uipc_socket.c` for stream sockets, without out-of-band data and without
`MSG_WAITALL`. The uio is in system space. A call with `MSG_HOLE_BREAK` ends at the first boundary
between data and a hole. An empty mbuf is such a boundary too: the code looks at the flags of the
mbufs and not at their bytes.
-/

namespace Libunsod.Kern

open Udsock

variable {copies : Nat}

variable {moves : Nat}

structure GenericFlags where
  peek : Bool
  dontwait : Bool
  nbio : Bool
  eor : Bool
  holeBreak : Bool

def GenericFlags.none : GenericFlags := ⟨false, false, false, false, false⟩

structure RcvMbuf where
  body : Mbuf
  eor : Bool

variable {mbufs : List RcvMbuf}

structure RcvBuf where
  mb : List RcvMbuf
  cc : Nat
  lowat : Nat
  cantRcvMore : Bool

variable {sb : RcvBuf}

structure GenericSocket where
  connected : Bool
  nbio : Bool
  error : Int
  rcv : RcvBuf

structure GenericCall where
  resid : Nat
  mp0 : Bool
  flagsp : Option GenericFlags
  copied : Nat → Bool
  moved : Nat → Int

structure GenericResult where
  error : Int
  socket : GenericSocket
  uio : Uio
  chain : List Mbuf
  flagsp : Option GenericFlags
  copies : Nat

variable {result : GenericResult}

inductive GenericOutcome where
  | returned (result : GenericResult)
  | waits
  | restarts

namespace GenericCall

def flags (call : GenericCall) : GenericFlags :=
  match call.flagsp with
  | some flags => { flags with eor := false, holeBreak := false }
  | none => .none

def holeBreak (call : GenericCall) : Bool :=
  match call.flagsp with
  | some flags => flags.holeBreak
  | none => false

end GenericCall

structure Progress where
  left : List RcvMbuf
  cc : Nat
  uio : Uio
  chain : List Mbuf
  eor : Bool
  error : Int
  copies : Nat
  moves : Nat

variable {after : Progress}

variable {done : Progress}

namespace Progress

def move (call : GenericCall) (progress : Progress) (m : RcvMbuf) (len : Nat) : Progress :=
  if call.mp0 then
    { progress with uio := { progress.uio with resid := progress.uio.resid - len } }
  else if call.moved progress.moves = 0 then
    { progress with
      uio := progress.uio.move (m.body.bytes.take len)
      moves := progress.moves + 1 }
  else { progress with error := call.moved progress.moves, moves := progress.moves + 1 }

def takeWhole (call : GenericCall) (progress : Progress) (m : RcvMbuf) (rest : List RcvMbuf) :
    Progress :=
  let marked := { progress with eor := progress.eor || m.eor }
  if call.flags.peek then marked
  else
    { marked with
      left := rest
      cc := progress.cc - m.body.len
      chain := if call.mp0 then progress.chain ++ [m.body] else progress.chain }

def takePart (call : GenericCall) (progress : Progress) (m : RcvMbuf) (rest : List RcvMbuf)
    (len : Nat) : Progress :=
  if call.flags.peek then progress
  else
    let trimmed := { progress with
      left := { m with body := m.body.trim len } :: rest
      cc := progress.cc - len }
    if call.mp0 then
      match mCopym2 (m.body :: rest.map RcvMbuf.body) len call.holeBreak
          (call.copied progress.copies) with
      | none =>
          { progress with
            uio := { progress.uio with resid := progress.uio.resid + len }
            copies := progress.copies + 1 }
      | some copy =>
          { trimmed with chain := progress.chain ++ copy, copies := progress.copies + 1 }
    else trimmed

end Progress

def receiveLoop (call : GenericCall) : List RcvMbuf → Bool → Progress → Progress
  | [], _, progress => progress
  | m :: rest, lastHole, progress =>
      if progress.uio.resid = 0 then progress
      else if call.holeBreak && (m.body.isHole != lastHole) then progress
      else
        let len := min progress.uio.resid m.body.len
        let moved := progress.move call m len
        if moved.error ≠ 0 then moved
        else if len = m.body.len then
          let taken := moved.takeWhole call m rest
          if taken.eor then taken else receiveLoop call rest m.body.isHole taken
        else moved.takePart call m rest len

def release (call : GenericCall) (so : GenericSocket) (error : Int) (copies : Nat) :
    GenericOutcome :=
  .returned ⟨error, so, ⟨call.resid, []⟩, [],
    call.flagsp.map fun flags => { flags with holeBreak := false }, copies⟩

def blocked (call : GenericCall) (so : GenericSocket) (copies : Nat) : Option GenericOutcome :=
  let flags := call.flags
  let sb := so.rcv
  if sb.mb.isEmpty ∨ (flags.dontwait = false ∧ sb.cc < call.resid ∧ sb.cc < sb.lowat) then
    if so.error ≠ 0 then
      if sb.mb.isEmpty then
        some (release call (if flags.peek then so else { so with error := 0 }) so.error copies)
      else none
    else if sb.cantRcvMore then
      if sb.mb.isEmpty then some (release call so 0 copies) else none
    else if sb.mb.any RcvMbuf.eor then none
    else if so.connected = false then some (release call so ErrName.enotconn.uinet copies)
    else if call.resid = 0 then some (release call so 0 copies)
    else if so.nbio ∨ flags.dontwait ∨ flags.nbio then
      some (release call so ErrName.eagain.uinet copies)
    else some .waits
  else none

def startLoop (call : GenericCall) (so : GenericSocket) (copies moves : Nat) : Progress :=
  receiveLoop call so.rcv.mb ((so.rcv.mb.head?.map (·.body.isHole)).getD false)
    ⟨so.rcv.mb, so.rcv.cc, ⟨call.resid, []⟩, [], false, 0, copies, moves⟩

def soreceiveGeneric (call : GenericCall) :
    Nat → GenericSocket → Bool → Nat → Nat → GenericOutcome
  | 0, _, _, _, _ => .restarts
  | fuel + 1, so, flagged, copies, moves =>
      match blocked call so copies with
      | some outcome => outcome
      | none =>
          let flagged := flagged ||
            (call.holeBreak && (so.rcv.mb.head?.map (·.body.isHole)).getD false)
          let done := startLoop call so copies moves
          let after := { so with rcv := { so.rcv with mb := done.left, cc := done.cc } }
          if done.error ≠ 0 then
            .returned ⟨done.error, after, done.uio, done.chain,
              call.flagsp.map fun flags => { flags with holeBreak := false }, done.copies⟩
          else if call.resid = done.uio.resid ∧ call.resid ≠ 0 ∧ done.eor = false ∧
              so.rcv.cantRcvMore = false then
            soreceiveGeneric call fuel after flagged done.copies done.moves
          else
            .returned ⟨0, after, done.uio, done.chain, call.flagsp.map fun flags =>
              { flags with holeBreak := flagged, eor := flags.eor || done.eor }, done.copies⟩

def bodiesOf (mbufs : List RcvMbuf) : List Mbuf := mbufs.map RcvMbuf.body

def RcvBuf.cells (sb : RcvBuf) : List Cell := cellsOf (bodiesOf sb.mb)

def kindRun (kind : Bool) (cells : List Cell) : List Cell :=
  cells.takeWhile fun cell => cell.isHole == kind

section Runs

variable {kind : Bool} {m : Mbuf} {rest : List Cell}

end Runs

structure Took (call : GenericCall) (mbufs : List RcvMbuf) (before after : Progress)
    (count : Nat) : Prop where
  within : count ≤ before.uio.resid
  resid : after.uio.resid = before.uio.resid - count
  out : after.uio.out = before.uio.out ++
    if call.mp0 then [] else ((cellsOf (bodiesOf mbufs)).take count).map Cell.byte
  chain : call.flags.peek = false → cellsOf after.chain = cellsOf before.chain ++
    if call.mp0 then (cellsOf (bodiesOf mbufs)).take count else []
  left : if call.flags.peek then after.left = before.left
    else cellsOf (bodiesOf after.left) = (cellsOf (bodiesOf mbufs)).drop count
  cc : after.cc = before.cc - if call.flags.peek then 0 else count
  eor : after.eor = false
  nothing : count = 0 → after.left = before.left
  copies : before.copies ≤ after.copies

section Loop

variable {call : GenericCall} {m : RcvMbuf} {rest : List RcvMbuf} {before : Progress}

theorem bodiesOf_cons (m : RcvMbuf) (rest : List RcvMbuf) :
    bodiesOf (m :: rest) = m.body :: bodiesOf rest :=
  rfl

theorem Took.stop (noEor : before.eor = false)
    (own : call.flags.peek = false → before.left = mbufs) : Took call mbufs before before 0 := by
  constructor
  · exact Nat.zero_le _
  · rfl
  · cases call.mp0 <;> simp
  · intro _
    cases call.mp0 <;> simp
  · cases peek : call.flags.peek with
    | true => simp
    | false => simp [own peek]
  · cases call.flags.peek <;> simp
  · exact noEor
  · exact fun _ => rfl
  · exact Nat.le_refl _

theorem Took.whole {middle : Progress} {count : Nat} (fits : m.body.len ≤ before.uio.resid)
    (some_ : 0 < m.body.len) (resid : middle.uio.resid = before.uio.resid - m.body.len)
    (out : middle.uio.out = before.uio.out ++
      if call.mp0 then [] else m.body.cells.map Cell.byte) (chain : call.flags.peek = false →
      middle.chain = before.chain ++ if call.mp0 then [m.body] else [])
    (left : call.flags.peek = true → middle.left = before.left)
    (cc : middle.cc = before.cc - if call.flags.peek then 0 else m.body.len)
    (copies : middle.copies = before.copies) (took : Took call rest middle after count) :
    Took call (m :: rest) before after (m.body.len + count) := by
  have cells : cellsOf (bodiesOf (m :: rest)) = m.body.cells ++ cellsOf (bodiesOf rest) := rfl
  have length := m.body.cells_length
  have taken : (cellsOf (bodiesOf (m :: rest))).take (m.body.len + count) =
      m.body.cells ++ (cellsOf (bodiesOf rest)).take count := by
    rw [cells, ← length, List.take_length_add_append]
  have dropped : (cellsOf (bodiesOf (m :: rest))).drop (m.body.len + count) =
      (cellsOf (bodiesOf rest)).drop count := by
    rw [cells, ← length, List.drop_length_add_append]
  have within := took.within
  constructor
  · omega
  · rw [took.resid, resid]
    omega
  · rw [took.out, out, taken, List.append_assoc]
    cases call.mp0 <;> simp
  · intro removes
    rw [took.chain removes, chain removes, taken, cellsOf_append, List.append_assoc]
    cases call.mp0 <;> simp
  · have after_ := took.left
    cases peek : call.flags.peek with
    | true =>
      rw [peek, if_pos rfl] at after_
      rw [if_pos rfl, after_, left peek]
    | false =>
      rw [peek, if_neg Bool.false_ne_true] at after_
      rw [if_neg Bool.false_ne_true, after_, dropped]
  · rw [took.cc, cc]
    cases call.flags.peek with
    | true => rfl
    | false =>
      simp only [Bool.false_eq_true, if_false]
      omega
  · exact took.eor
  · intro zero
    omega
  · rw [← copies]
    exact took.copies

theorem Took.part (noEor : after.eor = false) (inside : before.uio.resid < m.body.len)
    (positive : 0 < before.uio.resid) (resid : after.uio.resid = 0)
    (out : after.uio.out = before.uio.out ++
      if call.mp0 then [] else (m.body.cells.take before.uio.resid).map Cell.byte)
    (chain : call.flags.peek = false → cellsOf after.chain = cellsOf before.chain ++
      if call.mp0 then m.body.cells.take before.uio.resid else [])
    (left : if call.flags.peek then after.left = before.left
      else after.left = { m with body := m.body.trim before.uio.resid } :: rest)
    (cc : after.cc = before.cc - if call.flags.peek then 0 else before.uio.resid)
    (copies : before.copies ≤ after.copies) :
    Took call (m :: rest) before after before.uio.resid := by
  have cells : cellsOf (bodiesOf (m :: rest)) = m.body.cells ++ cellsOf (bodiesOf rest) := rfl
  have length := m.body.cells_length
  have taken : (cellsOf (bodiesOf (m :: rest))).take before.uio.resid =
      m.body.cells.take before.uio.resid := by
    rw [cells, List.take_append_of_le_length (by omega)]
  have dropped : (cellsOf (bodiesOf (m :: rest))).drop before.uio.resid =
      m.body.cells.drop before.uio.resid ++ cellsOf (bodiesOf rest) := by
    rw [cells, List.drop_append_of_le_length (by omega)]
  constructor
  · exact Nat.le_refl _
  · omega
  · rw [out, taken]
  · intro removes
    rw [chain removes, taken]
  · cases peek : call.flags.peek with
    | true =>
      rw [peek] at left
      exact left
    | false =>
      rw [peek, if_neg Bool.false_ne_true] at left
      rw [if_neg Bool.false_ne_true, left, dropped, bodiesOf_cons, cellsOf_cons,
        Mbuf.cells_trim]
  · exact cc
  · exact noEor
  · intro zero
    omega
  · exact copies

end Loop

def RcvBuf.startsHole (sb : RcvBuf) : Bool := (sb.cells.head?.map Cell.isHole).getD false

structure Delivers (call : GenericCall) (flags : GenericFlags) (sb : RcvBuf)
    (result : GenericResult) (count : Nat) : Prop where
  within : count ≤ call.resid ∧ count ≤ sb.cells.length
  kind : ∀ cell ∈ sb.cells.take count, cell.isHole = sb.startsHole
  flagsp : result.flagsp = some { flags with holeBreak := sb.startsHole }
  out : call.mp0 = false → result.uio.out = (sb.cells.take count).map Cell.byte
  chain : call.mp0 = true → cellsOf result.chain = sb.cells.take count
  resid : result.uio.resid = call.resid - count
  cc : result.socket.rcv.cc = sb.cc - if flags.peek then 0 else count
  left : if flags.peek then result.socket.rcv.mb = sb.mb
    else result.socket.rcv.cells = sb.cells.drop count

section Prefix

variable {kind : Bool} {cells : List Cell} {count : Nat}

theorem take_kindRun (short : count ≤ (kindRun kind cells).length) :
    count ≤ cells.length ∧ ∀ cell ∈ cells.take count, cell.isHole = kind := by
  have leads : kindRun kind cells <+: cells := List.takeWhile_prefix _
  refine ⟨Nat.le_trans short leads.length_le, ?_⟩
  intro cell member
  obtain ⟨rest, split⟩ := leads
  rw [← split, List.take_append_of_le_length short] at member
  have own := List.mem_takeWhile_imp (List.mem_of_mem_take member)
  exact beq_iff_eq.mp own

end Prefix

section Call

variable {call : GenericCall} {so : GenericSocket} {flags : GenericFlags}

theorem Took.delivers {count : Nat} (given : call.flagsp = some flags)
    (passes : call.mp0 = true → flags.peek = false) (took : Took call so.rcv.mb
      ⟨so.rcv.mb, so.rcv.cc, ⟨call.resid, []⟩, [], false, 0, copies, moves⟩ done count)
    (inRun : count ≤ (kindRun so.rcv.startsHole so.rcv.cells).length) :
    Delivers call flags so.rcv
      ⟨0, { so with rcv := { so.rcv with mb := done.left, cc := done.cc } }, done.uio, done.chain,
        call.flagsp.map fun flags =>
          { flags with holeBreak := so.rcv.startsHole, eor := flags.eor || done.eor },
        done.copies⟩ count := by
  have peek : call.flags.peek = flags.peek := by
    unfold GenericCall.flags
    rw [given]
  obtain ⟨stored, kind⟩ := take_kindRun inRun
  constructor
  · exact ⟨took.within, stored⟩
  · exact kind
  · rw [given, took.eor]
    simp
  · intro mp0
    rw [took.out, mp0]
    rfl
  · intro mp0
    rw [took.chain (peek.trans (passes mp0)), mp0]
    rfl
  · exact took.resid
  · rw [← peek]
    exact took.cc
  · rw [← peek]
    exact took.left

theorem Took.restarts {count : Nat} (took : Took call so.rcv.mb
      ⟨so.rcv.mb, so.rcv.cc, ⟨call.resid, []⟩, [], false, 0, copies, moves⟩ done count)
    (nothing : call.resid = done.uio.resid) :
    { so with rcv := { so.rcv with mb := done.left, cc := done.cc } } = so := by
  have within : count ≤ call.resid := took.within
  have resid : done.uio.resid = call.resid - count := took.resid
  have zero : count = 0 := by omega
  have cc := took.cc
  rw [zero, ite_self, Nat.sub_zero] at cc
  rw [took.nothing zero, cc]

end Call

end Libunsod.Kern
