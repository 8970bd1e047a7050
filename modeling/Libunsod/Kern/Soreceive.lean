import Mathlib.Data.List.TakeWhile
import Libunsod.Base.Runs
import Libunsod.Kern.SoreceiveCore

/-!
What `soreceive_stream` delivers. The buffer is a list of cells, each a data byte
or a hole byte, and a call should hand over a non-empty prefix of it and keep the
rest. The length that is copied and the length that is dropped are computed apart:
`m_mbuftouio` stops at a hole boundary and `sbdrop` does not, `mp0` takes whole
mbufs past a boundary, and a copy of several mbufs is counted by its first one.
`m_copym2` does not count down a length of `M_COPYALL` and then copies too much.
-/

namespace Libunsod.Kern

open Runs Udsock

variable {m : Mbuf} {lastHole : Bool} {mbufs : List Mbuf} {sb : Sockbuf} {removed : Nat}
  {result : Received}

variable {count given counted : Nat}

inductive Cell where
  | data (byte : UInt8)
  | hole

variable {cell : Cell}

def Cell.isHole : Cell → Bool
  | .data _ => false
  | .hole => true

def Cell.byte : Cell → UInt8
  | .data byte => byte
  | .hole => 0

def Mbuf.cells : Mbuf → List Cell
  | .data bytes => bytes.map .data
  | .hole len => List.replicate len .hole

def cellsOf (mbufs : List Mbuf) : List Cell := mbufs.flatMap Mbuf.cells

@[simp] theorem cellsOf_nil : cellsOf [] = [] := rfl

@[simp] theorem cellsOf_cons (m : Mbuf) (rest : List Mbuf) :
    cellsOf (m :: rest) = m.cells ++ cellsOf rest := by
  simp [cellsOf]

@[simp] theorem cellsOf_append (first second : List Mbuf) :
    cellsOf (first ++ second) = cellsOf first ++ cellsOf second := by
  simp [cellsOf]

@[simp] theorem Mbuf.cells_length (m : Mbuf) : m.cells.length = m.len := by
  cases m <;> simp [Mbuf.cells, Mbuf.len]

@[simp] theorem chainLen_cons (m : Mbuf) (rest : List Mbuf) :
    chainLen (m :: rest) = m.len + chainLen rest := by
  simp [chainLen]

@[simp] theorem chainLen_append (first second : List Mbuf) :
    chainLen (first ++ second) = chainLen first + chainLen second := by
  simp [chainLen]

@[simp] theorem cellsOf_length (mbufs : List Mbuf) : (cellsOf mbufs).length = chainLen mbufs := by
  induction mbufs with
  | nil => rfl
  | cons m rest ih => simp [ih]

theorem Mbuf.drop_cells (m : Mbuf) (whole : m.len ≤ count) : m.cells.drop count = [] :=
  List.drop_eq_nil_of_le (by rw [Mbuf.cells_length]; exact whole)

theorem Mbuf.cells_trim (count : Nat) (m : Mbuf) : (m.trim count).cells = m.cells.drop count := by
  cases m <;> simp [Mbuf.trim, Mbuf.cells, List.map_drop]

def lead (holeBreak lastHole : Bool) (mbufs : List Mbuf) : List Mbuf :=
  if holeBreak then mbufs.takeWhile fun m => m.isHole == lastHole else mbufs

structure Sockbuf.Wf (sb : Sockbuf) : Prop where
  count : sb.cc = chainLen sb.mb
  positive : ∀ m ∈ sb.mb, 0 < m.len
  bound : sb.cc < 2 ^ 31

def Sockbuf.cells (sb : Sockbuf) : List Cell := cellsOf sb.mb

theorem len_le_chainLen (member : m ∈ mbufs) : m.len ≤ chainLen mbufs := by
  obtain ⟨before, after, rfl⟩ := List.append_of_mem member
  simp only [chainLen_append, chainLen_cons]
  omega

theorem Sockbuf.Wf.small (wf : sb.Wf) (m : Mbuf) (member : m ∈ sb.mb) : m.len < 2 ^ 32 := by
  have part := len_le_chainLen member
  have count := wf.count
  have bound := wf.bound
  omega

theorem Sockbuf.Wf.rest (wf : sb.Wf) {taken left : List Mbuf} (split : sb.mb = taken ++ left) :
    Sockbuf.Wf { sb with mb := left, cc := sb.cc - chainLen taken } := by
  have count := wf.count
  have bound := wf.bound
  rw [split, chainLen_append] at count
  refine ⟨?_, fun m member => wf.positive m ?_, ?_⟩
  · show sb.cc - chainLen taken = chainLen left
    omega
  · rw [split]
    exact List.mem_append_right _ member
  · show sb.cc - chainLen taken < 2 ^ 31
    omega

def leadingRun : List Mbuf → Nat
  | [] => 0
  | first :: rest => chainLen (lead true first.isHole (first :: rest))

def afterRun : List Mbuf → List Mbuf
  | [] => []
  | first :: rest => (first :: rest).dropWhile fun m => m.isHole == first.isHole

def firstLen (mbufs : List Mbuf) : Nat := (mbufs.head?.map Mbuf.len).getD 0

def DeliversPrefix (call : ReceiveCall) (so : Socket) (result : Received) : Prop :=
  ∃ count, 0 < count ∧ count ≤ so.rcv.cells.length ∧
    result.uio.out = (if call.mp0 then [] else (so.rcv.cells.take count).map Cell.byte) ∧
    cellsOf result.chain = (if call.mp0 then so.rcv.cells.take count else []) ∧
    result.uio.resid + count = call.resid ∧
    result.socket.rcv.cells =
      (if call.flags.peek then so.rcv.cells else so.rcv.cells.drop count) ∧
    (call.holeBreak = true → ∃ hole, (∀ cell ∈ so.rcv.cells.take count, cell.isHole = hole) ∧
      result.flagsp.map MsgFlags.holeBreak = some hole)

def ReceiveCall.span (call : ReceiveCall) (so : Socket) : Nat :=
  min (call.resid % 2 ^ 32) so.rcv.cc

def ReceiveCall.dequeued (call : ReceiveCall) (so : Socket) : List Mbuf × List Mbuf × Nat :=
  if call.flags.peek then ([], so.rcv.mb, call.span so) else dequeue so.rcv.mb (call.span so)

def ReceiveCall.Overcopies (call : ReceiveCall) (so : Socket) : Prop :=
  call.mp0 = true ∧ ∃ copy,
    mCopym2 (call.dequeued so).2.1 (call.dequeued so).2.2 call.holeBreak call.copied = some copy ∧
      (call.dequeued so).2.2 < chainLen copy

def ReceiveCall.Sound (call : ReceiveCall) (so : Socket) : Prop :=
  call.resid % 2 ^ 32 ≠ 0 ∧ ¬call.Overcopies so ∧
    if call.mp0 then
      if call.flags.peek then
        call.span so ≤ firstLen so.rcv.mb ∨
          (call.holeBreak = true ∧ leadingRun so.rcv.mb = firstLen so.rcv.mb)
      else
        call.holeBreak = false ∨ call.span so ≤ leadingRun so.rcv.mb ∨
          (call.copied = false ∧
            call.span so < leadingRun so.rcv.mb + firstLen (afterRun so.rcv.mb))
    else
      call.flags.peek = true ∨ call.holeBreak = false ∨ call.span so ≤ leadingRun so.rcv.mb

structure Delivery (call : ReceiveCall) (so : Socket) (given counted removed : Nat)
    (result : Received) : Prop where
  error : result.error = 0
  out : result.uio.out = if call.mp0 then [] else (so.rcv.cells.take given).map Cell.byte
  chain : cellsOf result.chain = if call.mp0 then so.rcv.cells.take given else []
  resid : result.uio.resid = call.resid - counted
  cells : result.socket.rcv.cells = so.rcv.cells.drop removed
  wf : result.socket.rcv.Wf
  flagsp : result.flagsp = call.flagsp.map fun flags =>
    { flags with holeBreak := call.holeBreak && (so.rcv.mb.head?.map Mbuf.isHole).getD false }

theorem uinet_ne_zero (name : ErrName) : name.uinet ≠ 0 := by
  cases name <;> decide

section Deliver

variable {call : ReceiveCall} {so : Socket} {first : Mbuf} {rest : List Mbuf}

def Sockbuf.reach (holeBreak : Bool) (sb : Sockbuf) : Nat :=
  if holeBreak then leadingRun sb.mb else sb.cc

inductive Outcome (call : ReceiveCall) (so : Socket) (result : Received) : Prop
  | failed (error : result.error = ErrName.enobufs.uinet) (socket : result.socket = so)
      (out : result.uio.out = []) (chain : result.chain = [])
  | delivered {given counted removed : Nat}
      (delivery : Delivery call so given counted removed result) (within : given ≤ so.rcv.cc)
      (gone : removed ≤ so.rcv.cc) (asked : counted ≤ call.resid)
      (sound : (0 < given ∧ counted = given ∧ removed = (if call.flags.peek then 0 else given) ∧
        (call.holeBreak = true → given ≤ leadingRun so.rcv.mb)) ↔ call.Sound so)
  | overcopied (excess : call.Overcopies so)
      (more : call.resid < result.uio.resid + chainLen result.chain)

section Chain

variable (wf : so.rcv.Wf) (chain : so.rcv.mb = first :: rest)

include wf chain

end Chain

end Deliver

structure StreamReader where
  so : Socket
  given : List UInt8
  arrived : List UInt8

def Received.bytes (result : Received) : List UInt8 :=
  result.uio.out ++ (cellsOf result.chain).map Cell.byte

structure StreamReader.Balanced (state : StreamReader) : Prop where
  wf : state.so.rcv.Wf
  bytes : state.given ++ state.so.rcv.cells.map Cell.byte = state.arrived

theorem DeliversPrefix.bytes {call : ReceiveCall} {so : Socket}
    (delivers : DeliversPrefix call so result) :
    if call.flags.peek then result.socket.rcv.cells = so.rcv.cells
    else result.bytes ++ result.socket.rcv.cells.map Cell.byte = so.rcv.cells.map Cell.byte := by
  obtain ⟨count, -, -, out, chain, -, cells, -⟩ := delivers
  cases peek : call.flags.peek with
  | true =>
    rw [peek] at cells
    exact cells
  | false =>
    have handed : result.bytes = (so.rcv.cells.take count).map Cell.byte := by
      unfold Received.bytes
      rw [out, chain]
      cases call.mp0 <;> simp
    rw [peek] at cells
    simp only [Bool.false_eq_true, if_false] at cells ⊢
    rw [handed, cells, ← List.map_append, List.take_append_drop]

end Libunsod.Kern
