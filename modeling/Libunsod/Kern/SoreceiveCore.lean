import Mathlib.Data.BitVec
import Libunsod.Udsock.ErrnoCore

/-!
`soreceive_stream` of `uipc_socket.c` for calls without `MSG_OOB` and
`MSG_WAITALL`, with `m_mbuftouio` and `m_copym2` of `uipc_mbuf.c` and
`sbdrop_internal` of `uipc_sockbuf.c`. A stream buffer is one record, a chain of
mbufs of which some are holes. The uio is in system space, as `uinet_soreceive`
sets it up, so that a copy to it does not fail.
-/

namespace Libunsod.Kern

open Udsock

inductive Mbuf where
  | data (bytes : List UInt8)
  | hole (len : Nat)

def Mbuf.len : Mbuf → Nat
  | .data bytes => bytes.length
  | .hole len => len

def Mbuf.isHole : Mbuf → Bool
  | .data _ => false
  | .hole _ => true

def Mbuf.bytes : Mbuf → List UInt8
  | .data bytes => bytes
  | .hole len => List.replicate len 0

def Mbuf.copy (count : Nat) : Mbuf → Mbuf
  | .data bytes => .data (bytes.take count)
  | .hole len => .hole (min count len)

def Mbuf.trim (count : Nat) : Mbuf → Mbuf
  | .data bytes => .data (bytes.drop count)
  | .hole len => .hole (len - count)

structure Sockbuf where
  mb : List Mbuf
  cc : Nat
  lowat : Nat
  hiwat : Nat
  cantRcvMore : Bool
  nbio : Bool

structure Socket where
  stream : Bool
  connected : Bool
  disconnected : Bool
  nbio : Bool
  error : Int
  rcv : Sockbuf

structure MsgFlags where
  peek : Bool
  dontwait : Bool
  nbio : Bool
  holeBreak : Bool

def MsgFlags.none : MsgFlags := ⟨false, false, false, false⟩

structure Uio where
  resid : Nat
  out : List UInt8

def Uio.move (uio : Uio) (bytes : List UInt8) : Uio :=
  ⟨uio.resid - (bytes.take uio.resid).length, uio.out ++ bytes.take uio.resid⟩

def umin (left right : Nat) : Nat := min (left % 2 ^ 32) (right % 2 ^ 32)

def mbuftouioLoop (holeBreak : Bool) (total : Nat) :
    List Mbuf → Nat → Bool → Uio → Uio
  | [], _, _, uio => uio
  | m :: rest, progress, lastHole, uio =>
      let length := umin m.len (total - progress)
      if holeBreak && (m.isHole != lastHole) then uio
      else mbuftouioLoop holeBreak total rest (progress + length) m.isHole
        (uio.move (m.bytes.take length))

def mMbuftouio (uio : Uio) (mbufs : List Mbuf) (len : Nat) (holeBreak : Bool) : Uio :=
  let total := if 0 < len then umin uio.resid len else uio.resid % 2 ^ 32
  match mbufs with
  | [] => uio
  | m :: _ => mbuftouioLoop holeBreak total mbufs 0 m.isHole uio

def mCopyall : Nat := 1000000000

def copymLoop (holeBreak : Bool) : List Mbuf → Nat → Bool → List Mbuf
  | [], _, _ => []
  | m :: rest, len, lastHole =>
      if len = 0 then []
      else if holeBreak && (m.isHole != lastHole) then []
      else m.copy (min len m.len) ::
        copymLoop holeBreak rest (if len = mCopyall then len else len - min len m.len) m.isHole

def mCopym2 (mbufs : List Mbuf) (len : Nat) (holeBreak copied : Bool) : Option (List Mbuf) :=
  match mbufs with
  | [] => none
  | m :: _ => if copied then some (copymLoop holeBreak mbufs len m.isHole) else none

def dequeue : List Mbuf → Nat → List Mbuf × List Mbuf × Nat
  | [], len => ([], [], len)
  | m :: rest, len =>
      if m.len ≤ len then
        let (taken, left, remainder) := dequeue rest (len - m.len)
        (m :: taken, left, remainder)
      else ([], m :: rest, len)

def sbdropLoop : List Mbuf → Nat → Option (List Mbuf)
  | mbufs, 0 => some mbufs
  | [], _ + 1 => none
  | m :: rest, len + 1 =>
      if len + 1 < m.len then some (m.trim (len + 1) :: rest)
      else sbdropLoop rest (len + 1 - m.len)

def sbdropInternal (sb : Sockbuf) (len : Nat) : Option Sockbuf :=
  (sbdropLoop sb.mb len).map fun mbufs =>
    { sb with
      mb := mbufs.dropWhile fun m => m.len == 0
      cc := sb.cc - len }

structure ReceiveCall where
  resid : Nat
  mp0 : Bool
  flagsp : Option MsgFlags
  copied : Bool

structure Received where
  error : Int
  socket : Socket
  uio : Uio
  chain : List Mbuf
  flagsp : Option MsgFlags

inductive ReceiveOutcome where
  | returned (result : Received)
  | waits
  | panics

def ReceiveCall.flags (call : ReceiveCall) : MsgFlags :=
  match call.flagsp with
  | some flags => { flags with holeBreak := false }
  | none => .none

def ReceiveCall.holeBreak (call : ReceiveCall) : Bool :=
  match call.flagsp with
  | some flags => flags.holeBreak
  | none => false

def finish (call : ReceiveCall) (so : Socket) (uio : Uio) (chain : List Mbuf) (atHole : Bool)
    (error : Int) : ReceiveOutcome :=
  .returned ⟨error, so, uio, chain,
    call.flagsp.map fun flags => { flags with holeBreak := atHole }⟩

def dropDelivered (call : ReceiveCall) (so : Socket) (uio : Uio) (chain : List Mbuf)
    (atHole : Bool) (len : Nat) : ReceiveOutcome :=
  if call.flags.peek = false ∧ 0 < len then
    match sbdropInternal so.rcv len with
    | none => .panics
    | some rcv => finish call { so with rcv := rcv } uio chain atHole 0
  else finish call so uio chain atHole 0

def chainLen (mbufs : List Mbuf) : Nat := (mbufs.map Mbuf.len).sum

def copyRemainder (call : ReceiveCall) (so : Socket) (resid : Nat) (taken : List Mbuf)
    (atHole : Bool) (len : Nat) : ReceiveOutcome :=
  if 0 < len then
    match mCopym2 so.rcv.mb len call.holeBreak call.copied with
    | none =>
        if taken = [] then finish call so ⟨resid, []⟩ [] atHole ErrName.enobufs.uinet
        else dropDelivered call so ⟨resid, []⟩ taken atHole 0
    | some copy =>
        if taken ++ copy = [] then finish call so ⟨resid, []⟩ [] atHole ErrName.enobufs.uinet
        else dropDelivered call so ⟨resid - (copy.head?.map Mbuf.len).getD 0, []⟩
          (taken ++ copy) atHole len
  else dropDelivered call so ⟨resid, []⟩ taken atHole 0

def deliver (call : ReceiveCall) (so : Socket) : ReceiveOutcome :=
  let len := umin call.resid so.rcv.cc
  match so.rcv.mb with
  | [] => .panics
  | first :: _ =>
      let atHole := call.holeBreak && first.isHole
      if call.mp0 then
        if call.flags.peek = false ∧ first.len ≤ len then
          let (taken, left, remainder) := dequeue so.rcv.mb len
          let rcv := { so.rcv with mb := left, cc := so.rcv.cc - chainLen taken }
          copyRemainder call { so with rcv := rcv } (call.resid - chainLen taken) taken atHole
            remainder
        else copyRemainder call so call.resid [] atHole len
      else
        dropDelivered call so (mMbuftouio ⟨call.resid, []⟩ so.rcv.mb len call.holeBreak) []
          atHole len

end Libunsod.Kern
