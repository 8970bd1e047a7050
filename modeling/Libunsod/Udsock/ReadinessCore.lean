import Mathlib.Data.BitVec
import Libunsod.Udsock.UdSelectCore

/-!
The state of a kernel socket as far as waiting on it goes: `uinet_soreadable` and
`uinet_sowritable` of `uinet_api.c`, and where the calls whose readiness they
announce decide to sleep. Those are `uinet_soaccept`, `soreceive_generic` or
`soreceive_dgram`, and `sosend_generic` or `sosend_dgram`, for a call with no flag
but `MSG_DONTWAIT`. A stream socket is a TCP one, which has `PR_CONNREQUIRED` and
`PR_IMPLOPCL`, and its buffer has no record marks.
-/

namespace Libunsod.Udsock

structure SocketState where
  dgram : Bool
  acceptConn : Bool
  nbio : Bool
  connected : Bool
  connecting : Bool
  disconnected : Bool
  qlen : Nat
  error : Int
  rcvCc : Nat
  rcvLowat : Nat
  cantRcvMore : Bool
  sndHiwat : Nat
  sndCc : Nat
  sndMbmax : Nat
  sndMbcnt : Nat
  sndLowat : Nat
  cantSendMore : Bool
  sndLowat_pos : 0 < sndLowat

def intMax : Nat := 2 ^ 31 - 1

def SocketState.sbspace (so : SocketState) : Int :=
  min (Int.bmod (so.sndHiwat - so.sndCc) (2 ^ 32)) (Int.bmod (so.sndMbmax - so.sndMbcnt) (2 ^ 32))

def uinetSoreadable (so : SocketState) : Int :=
  if so.acceptConn then
    if so.error ≠ 0 then -1 else so.qlen
  else if so.rcvCc ≠ 0 ∨ (so.error = 0 ∧ so.cantRcvMore = false) then
    if intMax < so.rcvCc then intMax else so.rcvCc
  else -1

def uinetSowritable (so : SocketState) : Int :=
  if so.acceptConn then 0
  else if so.cantSendMore ∨ so.error ≠ 0 ∨ so.disconnected then -1
  else if so.connected = false then 0
  else if intMax < so.sbspace then intMax
  else if so.sbspace < 0 then 0
  else so.sbspace

inductive Completion where
  | data
  | eof
  | connection
  | space
  | pending (error : Int)
  | refused (error : ErrName)
  | wouldBlock
  | sleeps
  deriving DecidableEq

def uinetSoaccept (so : SocketState) : Completion :=
  if so.nbio ∧ so.qlen = 0 then .wouldBlock
  else if so.qlen = 0 ∧ so.error = 0 then
    if so.cantRcvMore then .pending ErrName.econnaborted.uinet else .sleeps
  else if so.error ≠ 0 then .pending so.error
  else .connection

def soreceiveGeneric (so : SocketState) (resid : Nat) (dontwait : Bool) : Completion :=
  if so.rcvCc = 0 ∨ (dontwait = false ∧ so.rcvCc < resid ∧ so.rcvCc < so.rcvLowat) then
    if so.error ≠ 0 then
      if so.rcvCc ≠ 0 then .data else .pending so.error
    else if so.cantRcvMore then
      if so.rcvCc = 0 then .eof else .data
    else if so.connected = false ∧ so.connecting = false then .refused .enotconn
    else if so.nbio ∨ dontwait then .wouldBlock
    else .sleeps
  else .data

def soreceiveDgram (so : SocketState) (dontwait : Bool) : Completion :=
  if so.rcvCc = 0 then
    if so.error ≠ 0 then .pending so.error
    else if so.cantRcvMore then .eof
    else if so.nbio ∨ dontwait then .wouldBlock
    else .sleeps
  else .data

def soreceive (so : SocketState) (resid : Nat) (dontwait : Bool) : Completion :=
  if so.dgram then soreceiveDgram so dontwait else soreceiveGeneric so resid dontwait

def sosendGeneric (so : SocketState) (resid : Nat) (addr : Bool) : Completion :=
  if so.cantSendMore then .refused .epipe
  else if so.error ≠ 0 then .pending so.error
  else if so.connected = false ∧ addr = false then .refused .enotconn
  else if so.sbspace < resid ∧ so.sbspace < so.sndLowat then
    if so.nbio then .wouldBlock else .sleeps
  else .space

def sosendDgram (so : SocketState) (resid : Nat) (addr : Bool) : Completion :=
  if so.cantSendMore then .refused .epipe
  else if so.error ≠ 0 then .pending so.error
  else if so.connected = false ∧ addr = false then .refused .edestaddrreq
  else if so.sbspace < resid then .refused .emsgsize
  else .space

def sosend (so : SocketState) (resid : Nat) (addr : Bool) : Completion :=
  if so.dgram then sosendDgram so resid addr else sosendGeneric so resid addr

def socketScan {Sock : Type} (fds : Fds Sock) (sockets : Sock → SocketState) : Scan Sock where
  fds := fds
  soreadable so := uinetSoreadable (sockets so)
  sowritable so := uinetSowritable (sockets so)

end Libunsod.Udsock
