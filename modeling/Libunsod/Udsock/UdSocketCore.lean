import Libunsod.Udsock.ErrnoCore
import Libunsod.Udsock.UdFileCore

/-!
The socket calls of `ud_socket.c` and `ud_close` of `ud_unistd.c`. The stack
below them is a record of arbitrary functions, so that a statement for every
`Stack` is a statement for every answer it may give.
-/

namespace Libunsod.Udsock

structure SockaddrIn where
  sinFamily : Nat
  sinPort : Nat
  sinAddr : Nat
  deriving DecidableEq, Repr

structure UinetSockaddrIn where
  sinLen : Nat
  sinFamily : Nat
  sinPort : Nat
  sinAddr : Nat
  deriving DecidableEq, Repr

def SockaddrIn.toUinet (addr : SockaddrIn) : UinetSockaddrIn where
  sinLen := 16
  sinFamily := addr.sinFamily
  sinPort := addr.sinPort
  sinAddr := addr.sinAddr

def UinetSockaddrIn.toHost (addr : UinetSockaddrIn) : SockaddrIn where
  sinFamily := addr.sinFamily
  sinPort := addr.sinPort
  sinAddr := addr.sinAddr

structure Stack (Sock : Type) where
  socreate (domain type proto : Int) : Int × Option Sock
  soaccept (so : Sock) : Int × Option Sock
  sobind (so : Sock) (addr : UinetSockaddrIn) : Int
  soconnect (so : Sock) (addr : UinetSockaddrIn) : Int
  solisten (so : Sock) (backlog : Int) : Int
  soreceive (so : Sock) (len : Nat) (flags : Int) : Int × List UInt8 × Option UinetSockaddrIn
  sosend (so : Option Sock) (addr : Option UinetSockaddrIn) (data : List UInt8) (flags : Int) :
    Int × Nat
  sosetsockopt (so : Sock) (level optname : Int) (optval : List UInt8) : Int
  sogetsockopt (so : Sock) (level optname : Int) (optlen : Nat) : Int × List UInt8
  soclose (so : Option Sock) : Int

structure Beyond where
  errnoMap : Nat → Int
  soopts : Nat → Int
  tcpopts : Nat → Int

structure UdState (Sock : Type) where
  fds : Fds Sock
  errno : Int

def UdState.setErrno {Sock : Type} (state : UdState Sock) (errno : Int) : UdState Sock :=
  { state with errno := errno }

def tableWord (table : List Int) (beyond : Nat → Int) (index : Nat) : Int :=
  table.getD index (beyond index)

def belowSize (value : Int) (size : Nat) : Bool :=
  0 ≤ value && value < size

def msgDontwait : BitVec 32 := 0x40#32

def uinetMsgDontwait : Int := 0x80

def mapFlags (flags : BitVec 32) : Int :=
  let ret := if flags &&& msgDontwait ≠ 0#32 then uinetMsgDontwait else 0
  let rest := if flags &&& msgDontwait ≠ 0#32 then flags &&& ~~~msgDontwait else flags
  if rest ≠ 0#32 then -1 else ret

def udSetErrno {Sock : Type} (beyond : Beyond) (error : Int) (state : UdState Sock) :
    UdState Sock :=
  if error ≠ 0 ∧ belowSize error (4 * errnoMap.length) then
    state.setErrno (tableWord errnoMap beyond.errnoMap error.toNat)
  else state

def udSocket {Sock : Type} (stack : Stack Sock) (domain type _protocol : Int)
    (state : UdState Sock) : UdState Sock × Int :=
  let (error, so) := stack.socreate domain type 0
  if error = 0 then
    let (fds, fd) := udFdSetSock state.fds so
    ({ state with fds := fds }, fd)
  else (state, error)

def udAccept {Sock : Type} (stack : Stack Sock) (sockfd : Int) (state : UdState Sock) :
    UdState Sock × Int :=
  match udFdGetSock state.fds sockfd with
  | none => (state, -1)
  | some so =>
      let (error, newso) := stack.soaccept so
      if error = 0 then
        let (fds, fd) := udFdSetSock state.fds newso
        ({ state with fds := fds }, fd)
      else (state, error)

def udBind {Sock : Type} (stack : Stack Sock) (sockfd : Int) (addr : SockaddrIn)
    (state : UdState Sock) : UdState Sock × Int :=
  match udFdGetSock state.fds sockfd with
  | some so => (state, stack.sobind so addr.toUinet)
  | none => (state, -1)

def udConnect {Sock : Type} (stack : Stack Sock) (sockfd : Int) (addr : SockaddrIn)
    (state : UdState Sock) : UdState Sock × Int :=
  match udFdGetSock state.fds sockfd with
  | none => (state.setErrno ErrName.ebadf.host, -1)
  | some so => (state, stack.soconnect so addr.toUinet)

structure Received where
  ret : Int
  data : List UInt8
  source : Option SockaddrIn

def udRecvfrom {Sock : Type} (stack : Stack Sock) (beyond : Beyond) (sockfd : Int) (len : Nat)
    (flags : BitVec 32) (state : UdState Sock) : UdState Sock × Received :=
  match udFdGetSock state.fds sockfd with
  | none => (state.setErrno ErrName.ebadf.host, ⟨-1, [], none⟩)
  | some so =>
      if mapFlags flags < 0 then
        (udSetErrno beyond ErrName.einval.uinet state, ⟨-1, [], none⟩)
      else
        let (error, data, source) := stack.soreceive so len (mapFlags flags)
        if error ≠ 0 then (udSetErrno beyond error state, ⟨-1, [], none⟩)
        else (state.setErrno 0, ⟨data.length, data, source.map UinetSockaddrIn.toHost⟩)

def udListen {Sock : Type} (stack : Stack Sock) (sockfd backlog : Int) (state : UdState Sock) :
    UdState Sock × Int :=
  match udFdGetSock state.fds sockfd with
  | none => (state.setErrno ErrName.ebadf.host, -1)
  | some so => (state, stack.solisten so backlog)

def udSendWith {Sock : Type} (stack : Stack Sock) (beyond : Beyond) (sockfd : Int)
    (addr : Option UinetSockaddrIn) (buf : List UInt8) (flags : BitVec 32)
    (state : UdState Sock) : UdState Sock × Int :=
  if mapFlags flags < 0 then (udSetErrno beyond ErrName.einval.uinet state, -1)
  else
    let (error, resid) := stack.sosend (udFdGetSock state.fds sockfd) addr buf (mapFlags flags)
    if error ≠ 0 then (udSetErrno beyond error state, -1)
    else (state.setErrno 0, (buf.length : Int) - resid)

def udSend {Sock : Type} (stack : Stack Sock) (beyond : Beyond) (sockfd : Int)
    (buf : List UInt8) (flags : BitVec 32) (state : UdState Sock) : UdState Sock × Int :=
  udSendWith stack beyond sockfd none buf flags state

def udSendto {Sock : Type} (stack : Stack Sock) (beyond : Beyond) (sockfd : Int)
    (buf : List UInt8) (flags : BitVec 32) (addr : SockaddrIn) (state : UdState Sock) :
    UdState Sock × Int :=
  udSendWith stack beyond sockfd (some addr.toUinet) buf flags state

def uinetSolSocket : Int := 0xffff

def udSoopts : List Int :=
  [0, 0x1, 0x4, 0x1008, 0x1007, 0x10, 0x20, 0x1001, 0x1002, 0x8, 0x100, 0, 0, 0x80,
    0, 0, 0, 0, 0, 0, 0, 0, 0, 0, 0, 0, 0, 0, 0, 0]

def udTcpopts : List Int :=
  [0, 0x01, 0x02, 0, 0x100, 0x200, 0x400, 0, 0, 0, 0, 0x20, 0, 0x40, 0x10,
    0, 0, 0, 0, 0, 0, 0, 0, 0, 0, 0, 0, 0, 0, 0, 0]

def udMaplevelopt (beyond : Beyond) (level opt : Int) : Option (Int × Int) :=
  if level = 1 then
    if ¬belowSize opt (4 * udTcpopts.length + 1) ∨
        tableWord udSoopts beyond.soopts opt.toNat = 0 then none
    else some (uinetSolSocket, tableWord udSoopts beyond.soopts opt.toNat)
  else if level = 6 then
    if ¬belowSize opt (4 * udTcpopts.length + 1) ∨
        tableWord udTcpopts beyond.tcpopts opt.toNat = 0 then none
    else some (uinetSolSocket, tableWord udTcpopts beyond.tcpopts opt.toNat)
  else some (level, opt)

def udSockoptWith {Sock : Type} (beyond : Beyond) (sockfd level optname : Int)
    (call : Sock → Int → Int → Int) (state : UdState Sock) : UdState Sock × Int :=
  match udFdGetSock state.fds sockfd with
  | none => (state.setErrno ErrName.ebadf.host, -1)
  | some so =>
      match udMaplevelopt beyond level optname with
      | none => (state, -1)
      | some (level, optname) =>
          let error := call so level optname
          if error ≠ 0 then (udSetErrno beyond ErrName.einval.uinet state, -1)
          else (state, error)

def udSetsockopt {Sock : Type} (stack : Stack Sock) (beyond : Beyond)
    (sockfd level optname : Int) (optval : List UInt8) (state : UdState Sock) :
    UdState Sock × Int :=
  udSockoptWith beyond sockfd level optname
    (fun so level optname => stack.sosetsockopt so level optname optval) state

def udGetsockopt {Sock : Type} (stack : Stack Sock) (beyond : Beyond)
    (sockfd level optname : Int) (optlen : Nat) (state : UdState Sock) : UdState Sock × Int :=
  udSockoptWith beyond sockfd level optname
    (fun so level optname => (stack.sogetsockopt so level optname optlen).1) state

def udClose {Sock : Type} (stack : Stack Sock) (sockfd : Int) (state : UdState Sock) :
    UdState Sock × Int :=
  let so := udFdGetSock state.fds sockfd
  ({ state with fds := udFdFree state.fds sockfd }, stack.soclose so)

end Libunsod.Udsock
