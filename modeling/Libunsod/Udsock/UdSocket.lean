import Libunsod.Udsock.UdFile

/-!
Which errors of the stack reach the caller. Three of the ten calls translate
the error, two replace every error by `EINVAL`, and five hand the number of the
stack back; `errno_map` has one entry too many behind `EOPNOTSUPP`, so that
every later entry is one place too far.
-/

namespace Libunsod.Udsock

variable {Sock : Type}

variable {error sockfd : Int}

variable {state : UdState Sock}

inductive SocketOp
  | socket (domain type protocol : Int)
  | accept (sockfd : Int)
  | bind (sockfd : Int) (addr : SockaddrIn)
  | connect (sockfd : Int) (addr : SockaddrIn)
  | listen (sockfd backlog : Int)
  | recvfrom (sockfd : Int) (len : Nat) (flags : BitVec 32)
  | send (sockfd : Int) (buf : List UInt8) (flags : BitVec 32)
  | sendto (sockfd : Int) (buf : List UInt8) (flags : BitVec 32) (addr : SockaddrIn)
  | setsockopt (sockfd level optname : Int) (optval : List UInt8)
  | getsockopt (sockfd level optname : Int) (optlen : Nat)

structure SocketCall (Sock : Type) where
  stack : Stack Sock
  beyond : Beyond
  op : SocketOp

variable {call : SocketCall Sock}

def SocketCall.exec (call : SocketCall Sock) (state : UdState Sock) : UdState Sock × Int :=
  match call.op with
  | .socket domain type protocol => udSocket call.stack domain type protocol state
  | .accept sockfd => udAccept call.stack sockfd state
  | .bind sockfd addr => udBind call.stack sockfd addr state
  | .connect sockfd addr => udConnect call.stack sockfd addr state
  | .listen sockfd backlog => udListen call.stack sockfd backlog state
  | .recvfrom sockfd len flags =>
      let (next, received) := udRecvfrom call.stack call.beyond sockfd len flags state
      (next, received.ret)
  | .send sockfd buf flags => udSend call.stack call.beyond sockfd buf flags state
  | .sendto sockfd buf flags addr => udSendto call.stack call.beyond sockfd buf flags addr state
  | .setsockopt sockfd level optname optval =>
      udSetsockopt call.stack call.beyond sockfd level optname optval state
  | .getsockopt sockfd level optname optlen =>
      udGetsockopt call.stack call.beyond sockfd level optname optlen state

def SocketCall.answer (call : SocketCall Sock) (state : UdState Sock) :
    Option (Int × Option Sock) :=
  match call.op with
  | .socket domain type _ => some (call.stack.socreate domain type 0)
  | .accept sockfd => (udFdGetSock state.fds sockfd).map call.stack.soaccept
  | _ => none

def SocketCall.sockopt (call : SocketCall Sock) (state : UdState Sock)
    (sockfd level optname : Int) (ask : Sock → Int → Int → Int) : Option Int :=
  match udFdGetSock state.fds sockfd, udMaplevelopt call.beyond level optname with
  | some so, some (level, optname) => some (ask so level optname)
  | _, _ => none

def SocketCall.stackError (call : SocketCall Sock) (state : UdState Sock) : Option Int :=
  match call.op with
  | .socket _ _ _ => (call.answer state).map Prod.fst
  | .accept _ => (call.answer state).map Prod.fst
  | .bind sockfd addr =>
      (udFdGetSock state.fds sockfd).map fun so => call.stack.sobind so addr.toUinet
  | .connect sockfd addr =>
      (udFdGetSock state.fds sockfd).map fun so => call.stack.soconnect so addr.toUinet
  | .listen sockfd backlog =>
      (udFdGetSock state.fds sockfd).map fun so => call.stack.solisten so backlog
  | .recvfrom sockfd len flags =>
      if mapFlags flags < 0 then none
      else (udFdGetSock state.fds sockfd).map fun so =>
        (call.stack.soreceive so len (mapFlags flags)).1
  | .send sockfd buf flags =>
      if mapFlags flags < 0 then none
      else some (call.stack.sosend (udFdGetSock state.fds sockfd) none buf (mapFlags flags)).1
  | .sendto sockfd buf flags addr =>
      if mapFlags flags < 0 then none
      else some (call.stack.sosend (udFdGetSock state.fds sockfd) (some addr.toUinet) buf
        (mapFlags flags)).1
  | .setsockopt sockfd level optname optval =>
      call.sockopt state sockfd level optname
        fun so level optname => call.stack.sosetsockopt so level optname optval
  | .getsockopt sockfd level optname optlen =>
      call.sockopt state sockfd level optname
        fun so level optname => (call.stack.sogetsockopt so level optname optlen).1

def SocketOp.opens : SocketOp → Bool
  | .socket _ _ _ | .accept _ => true
  | _ => false

def SocketOp.zeroIsSuccess : SocketOp → Bool
  | .bind _ _ | .connect _ _ | .listen _ _ => true
  | _ => false

structure Reported (call : SocketCall Sock) (state : UdState Sock) : Prop where
  error : ∀ error, 1 ≤ error → error ≤ 63 → call.stackError state = some error →
    (call.exec state).2 = -1 ∧
      ∃ name : ErrName, name.uinet = error ∧ (call.exec state).1.errno = name.host
  descriptor : call.op.opens → 0 ≤ (call.exec state).2 →
    Slot (call.exec state).2 ∧ state.fds (call.exec state).2 = none ∧
      ∃ so, (call.exec state).1.fds (call.exec state).2 = some so
  success : call.op.zeroIsSuccess → (call.exec state).2 = 0 → call.stackError state = some 0

def Reportable (call : SocketCall Sock) (state : UdState Sock) : Prop :=
  match call.op with
  | .socket _ _ _ | .accept _ => ∀ error word, call.answer state = some (error, word) →
      error < 0 ∨ error = 0 ∧ word.isSome ∧ HasFreeSlot state.fds
  | .bind _ _ | .connect _ _ | .listen _ _ =>
      ∀ error, 1 ≤ error → error ≤ 63 → call.stackError state ≠ some error
  | .recvfrom _ _ _ | .send _ _ _ | .sendto _ _ _ _ =>
      ∀ error, 1 ≤ error → error ≤ 63 → call.stackError state = some error → error ≤ 45
  | .setsockopt _ _ _ _ | .getsockopt _ _ _ _ =>
      ∀ error, 1 ≤ error → error ≤ 63 → call.stackError state = some error → error = 22

theorem ErrName.inOrder_uinet (name : ErrName) :
    ErrName.inOrder[name.uinet.toNat - 1]? = some name := by
  cases name <;> rfl

theorem ErrName.uinet_injective {first second : ErrName} (same : first.uinet = second.uinet) :
    first = second := by
  have left := first.inOrder_uinet
  rw [same, second.inOrder_uinet] at left
  exact (Option.some.inj left).symm

theorem ErrName.exists_uinet (positive : 1 ≤ error) (bound : error ≤ 63) :
    ∃ name : ErrName, name.uinet = error := by
  have listed : ∀ index : Fin 63, ErrName.inOrder[index.val].uinet = index.val + 1 := by
    decide +kernel
  refine ⟨_, (listed ⟨error.toNat - 1, by omega⟩).trans ?_⟩
  dsimp only
  omega

theorem errnoMap_host (name : ErrName) (beyond : Nat → Int) :
    tableWord errnoMap beyond name.uinet.toNat = name.host ↔ name.uinet ≤ 45 := by
  cases name <;> simp [tableWord, errnoMap, ErrName.uinet, ErrName.host]

theorem errnoMap_below (name : ErrName) :
    belowSize name.uinet (4 * errnoMap.length) = true ∧ name.uinet ≠ 0 := by
  cases name <;> decide

theorem udSetErrno_errno (beyond : Beyond) (name : ErrName) (state : UdState Sock) :
    (udSetErrno beyond name.uinet state).errno =
      tableWord errnoMap beyond.errnoMap name.uinet.toNat := by
  have tested := errnoMap_below name
  simp [udSetErrno, tested.1, tested.2, UdState.setErrno]

theorem ErrName.host_einval (name : ErrName) : name.host = 22 ↔ name.uinet = 22 := by
  cases name <;> decide

theorem udSetErrno_reported (beyond : Beyond) (state : UdState Sock) (positive : 1 ≤ error)
    (bound : error ≤ 63) :
    (∃ name : ErrName, name.uinet = error ∧ (udSetErrno beyond error state).errno = name.host) ↔
      error ≤ 45 := by
  obtain ⟨name, rfl⟩ := ErrName.exists_uinet positive bound
  rw [udSetErrno_errno]
  constructor
  · rintro ⟨other, same, found⟩
    rw [ErrName.uinet_injective same] at found
    exact (errnoMap_host name beyond.errnoMap).mp found
  · intro small
    exact ⟨name, rfl, (errnoMap_host name beyond.errnoMap).mpr small⟩

theorem einval_reported (beyond : Beyond) (state : UdState Sock) (positive : 1 ≤ error)
    (bound : error ≤ 63) :
    (∃ name : ErrName, name.uinet = error ∧
      (udSetErrno beyond ErrName.einval.uinet state).errno = name.host) ↔ error = 22 := by
  obtain ⟨name, rfl⟩ := ErrName.exists_uinet positive bound
  have stored : (udSetErrno beyond ErrName.einval.uinet state).errno = 22 := by
    rw [udSetErrno_errno]
    rfl
  rw [stored]
  constructor
  · rintro ⟨other, same, found⟩
    rw [← same]
    exact (ErrName.host_einval other).mp found.symm
  · intro einval
    exact ⟨name, rfl, ((ErrName.host_einval name).mpr einval).symm⟩

theorem unasked_reported (call : SocketCall Sock) (state : UdState Sock)
    (unasked : call.stackError state = none) (ret : (call.exec state).2 = -1) :
    Reported call state := by
  refine ⟨?_, ?_, ?_⟩
  · intro error _ _ asked
    rw [unasked] at asked
    cases asked
  · intro _ nonneg
    rw [ret] at nonneg
    omega
  · intro _ zero
    rw [ret] at zero
    omega

theorem opening_reported_iff (call : SocketCall Sock) (state : UdState Sock) (error : Int)
    (word : Option Sock) (opens : call.op.opens = true) (quiet : call.op.zeroIsSuccess = false)
    (answered : call.answer state = some (error, word))
    (asked : call.stackError state = some error)
    (result : call.exec state = if error = 0 then
      ({ state with fds := (udFdSetSock state.fds word).1 }, (udFdSetSock state.fds word).2)
      else (state, error)) :
    Reported call state ↔ ∀ error word, call.answer state = some (error, word) →
      error < 0 ∨ error = 0 ∧ word.isSome ∧ HasFreeSlot state.fds := by
  have single : (∀ error word, call.answer state = some (error, word) →
      error < 0 ∨ error = 0 ∧ word.isSome ∧ HasFreeSlot state.fds) ↔
      error < 0 ∨ error = 0 ∧ word.isSome ∧ HasFreeSlot state.fds := by
    simp [answered]
  rw [single]
  constructor
  · intro reported
    have descriptor := reported.descriptor opens
    rw [result] at descriptor
    rcases Int.lt_trichotomy error 0 with negative | zero | positive
    · exact .inl negative
    · right
      rw [if_pos zero, udFdSetSock_eq] at descriptor
      obtain ⟨slot, free, so, stored⟩ := descriptor (by unfold udFdGetFree; omega)
      simp only [Fds.set_same] at stored
      exact ⟨zero, by simp [stored], _, slot, free⟩
    · rw [if_neg (by omega)] at descriptor
      obtain ⟨_, free, so, stored⟩ := descriptor (by omega)
      rw [free] at stored
      cases stored
  · intro condition
    refine ⟨?_, ?_, ?_⟩
    · intro other positive _ same
      rw [asked] at same
      simp only [Option.some.injEq] at same
      rcases condition with negative | ⟨zero, _⟩ <;> omega
    · intro _ nonneg
      rw [result] at nonneg ⊢
      rcases condition with negative | ⟨zero, stored, free⟩
      · rw [if_neg (by omega)] at nonneg
        simp only at nonneg
        omega
      · have lowest := udFdGetFree_lowest free
        rw [if_pos zero, udFdSetSock_eq]
        refine ⟨lowest.1, lowest.2.1, ?_⟩
        simpa using Option.isSome_iff_exists.mp stored
    · intro zeroIsSuccess
      rw [quiet] at zeroIsSuccess
      cases zeroIsSuccess

theorem passing_reported_iff {ask : Sock → Int} (quiet : call.op.opens = false)
    (asked : call.stackError state = (udFdGetSock state.fds sockfd).map ask)
    (result : (call.exec state).2 = ((udFdGetSock state.fds sockfd).map ask).getD (-1)) :
    Reported call state ↔
      ∀ error, 1 ≤ error → error ≤ 63 → call.stackError state ≠ some error := by
  constructor
  · intro reported error positive bound same
    have minus := (reported.error error positive bound same).1
    rw [result, ← asked, same, Option.getD_some] at minus
    omega
  · intro condition
    refine ⟨?_, ?_, ?_⟩
    · intro error positive bound same
      exact absurd same (condition error positive bound)
    · intro opens
      rw [quiet] at opens
      cases opens
    · intro _ zero
      rw [result, ← asked] at zero
      cases answered : call.stackError state with
      | none =>
        rw [answered, Option.getD_none] at zero
        omega
      | some error =>
        rw [answered, Option.getD_some] at zero
        rw [zero]

theorem quiet_reported_iff (state : UdState Sock) (opens : call.op.opens = false)
    (zeroIsSuccess : call.op.zeroIsSuccess = false) :
    Reported call state ↔ ∀ error, 1 ≤ error → error ≤ 63 →
      call.stackError state = some error → (call.exec state).2 = -1 ∧
        ∃ name : ErrName, name.uinet = error ∧ (call.exec state).1.errno = name.host := by
  constructor
  · exact fun reported => reported.error
  · intro errors
    exact ⟨errors, by simp [opens], by simp [zeroIsSuccess]⟩

theorem translating_reported_iff (state : UdState Sock) (opens : call.op.opens = false)
    (zeroIsSuccess : call.op.zeroIsSuccess = false)
    (result : ∀ error, error ≠ 0 → call.stackError state = some error →
      call.exec state = (udSetErrno call.beyond error state, -1)) :
    Reported call state ↔ ∀ error, 1 ≤ error → error ≤ 63 →
      call.stackError state = some error → error ≤ 45 := by
  rw [quiet_reported_iff state opens zeroIsSuccess]
  constructor
  · intro errors error positive bound asked
    have found := (errors error positive bound asked).2
    rw [result error (by omega) asked] at found
    exact (udSetErrno_reported call.beyond state positive bound).mp found
  · intro small error positive bound asked
    rw [result error (by omega) asked]
    exact ⟨rfl, (udSetErrno_reported call.beyond state positive bound).mpr
      (small error positive bound asked)⟩

theorem replacing_reported_iff (opens : call.op.opens = false)
    (zeroIsSuccess : call.op.zeroIsSuccess = false)
    (result : ∀ error, error ≠ 0 → call.stackError state = some error →
      call.exec state = (udSetErrno call.beyond ErrName.einval.uinet state, -1)) :
    Reported call state ↔ ∀ error, 1 ≤ error → error ≤ 63 →
      call.stackError state = some error → error = 22 := by
  rw [quiet_reported_iff state opens zeroIsSuccess]
  constructor
  · intro errors error positive bound asked
    have found := (errors error positive bound asked).2
    rw [result error (by omega) asked] at found
    exact (einval_reported call.beyond state positive bound).mp found
  · intro einval error positive bound asked
    rw [result error (by omega) asked]
    exact ⟨rfl, (einval_reported call.beyond state positive bound).mpr
      (einval error positive bound asked)⟩

theorem udSockoptWith_error {level optname : Int} {ask : Sock → Int → Int → Int}
    (nonzero : error ≠ 0) (asked : call.sockopt state sockfd level optname ask = some error) :
    udSockoptWith call.beyond sockfd level optname ask state =
      (udSetErrno call.beyond ErrName.einval.uinet state, -1) := by
  unfold SocketCall.sockopt at asked
  unfold udSockoptWith
  cases found : udFdGetSock state.fds sockfd with
  | none => simp [found] at asked
  | some so =>
    cases mapped : udMaplevelopt call.beyond level optname with
    | none => simp [found, mapped] at asked
    | some pair =>
      simp only [found, mapped, Option.some.injEq] at asked
      simp [asked, nonzero]

theorem udSendWith_error {stack : Stack Sock} (beyond : Beyond) {addr : Option UinetSockaddrIn}
    {buf : List UInt8} {flags : BitVec 32} (nonzero : error ≠ 0)
    (asked : (if mapFlags flags < 0 then none else
      some (stack.sosend (udFdGetSock state.fds sockfd) addr buf (mapFlags flags)).1) =
        some error) :
    udSendWith stack beyond sockfd addr buf flags state =
      (udSetErrno beyond error state, -1) := by
  by_cases refused : mapFlags flags < 0
  · simp [refused] at asked
  · simp only [refused, ↓reduceIte, Option.some.injEq] at asked
    simp [udSendWith, refused, asked, nonzero]

/-- The caller learns of every error of the stack by its own name exactly in
the calls and for the errors that `Reportable` lists. -/
theorem socket_call_reported_iff (call : SocketCall Sock) (state : UdState Sock) :
    Reported call state ↔ Reportable call state := by
  obtain ⟨stack, beyond, op⟩ := call
  cases op with
  | socket domain type protocol =>
    exact opening_reported_iff ⟨stack, beyond, .socket domain type protocol⟩ state
      (stack.socreate domain type 0).1 (stack.socreate domain type 0).2 rfl rfl rfl rfl
      (by simp only [SocketCall.exec, udSocket])
  | accept sockfd =>
    cases found : udFdGetSock state.fds sockfd with
    | none =>
      have reported := unasked_reported ⟨stack, beyond, .accept sockfd⟩ state
        (by simp [SocketCall.stackError, SocketCall.answer, found])
        (by simp [SocketCall.exec, udAccept, found])
      simp [reported, Reportable, SocketCall.answer, found]
    | some so =>
      exact opening_reported_iff ⟨stack, beyond, .accept sockfd⟩ state
        (stack.soaccept so).1 (stack.soaccept so).2 rfl rfl
        (by simp [SocketCall.answer, found])
        (by simp [SocketCall.stackError, SocketCall.answer, found])
        (by simp only [SocketCall.exec, udAccept, found])
  | bind sockfd addr =>
    apply passing_reported_iff rfl rfl
    cases found : udFdGetSock state.fds sockfd <;> simp [SocketCall.exec, udBind, found]
  | connect sockfd addr =>
    apply passing_reported_iff rfl rfl
    cases found : udFdGetSock state.fds sockfd <;> simp [SocketCall.exec, udConnect, found]
  | listen sockfd backlog =>
    apply passing_reported_iff rfl rfl
    cases found : udFdGetSock state.fds sockfd <;> simp [SocketCall.exec, udListen, found]
  | recvfrom sockfd len flags =>
    apply translating_reported_iff state rfl rfl
    intro error nonzero asked
    simp only [SocketCall.stackError] at asked
    split at asked
    · cases asked
    · rename_i accepted
      obtain ⟨so, found, answered⟩ := Option.map_eq_some_iff.mp asked
      simp [SocketCall.exec, udRecvfrom, found, accepted, answered, nonzero]
  | send sockfd buf flags =>
    exact translating_reported_iff state rfl rfl
      (fun error nonzero asked => udSendWith_error beyond nonzero asked)
  | sendto sockfd buf flags addr =>
    exact translating_reported_iff state rfl rfl
      (fun error nonzero asked => udSendWith_error beyond nonzero asked)
  | setsockopt sockfd level optname optval =>
    exact replacing_reported_iff
      rfl rfl (fun error nonzero asked => udSockoptWith_error nonzero asked)
  | getsockopt sockfd level optname optlen =>
    exact replacing_reported_iff
      rfl rfl (fun error nonzero asked => udSockoptWith_error nonzero asked)

def refusingStack (error : Int) : Stack Nat where
  socreate _ _ _ := (error, none)
  soaccept _ := (error, none)
  sobind _ _ := error
  soconnect _ _ := error
  solisten _ _ := error
  soreceive _ _ _ := (error, [], none)
  sosend _ _ _ _ := (error, 0)
  sosetsockopt _ _ _ _ := error
  sogetsockopt _ _ _ _ := (error, [])
  soclose _ := error

def nothingBeyond : Beyond where
  errnoMap _ := 0
  soopts _ := 0
  tcpopts _ := 0

theorem socket_error_taken_for_descriptor :
    let call : SocketCall Nat := ⟨refusingStack 55, nothingBeyond, .socket 2 1 0⟩
    let state : UdState Nat := ⟨Fds.empty Nat, 0⟩
    call.stackError state = some 55 ∧ (call.exec state).2 = 55 ∧ ¬Reported call state := by
  refine ⟨rfl, rfl, ?_⟩
  intro reported
  have answer := (reported.error 55 (by decide) (by decide) rfl).1
  revert answer
  decide

end Libunsod.Udsock
