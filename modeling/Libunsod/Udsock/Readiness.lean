import Libunsod.Udsock.ReadinessCore
import Libunsod.Udsock.UdSelect

/-!
Which descriptors `ud_select` announces. `uinet_soreadable` and `uinet_sowritable`
answer -1 where a call would fail or find the end of the stream, `uinet_sowritable`
also 0 for a socket that is not connected, and `ud_select` takes only a positive
answer for ready. The states in which that hides a call that would not sleep are
`ReadHidden` and `WriteHidden`.
-/

namespace Libunsod.Udsock

variable {Sock : Type}

variable {fd : Fin fdSetsize}

variable {ready : Sock → Int} {so : Sock}

def Completion.received : Completion → Bool
  | .data => true
  | .eof => true
  | .connection => true
  | .pending _ => true
  | _ => false

def Completion.sent : Completion → Bool
  | .space => true
  | .pending _ => true
  | .refused _ => true
  | _ => false

def ReadCompletes (so : SocketState) : Prop :=
  if so.acceptConn then (uinetSoaccept so).received = true
  else ∃ resid dontwait, 0 < resid ∧ (soreceive so resid dontwait).received = true

def WriteCompletes (so : SocketState) : Prop :=
  ∃ resid addr, 0 < resid ∧ (sosend so resid addr).sent = true

def ReadHidden (so : SocketState) : Prop :=
  if so.acceptConn then
    ¬ (so.nbio = true ∧ so.qlen = 0) ∧ (so.error ≠ 0 ∨ (so.qlen = 0 ∧ so.cantRcvMore = true))
  else so.rcvCc = 0 ∧ (so.error ≠ 0 ∨ so.cantRcvMore = true)

def WriteHidden (so : SocketState) : Prop :=
  so.cantSendMore = true ∨ so.error ≠ 0 ∨ so.connected = false ∨
    if 0 < so.sbspace then so.acceptConn = true ∨ so.disconnected = true else so.dgram = true

theorem uinetSoreadable_pos_iff (so : SocketState) :
    0 < uinetSoreadable so ↔
      if so.acceptConn then so.error = 0 ∧ 0 < so.qlen else 0 < so.rcvCc := by
  unfold uinetSoreadable intMax
  cases so.acceptConn with
  | true =>
    simp only [if_true]
    split <;> omega
  | false =>
    simp only [Bool.false_eq_true, if_false]
    split
    · split <;> omega
    · omega

theorem uinetSoaccept_received_iff (so : SocketState) :
    (uinetSoaccept so).received = true ↔
      ¬ (so.nbio = true ∧ so.qlen = 0) ∧
        (so.error ≠ 0 ∨ 0 < so.qlen ∨ so.cantRcvMore = true) := by
  unfold uinetSoaccept
  split
  · rename_i blocks
    simp [Completion.received, blocks]
  · rename_i waits
    rw [and_iff_right waits]
    split
    · rename_i idle
      split
      · rename_i closed
        simp [Completion.received, closed]
      · rename_i unclosed
        simp only [Completion.received, Bool.false_eq_true, false_iff]
        rintro (failed | queued | closed)
        · exact failed idle.2
        · omega
        · exact unclosed closed
    · rename_i busy
      split
      · rename_i failed
        simp [Completion.received, failed]
      · rename_i fine
        simp only [Completion.received, true_iff]
        exact .inr (.inl (by omega))

theorem soreceive_received_iff (so : SocketState) :
    (∃ resid dontwait, 0 < resid ∧ (soreceive so resid dontwait).received = true) ↔
      0 < so.rcvCc ∨ so.error ≠ 0 ∨ so.cantRcvMore = true := by
  constructor
  · rintro ⟨resid, dontwait, -, received⟩
    by_contra quiet
    simp only [not_or, Nat.not_lt, Nat.le_zero, ne_eq, not_not, Bool.not_eq_true] at quiet
    obtain ⟨empty, fine, unclosed⟩ := quiet
    simp only [soreceive, soreceiveDgram, soreceiveGeneric, empty, fine, unclosed, ne_eq,
      not_true_eq_false, if_true, if_false, true_or, Bool.false_eq_true] at received
    split at received
    · split at received <;> cases received
    · split at received
      · cases received
      · split at received <;> cases received
  · intro ready
    refine ⟨1, false, Nat.one_pos, ?_⟩
    by_cases empty : so.rcvCc = 0
    · simp only [soreceive, soreceiveDgram, soreceiveGeneric, empty, if_true, true_or]
      by_cases failed : so.error = 0
      · have closed : so.cantRcvMore = true := by
          rcases ready with data | error | closed
          · omega
          · exact absurd failed error
          · exact closed
        simp [failed, closed, Completion.received]
      · simp [failed, Completion.received]
    · simp [soreceive, soreceiveDgram, soreceiveGeneric, empty, Completion.received]

theorem readCompletes_iff (so : SocketState) :
    ReadCompletes so ↔
      if so.acceptConn then
        ¬ (so.nbio = true ∧ so.qlen = 0) ∧
          (so.error ≠ 0 ∨ 0 < so.qlen ∨ so.cantRcvMore = true)
      else 0 < so.rcvCc ∨ so.error ≠ 0 ∨ so.cantRcvMore = true := by
  unfold ReadCompletes
  rw [uinetSoaccept_received_iff, soreceive_received_iff]

theorem readCompletes_split (so : SocketState) :
    (ReadCompletes so ↔ 0 < uinetSoreadable so ∨ ReadHidden so) ∧
      ¬ (0 < uinetSoreadable so ∧ ReadHidden so) := by
  rw [readCompletes_iff, uinetSoreadable_pos_iff]
  unfold ReadHidden
  cases so.acceptConn with
  | false =>
    simp only [Bool.false_eq_true, if_false]
    by_cases empty : so.rcvCc = 0
    · simp [empty]
    · have data : 0 < so.rcvCc := Nat.pos_of_ne_zero empty
      simp [empty, data]
  | true =>
    simp only [if_true]
    by_cases failed : so.error = 0
    · by_cases empty : so.qlen = 0
      · simp [failed, empty]
      · have queued : 0 < so.qlen := Nat.pos_of_ne_zero empty
        simp [failed, empty, queued]
    · simp [failed]

theorem uinetSowritable_pos_iff (so : SocketState) :
    0 < uinetSowritable so ↔
      so.acceptConn = false ∧ so.cantSendMore = false ∧ so.error = 0 ∧ so.disconnected = false ∧
        so.connected = true ∧ 0 < so.sbspace := by
  unfold uinetSowritable intMax
  cases so.acceptConn with
  | true => simp
  | false =>
    simp only [Bool.false_eq_true, if_false, true_and]
    split
    · rename_i refused
      simp only [Int.reduceNeg, Int.reduceLT, false_iff]
      rintro ⟨unclosed, fine, attached, -, -⟩
      simp [unclosed, fine, attached] at refused
    · rename_i allowed
      simp only [not_or, Bool.not_eq_true, ne_eq, not_not] at allowed
      simp only [allowed, true_and]
      cases so.connected with
      | false => simp
      | true =>
        simp only [true_and, Bool.true_eq_false, if_false]
        split
        · omega
        · split <;> omega

theorem writeCompletes_iff (so : SocketState) :
    WriteCompletes so ↔
      so.cantSendMore = true ∨ so.error ≠ 0 ∨ so.connected = false ∨ so.dgram = true ∨
        0 < so.sbspace := by
  have lowat := so.sndLowat_pos
  constructor
  · rintro ⟨resid, addr, positive, sent⟩
    by_contra quiet
    simp only [not_or, ne_eq, not_not, Bool.not_eq_true, Bool.not_eq_false, Int.not_lt] at quiet
    obtain ⟨unclosed, fine, connected, stream, full⟩ := quiet
    have short : so.sbspace < resid ∧ so.sbspace < so.sndLowat := by omega
    simp only [sosend, sosendGeneric, unclosed, fine, connected, stream, short, ne_eq,
      not_true_eq_false, Bool.false_eq_true, Bool.true_eq_false, false_and, if_false, if_true,
      and_self] at sent
    split at sent <;> cases sent
  · intro ready
    refine ⟨1, false, Nat.one_pos, ?_⟩
    unfold sosend sosendDgram sosendGeneric
    cases closed : so.cantSendMore with
    | true => cases so.dgram <;> simp [Completion.sent]
    | false =>
      by_cases failed : so.error = 0
      · cases connected : so.connected with
        | false => cases so.dgram <;> simp [failed, Completion.sent]
        | true =>
          cases dgram : so.dgram with
          | true =>
            simp only [failed, if_true, Bool.false_eq_true, Bool.true_eq_false, if_false,
              false_and, ne_eq, not_true_eq_false]
            split <;> rfl
          | false =>
            have space : 0 < so.sbspace := by simpa [closed, failed, connected, dgram]
              using ready
            have room : ¬ so.sbspace < 1 := by omega
            simp [failed, room, Completion.sent]
      · cases so.dgram <;> simp [failed, Completion.sent]

theorem writeCompletes_split (so : SocketState) :
    (WriteCompletes so ↔ 0 < uinetSowritable so ∨ WriteHidden so) ∧
      ¬ (0 < uinetSowritable so ∧ WriteHidden so) := by
  rw [writeCompletes_iff, uinetSowritable_pos_iff]
  unfold WriteHidden
  cases so.cantSendMore with
  | true => simp
  | false =>
    by_cases failed : so.error = 0
    · cases so.connected with
      | false => simp
      | true =>
        by_cases space : 0 < so.sbspace
        · cases so.acceptConn <;> cases so.disconnected <;> simp [failed, space]
        · simp [failed, space]
    · simp [failed]

section Passes

variable (args : SelectArgs) (sleep : Int) (scan : Scan Sock)

def ValidCall : Prop :=
  InBounds args args.nfds.toNat ∧ ¬ BadDescriptor args scan args.nfds.toNat

theorem firstScan_cases :
    (udSelectScan args scan args.nfds.toNat 0 ⟨0, ∅, ∅⟩ =
        .ok (progressAt args scan args.nfds.toNat) ∧ ValidCall args scan) ∨
      ∃ stop, udSelectScan args scan args.nfds.toNat 0 ⟨0, ∅, ∅⟩ = .error stop ∧
        ¬ ValidCall args scan := by
  rw [← progressAt_zero args scan]
  rcases udSelectScan_cases args scan args.nfds.toNat 0 (by rintro ⟨fd, _, below, _⟩; omega)
      (.inl (Nat.zero_le _)) with
    ⟨scanned, outside, -⟩ | ⟨scanned, bad⟩ | ⟨scanned, inside, opened⟩
  · rw [Nat.zero_add] at outside
    exact .inr ⟨_, scanned, fun valid => outside valid.1⟩
  · rw [Nat.zero_add] at bad
    exact .inr ⟨_, scanned, fun valid => valid.2 bad⟩
  · rw [Nat.zero_add] at scanned inside opened
    exact .inl ⟨scanned, inside, opened⟩

theorem udSelectFrom_ready (valid : ValidCall args scan) (ready : AnyReady args scan)
    (fuel pass : Nat) (restarted : Bool) :
    udSelectFrom args sleep (fun _ => scan) (fuel + 1) pass restarted ⟨0, ∅, ∅⟩ =
      some (udSelectFinish args (progressAt args scan args.nfds.toNat), pass) := by
  rcases firstScan_cases args scan with ⟨scanned, -⟩ | ⟨stop, -, invalid⟩
  · have positive : (progressAt args scan args.nfds.toNat).retval ≠ 0 :=
      Nat.pos_iff_ne_zero.mp ready
    simp only [udSelectFrom, scanned]
    cases args.timeout with
    | none | some pair => simp [positive]
  · exact absurd valid invalid

theorem udSelectFrom_idle (valid : ValidCall args scan) (idle : ¬ AnyReady args scan)
    (fuel pass : Nat) (restarted : Bool) :
    (args.timeout = none →
      udSelectFrom args sleep (fun _ => scan) fuel pass restarted ⟨0, ∅, ∅⟩ = none) ∧
    ∀ ret sets last, udSelectFrom args sleep (fun _ => scan) fuel pass restarted ⟨0, ∅, ∅⟩ =
      some (.returned ret sets, last) → ret = 0 := by
  induction fuel generalizing pass restarted with
  | zero => simp [udSelectFrom]
  | succ fuel ih =>
    rcases firstScan_cases args scan with ⟨scanned, -⟩ | ⟨stop, -, invalid⟩
    · rw [not_anyReady idle] at scanned
      simp only [udSelectFrom, scanned]
      cases timeout : args.timeout with
      | none =>
        simp only [if_true, true_implies]
        exact ⟨(ih (pass + 1) restarted).1 timeout, (ih (pass + 1) restarted).2⟩
      | some pair =>
        refine ⟨fun never => (by cases never), ?_⟩
        intro ret sets last ended
        simp only at ended
        split at ended
        · split at ended
          · cases ended
          · exact (ih (pass + 1) true).2 ret sets last ended
        · simp only [udSelectFinish, Nat.lt_irrefl, if_false, Option.some.injEq,
            Prod.mk.injEq, SelectOutcome.returned.injEq] at ended
          exact ended.1.1.symm
    · exact absurd valid invalid

theorem udSelectFrom_invalid (invalid : ¬ ValidCall args scan) (fuel pass : Nat)
    (restarted : Bool) :
    ∃ outcome, udSelectFrom args sleep (fun _ => scan) (fuel + 1) pass restarted ⟨0, ∅, ∅⟩ =
      some (outcome, pass) ∧ ∀ ret sets, outcome ≠ .returned ret sets := by
  rcases firstScan_cases args scan with ⟨-, valid⟩ | ⟨stop, scanned, -⟩
  · exact absurd valid invalid
  · simp only [udSelectFrom, scanned]
    cases stop with
    | badf | outside => exact ⟨_, rfl, fun _ _ => by rintro ⟨⟩⟩

def Announces (holds : FdSets → Prop) : Prop :=
  ∃ fuel ret sets last, udSelect args sleep (fun _ => scan) fuel =
    some (.returned ret sets, last) ∧ 0 < ret ∧ holds sets

theorem announces_iff (holds : FdSets → Prop) :
    Announces args sleep scan holds ↔
      ValidCall args scan ∧ AnyReady args scan ∧ args.readfds ≠ none ∧ args.writefds ≠ none ∧
        holds ⟨some (progressAt args scan args.nfds.toNat).resRead,
          some (progressAt args scan args.nfds.toNat).resWrite, args.exceptfds⟩ := by
  constructor
  · rintro ⟨fuel, ret, sets, last, ended, positive, held⟩
    cases fuel with
    | zero => cases ended
    | succ fuel =>
      by_cases valid : ValidCall args scan
      · by_cases ready : AnyReady args scan
        · have finished := (udSelectFrom_ready args sleep scan valid ready fuel 0 false).symm.trans
            ended
          have retval : 0 < (progressAt args scan args.nfds.toNat).retval := ready
          simp only [udSelectFinish, retval, if_true, Option.some.injEq, Prod.mk.injEq]
            at finished
          cases read : args.readfds with
          | none => simp [read] at finished
          | some readSet =>
            cases write : args.writefds with
            | none => simp [read, write] at finished
            | some writeSet =>
              simp only [read, write, SelectOutcome.returned.injEq] at finished
              obtain ⟨⟨-, rfl⟩, -⟩ := finished
              exact ⟨valid, ready, by rintro ⟨⟩, by rintro ⟨⟩, held⟩
        · have zero := (udSelectFrom_idle args sleep scan valid ready (fuel + 1) 0 false).2 ret
            sets last ended
          omega
      · obtain ⟨outcome, stopped, never⟩ :=
          udSelectFrom_invalid args sleep scan valid fuel 0 false
        cases stopped.symm.trans ended
        exact absurd rfl (never ret sets)
  · rintro ⟨valid, ready, read, write, held⟩
    have retval : 0 < (progressAt args scan args.nfds.toNat).retval := ready
    refine ⟨1, _, _, 0, ?_, retval, held⟩
    rw [udSelect, udSelectFrom_ready args sleep scan valid ready 0 0 false]
    obtain ⟨readSet, read⟩ := Option.ne_none_iff_exists'.mp read
    obtain ⟨writeSet, write⟩ := Option.ne_none_iff_exists'.mp write
    simp [udSelectFinish, retval, read, write]

theorem ends_iff (blocking : args.timeout = none) :
    (∃ fuel, udSelect args sleep (fun _ => scan) fuel ≠ none) ↔
      (ValidCall args scan → AnyReady args scan) := by
  constructor
  · rintro ⟨fuel, ended⟩ valid
    by_contra idle
    exact ended ((udSelectFrom_idle args sleep scan valid idle fuel 0 false).1 blocking)
  · intro ready
    refine ⟨1, ?_⟩
    unfold udSelect
    by_cases valid : ValidCall args scan
    · rw [udSelectFrom_ready args sleep scan valid (ready valid) 0 0 false]
      exact Option.some_ne_none _
    · obtain ⟨outcome, stopped, -⟩ := udSelectFrom_invalid args sleep scan valid 0 0 false
      rw [stopped]
      exact Option.some_ne_none _

end Passes

section Sockets

variable (args : SelectArgs) (fds : Fds Sock) (sockets : Sock → SocketState)

def Asked (set : Option FdSet) (fd : Fin fdSetsize) (so : Sock) : Prop :=
  fd ∈ set.getD ∅ ∧ fd.val < args.nfds.toNat ∧ fds fd.val = some so

structure SelectHonest : Prop where
  read : ∀ timeout sleep fd so, Asked args fds args.readfds fd so → ReadCompletes (sockets so) →
    Announces { args with timeout := timeout } sleep (socketScan fds sockets)
      fun sets => fd ∈ sets.readfds.getD ∅
  write : ∀ timeout sleep fd so, Asked args fds args.writefds fd so →
    WriteCompletes (sockets so) →
      Announces { args with timeout := timeout } sleep (socketScan fds sockets)
        fun sets => fd ∈ sets.writefds.getD ∅
  ends : ∀ sleep fd so,
    (Asked args fds args.readfds fd so ∧ ((sockets so).error ≠ 0 ∨
        ((sockets so).acceptConn = false ∧ (sockets so).cantRcvMore = true)) ∨
      Asked args fds args.writefds fd so ∧ (sockets so).error ≠ 0) →
    ∃ fuel, udSelect { args with timeout := none } sleep (fun _ => socketScan fds sockets) fuel ≠
      none

def StuckListener (so : SocketState) : Prop :=
  so.acceptConn = true ∧ so.nbio = true ∧ so.qlen = 0 ∧ so.error ≠ 0

structure NothingHidden : Prop where
  read : ∀ fd so, Asked args fds args.readfds fd so → ¬ ReadHidden (sockets so)
  write : ∀ fd so, Asked args fds args.writefds fd so → ¬ WriteHidden (sockets so)
  sets : AnyReady args (socketScan fds sockets) → args.readfds ≠ none ∧ args.writefds ≠ none
  listeners : ∀ fd so, Asked args fds args.readfds fd so → StuckListener (sockets so) →
    AnyReady args (socketScan fds sockets)

structure NothingCompletes : Prop where
  read : ∀ fd so, Asked args fds args.readfds fd so → ¬ ReadCompletes (sockets so)
  write : ∀ fd so, Asked args fds args.writefds fd so → ¬ WriteCompletes (sockets so)

variable {args fds sockets}

theorem mem_readyBelow_iff {set : Option FdSet} (asked : Asked args fds set fd so) :
    fd ∈ readyBelow fds ready args.nfds.toNat (set.getD ∅) ↔ 0 < ready so := by
  obtain ⟨member, below, opened⟩ := asked
  have found : udFdGetSock fds fd.val = some so := opened
  have answer : readyAt fds ready fd.val = true ↔ 0 < ready so := by
    simp [readyAt, found]
  rw [readyBelow, Finset.mem_filter, answer]
  exact ⟨fun facts => facts.2.2, fun positive => ⟨member, below, positive⟩⟩

theorem asked_of_mem {set : Option FdSet}
    (member : fd ∈ readyBelow fds ready args.nfds.toNat (set.getD ∅)) :
    ∃ so, Asked args fds set fd so ∧ 0 < ready so := by
  obtain ⟨inside, below, isReady⟩ := Finset.mem_filter.mp member
  unfold readyAt at isReady
  cases found : udFdGetSock fds fd.val with
  | none => simp [found] at isReady
  | some so =>
    rw [found] at isReady
    exact ⟨so, ⟨inside, below, found⟩, by simpa using isReady⟩

theorem anyReady_read (asked : Asked args fds args.readfds fd so)
    (ready : 0 < uinetSoreadable (sockets so)) : AnyReady args (socketScan fds sockets) := by
  have member : fd ∈ readyBelow fds (socketScan fds sockets).soreadable args.nfds.toNat
      (args.readfds.getD ∅) := (mem_readyBelow_iff asked).mpr ready
  exact Nat.add_pos_left (Finset.card_pos.mpr ⟨fd, member⟩) _

theorem anyReady_write (asked : Asked args fds args.writefds fd so)
    (ready : 0 < uinetSowritable (sockets so)) : AnyReady args (socketScan fds sockets) := by
  have member : fd ∈ readyBelow fds (socketScan fds sockets).sowritable args.nfds.toNat
      (args.writefds.getD ∅) := (mem_readyBelow_iff asked).mpr ready
  exact Nat.add_pos_right _ (Finset.card_pos.mpr ⟨fd, member⟩)

theorem anyReady_cases (ready : AnyReady args (socketScan fds sockets)) :
    (∃ fd so, Asked args fds args.readfds fd so ∧ 0 < uinetSoreadable (sockets so)) ∨
      ∃ fd so, Asked args fds args.writefds fd so ∧ 0 < uinetSowritable (sockets so) := by
  rcases Nat.add_pos_iff_pos_or_pos.mp ready with read | write
  · obtain ⟨fd, member⟩ := Finset.card_pos.mp read
    obtain ⟨so, asked, positive⟩ := asked_of_mem member
    exact .inl ⟨fd, so, asked, positive⟩
  · obtain ⟨fd, member⟩ := Finset.card_pos.mp write
    obtain ⟨so, asked, positive⟩ := asked_of_mem member
    exact .inr ⟨fd, so, asked, positive⟩

theorem selectHonest_of_nothingHidden (valid : ValidCall args (socketScan fds sockets))
    (shown : NothingHidden args fds sockets) : SelectHonest args fds sockets := by
  have readable : ∀ fd so, Asked args fds args.readfds fd so → ReadCompletes (sockets so) →
      0 < uinetSoreadable (sockets so) := by
    intro fd so asked completes
    exact ((readCompletes_split (sockets so)).1.mp completes).resolve_right (shown.read fd so asked)
  have writable : ∀ fd so, Asked args fds args.writefds fd so → WriteCompletes (sockets so) →
      0 < uinetSowritable (sockets so) := by
    intro fd so asked completes
    exact ((writeCompletes_split (sockets so)).1.mp completes).resolve_right
      (shown.write fd so asked)
  refine ⟨?_, ?_, ?_⟩
  · intro timeout sleep fd so asked completes
    have ready := readable fd so asked completes
    have any := anyReady_read asked ready
    obtain ⟨read, write⟩ := shown.sets any
    exact (announces_iff { args with timeout := timeout } sleep _ _).mpr
      ⟨valid, any, read, write, (mem_readyBelow_iff asked).mpr ready⟩
  · intro timeout sleep fd so asked completes
    have ready := writable fd so asked completes
    have any := anyReady_write asked ready
    obtain ⟨read, write⟩ := shown.sets any
    exact (announces_iff { args with timeout := timeout } sleep _ _).mpr
      ⟨valid, any, read, write, (mem_readyBelow_iff asked).mpr ready⟩
  · intro sleep fd so bad
    refine (ends_iff { args with timeout := none } sleep _ rfl).mpr fun _ => ?_
    rcases bad with ⟨asked, failed⟩ | ⟨asked, failed⟩
    · by_cases stuck : StuckListener (sockets so)
      · exact shown.listeners fd so asked stuck
      · refine anyReady_read asked (readable fd so asked ((readCompletes_iff _).mpr ?_))
        cases listening : (sockets so).acceptConn with
        | false =>
          rw [listening] at failed
          simp only [true_and] at failed
          exact .inr failed
        | true =>
          have error : (sockets so).error ≠ 0 := by simpa [listening] using failed
          refine ⟨?_, .inl error⟩
          rintro ⟨nbio, empty⟩
          exact stuck ⟨listening, nbio, empty, error⟩
    · refine anyReady_write asked (writable fd so asked ((writeCompletes_iff _).mpr ?_))
      exact .inr (.inl failed)

theorem nothingHidden_of_selectHonest (valid : ValidCall args (socketScan fds sockets))
    (honest : SelectHonest args fds sockets) : NothingHidden args fds sockets := by
  refine ⟨?_, ?_, ?_, ?_⟩
  · intro fd so asked hidden
    have completes := (readCompletes_split (sockets so)).1.mpr (.inr hidden)
    obtain ⟨-, -, -, -, member⟩ := (announces_iff _ _ _ _).mp
      (honest.read none 0 fd so asked completes)
    exact (readCompletes_split (sockets so)).2 ⟨(mem_readyBelow_iff asked).mp member, hidden⟩
  · intro fd so asked hidden
    have completes := (writeCompletes_split (sockets so)).1.mpr (.inr hidden)
    obtain ⟨-, -, -, -, member⟩ := (announces_iff _ _ _ _).mp
      (honest.write none 0 fd so asked completes)
    exact (writeCompletes_split (sockets so)).2 ⟨(mem_readyBelow_iff asked).mp member, hidden⟩
  · intro any
    rcases anyReady_cases any with ⟨fd, so, asked, ready⟩ | ⟨fd, so, asked, ready⟩
    · have completes := (readCompletes_split (sockets so)).1.mpr (.inl ready)
      obtain ⟨-, -, read, write, -⟩ := (announces_iff _ _ _ _).mp
        (honest.read none 0 fd so asked completes)
      exact ⟨read, write⟩
    · have completes := (writeCompletes_split (sockets so)).1.mpr (.inl ready)
      obtain ⟨-, -, read, write, -⟩ := (announces_iff _ _ _ _).mp
        (honest.write none 0 fd so asked completes)
      exact ⟨read, write⟩
  · intro fd so asked stuck
    have ended := honest.ends 0 fd so (.inl ⟨asked, .inl stuck.2.2.2⟩)
    exact (ends_iff { args with timeout := none } 0 _ rfl).mp ended valid

theorem selectHonest_invalid_iff (invalid : ¬ ValidCall args (socketScan fds sockets)) :
    SelectHonest args fds sockets ↔ NothingCompletes args fds sockets := by
  constructor
  · intro honest
    refine ⟨?_, ?_⟩
    · intro fd so asked completes
      exact invalid ((announces_iff _ _ _ _).mp (honest.read none 0 fd so asked completes)).1
    · intro fd so asked completes
      exact invalid ((announces_iff _ _ _ _).mp (honest.write none 0 fd so asked completes)).1
  · intro quiet
    refine ⟨?_, ?_, ?_⟩
    · intro _ _ fd so asked completes
      exact absurd completes (quiet.read fd so asked)
    · intro _ _ fd so asked completes
      exact absurd completes (quiet.write fd so asked)
    · intro sleep fd so _
      exact (ends_iff { args with timeout := none } sleep _ rfl).mpr fun valid =>
        absurd valid invalid

/-- `ud_select` announces what would complete exactly when the sockets it is asked
about are in no hidden state, or nothing completes and the call is refused. -/
theorem udSelect_honest_iff (args : SelectArgs) (fds : Fds Sock) (sockets : Sock → SocketState) :
    SelectHonest args fds sockets ↔
      (ValidCall args (socketScan fds sockets) ∧ NothingHidden args fds sockets) ∨
        (¬ ValidCall args (socketScan fds sockets) ∧ NothingCompletes args fds sockets) := by
  by_cases valid : ValidCall args (socketScan fds sockets)
  · simp only [valid, not_true_eq_false, true_and, false_and, or_false]
    exact ⟨nothingHidden_of_selectHonest valid, selectHonest_of_nothingHidden valid⟩
  · simp only [valid, not_false_eq_true, true_and, false_and, false_or]
    exact selectHonest_invalid_iff valid

def idleSocket (error : Int) (cantRcvMore : Bool) : SocketState where
  dgram := false
  acceptConn := false
  nbio := false
  connected := true
  connecting := false
  disconnected := false
  qlen := 0
  error := error
  rcvCc := 0
  rcvLowat := 1
  cantRcvMore := cantRcvMore
  sndHiwat := 65536
  sndCc := 0
  sndMbmax := 65536
  sndMbcnt := 0
  sndLowat := 2048
  cantSendMore := false
  sndLowat_pos := by decide

def waitThree (writefds : FdSet) : SelectArgs where
  readfds := some {fdThree}
  writefds := some writefds
  exceptfds := none
  nfds := 4
  timeout := none

def tableThree : Fds Unit := fun fd => if fd = 3 then some () else none

theorem udSelect_closed_peer_loops :
    ReadCompletes (idleSocket 0 true) ∧
      (∀ sleep fuel, udSelect (waitThree ∅) sleep
        (fun _ => socketScan tableThree fun _ => idleSocket 0 true) fuel = none) ∧
      ¬ SelectHonest (waitThree ∅) tableThree fun _ => idleSocket 0 true := by
  have valid : ValidCall (waitThree ∅) (socketScan tableThree fun _ => idleSocket 0 true) := by
    refine ⟨.inl (by decide), ?_⟩
    rintro ⟨fd, requested, -, free⟩
    have member : fd = fdThree := by simpa [Requested, waitThree] using requested
    subst member
    cases free
  have idle : ¬ AnyReady (waitThree ∅) (socketScan tableThree fun _ => idleSocket 0 true) := by
    intro any
    rcases anyReady_cases any with ⟨fd, so, -, ready⟩ | ⟨fd, so, asked, -⟩
    · exact absurd ready (by decide)
    · have member : fd ∈ (∅ : FdSet) := asked.1
      exact absurd member (Finset.notMem_empty fd)
  have loops : ∀ sleep fuel, udSelect (waitThree ∅) sleep
      (fun _ => socketScan tableThree fun _ => idleSocket 0 true) fuel = none := fun sleep fuel =>
    (udSelectFrom_idle (waitThree ∅) sleep _ valid idle fuel 0 false).1 rfl
  refine ⟨(readCompletes_iff _).mpr (.inr (.inr rfl)), loops, ?_⟩
  intro honest
  have asked : Asked (waitThree ∅) tableThree (waitThree ∅).readfds fdThree () :=
    ⟨Finset.mem_singleton_self _, by decide, rfl⟩
  obtain ⟨fuel, ended⟩ := honest.ends 0 fdThree () (.inl ⟨asked, .inr ⟨rfl, rfl⟩⟩)
  exact ended (loops 0 fuel)

end Sockets

end Libunsod.Udsock
