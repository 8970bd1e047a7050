import Libunsod.Base.Runs
import Mathlib.Data.BitVec
import Mathlib.Logic.Function.Basic

/-!
The order in which the locks of a coupled pair of passive-reassembly sockets are taken. It is
meant to be the same from either socket, which takes `SO_PASSIVECLNT` in the options of exactly
one of them. `uinet_soaccept` stores that flag in `so_state`, so the two sockets always agree on
it, the two orders are opposite and two threads can block each other.
-/

namespace Libunsod.Netinet

open Runs
open Function (update_of_ne update_self)

def soAcceptconn : BitVec 32 := 0x00000002#32
def soPassive : BitVec 32 := 0x00020000#32
def soPassiveclnt : BitVec 32 := 0x00040000#32
def ssNofdref : BitVec 16 := 0x0001#16
def ssNbio : BitVec 16 := 0x0100#16

def settable : List (BitVec 32) :=
  [0x1#32, 0x8#32, 0x10#32, 0x40#32, 0x80#32, 0x20#32, 0x4#32, 0x200#32, 0x100#32, 0x400#32,
    0x2000#32, 0x800#32, 0x8000#32, 0x4000#32, 0x10000#32, soPassive]

structure PassiveSocket where
  soOptions : BitVec 32
  soState : BitVec 16
  soPassivePeer : Option Nat
  born : Bool
  accepted : Bool

namespace PassiveSocket

def unborn : PassiveSocket := ⟨0#32, 0#16, none, false, false⟩

def hasOption (socket : PassiveSocket) (option : BitVec 32) : Bool :=
  socket.soOptions &&& option != 0#32

def setOptions (socket : PassiveSocket) (option : BitVec 32) : PassiveSocket :=
  { socket with soOptions := socket.soOptions ||| option }

def clearOptions (socket : PassiveSocket) (option : BitVec 32) : PassiveSocket :=
  { socket with soOptions := socket.soOptions &&& ~~~option }

def sonewconn (options : BitVec 32) (state : BitVec 16) : PassiveSocket where
  soOptions := options &&& ~~~(soAcceptconn ||| soPassive)
  soState := state ||| ssNofdref
  soPassivePeer := none
  born := true
  accepted := false

def sonewconnPassiveClient (options : BitVec 32) (state : BitVec 16) : PassiveSocket where
  soOptions := options &&& ~~~soAcceptconn
  soState := state ||| ssNofdref
  soPassivePeer := none
  born := true
  accepted := false

end PassiveSocket

abbrev PassiveSockets := Nat → PassiveSocket

namespace PassiveSockets

def start : PassiveSockets := fun _ => .unborn

def syncacheSocket (sockets : PassiveSockets) (so client : Nat) (options : BitVec 32)
    (state : BitVec 16) : PassiveSockets :=
  Function.update
    (Function.update sockets client
      { PassiveSocket.sonewconnPassiveClient options state with soPassivePeer := some so })
    so { (PassiveSocket.sonewconn options state).setOptions soPassive with
      soPassivePeer := some client }

def uinetSoaccept (sockets : PassiveSockets) (so : Nat) (headState : BitVec 16) :
    PassiveSockets :=
  let accepted := { sockets so with
    soState := ((sockets so).soState ||| (headState &&& ssNbio)) &&& ~~~ssNofdref
    accepted := true }
  let first := Function.update sockets so accepted
  match accepted.soPassivePeer with
  | some peer =>
      if accepted.hasOption soPassive then
        Function.update first peer { first peer with
          soState := ((first peer).soState.setWidth 32 |||
            ((headState &&& ssNbio).setWidth 32 ||| soPassiveclnt)).setWidth 16
          accepted := true }
      else first
  | none => first

def sosetopt (sockets : PassiveSockets) (so : Nat) (name : BitVec 32) (on : Bool) :
    PassiveSockets :=
  Function.update sockets so
    (if on then (sockets so).setOptions name else (sockets so).clearOptions name)

def convertToActive (sockets : PassiveSockets) (so : Nat) : PassiveSockets :=
  match (sockets so).soPassivePeer with
  | some peer =>
      let first := Function.update sockets so
        ((sockets so).clearOptions (soPassive ||| soPassiveclnt))
      Function.update first peer ((first peer).clearOptions (soPassive ||| soPassiveclnt))
  | none => sockets

end PassiveSockets

inductive PassiveStep where
  | syncacheSocket (so client : Nat) (options : BitVec 32) (state : BitVec 16)
  | accept (so : Nat) (headState : BitVec 16)
  | setopt (so : Nat) (name : BitVec 32) (on : Bool)
  | convert (so : Nat)

def PassiveSockets.Enabled (sockets : PassiveSockets) : PassiveStep → Prop
  | .syncacheSocket so client _ _ => (sockets so).born = false ∧ (sockets client).born = false ∧
      so ≠ client
  | .accept so _ => (sockets so).born = true ∧ (sockets so).accepted = false
  | .setopt so name _ => (sockets so).born = true ∧ name ∈ settable
  | .convert so => (sockets so).born = true

def PassiveSockets.step (sockets : PassiveSockets) : PassiveStep → PassiveSockets
  | .syncacheSocket so client options state => sockets.syncacheSocket so client options state
  | .accept so headState => sockets.uinetSoaccept so headState
  | .setopt so name on => sockets.sosetopt so name on
  | .convert so => sockets.convertToActive so

def passiveMove : PassiveSockets → PassiveStep → PassiveSockets → Prop :=
  Guarded PassiveSockets.Enabled PassiveSockets.step

inductive PassiveLock where
  | sock (so : Nat)
  | inp (so : Nat)
  deriving DecidableEq

def orderedSocks (sockets : PassiveSockets) (so : Nat) : Option Nat × Option Nat :=
  if (sockets so).hasOption soPassiveclnt then ((sockets so).soPassivePeer, some so)
  else (some so, (sockets so).soPassivePeer)

def sockLocks (sockets : PassiveSockets) (so : Nat) : Option PassiveLock × Option PassiveLock :=
  ((orderedSocks sockets so).1.map .sock, (orderedSocks sockets so).2.map .sock)

def inpLocks (sockets : PassiveSockets) (so : Nat) : Option PassiveLock × Option PassiveLock :=
  ((orderedSocks sockets so).1.map .inp, (orderedSocks sockets so).2.map .inp)

section Locks

inductive PairPc where
  | outside
  | atPrimary (so : Nat)
  | atSecondary (so : Nat)
  | inside (so : Nat)
  | leaving (so : Nat)

structure PairLocks where
  pcs : Nat → PairPc
  holder : PassiveLock → Option Nat

inductive PairStep where
  | enter (thread so : Nat)
  | lock (thread : Nat)
  | unlock (thread : Nat)

namespace PairLocks

def start : PairLocks := ⟨fun _ => .outside, fun _ => none⟩

variable (order : Nat → Option PassiveLock × Option PassiveLock)

def wants (locks : PairLocks) (thread : Nat) : Option PassiveLock :=
  match locks.pcs thread with
  | .atPrimary so => (order so).1
  | .atSecondary so => (order so).2
  | _ => none

def Enabled (locks : PairLocks) : PairStep → Prop
  | .enter thread _ => locks.pcs thread = .outside
  | .lock thread => ∃ lock, locks.wants order thread = some lock ∧ locks.holder lock = none
  | .unlock thread => ∃ so, locks.pcs thread = .inside so ∨ locks.pcs thread = .leaving so

def step (locks : PairLocks) : PairStep → PairLocks
  | .enter thread so => { locks with pcs := Function.update locks.pcs thread (.atPrimary so) }
  | .lock thread =>
      match locks.pcs thread with
      | .atPrimary so =>
          match (order so).1 with
          | some lock => ⟨Function.update locks.pcs thread (.atSecondary so),
              Function.update locks.holder lock (some thread)⟩
          | none => locks
      | .atSecondary so =>
          match (order so).2 with
          | some lock => ⟨Function.update locks.pcs thread (.inside so),
              Function.update locks.holder lock (some thread)⟩
          | none => locks
      | _ => locks
  | .unlock thread =>
      match locks.pcs thread with
      | .inside so =>
          match (order so).2 with
          | some lock => ⟨Function.update locks.pcs thread (.leaving so),
              Function.update locks.holder lock none⟩
          | none => locks
      | .leaving so =>
          match (order so).1 with
          | some lock => ⟨Function.update locks.pcs thread .outside,
              Function.update locks.holder lock none⟩
          | none => locks
      | _ => locks

def Deadlocked (locks : PairLocks) (threads : List Nat) : Prop :=
  threads ≠ [] ∧ ∀ thread ∈ threads, ∃ lock, locks.wants order thread = some lock ∧
    ∃ holder ∈ threads, holder ≠ thread ∧ locks.holder lock = some holder

end PairLocks

def pairMove (order : Nat → Option PassiveLock × Option PassiveLock) :
    PairLocks → PairStep → PairLocks → Prop :=
  Guarded (PairLocks.Enabled order) (PairLocks.step order)

theorem opposite_orders_deadlock {order : Nat → Option PassiveLock × Option PassiveLock}
    {so peer : Nat} {first second : PassiveLock} (different : first ≠ second)
    (one : order so = (some first, some second)) (other : order peer = (some second, some first)) :
    ∃ locks, Run (pairMove order) PairLocks.start
        [.enter 0 so, .enter 1 peer, .lock 0, .lock 1] locks ∧ locks.Deadlocked order [0, 1] := by
  have move : ∀ (locks : PairLocks) (label : PairStep), locks.Enabled order label →
      pairMove order locks label (locks.step order label) := fun _ _ enabled => ⟨enabled, rfl⟩
  let entered : PairLocks := ⟨Function.update (Function.update (fun _ => .outside) 0
    (.atPrimary so)) 1 (.atPrimary peer), fun _ => none⟩
  let held : PairLocks := ⟨Function.update entered.pcs 0 (.atSecondary so),
    Function.update entered.holder first (some 0)⟩
  let blocked : PairLocks := ⟨Function.update held.pcs 1 (.atSecondary peer),
    Function.update held.holder second (some 1)⟩
  have enters : Run (pairMove order) PairLocks.start [.enter 0 so, .enter 1 peer] entered :=
    .snoc (.snoc .nil (move PairLocks.start (.enter 0 so) rfl)) (move _ (.enter 1 peer) rfl)
  have locksFirst : pairMove order entered (.lock 0) held := by
    refine ⟨⟨first, ?_, rfl⟩, ?_⟩
    · simp [PairLocks.wants, entered, one]
    · simp [PairLocks.step, entered, held, one]
  have locksSecond : pairMove order held (.lock 1) blocked := by
    refine ⟨⟨second, ?_, ?_⟩, ?_⟩
    · simp [PairLocks.wants, entered, held, other]
    · simp [held, entered, Ne.symm different]
    · simp [PairLocks.step, entered, held, blocked, other]
  refine ⟨blocked, .snoc (.snoc enters locksFirst) locksSecond, by rintro ⟨⟩, ?_⟩
  intro thread member
  rcases List.mem_pair.mp member with rfl | rfl
  · refine ⟨second, ?_, 1, by simp, by simp, ?_⟩
    · simp [PairLocks.wants, blocked, held, one]
    · simp [blocked]
  · refine ⟨first, ?_, 0, by simp, by simp, ?_⟩
    · simp [PairLocks.wants, blocked, held, other]
    · simp [blocked, held, different]

end Locks

section Coupled

def PassiveSockets.Coupled (sockets : PassiveSockets) : Prop :=
  ∀ so peer, (sockets so).soPassivePeer = some peer →
    (sockets so).born = true ∧ so ≠ peer ∧ (sockets peer).soPassivePeer = some so ∧
      (sockets so).hasOption soPassiveclnt = (sockets peer).hasOption soPassiveclnt

variable {sockets : PassiveSockets} {so peer : Nat}

theorem hasOption_clnt (socket : PassiveSocket) :
    socket.hasOption soPassiveclnt = socket.soOptions.getLsbD 18 := by
  have flag : soPassiveclnt = BitVec.twoPow 32 18 := by decide
  have nonzero : BitVec.twoPow 32 18 ≠ 0#32 := by decide
  unfold PassiveSocket.hasOption
  rw [flag, BitVec.and_twoPow]
  split <;> simp_all

theorem setOptions_clnt (socket : PassiveSocket) (option : BitVec 32) :
    (socket.setOptions option).hasOption soPassiveclnt =
      (socket.hasOption soPassiveclnt || option.getLsbD 18) := by
  simp [hasOption_clnt, PassiveSocket.setOptions]

theorem clearOptions_clnt (socket : PassiveSocket) (option : BitVec 32) :
    (socket.clearOptions option).hasOption soPassiveclnt =
      (socket.hasOption soPassiveclnt && !option.getLsbD 18) := by
  simp [hasOption_clnt, PassiveSocket.clearOptions]

theorem settable_clnt : ∀ name ∈ settable, name.getLsbD 18 = false := by
  simp [settable, soPassive]

theorem coupled_start : PassiveSockets.start.Coupled := by
  rintro so peer ⟨⟩

theorem PassiveSockets.Coupled.congr {next : PassiveSockets} (coupled : sockets.Coupled)
    (peers : ∀ so, (next so).soPassivePeer = (sockets so).soPassivePeer)
    (born : ∀ so, (next so).born = (sockets so).born)
    (flag : ∀ so, (next so).hasOption soPassiveclnt = (sockets so).hasOption soPassiveclnt) :
    next.Coupled := by
  intro so peer linked
  rw [peers] at linked
  rw [peers, born, flag, flag]
  exact coupled so peer linked

theorem PassiveSockets.Coupled.update (coupled : sockets.Coupled) {socket : PassiveSocket}
    (linked : socket.soPassivePeer = (sockets so).soPassivePeer)
    (born : socket.born = (sockets so).born)
    (flag : socket.hasOption soPassiveclnt = (sockets so).hasOption soPassiveclnt) :
    PassiveSockets.Coupled (Function.update sockets so socket) := by
  have each : ∀ {Value : Type} (field : PassiveSocket → Value), field socket = field (sockets so) →
      ∀ other, field (Function.update sockets so socket other) = field (sockets other) := by
    intro Value field same other
    by_cases eq : other = so
    · subst eq
      rw [update_self]
      exact same
    · rw [update_of_ne eq]
  exact coupled.congr (each PassiveSocket.soPassivePeer linked) (each PassiveSocket.born born)
    (each (fun socket => socket.hasOption soPassiveclnt) flag)

theorem PassiveSockets.Coupled.pair (coupled : sockets.Coupled) {client : Nat}
    {options : BitVec 32} {state : BitVec 16} (freshSo : (sockets so).born = false)
    (freshClient : (sockets client).born = false) (different : so ≠ client) :
    (sockets.syncacheSocket so client options state).Coupled := by
  have alone : ∀ other target, (sockets other).soPassivePeer = some target →
      other ≠ so ∧ other ≠ client ∧ target ≠ so ∧ target ≠ client := by
    intro other target linked
    obtain ⟨born, -, back, -⟩ := coupled other target linked
    have targetBorn := (coupled target other back).1
    refine ⟨?_, ?_, ?_, ?_⟩ <;> rintro rfl <;> simp_all
  have flags : (PassiveSocket.sonewconnPassiveClient options state).hasOption soPassiveclnt =
      ((PassiveSocket.sonewconn options state).setOptions soPassive).hasOption soPassiveclnt := by
    rw [setOptions_clnt, hasOption_clnt, hasOption_clnt]
    simp [PassiveSocket.sonewconnPassiveClient, PassiveSocket.sonewconn, soAcceptconn, soPassive]
  intro other target linked
  unfold PassiveSockets.syncacheSocket at linked ⊢
  by_cases isSo : other = so
  · subst isSo
    rw [update_self] at linked ⊢
    cases linked
    rw [update_of_ne different.symm, update_self]
    exact ⟨rfl, different, rfl, flags.symm⟩
  · rw [update_of_ne isSo] at linked ⊢
    by_cases isClient : other = client
    · subst isClient
      rw [update_self] at linked ⊢
      cases linked
      rw [update_self]
      exact ⟨rfl, isSo, rfl, flags⟩
    · rw [update_of_ne isClient] at linked ⊢
      obtain ⟨-, -, notSo, notClient⟩ := alone other target linked
      rw [update_of_ne notSo, update_of_ne notClient]
      exact coupled other target linked

theorem convertToActive_socket (linked : (sockets so).soPassivePeer = some peer)
    (different : so ≠ peer) (other : Nat) : sockets.convertToActive so other =
      if other = so ∨ other = peer then
        (sockets other).clearOptions (soPassive ||| soPassiveclnt)
      else sockets other := by
  simp only [PassiveSockets.convertToActive, linked]
  by_cases isPeer : other = peer
  · subst isPeer
    rw [update_self, update_of_ne different.symm, if_pos (.inr rfl)]
  · rw [update_of_ne isPeer]
    by_cases isSo : other = so
    · subst isSo
      rw [update_self, if_pos (.inl rfl)]
    · rw [update_of_ne isSo, if_neg (by simp [isPeer, isSo])]

theorem PassiveSockets.Coupled.convert (coupled : sockets.Coupled)
    (linked : (sockets so).soPassivePeer = some peer) : (sockets.convertToActive so).Coupled := by
  obtain ⟨-, different, back, -⟩ := coupled so peer linked
  have cleared : ∀ socket : PassiveSocket,
      (socket.clearOptions (soPassive ||| soPassiveclnt)).hasOption soPassiveclnt = false := by
    intro socket
    rw [clearOptions_clnt]
    simp [soPassive, soPassiveclnt]
  have socket := convertToActive_socket linked different
  intro other target otherLinked
  have before : (sockets other).soPassivePeer = some target := by
    rw [socket] at otherLinked
    split at otherLinked <;> exact otherLinked
  obtain ⟨born, apart, targetBack, flag⟩ := coupled other target before
  have both : (other = so ∨ other = peer) ↔ (target = so ∨ target = peer) := by
    constructor
    · rintro (rfl | rfl)
      · rw [linked] at before
        exact .inr (Option.some.inj before).symm
      · rw [back] at before
        exact .inl (Option.some.inj before).symm
    · rintro (rfl | rfl)
      · rw [linked] at targetBack
        exact .inr (Option.some.inj targetBack).symm
      · rw [back] at targetBack
        exact .inl (Option.some.inj targetBack).symm
  rw [socket, socket]
  by_cases inside : other = so ∨ other = peer
  · rw [if_pos inside, if_pos (both.mp inside), cleared, cleared]
    exact ⟨born, apart, targetBack, rfl⟩
  · rw [if_neg inside, if_neg fun also => inside (both.mpr also)]
    exact ⟨born, apart, targetBack, flag⟩

theorem PassiveSockets.Coupled.step (coupled : sockets.Coupled) {label : PassiveStep}
    (enabled : sockets.Enabled label) : (sockets.step label).Coupled := by
  cases label with
  | syncacheSocket so client options state => exact coupled.pair enabled.1 enabled.2.1 enabled.2.2
  | accept so headState =>
    have first : PassiveSockets.Coupled (Function.update sockets so { sockets so with
        soState := ((sockets so).soState ||| (headState &&& ssNbio)) &&& ~~~ssNofdref
        accepted := true }) := coupled.update rfl rfl rfl
    simp only [PassiveSockets.step, PassiveSockets.uinetSoaccept]
    split
    · split
      · exact first.update rfl rfl rfl
      · exact first
    · exact first
  | setopt so name on =>
    have outside := settable_clnt name enabled.2
    refine coupled.update ?_ ?_ ?_
    · split <;> rfl
    · split <;> rfl
    · split
      · rw [setOptions_clnt, outside, Bool.or_false]
      · rw [clearOptions_clnt, outside, Bool.not_false, Bool.and_true]
  | convert so =>
    cases linked : (sockets so).soPassivePeer with
    | some peer => exact coupled.convert linked
    | none =>
      simp only [PassiveSockets.step, PassiveSockets.convertToActive, linked]
      exact coupled

theorem orderedSocks_opposite (coupled : sockets.Coupled)
    (linked : (sockets so).soPassivePeer = some peer) :
    ∃ first second, first ≠ second ∧ orderedSocks sockets so = (some first, some second) ∧
      orderedSocks sockets peer = (some second, some first) := by
  obtain ⟨-, different, back, flag⟩ := coupled so peer linked
  unfold orderedSocks
  rw [linked, back, ← flag]
  split
  · exact ⟨peer, so, different.symm, rfl, rfl⟩
  · exact ⟨so, peer, different, rfl, rfl⟩

theorem PassiveSockets.coupled_of_run {labels : List PassiveStep}
    (run : Run passiveMove PassiveSockets.start labels sockets) : sockets.Coupled := by
  refine run.invariant PassiveSockets.Coupled coupled_start fun _ _ _ coupled move => ?_
  obtain ⟨enabled, rfl⟩ := move
  exact coupled.step enabled

end Coupled

/-- The two sockets of every passive pair disagree on the lock order, which can deadlock. -/
theorem passivePair_order_differs {labels : List PassiveStep} {sockets : PassiveSockets}
    (run : Run passiveMove PassiveSockets.start labels sockets) (so peer : Nat)
    (linked : (sockets so).soPassivePeer = some peer) :
    orderedSocks sockets so ≠ orderedSocks sockets peer ∧
    (∃ locks, Run (pairMove (sockLocks sockets)) PairLocks.start
        [.enter 0 so, .enter 1 peer, .lock 0, .lock 1] locks ∧
      locks.Deadlocked (sockLocks sockets) [0, 1]) ∧
    (∃ locks, Run (pairMove (inpLocks sockets)) PairLocks.start
        [.enter 0 so, .enter 1 peer, .lock 0, .lock 1] locks ∧
      locks.Deadlocked (inpLocks sockets) [0, 1]) := by
  obtain ⟨first, second, apart, one, other⟩ :=
    orderedSocks_opposite (PassiveSockets.coupled_of_run run) linked
  have socks : PassiveLock.sock first ≠ .sock second := fun same => apart (PassiveLock.sock.inj same)
  have inps : PassiveLock.inp first ≠ .inp second := fun same => apart (PassiveLock.inp.inj same)
  refine ⟨fun same => ?_, opposite_orders_deadlock socks ?_ ?_,
    opposite_orders_deadlock inps ?_ ?_⟩
  · rw [one, other] at same
    cases same
    exact apart rfl
  · rw [sockLocks, one]
    rfl
  · rw [sockLocks, other]
    rfl
  · rw [inpLocks, one]
    rfl
  · rw [inpLocks, other]
    rfl

def acceptedPair : PassiveSockets :=
  (PassiveSockets.start.syncacheSocket 0 1 (soAcceptconn ||| soPassive) ssNbio).uinetSoaccept 0 ssNbio

theorem acceptedPair_run : Run passiveMove PassiveSockets.start
    [.syncacheSocket 0 1 (soAcceptconn ||| soPassive) ssNbio, .accept 0 ssNbio] acceptedPair :=
  .snoc (.snoc .nil ⟨⟨rfl, rfl, by decide⟩, rfl⟩) ⟨⟨rfl, rfl⟩, rfl⟩

theorem passivePair_accepted_differs :
    (acceptedPair 0).accepted = true ∧ orderedSocks acceptedPair 0 ≠ orderedSocks acceptedPair 1 :=
  ⟨rfl, (passivePair_order_differs acceptedPair_run 0 1 rfl).1⟩

theorem passivePair_deadlocks :
    (acceptedPair 0).accepted = true ∧ (acceptedPair 1).accepted = true ∧
    orderedSocks acceptedPair 0 = (some 0, some 1) ∧
    orderedSocks acceptedPair 1 = (some 1, some 0) ∧
    ∃ locks, Run (pairMove (inpLocks acceptedPair)) PairLocks.start
        [.enter 0 0, .enter 1 1, .lock 0, .lock 1] locks ∧
      locks.Deadlocked (inpLocks acceptedPair) [0, 1] :=
  ⟨rfl, rfl, rfl, rfl, opposite_orders_deadlock (by decide) rfl rfl⟩

end Libunsod.Netinet
