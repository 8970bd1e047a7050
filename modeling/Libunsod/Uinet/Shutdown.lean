import Libunsod.Base.Fairness
import Libunsod.Base.Headcount

/-!
`uinet_shutdown` and the thread `shutdown_helper`, which talk over one stream of requests and one
of responses. A response belongs to no caller in particular. What holds is a balance: the requests
on the way, the one being served and the responses on the way are as many as the callers that wait.
-/

namespace Libunsod.Uinet

open Runs Headcount

inductive CallPhase where
  | idle
  | sending (signo : BitVec 8)
  | waiting
  deriving DecidableEq

def CallPhase.isWaiting : CallPhase → Bool
  | .waiting => true
  | _ => false

def CallPhase.isActive : CallPhase → Bool
  | .idle => false
  | _ => true

inductive HelperPhase (Inst : Type) where
  | reading
  | locking (attempts : Nat)
  | sleeping (attempts : Nat)
  | shutting (haveLock : Bool) (left : List Inst)
  | responding

def HelperPhase.isBusy {Inst : Type} : HelperPhase Inst → Bool
  | .reading => false
  | _ => true

structure ShutState (Caller Inst : Type) where
  requests : List (BitVec 8)
  responses : Nat
  helper : HelperPhase Inst
  shutdownComplete : Bool
  locked : Bool
  shut : List Inst
  callers : Caller → CallPhase

inductive ShutStep (Caller : Type) where
  | call (caller : Caller) (signo : BitVec 32)
  | send (caller : Caller)
  | receive (caller : Caller)
  | read
  | tryLock (got : Bool)
  | wake
  | shutdown
  | finish
  | respond

def lockAttempts : Nat := 5

namespace ShutState

variable {Caller Inst : Type} [DecidableEq Caller]

def start : ShutState Caller Inst :=
  ⟨[], 0, .reading, false, false, [], fun _ => .idle⟩

def setCaller (state : ShutState Caller Inst) (caller : Caller) (phase : CallPhase) :
    ShutState Caller Inst :=
  { state with callers := Function.update state.callers caller phase }

def Enabled (state : ShutState Caller Inst) : ShutStep Caller → Prop
  | .call caller _ => state.callers caller = .idle
  | .send caller => ∃ signo, state.callers caller = .sending signo
  | .receive caller => state.callers caller = .waiting ∧ 0 < state.responses
  | .read => state.helper = .reading ∧ state.requests ≠ []
  | .tryLock _ => ∃ attempts, state.helper = .locking attempts
  | .wake => ∃ attempts, state.helper = .sleeping attempts
  | .shutdown => ∃ haveLock first rest, state.helper = .shutting haveLock (first :: rest)
  | .finish => ∃ haveLock, state.helper = .shutting haveLock []
  | .respond => state.helper = .responding

def wakes (instances : List Inst) (attempts : Nat) : HelperPhase Inst :=
  if attempts + 1 < lockAttempts then .locking (attempts + 1) else .shutting false instances

def step (instances : List Inst) (state : ShutState Caller Inst) :
    ShutStep Caller → ShutState Caller Inst
  | .call caller signo => state.setCaller caller (.sending (signo.setWidth 8))
  | .send caller =>
      match state.callers caller with
      | .sending signo =>
          { state.setCaller caller .waiting with requests := state.requests ++ [signo] }
      | _ => state
  | .receive caller =>
      { state.setCaller caller .idle with responses := state.responses - 1 }
  | .read =>
      { state with
        requests := state.requests.tail
        helper := if state.shutdownComplete then .responding else .locking 0 }
  | .tryLock got =>
      match state.helper with
      | .locking attempts =>
          if got then { state with helper := .shutting true instances, locked := true }
          else { state with helper := .sleeping attempts }
      | _ => state
  | .wake =>
      match state.helper with
      | .sleeping attempts => { state with helper := wakes instances attempts }
      | _ => state
  | .shutdown =>
      match state.helper with
      | .shutting haveLock (first :: rest) =>
          { state with helper := .shutting haveLock rest, shut := state.shut ++ [first] }
      | _ => state
  | .finish =>
      match state.helper with
      | .shutting haveLock [] =>
          { state with
            helper := .responding
            shutdownComplete := true
            locked := if haveLock then false else state.locked }
      | _ => state
  | .respond => { state with helper := .reading, responses := state.responses + 1 }

end ShutState

section Moves

variable {Caller Inst : Type} [DecidableEq Caller]

def shutMove (instances : List Inst) :
    ShutState Caller Inst → ShutStep Caller → ShutState Caller Inst → Prop :=
  Guarded ShutState.Enabled (ShutState.step instances)

def ShutReady (state : ShutState Caller Inst) : Option Caller → Prop
  | none => state.helper.isBusy = true ∨ state.requests ≠ []
  | some caller => (∃ signo, state.callers caller = .sending signo) ∨
      state.callers caller = .waiting ∧ 0 < state.responses

def shutActor : Option (ShutStep Caller) → Option (Option Caller)
  | none => none
  | some (.call ..) => none
  | some (.send caller) => some (some caller)
  | some (.receive caller) => some (some caller)
  | some _ => some none

end Moves

namespace ShutState

variable {Caller Inst : Type}

inductive Moves [DecidableEq Caller] (instances : List Inst) (state : ShutState Caller Inst) :
    ShutStep Caller → ShutState Caller Inst → Prop
  | call {caller : Caller} (signo : BitVec 32) : state.callers caller = .idle →
      state.Moves instances (.call caller signo)
        (state.setCaller caller (.sending (signo.setWidth 8)))
  | send {caller : Caller} {signo : BitVec 8} : state.callers caller = .sending signo →
      state.Moves instances (.send caller)
        { state.setCaller caller .waiting with requests := state.requests ++ [signo] }
  | receive {caller : Caller} : state.callers caller = .waiting → 0 < state.responses →
      state.Moves instances (.receive caller)
        { state.setCaller caller .idle with responses := state.responses - 1 }
  | skip {first : BitVec 8} {rest : List (BitVec 8)} : state.helper = .reading →
      state.requests = first :: rest → state.shutdownComplete = true →
      state.Moves instances .read { state with requests := rest, helper := .responding }
  | begin {first : BitVec 8} {rest : List (BitVec 8)} : state.helper = .reading →
      state.requests = first :: rest → state.shutdownComplete ≠ true →
      state.Moves instances .read { state with requests := rest, helper := .locking 0 }
  | lock {attempts : Nat} : state.helper = .locking attempts →
      state.Moves instances (.tryLock true)
        { state with helper := .shutting true instances, locked := true }
  | pause {attempts : Nat} : state.helper = .locking attempts →
      state.Moves instances (.tryLock false) { state with helper := .sleeping attempts }
  | retry {attempts : Nat} : state.helper = .sleeping attempts → attempts + 1 < lockAttempts →
      state.Moves instances .wake { state with helper := .locking (attempts + 1) }
  | giveUp {attempts : Nat} : state.helper = .sleeping attempts →
      ¬ attempts + 1 < lockAttempts →
      state.Moves instances .wake { state with helper := .shutting false instances }
  | shutdown {haveLock : Bool} {first : Inst} {rest : List Inst} :
      state.helper = .shutting haveLock (first :: rest) → state.Moves instances .shutdown
        { state with helper := .shutting haveLock rest, shut := state.shut ++ [first] }
  | finish {haveLock : Bool} : state.helper = .shutting haveLock [] →
      state.Moves instances .finish
        { state with
          helper := .responding
          shutdownComplete := true
          locked := if haveLock then false else state.locked }
  | respond : state.helper = .responding → state.Moves instances .respond
      { state with helper := .reading, responses := state.responses + 1 }

theorem moves_of [DecidableEq Caller] {instances : List Inst} {state next : ShutState Caller Inst}
    {label : ShutStep Caller} (moved : shutMove instances state label next) :
    state.Moves instances label next := by
  obtain ⟨enabled, rfl⟩ := moved
  cases label with
  | call caller signo => exact .call signo enabled
  | send caller =>
    obtain ⟨signo, sending⟩ := enabled
    simp only [step, sending]
    exact .send sending
  | receive caller => exact .receive enabled.1 enabled.2
  | read =>
    obtain ⟨reading, some_⟩ := enabled
    obtain ⟨first, rest, bytes⟩ := List.exists_cons_of_ne_nil some_
    simp only [step, bytes, List.tail_cons]
    split
    next complete => exact .skip reading bytes complete
    next notYet => exact .begin reading bytes notYet
  | tryLock got =>
    obtain ⟨attempts, locking⟩ := enabled
    simp only [step, locking]
    cases got with
    | true => exact .lock locking
    | false => exact .pause locking
  | wake =>
    obtain ⟨attempts, sleeping⟩ := enabled
    simp only [step, sleeping, wakes]
    split
    next more => exact .retry sleeping more
    next last => exact .giveUp sleeping last
  | shutdown =>
    obtain ⟨haveLock, first, rest, shutting⟩ := enabled
    simp only [step, shutting]
    exact .shutdown shutting
  | finish =>
    obtain ⟨haveLock, shutting⟩ := enabled
    simp only [step, shutting]
    exact .finish shutting
  | respond => exact .respond enabled

def Fits (instances : List Inst) (state : ShutState Caller Inst) : Prop :=
  match state.helper with
  | .reading => state.locked = false ∧
      (state.shutdownComplete = true ∧ state.shut = instances ∨
        state.shutdownComplete = false ∧ state.shut = [] ∧ state.responses = 0)
  | .locking attempts => attempts < lockAttempts ∧ state.locked = false ∧
      state.shutdownComplete = false ∧ state.shut = [] ∧ state.responses = 0
  | .sleeping attempts => attempts < lockAttempts ∧ state.locked = false ∧
      state.shutdownComplete = false ∧ state.shut = [] ∧ state.responses = 0
  | .shutting haveLock left => state.locked = haveLock ∧ state.shutdownComplete = false ∧
      state.shut ++ left = instances ∧ state.responses = 0
  | .responding => state.locked = false ∧ state.shutdownComplete = true ∧ state.shut = instances

variable {instances : List Inst} {state next : ShutState Caller Inst}

theorem Fits.prefix_ (fits : state.Fits instances) : state.shut <+: instances := by
  unfold Fits at fits
  split at fits
  · rcases fits.2 with ⟨_, all⟩ | ⟨_, none, _⟩
    · rw [all]
    · rw [none]
      exact List.nil_prefix
  · rw [fits.2.2.2.1]
    exact List.nil_prefix
  · rw [fits.2.2.2.1]
    exact List.nil_prefix
  · exact ⟨_, fits.2.2.1⟩
  · rw [fits.2.2]

theorem Fits.answered (fits : state.Fits instances) (some_ : 0 < state.responses) :
    state.shutdownComplete = true ∧ state.shut = instances := by
  unfold Fits at fits
  split at fits
  · rcases fits.2 with all | ⟨_, _, none⟩
    · exact all
    · omega
  · omega
  · omega
  · omega
  · exact fits.2

theorem Fits.of_caller (fits : state.Fits instances) (helper : next.helper = state.helper)
    (complete : next.shutdownComplete = state.shutdownComplete)
    (locked : next.locked = state.locked) (shut : next.shut = state.shut)
    (fewer : next.responses ≤ state.responses) : next.Fits instances := by
  unfold Fits at fits ⊢
  rw [helper, complete, locked, shut]
  have none : state.responses = 0 → next.responses = 0 := by omega
  split at fits
  · refine ⟨fits.1, fits.2.imp id ?_⟩
    rintro ⟨notYet, empty, zero⟩
    exact ⟨notYet, empty, none zero⟩
  · exact ⟨fits.1, fits.2.1, fits.2.2.1, fits.2.2.2.1, none fits.2.2.2.2⟩
  · exact ⟨fits.1, fits.2.1, fits.2.2.1, fits.2.2.2.1, none fits.2.2.2.2⟩
  · exact ⟨fits.1, fits.2.1, fits.2.2.1, none fits.2.2.2⟩
  · exact fits

variable [Fintype Caller]

def Balance (state : ShutState Caller Inst) : Prop :=
  state.requests.length + state.helper.isBusy.toNat + state.responses =
    headcount CallPhase.isWaiting state.callers

structure Sound (instances : List Inst) (state : ShutState Caller Inst) : Prop where
  balance : state.Balance
  fits : state.Fits instances

theorem Sound.start : (start : ShutState Caller Inst).Sound instances := by
  constructor
  · exact (headcount_const rfl).symm
  · exact ⟨rfl, .inr ⟨rfl, rfl, rfl⟩⟩

theorem Sound.helper_ready (sound : state.Sound instances) {caller : Caller}
    (waiting : state.callers caller = .waiting) (zero : state.responses = 0) :
    ShutReady state none := by
  have someone : 0 < headcount CallPhase.isWaiting state.callers := by
    apply headcount_pos
    rw [waiting]
    rfl
  have balance := sound.balance
  unfold Balance at balance
  by_cases empty : state.requests = []
  · left
    rw [empty, zero] at balance
    cases busy : state.helper.isBusy with
    | true => rfl
    | false =>
      rw [busy] at balance
      simp only [List.length_nil, Bool.toNat_false] at balance
      omega
  · exact .inr empty

variable [DecidableEq Caller]

theorem waiting_update (callers : Caller → CallPhase) (caller : Caller) (phase : CallPhase) :
    headcount CallPhase.isWaiting (Function.update callers caller phase) +
        (callers caller).isWaiting.toNat =
      headcount CallPhase.isWaiting callers + phase.isWaiting.toNat :=
  headcount_update ..

theorem Sound.step (sound : state.Sound instances) {label : ShutStep Caller}
    (moves : state.Moves instances label next) : next.Sound instances := by
  obtain ⟨balance, fits⟩ := sound
  unfold Balance at balance
  cases moves with
  | @call caller signo idle =>
    have heads := waiting_update state.callers caller (.sending (signo.setWidth 8))
    rw [idle] at heads
    exact ⟨balance.trans heads.symm, fits.of_caller rfl rfl rfl rfl (Nat.le_refl _)⟩
  | @send caller signo sending =>
    have heads := waiting_update state.callers caller .waiting
    simp only [sending, CallPhase.isWaiting, Bool.toNat_false, Bool.toNat_true] at heads
    refine ⟨?_, fits.of_caller rfl rfl rfl rfl (Nat.le_refl _)⟩
    simp only [Balance, setCaller, List.length_append, List.length_singleton]
    omega
  | @receive caller waiting some_ =>
    have heads := waiting_update state.callers caller .idle
    simp only [waiting, CallPhase.isWaiting, Bool.toNat_false, Bool.toNat_true] at heads
    refine ⟨?_, fits.of_caller rfl rfl rfl rfl (Nat.sub_le ..)⟩
    simp only [Balance, setCaller]
    omega
  | skip reading bytes complete =>
    unfold Fits at fits
    rw [reading] at balance fits
    rw [bytes] at balance
    refine ⟨balance, fits.1, complete, ?_⟩
    rcases fits.2 with done | ⟨notYet, -⟩
    · exact done.2
    · cases notYet.symm.trans complete
  | begin reading bytes notYet =>
    unfold Fits at fits
    rw [reading] at balance fits
    rw [bytes] at balance
    exact ⟨balance, by decide, fits.1,
      fits.2.resolve_left fun done => notYet done.1⟩
  | lock locking =>
    unfold Fits at fits
    rw [locking] at balance fits
    obtain ⟨-, -, notYet, none, zero⟩ := fits
    exact ⟨balance, rfl, notYet, by rw [none]; rfl, zero⟩
  | pause locking =>
    unfold Fits at fits
    rw [locking] at balance fits
    exact ⟨balance, fits⟩
  | retry sleeping more =>
    unfold Fits at fits
    rw [sleeping] at balance fits
    exact ⟨balance, more, fits.2⟩
  | giveUp sleeping =>
    unfold Fits at fits
    rw [sleeping] at balance fits
    obtain ⟨-, unlocked, notYet, none, zero⟩ := fits
    exact ⟨balance, unlocked, notYet, by rw [none]; rfl, zero⟩
  | shutdown shutting =>
    unfold Fits at fits
    rw [shutting] at balance fits
    obtain ⟨locked, notYet, all, zero⟩ := fits
    refine ⟨balance, locked, notYet, ?_, zero⟩
    rw [← all, List.append_assoc]
    rfl
  | @finish haveLock shutting =>
    unfold Fits at fits
    rw [shutting] at balance fits
    obtain ⟨locked, -, all, -⟩ := fits
    rw [List.append_nil] at all
    refine ⟨balance, ?_, rfl, all⟩
    cases haveLock with
    | true => rfl
    | false => exact locked
  | respond responding =>
    unfold Fits at fits
    rw [responding] at balance fits
    exact ⟨(Nat.add_right_comm _ 1 _).symm.trans balance, fits.1, .inl fits.2⟩

theorem sound_of_run {labels : List (ShutStep Caller)}
    (run : Run (shutMove instances) (ShutState.start : ShutState Caller Inst) labels state) :
    state.Sound instances := by
  apply run.invariant (Sound instances) Sound.start
  intro before label after sound moved
  exact sound.step (moves_of moved)

end ShutState

end Libunsod.Uinet
