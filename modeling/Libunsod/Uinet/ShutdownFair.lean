import Libunsod.Uinet.Shutdown

/-!
Every call of `uinet_shutdown` returns. While a caller waits and no response is under way, the
balance of the two streams says that the helper has something to do, so a response is under way
again and again. A caller that keeps losing them to other callers needs a scheduler that lets it
read at last; if there are only finitely many calls, it is enough that nobody who stays ready is
kept waiting for ever.
-/

namespace Libunsod.Uinet

open Runs Headcount
open Function (update_of_ne)

variable {signo : BitVec 8}

def HelperPhase.rank {Inst : Type} (total : Nat) : HelperPhase Inst → Nat
  | .reading => 2 * lockAttempts + total + 4
  | .locking attempts => 2 * (lockAttempts - attempts) + total + 2
  | .sleeping attempts => 2 * (lockAttempts - attempts) + total + 1
  | .shutting _ left => left.length + 1
  | .responding => 0

namespace ShutState

variable {Caller Inst : Type} [DecidableEq Caller] {instances : List Inst}
  {state next : ShutState Caller Inst} {label : ShutStep Caller} {caller : Caller}

theorem helper_rank (fits : state.Fits instances) (isHelper : shutActor (some label) = some none)
    (moves : state.Moves instances label next) :
    0 < next.responses ∨
      next.helper.rank instances.length < state.helper.rank instances.length := by
  unfold Fits at fits
  cases moves with
  | call | send | receive => cases isHelper
  | skip reading | begin reading =>
    right
    simp only [reading, HelperPhase.rank, lockAttempts]
    omega
  | lock locking | pause locking =>
    right
    simp only [locking, HelperPhase.rank]
    omega
  | retry sleeping few | giveUp sleeping few =>
    right
    rw [sleeping] at fits
    have few := fits.1
    simp only [sleeping, HelperPhase.rank]
    omega
  | shutdown shutting | finish shutting =>
    right
    simp only [shutting, HelperPhase.rank, List.length_cons]
    omega
  | respond => exact .inl (Nat.succ_pos _)

theorem waiting_stays (waiting : state.callers caller = .waiting)
    (moves : state.Moves instances label next) (notReceive : label ≠ .receive caller) :
    next.callers caller = .waiting := by
  have apart : ∀ {other : Caller} {phase : CallPhase}, state.callers other = phase →
      phase ≠ .waiting → caller ≠ other := by
    rintro other phase rfl different rfl
    exact different waiting
  cases moves with
  | call signo idle => exact (update_of_ne (apart idle (by rintro ⟨⟩)) ..).trans waiting
  | send sending => exact (update_of_ne (apart sending (by rintro ⟨⟩)) ..).trans waiting
  | receive =>
    exact (update_of_ne (by rintro rfl; exact notReceive rfl) ..).trans waiting
  | _ => exact waiting

theorem sending_goes (sending : state.callers caller = .sending signo)
    (moves : state.Moves instances label next) :
    next.callers caller = .sending signo ∧ shutActor (some label) ≠ some (some caller) ∨
      next.callers caller = .waiting := by
  have apart : ∀ {other : Caller} {phase : CallPhase}, state.callers other = phase →
      phase ≠ .sending signo → caller ≠ other := by
    rintro other phase rfl different rfl
    exact different sending
  cases moves with
  | call signo idle =>
    exact .inl ⟨(update_of_ne (apart idle (by rintro ⟨⟩)) ..).trans sending, by rintro ⟨⟩⟩
  | @send other =>
    by_cases own : caller = other
    · subst own
      exact .inr (Function.update_self ..)
    · exact .inl ⟨(update_of_ne own ..).trans sending, by rintro ⟨⟩; exact own rfl⟩
  | receive waiting =>
    have other := apart waiting (by rintro ⟨⟩)
    exact .inl ⟨(update_of_ne other ..).trans sending, by rintro ⟨⟩; exact other rfl⟩
  | _ => exact .inl ⟨sending, by rintro ⟨⟩⟩

theorem responses_stay (moves : state.Moves instances label next)
    (notReceive : ∀ caller, label ≠ .receive caller) : state.responses ≤ next.responses := by
  cases moves with
  | receive => exact absurd rfl (notReceive _)
  | respond => exact Nat.le_succ _
  | _ => exact Nat.le_refl _

variable [Fintype Caller]

theorem active_falls (notCall : ∀ caller signo, label ≠ .call caller signo)
    (moves : state.Moves instances label next) :
    headcount CallPhase.isActive next.callers ≤ headcount CallPhase.isActive state.callers ∧
      ((∃ caller, label = .receive caller) →
        headcount CallPhase.isActive next.callers <
          headcount CallPhase.isActive state.callers) := by
  cases moves with
  | call => exact absurd rfl (notCall _ _)
  | @send caller signo sending =>
    have heads := headcount_update CallPhase.isActive state.callers caller .waiting
    rw [sending] at heads
    exact ⟨Nat.le_of_add_le_add_right (Nat.le_of_eq heads), by rintro ⟨_, ⟨⟩⟩⟩
  | @receive caller waiting =>
    have heads := headcount_update CallPhase.isActive state.callers caller .idle
    simp only [waiting, CallPhase.isActive, Bool.toNat_true, Bool.toNat_false] at heads
    simp only [setCaller]
    exact ⟨by omega, fun _ => by omega⟩
  | _ => exact ⟨Nat.le_refl _, by rintro ⟨_, ⟨⟩⟩⟩

end ShutState

section Executions

open ShutState

variable {Caller Inst : Type} [DecidableEq Caller] {instances : List Inst}
  {execution : Execution (Idling (@shutMove Caller Inst _ instances))} {caller : Caller}
  {time : Nat}

theorem waiting_at (waiting : (execution.states time).callers caller = .waiting)
    (never : ∀ later, time ≤ later → execution.labels later ≠ some (.receive caller)) :
    ∀ later, time ≤ later → (execution.states later).callers caller = .waiting := by
  apply execution.stays (fun state => state.callers caller = .waiting) waiting
  intro later label after taken still moved
  refine waiting_stays still (moves_of moved) ?_
  rintro rfl
  exact never later after taken

theorem receive_of_acts (waiting : (execution.states time).callers caller = .waiting)
    (acts : shutActor (execution.labels time) = some (some caller)) :
    execution.labels time = some (.receive caller) := by
  have moved := execution.step time
  generalize execution.labels time = taken at *
  unfold shutActor at acts
  split at acts <;> cases acts
  · obtain ⟨⟨signo, sending⟩, -⟩ := moved
    cases waiting.symm.trans sending
  · rfl

theorem sending_waits (fair : execution.Fair ShutReady shutActor)
    (sending : (execution.states time).callers caller = .sending signo) :
    ∃ later, time ≤ later ∧ (execution.states later).callers caller = .waiting := by
  obtain ⟨later, -, after, -, waits⟩ := execution.descends fair (some caller) (by rintro ⟨⟩)
    (fun state => state.callers caller = .sending signo) (fun _ => 0)
    (fun _ _ next => next.callers caller = .waiting) sending
    (fun state held => .inl ⟨signo, held⟩) fun later label _ _ held moved => by
      rcases sending_goes held (moves_of moved) with ⟨still, others⟩ | waits
      · exact .inr ⟨still, Nat.le_refl 0, fun acts => absurd acts others⟩
      · exact .inl waits
  exact ⟨later + 1, by omega, waits⟩

variable [Fintype Caller]

theorem response_comes (begins : execution.states 0 = ShutState.start)
    (fair : execution.Fair ShutReady shutActor)
    (waiting : (execution.states time).callers caller = .waiting) :
    ∃ later, time ≤ later ∧ 0 < (execution.states later).responses := by
  by_cases now : 0 < (execution.states time).responses
  · exact ⟨time, Nat.le_refl time, now⟩
  have sound := execution.invariant (Sound instances) (by rw [begins]; exact Sound.start)
    (fun _ _ _ sound moved => sound.step (moves_of moved)) time
  obtain ⟨later, -, after, -, comes⟩ := execution.descends fair none (by rintro ⟨⟩)
    (fun state => state.Sound instances ∧ state.responses = 0 ∧ state.callers caller = .waiting)
    (fun state => state.helper.rank instances.length) (fun _ _ next => 0 < next.responses)
    ⟨sound, by omega, waiting⟩ (fun state held => held.1.helper_ready held.2.2 held.2.1)
    fun later label _ _ held moved => by
      obtain ⟨sound, zero, still⟩ := held
      have moves := moves_of moved
      generalize execution.states (later + 1) = next at moves
      by_cases some_ : 0 < next.responses
      · exact .inl some_
      have notReceive : ∀ other, label ≠ .receive other := by
        rintro other rfl
        have some_ := moved.1.2
        omega
      refine .inr ⟨⟨sound.step moves, by omega, waiting_stays still moves (notReceive caller)⟩, ?_⟩
      by_cases isHelper : shutActor (some label) = some none
      · have less := (helper_rank sound.fits isHelper moves).resolve_left some_
        exact ⟨Nat.le_of_lt less, fun _ => less⟩
      · refine ⟨?_, fun acts => absurd acts isHelper⟩
        cases moves with
        | call | send => exact Nat.le_refl _
        | receive => exact absurd rfl (notReceive _)
        | _ => exact absurd rfl isHelper
  exact ⟨later + 1, by omega, comes⟩

theorem waiting_returns (begins : execution.states 0 = ShutState.start)
    (fair : execution.StronglyFair ShutReady shutActor)
    (waiting : (execution.states time).callers caller = .waiting) :
    ∃ later, time ≤ later ∧ execution.labels later = some (.receive caller) := by
  by_contra never
  have stays := waiting_at waiting fun later after taken => never ⟨later, after, taken⟩
  obtain ⟨later, after, acts⟩ := fair (some caller) time fun later after => by
    obtain ⟨ready, more, some_⟩ := response_comes begins fair.fair (stays later after)
    exact ⟨ready, more, .inr ⟨stays ready (by omega), some_⟩⟩
  exact never ⟨later, after, receive_of_acts (stays later after) acts⟩

theorem waiting_returns_finite (begins : execution.states 0 = ShutState.start)
    (fair : execution.Fair ShutReady shutActor) {last : Nat}
    (noCalls : ∀ later, last ≤ later → ∀ other signo,
      execution.labels later ≠ some (.call other signo))
    (waiting : (execution.states time).callers caller = .waiting) :
    ∃ later, time ≤ later ∧ execution.labels later = some (.receive caller) := by
  by_contra never
  have stays := waiting_at waiting fun later after taken => never ⟨later, after, taken⟩
  have noCall : ∀ later label, max time last ≤ later → execution.labels later = some label →
      ∀ other signo, label ≠ .call other signo := by
    rintro later label after taken other signo rfl
    exact noCalls later (by omega) other signo taken
  obtain ⟨settled, begun, same⟩ := execution.settles
    (fun state => headcount CallPhase.isActive state.callers)
    fun later (after : max time last ≤ later) =>
      execution.next (fun state => headcount CallPhase.isActive state.callers ≤ _)
      (Nat.le_refl _) fun label taken moved =>
        (active_falls (noCall later label after taken) (moves_of moved)).1
  have noReturn : ∀ later, settled ≤ later → ∀ other,
      execution.labels later ≠ some (.receive other) := by
    intro later after other received
    have moved := execution.step later
    rw [received] at moved
    have less := (active_falls (noCall later _ (by omega) received) (moves_of moved)).2 ⟨other, rfl⟩
    exact absurd ((same (later + 1) (by omega)).trans (same later after).symm) (Nat.ne_of_lt less)
  obtain ⟨ready, more, some_⟩ := response_comes begins fair (stays settled (by omega))
  have stay := execution.stays (fun state => 0 < state.responses) some_
    fun later label after taken some_ moved => by
      refine Nat.lt_of_lt_of_le some_ (responses_stay (moves_of moved) ?_)
      rintro other rfl
      exact noReturn later (by omega) other taken
  obtain ⟨later, after, acts⟩ := fair (some caller) ready fun later after =>
    .inr ⟨stays later (by omega), stay later after⟩
  exact never ⟨later, by omega, receive_of_acts (stays later (by omega)) acts⟩

def FairScheduling (execution : Execution (Idling (@shutMove Caller Inst _ instances))) : Prop :=
  execution.StronglyFair ShutReady shutActor ∨
    execution.Fair ShutReady shutActor ∧ ∃ last, ∀ time, last ≤ time → ∀ caller signo,
      execution.labels time ≠ some (.call caller signo)

theorem FairScheduling.returns (fair : FairScheduling execution)
    (begins : execution.states 0 = ShutState.start)
    (called : (execution.states time).callers caller ≠ .idle) :
    ∃ later, time ≤ later ∧ execution.labels later = some (.receive caller) := by
  have weakly : execution.Fair ShutReady shutActor := by
    rcases fair with strongly | ⟨weakly, _⟩
    · exact strongly.fair
    · exact weakly
  have waits : ∃ later, time ≤ later ∧
      (execution.states later).callers caller = .waiting := by
    cases phase : (execution.states time).callers caller with
    | idle => exact absurd phase called
    | sending signo => exact sending_waits weakly phase
    | waiting => exact ⟨time, Nat.le_refl time, phase⟩
  refine eventually_trans waits fun later waiting => ?_
  rcases fair with strongly | ⟨weakly, last, noCalls⟩
  · exact waiting_returns begins strongly waiting
  · exact waiting_returns_finite begins weakly noCalls waiting

end Executions

/-- Each instance is shut down once, no call returns before that is done, and every call
returns. -/
theorem uinetShutdown_once {Caller Inst : Type} [DecidableEq Caller] [Fintype Caller]
    (instances : List Inst) :
    (∀ labels : List (ShutStep Caller), ∀ state,
      Run (shutMove instances) ShutState.start labels state →
        state.shut <+: instances ∧
        ∀ caller next, shutMove instances state (.receive caller) next →
          state.shutdownComplete = true ∧ state.shut = instances) ∧
    ∀ execution : Execution (Idling (@shutMove Caller Inst _ instances)),
      execution.states 0 = ShutState.start → FairScheduling execution →
        ∀ time caller, (execution.states time).callers caller ≠ .idle →
          ∃ later, time ≤ later ∧ execution.labels later = some (.receive caller) := by
  constructor
  · intro labels state run
    have fits := (ShutState.sound_of_run run).fits
    refine ⟨fits.prefix_, ?_⟩
    rintro caller next ⟨enabled, _⟩
    exact fits.answered enabled.2
  · intro execution begins fair time caller called
    exact fair.returns begins called

/-- The first response goes to the caller whose request comes second. -/
def overlappingShutdowns : List (ShutStep Bool) :=
  [.call false 15, .call true 2, .send true, .send false, .read, .tryLock true, .shutdown,
    .finish, .respond, .receive false, .read, .respond, .receive true]

theorem uinetShutdown_once_overlapping :
    ∃ execution : Execution (Idling (@shutMove Bool Nat _ [7])),
      execution.states 0 = ShutState.start ∧ FairScheduling execution ∧
        ∀ caller, (execution.states 2).callers caller ≠ .idle ∧
          ∃ later, 2 ≤ later ∧ execution.labels later = some (.receive caller) := by
  have allowed : Allowed ShutState.Enabled (ShutState.step [7])
      (ShutState.start : ShutState Bool Nat) overlappingShutdowns :=
    ⟨rfl, rfl, ⟨2, rfl⟩, ⟨15, rfl⟩, ⟨rfl, List.cons_ne_nil _ _⟩, ⟨0, rfl⟩, ⟨true, 7, [], rfl⟩,
      ⟨true, rfl⟩, rfl, ⟨rfl, Nat.one_pos⟩, ⟨rfl, List.cons_ne_nil _ _⟩, rfl,
      ⟨rfl, Nat.one_pos⟩, trivial⟩
  have fair : (Execution.replay allowed).StronglyFair ShutReady shutActor := by
    apply Execution.replay_stronglyFair
    rintro (_ | caller)
    · rintro (busy | some_)
      · cases busy
      · exact some_ rfl
    · rintro (⟨signo, sending⟩ | ⟨-, pending⟩)
      · cases caller <;> cases sending
      · cases pending
  have called : ∀ caller, ((Execution.replay allowed).states 2).callers caller ≠ .idle := by
    rintro (_ | _) ⟨⟩
  exact ⟨Execution.replay allowed, rfl, .inl fair, fun caller => ⟨called caller,
    (uinetShutdown_once [7]).2 (Execution.replay allowed) rfl (.inl fair) 2 caller (called caller)⟩⟩

end Libunsod.Uinet
