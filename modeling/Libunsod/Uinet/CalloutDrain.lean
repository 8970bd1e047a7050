import Libunsod.Uinet.CalloutProgress

/-!
`callout_drain` against `softclock`. `softclock` broadcasts `callout_cv` after a
handler, and `callout_reset_on` refuses to reschedule a running callout, when
`cc_waiting` is set. No function sets it, and no function initialises `callout_cv`:
a drain that finds its callout running faults in `cv_wait`, with the flag clear and
the callout free to be rescheduled. Every other drain returns at once.
-/

namespace Libunsod.Uinet

open Runs
open CalloutState

def drainsRunning (state : CalloutState) (callout : CalloutId) : Prop :=
  (state.callouts callout).pending = false ∧
    (state.cpus (state.callouts callout).cpu).curr = some callout

structure DrainSafe (bits : Nat) (state : CalloutState) (callout : CalloutId) : Prop where
  returns : (calloutStopSafe bits state callout true).2 ≠ .faulted
  flagged : drainsRunning state callout →
    (state.cpus (state.callouts callout).cpu).waiting ≠ 0
  refused : drainsRunning state callout → ∀ call : ResetCall, call.callout = callout →
    ∃ cancelled, (calloutResetOn bits (calloutStopSafe bits state callout true).1 call).2 =
      .refused cancelled

theorem calloutStopSafe_faulted_iff (bits : Nat) (state : CalloutState) (callout : CalloutId) :
    (calloutStopSafe bits state callout true).2 = .faulted ↔ drainsRunning state callout := by
  unfold calloutStopSafe drainsRunning
  by_cases resting : (state.callouts callout).pending = false
  · by_cases running : (state.cpus (state.callouts callout).cpu).curr = some callout
    · simp [resting, running]
    · simp [resting, running]
  · simp [resting]

theorem calloutMove_drain_ends {bits : Nat} {self : Cpu} {state : CalloutState}
    {callout : CalloutId} (drains : drainsRunning state callout) (next : CalloutState) :
    ¬calloutMove bits self state (.stop callout true) next := by
  rintro ⟨value, returned⟩
  have faulted := (calloutStopSafe_faulted_iff bits state callout).mpr drains
  rw [returned] at faulted
  cases faulted

theorem drainSafe_iff (bits : Nat) (state : CalloutState) (callout : CalloutId) :
    DrainSafe bits state callout ↔ ¬drainsRunning state callout := by
  rw [← calloutStopSafe_faulted_iff bits state callout]
  constructor
  · exact DrainSafe.returns
  · intro returns
    have idle := mt (calloutStopSafe_faulted_iff bits state callout).mpr returns
    exact ⟨returns, fun running => absurd running idle, fun running => absurd running idle⟩

/-- In every reachable state a drain is safe exactly when it does not find its callout running;
one that does waits with `cc_waiting` clear, and `callout_reset_on` arms the callout it drains. -/
theorem calloutDrain_safe_iff {bits : Nat} {self : Cpu} {ticks : BitVec 32}
    {callouts : CalloutId → Callout} {labels : List CalloutLabel} {state : CalloutState}
    (initialised : ∀ callout, (callouts callout).Initialised)
    (run : Run (calloutMove bits self) (calloutBoot ticks callouts) labels state)
    (callout : CalloutId) :
    (DrainSafe bits state callout ↔ ¬drainsRunning state callout) ∧
      (state.cpus (state.callouts callout).cpu).waiting = 0 := by
  have kept := run.invariant (fun state => Wheeled bits self state ∧ Unlockable state)
    ⟨calloutBoot_wheeled bits self ticks initialised, calloutBoot_unlockable ticks initialised⟩
    (fun _ _ _ both moved => ⟨calloutMove_wheeled both.1 moved,
      calloutMove_unlockable both.1 both.2 moved⟩)
  exact ⟨drainSafe_iff bits state callout, kept.2.unflagged _⟩

def drainedCall : ResetCall := ⟨5, 1, 7, 9, 0, false⟩

def drainedArmed : CalloutState :=
  (calloutResetOn 0 (calloutBoot 0 mpsafeCallouts) drainedCall).1

theorem drainedArmed_run : Run (calloutMove 0 0) (calloutBoot 0 mpsafeCallouts)
    [.reset drainedCall] drainedArmed :=
  Run.snoc Run.nil ⟨rfl, rfl⟩

theorem calloutDrain_safe_pending :
    Run (calloutMove 0 0) (calloutBoot 0 mpsafeCallouts)
      ([.reset drainedCall] ++ [.stop 5 true]) (calloutStopSafe 0 drainedArmed 5 true).1 ∧
    DrainSafe 0 drainedArmed 5 := by
  refine ⟨Run.snoc drainedArmed_run ⟨1, rfl⟩, ?_⟩
  refine (calloutDrain_safe_iff mpsafeCallouts_initialised drainedArmed_run 5).1.mpr ?_
  rintro ⟨⟨⟩, _⟩

theorem calloutDrain_running_faults :
    ∃ running, Run (calloutMove 0 0) (calloutBoot 0 mpsafeCallouts)
        ([.reset drainedCall] ++ List.replicate 7 .timer) running ∧
      (running.cpus 0).curr = some 5 ∧ (running.cpus 0).waiting = 0 ∧
      (calloutStopSafe 0 running 5 true).2 = .faulted ∧
      (calloutResetOn 0 (calloutStopSafe 0 running 5 true).1 drainedCall).2 = .armed false := by
  have steps : ∃ running, timerSteps 0 0 7 drainedArmed = some running ∧
      (running.cpus 0).curr = some 5 ∧ (running.cpus 0).waiting = 0 ∧
      (calloutStopSafe 0 running 5 true).2 = .faulted ∧
      (calloutResetOn 0 (calloutStopSafe 0 running 5 true).1 drainedCall).2 = .armed false :=
    ⟨_, rfl, rfl, rfl, rfl, rfl⟩
  obtain ⟨running, stepped, outcome⟩ := steps
  exact ⟨running, drainedArmed_run.append ((timerSteps_run stepped).mono timerMove_move), outcome⟩

end Libunsod.Uinet
