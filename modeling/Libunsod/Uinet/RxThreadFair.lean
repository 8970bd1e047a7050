import Libunsod.Base.Fairness
import Libunsod.Uinet.RxThread

/-!
Progress of the receive thread's handshake under fair scheduling: every ioctl
returns, and after ioctls that do not overlap the thread receives or rests as the
last of them asked.
-/

namespace Libunsod.Uinet

open Runs
open RxThread

variable {pc : IoctlPc}

def RxStep.actor : RxStep → Option RxParty
  | .callUp _ | .callDown _ => none
  | .upSection thread _ | .downSection thread _ | .downWake thread | .downStop thread =>
      some (.ioctl thread)
  | .receiverTop _ | .receiverWake | .batch => some .receiver

def RxThread.Ready (state : RxThread) : RxParty → Prop
  | .receiver => state.receiver ≠ .waiting false
  | .ioctl thread => state.ioctl thread ≠ .idle ∧ state.ioctl thread ≠ .waiting false

def RxThread.Quiet (state : RxThread) : Prop := ∀ thread, state.ioctl thread = .idle

def RxThread.Alone (state : RxThread) : RxStep → Prop
  | .callUp _ | .callDown _ => state.Quiet
  | _ => True

def RxStep.IsCall : RxStep → Prop
  | .callUp _ | .callDown _ => True
  | _ => False

theorem cvSignal_ioctl (state : RxThread) (thread : Nat) {wakes : Option RxParty}
    (signals : state.Signals wakes) :
    (state.cvSignal wakes).ioctl thread = state.ioctl thread ∨
      state.ioctl thread = .waiting false ∧
        (state.cvSignal wakes).ioctl thread = .waiting true := by
  rcases wakes with _ | _ | sleeper
  · exact .inl rfl
  · exact .inl rfl
  · by_cases same : thread = sleeper
    · subst same
      exact .inr ⟨signals, setIoctl_same ..⟩
    · exact .inl (setIoctl_other _ _ same)

section Progress

variable {state next : RxThread} {label : RxStep} {thread : Nat}

theorem ioctl_kept (move : rxThreadMove state label next)
    (others : label.actor ≠ some (.ioctl thread)) (busy : state.ioctl thread ≠ .idle) :
    next.ioctl thread = state.ioctl thread ∨
      state.ioctl thread = .waiting false ∧ next.ioctl thread = .waiting true := by
  have apart : ∀ {caller : Nat}, label.actor = some (.ioctl caller) → thread ≠ caller := by
    rintro caller acts rfl
    exact others acts
  cases rxThreadMove_cases move with
  | callUp at_ | callDown at_ => exact .inl (setIoctl_other _ _ (by rintro rfl; exact busy at_))
  | stay | pass | answered | again | downStop => exact .inl (setIoctl_other _ _ (apart rfl))
  | begin _ _ signals | ask _ _ signals =>
    rw [setIoctl_other _ _ (apart rfl)]
    exact cvSignal_ioctl { state with runState := _ } thread signals
  | answer _ _ signals => exact cvSignal_ioctl { state with runState := 3 } thread signals
  | ignore | sleep | go | wake | doze | batch => exact .inl rfl

theorem waits_kept (move : rxThreadMove state label next)
    (others : label.actor ≠ some (.ioctl thread)) (waits : state.Waits thread) :
    next.Waits thread := by
  obtain ⟨woken, at_⟩ := waits
  have busy : state.ioctl thread ≠ .idle := by
    rw [at_]
    rintro ⟨⟩
  rcases ioctl_kept move others busy with same | ⟨-, woken⟩
  · exact ⟨_, same.trans at_⟩
  · exact ⟨true, woken⟩

theorem pc_kept (move : rxThreadMove state label next) (others : label.actor ≠ some (.ioctl thread))
    (at_ : state.ioctl thread = pc) (busy : pc ≠ .idle) (awake : pc ≠ .waiting false) :
    next.ioctl thread = pc := by
  rcases ioctl_kept move others (at_ ▸ busy) with same | ⟨asleep, -⟩
  · exact same.trans at_
  · exact absurd (at_.symm.trans asleep) awake

theorem ioctl_acts (move : rxThreadMove state label next)
    (own : label.actor = some (.ioctl thread)) :
    (state.ioctl thread = .upLock ∨ state.ioctl thread = .downStop) ∧
        next.ioctl thread = .idle ∨
      state.ioctl thread = .downLock ∧ (next.Waits thread ∨ next.ioctl thread = .downStop) ∨
      state.ioctl thread = .waiting true ∧
        (state.runState = 3 ∧ next.ioctl thread = .downStop ∨
          state.runState ≠ 3 ∧ next.Waits thread) := by
  cases rxThreadMove_cases move with
  | begin at_ | stay at_ =>
    cases own
    exact .inl ⟨.inl at_, setIoctl_same ..⟩
  | downStop at_ =>
    cases own
    exact .inl ⟨.inr at_, setIoctl_same ..⟩
  | ask at_ =>
    cases own
    exact .inr (.inl ⟨at_, .inl ⟨false, setIoctl_same ..⟩⟩)
  | pass at_ =>
    cases own
    exact .inr (.inl ⟨at_, .inr (setIoctl_same ..)⟩)
  | answered at_ three =>
    cases own
    exact .inr (.inr ⟨at_, .inl ⟨three, setIoctl_same ..⟩⟩)
  | again at_ other =>
    cases own
    exact .inr (.inr ⟨at_, .inr ⟨other, false, setIoctl_same ..⟩⟩)
  | _ => cases own

theorem two_step (two : state.runState = 2) (move : rxThreadMove state label next) :
    (∃ wakes, label = .receiverTop wakes) ∨
      next.runState = 2 ∧ (label.actor ≠ some .receiver → next.receiver = state.receiver) := by
  cases rxThreadMove_cases move with
  | answer | sleep | go => exact .inl ⟨_, rfl⟩
  | begin _ run | ask _ run | answered _ run => omega
  | wake | doze | batch => exact .inr ⟨two, fun own => absurd rfl own⟩
  | _ => exact .inr ⟨two, fun _ => rfl⟩

theorem three_step (three : state.runState = 3) (move : rxThreadMove state label next) :
    (∃ caller, label = .downWake caller ∧ state.ioctl caller = .waiting true) ∨
      next.runState = 3 := by
  cases rxThreadMove_cases move with
  | answered at_ | again at_ => exact .inl ⟨_, rfl, at_⟩
  | begin _ run | ask _ run | answer _ run => omega
  | _ => exact .inr three

theorem waits_step (two : state.runState = 2) (move : rxThreadMove state label next)
    (waits : state.Waits thread) : next.Waits thread := by
  by_cases own : label.actor = some (.ioctl thread)
  · rcases ioctl_acts move own with ⟨lock | stop, -⟩ | ⟨lock, -⟩ | ⟨-, ⟨three, -⟩ | ⟨-, waits⟩⟩
    · exact absurd waits (not_waits lock (by rintro _ ⟨⟩))
    · exact absurd waits (not_waits stop (by rintro _ ⟨⟩))
    · exact absurd waits (not_waits lock (by rintro _ ⟨⟩))
    · omega
    · exact waits
  · exact waits_kept move own waits

end Progress

section Executions

variable (execution : Execution promptMove)

theorem execution_inv (initial : (execution.states 0).Inv) (time : Nat) :
    (execution.states time).Inv :=
  execution.always Inv initial (fun time _ inv => inv.step (execution.step time)) time
    (Nat.zero_le time)

variable (fair : execution.Fair RxThread.Ready RxStep.actor)
  {thread start : Nat}

include fair

theorem leaves_last (last : pc = .upLock ∨ pc = .downStop)
    (at_ : (execution.states start).ioctl thread = pc) :
    ∃ time, start ≤ time ∧ (execution.states time).ioctl thread = .idle := by
  have busy : pc ≠ .idle := by rcases last with rfl | rfl <;> rintro ⟨⟩
  have awake : pc ≠ .waiting false := by rcases last with rfl | rfl <;> rintro ⟨⟩
  have acts : ∀ state label next, state.ioctl thread = pc →
      label.actor = some (.ioctl thread) → promptMove state label next →
      next.ioctl thread = .idle := by
    intro state label next here own move
    rcases ioctl_acts move.1 own with ⟨-, idle⟩ | ⟨lock, -⟩ | ⟨waits, -⟩
    · exact idle
    · rcases last with rfl | rfl <;> rw [here] at lock <;> cases lock
    · rcases last with rfl | rfl <;> rw [here] at waits <;> cases waits
  refine execution.ensures fair (.ioctl thread) (fun state => state.ioctl thread = pc)
    (fun state => state.ioctl thread = .idle) at_ ?_ ?_ acts
  · intro state here
    exact ⟨here ▸ busy, here ▸ awake⟩
  · exact fun state label next here own move => .inl (pc_kept move.1 own here busy awake)

theorem leaves_three (inv : (execution.states start).Inv)
    (three : (execution.states start).runState = 3)
    (waits : (execution.states start).Waits thread) :
    ∃ time, start ≤ time ∧ (execution.states time).ioctl thread = .downStop := by
  let holds : RxThread → Prop := fun state =>
    state.Inv ∧ state.runState = 3 ∧ state.ioctl thread = .waiting true
  have woken : ∀ state : RxThread, state.Inv → state.runState = 3 → state.Waits thread →
      state.ioctl thread = .waiting true := by
    intro state inv three waits
    cases inv.phase with
    | stopped run _ _ | started run _ _ | stopping _ run _ _ _ => omega
    | acknowledged waiter _ _ woken only =>
      rw [only thread waits]
      exact woken
  have acts : ∀ state label next, holds state → label.actor = some (.ioctl thread) →
      promptMove state label next → next.ioctl thread = .downStop := by
    rintro state label next ⟨_, three, here⟩ own move
    rcases ioctl_acts move.1 own with ⟨lock | stop, -⟩ | ⟨lock, -⟩ | ⟨-, ⟨-, stop⟩ | ⟨other, -⟩⟩
    · rw [here] at lock
      cases lock
    · rw [here] at stop
      cases stop
    · rw [here] at lock
      cases lock
    · exact stop
    · exact absurd three other
  refine execution.ensures fair (.ioctl thread) holds
    (fun state => state.ioctl thread = .downStop) ⟨inv, three, woken _ inv three waits⟩ ?_ ?_ acts
  · rintro state ⟨_, _, here⟩
    exact ⟨by rw [here]; rintro ⟨⟩, by rw [here]; rintro ⟨⟩⟩
  · rintro state label next ⟨inv, three, here⟩ own move
    refine .inl ⟨inv.step move, ?_, pc_kept move.1 own here (by rintro ⟨⟩) (by rintro ⟨⟩)⟩
    rcases three_step three move.1 with ⟨caller, rfl, other⟩ | still
    · cases inv.phase with
      | acknowledged waiter _ _ _ only =>
        have callerIs := only caller ⟨true, other⟩
        have threadIs := only thread ⟨true, here⟩
        rw [callerIs, ← threadIs] at own
        exact absurd rfl own
      | stopped run _ _ | started run _ _ | stopping _ run _ _ _ => omega
    · exact still

def RxThread.Asks (state : RxThread) (thread : Nat) : Prop :=
  state.Inv ∧ state.Waits thread ∧ state.runState = 2

omit fair in
theorem RxThread.Asks.step {state next : RxThread} {label : RxStep} (asks : state.Asks thread)
    (move : promptMove state label next) (notTop : ∀ wakes, label ≠ .receiverTop wakes) :
    next.Asks thread ∧ (label.actor ≠ some .receiver → next.receiver = state.receiver) := by
  obtain ⟨inv, waits, two⟩ := asks
  rcases two_step two move.1 with ⟨wakes, top⟩ | ⟨still, same⟩
  · exact absurd top (notTop wakes)
  · exact ⟨⟨inv.step move, waits_step two move.1 waits, still⟩, same⟩

theorem leaves_receiving (asks : (execution.states start).Asks thread)
    (receiving : (execution.states start).receiver = .receiving) :
    ∃ time, start ≤ time ∧
      ((execution.states time).Asks thread ∧ (execution.states time).receiver = .top) := by
  let holds : RxThread → Prop := fun state => state.Asks thread ∧ state.receiver = .receiving
  let goal : RxThread → Prop := fun state => state.Asks thread ∧ state.receiver = .top
  have notTop : ∀ state label next, holds state → promptMove state label next →
      ∀ wakes, label ≠ .receiverTop wakes := by
    rintro state label next ⟨-, here⟩ ⟨⟨enabled, -⟩, -⟩ wakes rfl
    cases enabled.1.symm.trans here
  have acts : ∀ state label next, holds state → label.actor = some .receiver →
      promptMove state label next → goal next := by
    intro state label next held own move
    refine ⟨(held.1.step move (notTop state label next held move)).1, ?_⟩
    cases rxThreadMove_cases move.1 with
    | batch => rfl
    | answer at_ | sleep at_ | go at_ | wake at_ | doze at_ => cases at_.symm.trans held.2
    | _ => cases own
  refine execution.ensures fair .receiver holds goal ⟨asks, receiving⟩ ?_ ?_ acts
  · rintro state ⟨-, here⟩ asleep
    cases here.symm.trans asleep
  · intro state label next held own move
    obtain ⟨asks, same⟩ := held.1.step move (notTop state label next held move)
    exact .inl ⟨asks, (same own).trans held.2⟩

theorem leaves_top (asks : (execution.states start).Asks thread)
    (top : (execution.states start).receiver = .top) :
    ∃ time, start ≤ time ∧ ((execution.states time).Inv ∧
      (execution.states time).Waits thread ∧ (execution.states time).runState = 3) := by
  let holds : RxThread → Prop := fun state => state.Asks thread ∧ state.receiver = .top
  let goal : RxThread → Prop := fun state =>
    state.Inv ∧ state.Waits thread ∧ state.runState = 3
  have acts : ∀ state label next, holds state → label.actor = some .receiver →
      promptMove state label next → goal next := by
    rintro state label next ⟨⟨inv, waits, two⟩, here⟩ own move
    refine ⟨inv.step move, waits_step two move.1 waits, ?_⟩
    cases rxThreadMove_cases move.1 with
    | answer => exact (cvSignal_kept ..).1
    | sleep _ other | go _ other => exact absurd two other
    | wake at_ | doze at_ | batch at_ => cases at_.symm.trans here
    | _ => cases own
  refine execution.ensures fair .receiver holds goal ⟨asks, top⟩ ?_ ?_ acts
  · rintro state ⟨-, here⟩ asleep
    cases here.symm.trans asleep
  · intro state label next held own move
    have notTop : ∀ wakes, label ≠ .receiverTop wakes := by
      rintro wakes rfl
      exact own rfl
    obtain ⟨asks, same⟩ := held.1.step move notTop
    exact .inl ⟨asks, (same own).trans held.2⟩

theorem leaves_wait (initial : (execution.states 0).Inv)
    (waits : (execution.states start).Waits thread) :
    ∃ time, start ≤ time ∧ (execution.states time).ioctl thread = .idle := by
  have inv := execution_inv execution initial
  have fromThree : ∀ early, (execution.states early).Waits thread →
      (execution.states early).runState = 3 →
      ∃ time, early ≤ time ∧ (execution.states time).ioctl thread = .idle := by
    intro early waits three
    exact eventually_trans (leaves_three execution fair (inv early) three waits)
      fun _ stop => leaves_last execution fair (.inr rfl) stop
  have fromTop : ∀ early, (execution.states early).Asks thread →
      (execution.states early).receiver = .top →
      ∃ time, early ≤ time ∧ (execution.states time).ioctl thread = .idle := by
    intro early asks top
    exact eventually_trans (leaves_top execution fair asks top)
      fun later reached => fromThree later reached.2.1 reached.2.2
  cases (inv start).phase with
  | stopped _ _ none_ | started _ _ none_ => exact absurd waits (none_ thread)
  | acknowledged _ three _ _ _ => exact fromThree start waits three
  | stopping _ two away _ _ =>
    have asks : (execution.states start).Asks thread := ⟨inv start, waits, two⟩
    cases pc : (execution.states start).receiver with
    | top => exact fromTop start asks pc
    | waiting woken => exact absurd ⟨woken, pc⟩ away
    | receiving =>
      exact eventually_trans (leaves_receiving execution fair asks pc)
        fun later reached => fromTop later reached.1 reached.2

theorem leaves_downLock (at_ : (execution.states start).ioctl thread = .downLock) :
    ∃ time, start ≤ time ∧ ((execution.states time).Waits thread ∨
      (execution.states time).ioctl thread = .downStop) := by
  have acts : ∀ state label next, state.ioctl thread = .downLock →
      label.actor = some (.ioctl thread) → promptMove state label next →
      next.Waits thread ∨ next.ioctl thread = .downStop := by
    intro state label next here own move
    rcases ioctl_acts move.1 own with ⟨lock | stop, -⟩ | ⟨-, reached⟩ | ⟨waits, -⟩
    · cases here.symm.trans lock
    · cases here.symm.trans stop
    · exact reached
    · cases here.symm.trans waits
  refine execution.ensures fair (.ioctl thread) (fun state => state.ioctl thread = .downLock)
    (fun state => state.Waits thread ∨ state.ioctl thread = .downStop) at_ ?_ ?_ acts
  · intro state here
    exact ⟨by rw [here]; rintro ⟨⟩, by rw [here]; rintro ⟨⟩⟩
  · exact fun state label next here own move =>
      .inl (pc_kept move.1 own here (by rintro ⟨⟩) (by rintro ⟨⟩))

theorem ioctl_returns (initial : (execution.states 0).Inv) (thread start : Nat) :
    ∃ time, start ≤ time ∧ (execution.states time).ioctl thread = .idle := by
  cases pc : (execution.states start).ioctl thread with
  | idle => exact ⟨start, Nat.le_refl _, pc⟩
  | upLock => exact leaves_last execution fair (.inl rfl) pc
  | downStop => exact leaves_last execution fair (.inr rfl) pc
  | waiting woken => exact leaves_wait execution fair initial ⟨woken, pc⟩
  | downLock =>
    refine eventually_trans (leaves_downLock execution fair pc) fun later reached => ?_
    rcases reached with waits | stop
    · exact leaves_wait execution fair initial waits
    · exact leaves_last execution fair (.inr rfl) stop

end Executions

end Libunsod.Uinet
