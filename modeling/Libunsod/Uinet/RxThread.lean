import Libunsod.Uinet.RxThreadCore

/-!
The handshake of the receive thread. While it waits for run state 1 it does not look
for run state 2, so a down request that comes between an up request and the wake of
the thread waits for an answer that never comes. When no down request does, the run
state tells where everybody is (`Phase`), no request is lost and every ioctl returns.
-/

namespace Libunsod.Uinet

open Runs
open RxThread

variable {pc : IoctlPc}

variable {thread : Nat}

def RxThread.Waits (state : RxThread) (thread : Nat) : Prop :=
  ∃ woken, state.ioctl thread = .waiting woken

def RxThread.ReceiverWaits (state : RxThread) : Prop := ∃ woken, state.receiver = .waiting woken

def RxThread.MutualWait (state : RxThread) : Prop :=
  (∃ thread, state.Waits thread) ∧ state.ReceiverWaits ∧ state.runState ≠ 3 ∧ state.runState ≠ 1

def RxThread.Prompt (state : RxThread) : RxStep → Prop
  | .downSection _ _ => state.runState = 1 → ¬ state.ReceiverWaits
  | _ => True

def promptMove (state : RxThread) (step : RxStep) (next : RxThread) : Prop :=
  rxThreadMove state step next ∧ state.Prompt step

@[simp] theorem setIoctl_same (state : RxThread) (thread : Nat) (pc : IoctlPc) :
    (state.setIoctl thread pc).ioctl thread = pc := by
  simp [setIoctl]

@[simp] theorem setIoctl_other (state : RxThread) {other : Nat} (pc : IoctlPc)
    (different : other ≠ thread) : (state.setIoctl thread pc).ioctl other = state.ioctl other := by
  simp [setIoctl, different]

inductive RxThread.Moves (state : RxThread) : RxStep → RxThread → Prop
  | callUp {thread : Nat} : state.ioctl thread = .idle → state.Moves (.callUp thread)
      { state.setIoctl thread .upLock with running := true, last := some true }
  | begin {thread : Nat} {wakes : Option RxParty} : state.ioctl thread = .upLock →
      state.runState = 0 → state.Signals wakes → state.Moves (.upSection thread wakes)
        (({ state with runState := 1 }.cvSignal wakes).setIoctl thread .idle)
  | stay {thread : Nat} : state.ioctl thread = .upLock → state.runState ≠ 0 →
      state.Moves (.upSection thread none) (state.setIoctl thread .idle)
  | callDown {thread : Nat} : state.ioctl thread = .idle → state.running = true →
      state.Moves (.callDown thread) { state.setIoctl thread .downLock with last := some false }
  | ignore {thread : Nat} : state.ioctl thread = .idle → state.running ≠ true →
      state.Moves (.callDown thread) { state with last := some false }
  | ask {thread : Nat} {wakes : Option RxParty} : state.ioctl thread = .downLock →
      state.runState = 1 → state.Signals wakes → state.Moves (.downSection thread wakes)
        (({ state with runState := 2 }.cvSignal wakes).setIoctl thread (.waiting false))
  | pass {thread : Nat} : state.ioctl thread = .downLock → state.runState ≠ 1 →
      state.Moves (.downSection thread none) (state.setIoctl thread .downStop)
  | answered {thread : Nat} : state.ioctl thread = .waiting true → state.runState = 3 →
      state.Moves (.downWake thread) ({ state with runState := 0 }.setIoctl thread .downStop)
  | again {thread : Nat} : state.ioctl thread = .waiting true → state.runState ≠ 3 →
      state.Moves (.downWake thread) (state.setIoctl thread (.waiting false))
  | downStop {thread : Nat} : state.ioctl thread = .downStop →
      state.Moves (.downStop thread) ({ state with running := false }.setIoctl thread .idle)
  | answer {wakes : Option RxParty} : state.receiver = .top → state.runState = 2 →
      state.Signals wakes → state.Moves (.receiverTop wakes)
        { { state with runState := 3 }.cvSignal wakes with
          waitForStart := true, receiver := .waiting false }
  | sleep : state.receiver = .top → state.runState ≠ 2 → state.runState ≠ 1 →
      state.Moves (.receiverTop none) { state with receiver := .waiting false }
  | go : state.receiver = .top → state.runState ≠ 2 →
      ¬(state.waitForStart ∧ state.runState ≠ 1) →
      state.Moves (.receiverTop none) { state with receiver := .receiving }
  | wake {woken : Bool} : state.receiver = .waiting woken → state.runState = 1 →
      state.Moves .receiverWake { state with receiver := .receiving }
  | doze {woken : Bool} : state.receiver = .waiting woken → state.runState ≠ 1 →
      state.Moves .receiverWake { state with receiver := .waiting false }
  | batch : state.receiver = .receiving → state.Moves .batch { state with receiver := .top }

theorem cvSignal_kept (state : RxThread) (wakes : Option RxParty) :
    (state.cvSignal wakes).runState = state.runState ∧
      (state.cvSignal wakes).waitForStart = state.waitForStart := by
  rcases wakes with _ | _ | sleeper <;> exact ⟨rfl, rfl⟩

theorem rxThreadMove_cases {state next : RxThread} {label : RxStep}
    (move : rxThreadMove state label next) : state.Moves label next := by
  obtain ⟨enabled, rfl⟩ := move
  cases label with
  | callUp thread => exact .callUp enabled
  | upSection thread wakes =>
    obtain ⟨at_, signals⟩ := enabled
    simp only [step]
    split at signals
    next zero =>
      rw [if_pos zero]
      exact .begin at_ zero signals
    next other =>
      rw [if_neg other, signals]
      exact .stay at_ other
  | callDown thread =>
    simp only [step]
    split
    next running => exact .callDown enabled running
    next stopped => exact .ignore enabled stopped
  | downSection thread wakes =>
    obtain ⟨at_, signals⟩ := enabled
    simp only [step]
    split at signals
    next one =>
      rw [if_pos one]
      exact .ask at_ one signals
    next other =>
      rw [if_neg other, signals]
      exact .pass at_ other
  | downWake thread =>
    simp only [step]
    split
    next three => exact .answered enabled three
    next other => exact .again enabled other
  | downStop thread => exact .downStop enabled
  | receiverTop wakes =>
    obtain ⟨at_, signals⟩ := enabled
    simp only [step, receiverSection]
    split at signals
    next two =>
      have three := (cvSignal_kept { state with runState := 3 } wakes).1
      simp only at three
      rw [if_pos two, if_pos ⟨trivial, by omega⟩]
      exact .answer at_ two signals
    next other =>
      rw [if_neg other, signals]
      split
      next waits => exact .sleep at_ other waits.2
      next ready => exact .go at_ other ready
  | receiverWake =>
    obtain ⟨woken, at_⟩ := enabled
    simp only [step]
    split
    next one => exact .wake at_ one
    next other => exact .doze at_ other
  | batch => exact .batch enabled

inductive RxThread.Phase (state : RxThread) : Prop
  | stopped : state.runState = 0 → state.receiver ≠ .receiving →
      (∀ thread, ¬ state.Waits thread) → state.Phase
  | started : state.runState = 1 → state.receiver ≠ .waiting false →
      (∀ thread, ¬ state.Waits thread) → state.Phase
  | stopping (thread : Nat) : state.runState = 2 → ¬ state.ReceiverWaits → state.Waits thread →
      (∀ other, state.Waits other → other = thread) → state.Phase
  | acknowledged (thread : Nat) : state.runState = 3 → state.ReceiverWaits →
      state.ioctl thread = .waiting true → (∀ other, state.Waits other → other = thread) →
      state.Phase

structure RxThread.Inv (state : RxThread) : Prop where
  phase : state.Phase
  waitForStart : state.waitForStart = true

theorem RxThread.Phase.same {state next : RxThread} (phase : state.Phase)
    (runState : next.runState = state.runState) (receiver : next.receiver = state.receiver)
    (waits : ∀ thread woken, next.ioctl thread = .waiting woken ↔
      state.ioctl thread = .waiting woken) : next.Phase := by
  have waiting : ∀ thread, next.Waits thread ↔ state.Waits thread := fun thread =>
    exists_congr fun woken => waits thread woken
  have receiverWaits : next.ReceiverWaits ↔ state.ReceiverWaits := by
    unfold ReceiverWaits
    rw [receiver]
  cases phase with
  | stopped run away none_ =>
    exact .stopped (runState.trans run) (receiver ▸ away) fun thread =>
      (waiting thread).not.mpr (none_ thread)
  | started run awake none_ =>
    exact .started (runState.trans run) (receiver ▸ awake) fun thread =>
      (waiting thread).not.mpr (none_ thread)
  | stopping thread run away waits_ only =>
    exact .stopping thread (runState.trans run) (receiverWaits.not.mpr away)
      ((waiting thread).mpr waits_) fun other held => only other ((waiting other).mp held)
  | acknowledged thread run there woken only =>
    exact .acknowledged thread (runState.trans run) (receiverWaits.mpr there)
      ((waits thread true).mpr woken) fun other held => only other ((waiting other).mp held)

theorem setIoctl_waits_iff {state : RxThread} (before : ¬ state.Waits thread)
    (after : ∀ woken, pc ≠ .waiting woken) (other : Nat) (woken : Bool) :
    (state.setIoctl thread pc).ioctl other = .waiting woken ↔
      state.ioctl other = .waiting woken := by
  by_cases same : other = thread
  · subst same
    rw [setIoctl_same]
    constructor
    · intro now
      exact absurd now (after woken)
    · intro then_
      exact absurd ⟨woken, then_⟩ before
  · rw [setIoctl_other state pc same]

theorem not_waits {state : RxThread} (at_ : state.ioctl thread = pc)
    (other : ∀ woken, pc ≠ .waiting woken) : ¬ state.Waits thread := by
  rintro ⟨woken, waits⟩
  exact other woken (at_.symm.trans waits)

section Steps

variable {state next : RxThread}

theorem RxThread.Phase.begin {wakes : Option RxParty} (phase : state.Phase)
    (locked : state.ioctl thread = .upLock) (zero : state.runState = 0)
    (signals : state.Signals wakes) :
    (({ state with runState := 1 }.cvSignal wakes).setIoctl thread .idle).Phase := by
  have idle : ∀ other woken, (state.setIoctl thread .idle).ioctl other = .waiting woken ↔
      state.ioctl other = .waiting woken :=
    setIoctl_waits_iff (not_waits locked (by rintro _ ⟨⟩)) (by rintro _ ⟨⟩)
  cases phase with
  | stopped run away none_ =>
    have nobody : ∀ other, ¬ (state.setIoctl thread .idle).Waits other := by
      rintro other ⟨woken, at_⟩
      exact none_ other ⟨woken, (idle other woken).mp at_⟩
    rcases wakes with _ | _ | sleeper
    · exact .started rfl (signals .receiver) nobody
    · exact .started rfl (by rintro ⟨⟩) nobody
    · exact absurd ⟨false, signals⟩ (none_ sleeper)
  | started run _ _ | stopping _ run _ _ _ | acknowledged _ run _ _ _ => omega

theorem RxThread.Phase.ask {wakes : Option RxParty} (phase : state.Phase)
    (one : state.runState = 1) (signals : state.Signals wakes) (away : ¬ state.ReceiverWaits) :
    (({ state with runState := 2 }.cvSignal wakes).setIoctl thread (.waiting false)).Phase := by
  cases phase with
  | started run _ none_ =>
    rcases wakes with _ | _ | sleeper
    · refine .stopping thread rfl away ⟨false, setIoctl_same ..⟩ ?_
      rintro other ⟨woken, at_⟩
      by_contra different
      rw [setIoctl_other _ _ different] at at_
      exact none_ other ⟨woken, at_⟩
    · exact absurd ⟨false, signals⟩ away
    · exact absurd ⟨false, signals⟩ (none_ sleeper)
  | stopped run _ _ | stopping _ run _ _ _ | acknowledged _ run _ _ _ => omega

theorem RxThread.Phase.again (phase : state.Phase) (woken : state.ioctl thread = .waiting true)
    (run : state.runState ≠ 3) : (state.setIoctl thread (.waiting false)).Phase := by
  cases phase with
  | stopped _ _ none_ | started _ _ none_ => exact absurd ⟨true, woken⟩ (none_ thread)
  | acknowledged _ three _ _ _ => exact absurd three run
  | stopping waiter run away waits only =>
    obtain rfl : thread = waiter := only thread ⟨true, woken⟩
    refine .stopping thread run away ⟨false, setIoctl_same ..⟩ ?_
    rintro third ⟨awake, at_⟩
    by_contra different
    rw [setIoctl_other _ _ different] at at_
    exact different (only third ⟨awake, at_⟩)

theorem RxThread.Phase.answered (phase : state.Phase)
    (woken : state.ioctl thread = .waiting true) (three : state.runState = 3) :
    ({ state with runState := 0 }.setIoctl thread .downStop).Phase := by
  cases phase with
  | stopped run _ _ | started run _ _ | stopping _ run _ _ _ => omega
  | acknowledged waiter run there awake only =>
    obtain rfl : thread = waiter := only thread ⟨true, woken⟩
    obtain ⟨rested, at_⟩ := there
    refine .stopped rfl ?_ ?_
    · show state.receiver ≠ .receiving
      rw [at_]
      rintro ⟨⟩
    · rintro other ⟨rested, at_⟩
      by_cases own : other = thread
      · subst own
        rw [setIoctl_same] at at_
        cases at_
      · rw [setIoctl_other _ _ own] at at_
        exact own (only other ⟨rested, at_⟩)

theorem RxThread.Phase.answer {wakes : Option RxParty} (phase : state.Phase)
    (two : state.runState = 2) (signals : state.Signals wakes) :
    Phase { { state with runState := 3 }.cvSignal wakes with
      waitForStart := true, receiver := .waiting false } := by
  cases phase with
  | stopping waiter run away waits only =>
    rcases wakes with _ | _ | sleeper
    · obtain ⟨woken, at_⟩ := waits
      cases woken with
      | true => exact .acknowledged waiter rfl ⟨false, rfl⟩ at_ only
      | false => exact absurd at_ (signals (.ioctl waiter))
    · exact absurd ⟨false, signals⟩ away
    · obtain rfl : sleeper = waiter := only sleeper ⟨false, signals⟩
      refine .acknowledged sleeper rfl ⟨false, rfl⟩ (setIoctl_same ..) ?_
      rintro other ⟨woken, at_⟩
      by_contra different
      exact different (only other ⟨woken, (setIoctl_other state _ different).symm.trans at_⟩)
  | stopped run _ _ | started run _ _ | acknowledged _ run _ _ _ => omega

theorem RxThread.Phase.setReceiver {pc : RxPc} (phase : state.Phase)
    (stopped : state.runState = 0 → pc ≠ .receiving)
    (started : state.runState = 1 → pc ≠ .waiting false)
    (stopping : state.runState = 2 → ¬ state.ReceiverWaits → ∀ woken, pc ≠ .waiting woken)
    (acknowledged : state.runState = 3 → state.ReceiverWaits → pc = .waiting false) :
    Phase { state with receiver := pc } := by
  cases phase with
  | stopped run _ none_ => exact .stopped run (stopped run) none_
  | started run _ none_ => exact .started run (started run) none_
  | stopping waiter run away waits only =>
    exact .stopping waiter run (fun ⟨woken, at_⟩ => stopping run away woken at_) waits only
  | acknowledged waiter run there woken only =>
    exact .acknowledged waiter run ⟨false, acknowledged run there⟩ woken only

theorem RxThread.Inv.step {label : RxStep} (inv : state.Inv)
    (move : promptMove state label next) : next.Inv := by
  obtain ⟨phase, waitForStart⟩ := inv
  obtain ⟨moved, prompt⟩ := move
  cases rxThreadMove_cases moved with
  | callUp at_ | callDown at_ | stay at_ | pass at_ | downStop at_ =>
    exact ⟨phase.same rfl rfl (setIoctl_waits_iff (not_waits at_ (by rintro _ ⟨⟩))
      (by rintro _ ⟨⟩)), waitForStart⟩
  | ignore => exact ⟨phase.same rfl rfl fun _ _ => Iff.rfl, waitForStart⟩
  | begin at_ zero signals =>
    exact ⟨phase.begin at_ zero signals, (cvSignal_kept ..).2.trans waitForStart⟩
  | ask _ one signals =>
    exact ⟨phase.ask one signals (prompt one), (cvSignal_kept ..).2.trans waitForStart⟩
  | answered at_ three => exact ⟨phase.answered at_ three, waitForStart⟩
  | again at_ other => exact ⟨phase.again at_ other, waitForStart⟩
  | answer _ two signals => exact ⟨phase.answer two signals, rfl⟩
  | sleep _ notTwo notOne =>
    exact ⟨phase.setReceiver (by rintro _ ⟨⟩) (fun run => absurd run notOne)
      (fun run => absurd run notTwo) fun _ _ => rfl, waitForStart⟩
  | go _ _ ready =>
    have one : state.runState = 1 := by
      by_contra other
      exact ready ⟨waitForStart, other⟩
    exact ⟨phase.setReceiver (fun run => by omega) (by rintro _ ⟨⟩) (fun run => by omega)
      fun run => by omega, waitForStart⟩
  | wake _ one =>
    exact ⟨phase.setReceiver (fun run => by omega) (by rintro _ ⟨⟩) (fun run => by omega)
      fun run => by omega, waitForStart⟩
  | doze at_ notOne =>
    exact ⟨phase.setReceiver (by rintro _ ⟨⟩) (fun run => absurd run notOne)
      (fun _ away => absurd ⟨_, at_⟩ away) fun _ _ => rfl, waitForStart⟩
  | batch at_ =>
    refine ⟨phase.setReceiver (by rintro _ ⟨⟩) (by rintro _ ⟨⟩) (by rintro _ _ _ ⟨⟩) ?_,
      waitForStart⟩
    rintro - ⟨woken, there⟩
    cases at_.symm.trans there

end Steps

theorem RxThread.Inv.start : start.Inv :=
  ⟨.stopped rfl (by rintro ⟨⟩) (by rintro thread ⟨woken, ⟨⟩⟩), rfl⟩

theorem RxThread.Phase.not_mutualWait {state : RxThread} (phase : state.Phase) :
    ¬ state.MutualWait := by
  rintro ⟨⟨thread, waits⟩, receiverWaits, notThree, notOne⟩
  cases phase with
  | stopped _ _ none_ => exact none_ thread waits
  | started run _ _ => exact notOne run
  | stopping _ _ away _ _ => exact away receiverWaits
  | acknowledged _ run _ _ _ => exact notThree run

end Libunsod.Uinet
