import Libunsod.Uinet.RxThreadFair

/-!
Requests that do not overlap, and the handshake as a whole.
-/

namespace Libunsod.Uinet

open Runs
open RxThread

variable {pc : IoctlPc} {caller : Nat}

def RxThread.Local (state : RxThread) : IoctlPc → Prop
  | .idle => if state.last = some true then state.runState = 1 ∧ state.running = true
      else state.runState = 0 ∧ state.running = false
  | .upLock => (state.runState = 0 ∨ state.runState = 1) ∧ state.running = true ∧
      state.last = some true
  | .downLock => state.runState = 1 ∧ state.last = some false
  | .waiting _ => (state.runState = 2 ∨ state.runState = 3) ∧ state.last = some false
  | .downStop => state.runState = 0 ∧ state.last = some false

structure RxThread.Solo (state : RxThread) (thread : Nat) : Prop where
  others : ∀ other, other ≠ thread → state.ioctl other = .idle
  progress : state.Local (state.ioctl thread)

section Solo

variable {state next : RxThread} {label : RxStep} {thread : Nat}

theorem RxThread.Solo.quiet (solo : state.Solo thread) (quiet : state.Quiet) :
    state.Local .idle := by
  have progress := solo.progress
  rwa [quiet thread] at progress

theorem RxThread.Solo.own (solo : state.Solo thread) {other : Nat}
    (busy : state.ioctl other ≠ .idle) : other = thread := by
  by_contra different
  exact busy (solo.others other different)

theorem Solo.set (idle : ∀ other, other ≠ thread → state.ioctl other = .idle)
    (moved : next.ioctl = (state.setIoctl thread pc).ioctl) (progress : next.Local pc) :
    next.Solo thread := by
  refine ⟨fun other different => ?_, ?_⟩
  · rw [moved, setIoctl_other _ _ different]
    exact idle other different
  · rw [moved, setIoctl_same]
    exact progress

theorem RxThread.Local.up (last : state.last = some true) (one : state.runState = 1)
    (running : state.running = true) : state.Local .idle := by
  simp only [Local, if_pos last]
  exact ⟨one, running⟩

theorem RxThread.Local.down (last : state.last ≠ some true) (zero : state.runState = 0)
    (running : state.running = false) : state.Local .idle := by
  simp only [Local, if_neg last]
  exact ⟨zero, running⟩

theorem RxThread.Local.idle (idle : state.Local .idle) :
    state.last = some true ∧ state.runState = 1 ∧ state.running = true ∨
      state.last ≠ some true ∧ state.runState = 0 ∧ state.running = false := by
  simp only [Local] at idle
  split at idle
  next up => exact .inl ⟨up, idle⟩
  next down => exact .inr ⟨down, idle⟩

theorem RxThread.Solo.begin {wakes : Option RxParty} (solo : state.Solo thread) (inv : state.Inv)
    (lock : state.ioctl thread = .upLock) (zero : state.runState = 0)
    (signals : state.Signals wakes) :
    (({ state with runState := 1 }.cvSignal wakes).setIoctl thread .idle).Solo thread := by
  have local_ := solo.progress
  rw [lock] at local_
  obtain ⟨-, running, last⟩ := local_
  cases inv.phase with
  | started run _ _ | stopping _ run _ _ _ | acknowledged _ run _ _ _ => omega
  | stopped _ _ nobody =>
    rcases wakes with _ | _ | sleeper
    · exact Solo.set solo.others rfl (Local.up last rfl running)
    · exact Solo.set solo.others rfl (Local.up last rfl running)
    · exact absurd ⟨false, signals⟩ (nobody sleeper)

theorem RxThread.Solo.ask {wakes : Option RxParty} (solo : state.Solo thread) (inv : state.Inv)
    (lock : state.ioctl thread = .downLock) (one : state.runState = 1)
    (signals : state.Signals wakes) :
    (({ state with runState := 2 }.cvSignal wakes).setIoctl thread (.waiting false)).Solo
      thread := by
  have local_ := solo.progress
  rw [lock] at local_
  cases inv.phase with
  | stopped run _ _ | stopping _ run _ _ _ | acknowledged _ run _ _ _ => omega
  | started _ _ nobody =>
    rcases wakes with _ | _ | sleeper
    · exact Solo.set solo.others rfl ⟨.inl rfl, local_.2⟩
    · exact Solo.set solo.others rfl ⟨.inl rfl, local_.2⟩
    · exact absurd ⟨false, signals⟩ (nobody sleeper)

theorem RxThread.Solo.answer {wakes : Option RxParty} (solo : state.Solo thread)
    (inv : state.Inv) (two : state.runState = 2) (signals : state.Signals wakes) :
    Solo { { state with runState := 3 }.cvSignal wakes with
      waitForStart := true, receiver := .waiting false } thread := by
  cases inv.phase with
  | stopped run _ _ | started run _ _ | acknowledged _ run _ _ _ => omega
  | stopping waiter _ away waits _ =>
    obtain ⟨woken, at_⟩ := waits
    obtain rfl : waiter = thread := solo.own (by rw [at_]; rintro ⟨⟩)
    have local_ := solo.progress
    rw [at_] at local_
    rcases wakes with _ | _ | sleeper
    · refine ⟨solo.others, ?_⟩
      show Local _ (state.ioctl waiter)
      rw [at_]
      exact ⟨.inr rfl, local_.2⟩
    · exact absurd ⟨false, signals⟩ away
    · obtain rfl : sleeper = waiter :=
        solo.own (by rw [show state.ioctl sleeper = _ from signals]; rintro ⟨⟩)
      exact Solo.set solo.others rfl ⟨.inr rfl, local_.2⟩

theorem RxThread.Solo.step (solo : ∃ thread, state.Solo thread) (inv : state.Inv)
    (move : promptMove state label next) (alone : state.Alone label) :
    ∃ thread, next.Solo thread := by
  obtain ⟨thread, solo⟩ := solo
  have own : ∀ {caller : Nat} {pc : IoctlPc}, state.ioctl caller = pc → pc ≠ .idle →
      caller = thread ∧ state.Local pc := by
    rintro caller pc rfl busy
    obtain rfl := solo.own busy
    exact ⟨rfl, solo.progress⟩
  cases rxThreadMove_cases move.1 with
  | @callUp caller =>
    refine ⟨caller, Solo.set (fun other _ => alone other) rfl ⟨?_, rfl, rfl⟩⟩
    rcases (solo.quiet alone).idle with ⟨-, one, -⟩ | ⟨-, zero, -⟩
    · exact .inr one
    · exact .inl zero
  | @callDown caller _ running =>
    refine ⟨caller, Solo.set (fun other _ => alone other) rfl ⟨?_, rfl⟩⟩
    rcases (solo.quiet alone).idle with ⟨-, one, -⟩ | ⟨-, -, stopped⟩
    · exact one
    · cases running.symm.trans stopped
  | @ignore caller _ stopped =>
    refine ⟨caller, fun other _ => alone other, ?_⟩
    show Local _ (state.ioctl caller)
    rw [alone caller]
    rcases (solo.quiet alone).idle with ⟨-, -, running⟩ | ⟨-, zero, running⟩
    · exact absurd running stopped
    · exact Local.down (by rintro ⟨⟩) zero running
  | begin lock zero signals =>
    obtain ⟨rfl, -⟩ := own lock (by rintro ⟨⟩)
    exact ⟨_, solo.begin inv lock zero signals⟩
  | stay lock other =>
    obtain ⟨rfl, run, running, last⟩ := own lock (by rintro ⟨⟩)
    exact ⟨_, Solo.set solo.others rfl (Local.up last (run.resolve_left other) running)⟩
  | ask lock one signals =>
    obtain ⟨rfl, -⟩ := own lock (by rintro ⟨⟩)
    exact ⟨_, solo.ask inv lock one signals⟩
  | pass lock other =>
    obtain ⟨rfl, one, -⟩ := own lock (by rintro ⟨⟩)
    exact absurd one other
  | answered woken three =>
    obtain ⟨rfl, -, last⟩ := own woken (by rintro ⟨⟩)
    exact ⟨_, Solo.set solo.others rfl ⟨rfl, last⟩⟩
  | again woken other =>
    obtain ⟨rfl, progress⟩ := own woken (by rintro ⟨⟩)
    exact ⟨_, Solo.set solo.others rfl progress⟩
  | downStop stop =>
    obtain ⟨rfl, zero, last⟩ := own stop (by rintro ⟨⟩)
    have down : state.last ≠ some true := by
      rw [last]
      rintro ⟨⟩
    exact ⟨_, Solo.set solo.others rfl (Local.down down zero rfl)⟩
  | answer _ two signals => exact ⟨thread, solo.answer inv two signals⟩
  | sleep | go | wake | doze | batch => exact ⟨thread, { solo with }⟩

end Solo

section Rest

variable (execution : Execution promptMove)

theorem execution_solo (initial : (execution.states 0).Inv)
    (first : ∃ thread, (execution.states 0).Solo thread)
    (alone : ∀ time, (execution.states time).Alone (execution.labels time)) (time : Nat) :
    ∃ thread, (execution.states time).Solo thread :=
  execution.always (fun state => ∃ thread, state.Solo thread) first
    (fun time _ solo => RxThread.Solo.step solo (execution_inv execution initial time)
      (execution.step time) (alone time)) time (Nat.zero_le time)

theorem quiet_step {state next : RxThread} {label : RxStep} (quiet : state.Quiet)
    (move : rxThreadMove state label next) (noCall : ¬ label.IsCall) :
    label.actor = some .receiver ∧ (state.runState = 0 ∨ state.runState = 1 →
      next.Quiet ∧ next.runState = state.runState) := by
  cases rxThreadMove_cases move with
  | callUp | callDown | ignore => exact absurd trivial noCall
  | begin at_ | stay at_ | ask at_ | pass at_ | answered at_ | again at_ | downStop at_ =>
    cases (quiet _).symm.trans at_
  | answer _ two =>
    refine ⟨rfl, fun run => ?_⟩
    omega
  | sleep | go | wake | doze | batch => exact ⟨rfl, fun _ => ⟨quiet, rfl⟩⟩

structure Settled (start : Nat) : Prop where
  quiet : (execution.states start).Quiet
  noCall : ∀ time, start ≤ time → ¬ (execution.labels time).IsCall

def ReceivesForever (start : Nat) : Prop :=
  ∀ early, start ≤ early → ∃ time, early ≤ time ∧ execution.labels time = .batch

def ReceivesNothing (start : Nat) : Prop :=
  ∀ time, start ≤ time → execution.labels time ≠ .batch

variable {execution} {start : Nat}

theorem Settled.stays (settled : Settled execution start) {run : Nat} (low : run = 0 ∨ run = 1)
    (here : (execution.states start).runState = run) (time : Nat) (later : start ≤ time) :
    (execution.states time).Quiet ∧ (execution.states time).runState = run := by
  refine execution.always (fun state => state.Quiet ∧ state.runState = run)
    ⟨settled.quiet, here⟩ (fun time later held => ?_) time later
  obtain ⟨quiet, same⟩ := held
  obtain ⟨-, next⟩ := quiet_step quiet (execution.step time).1 (settled.noCall time later)
  rw [same] at next
  exact next low

theorem Settled.receives (settled : Settled execution start)
    (up : (execution.states start).runState = 1) : ReceivesForever execution start := by
  intro early later
  have stays := settled.stays (.inr rfl) up
  have receiver := fun time (after : start ≤ time) =>
    (quiet_step (stays time after).1 (execution.step time).1 (settled.noCall time after)).1
  by_cases now : execution.labels early = .batch
  · exact ⟨early, Nat.le_refl _, now⟩
  · have receiving : (execution.states (early + 1)).receiver = .receiving := by
      have moved := rxThreadMove_cases (execution.step early).1
      have own := receiver early later
      have one := (stays early later).2
      generalize execution.labels early = label, execution.states (early + 1) = next at *
      cases moved with
      | answer _ run | sleep _ _ run | doze _ run => omega
      | go | wake => rfl
      | batch => exact absurd rfl now
      | _ => cases own
    refine ⟨early + 1, by omega, ?_⟩
    have moved := rxThreadMove_cases (execution.step (early + 1)).1
    have own := receiver (early + 1) (by omega)
    generalize execution.labels (early + 1) = label, execution.states (early + 1 + 1) = next at *
    cases moved with
    | batch => rfl
    | answer at_ | sleep at_ | go at_ | wake at_ | doze at_ => cases at_.symm.trans receiving
    | _ => cases own

theorem Settled.rests (settled : Settled execution start)
    (inv : ∀ time, (execution.states time).Inv)
    (down : (execution.states start).runState = 0) : ReceivesNothing execution start := by
  intro time later batch
  have zero := (settled.stays (.inl rfl) down time later).2
  obtain ⟨⟨enabled, -⟩, -⟩ := execution.step time
  rw [batch] at enabled
  cases (inv time).phase with
  | stopped _ away _ => exact away enabled
  | started run _ _ | stopping _ run _ _ _ | acknowledged _ run _ _ _ => omega

theorem Settled.follows (settled : Settled execution start)
    (initial : (execution.states 0).Inv) (first : ∃ thread, (execution.states 0).Solo thread)
    (alone : ∀ time, (execution.states time).Alone (execution.labels time)) :
    if (execution.states start).last = some true then ReceivesForever execution start
      else ReceivesNothing execution start := by
  obtain ⟨thread, solo⟩ := execution_solo execution initial first alone start
  rcases (solo.quiet settled.quiet).idle with ⟨up, one, -⟩ | ⟨down, zero, -⟩
  · rw [if_pos up]
    exact settled.receives one
  · rw [if_neg down]
    exact settled.rests (execution_inv execution initial) zero

end Rest

def aloneMove (state : RxThread) (step : RxStep) (next : RxThread) : Prop :=
  promptMove state step next ∧ state.Alone step

theorem aloneMove_solo {labels : List RxStep} {state : RxThread}
    (run : Run aloneMove .start labels state) : ∃ thread, state.Solo thread := by
  have both : state.Inv ∧ ∃ thread, state.Solo thread := by
    refine run.invariant (fun state => state.Inv ∧ ∃ thread, state.Solo thread) ?_ ?_
    · exact ⟨.start, 0, fun _ _ => rfl, by simp [Local, RxThread.start]⟩
    · rintro state label next ⟨inv, solo⟩ ⟨move, alone⟩
      exact ⟨inv.step move, RxThread.Solo.step solo inv move alone⟩
  exact both.2

/-- When no down request finds run state 1 before the receive thread has seen it: no
mutual wait, every ioctl returns, and the last of the requests is followed. -/
theorem rxThread_handshake {labels : List RxStep} {state : RxThread}
    (run : Run promptMove .start labels state) :
    ¬ state.MutualWait ∧
      ∀ execution : Execution promptMove, execution.states 0 = state →
        execution.Fair Ready RxStep.actor →
        (∀ thread start, ∃ time, start ≤ time ∧
          (execution.states time).ioctl thread = .idle) ∧
        (Run aloneMove .start labels state →
          (∀ time, (execution.states time).Alone (execution.labels time)) →
          ∀ start, Settled execution start →
            if (execution.states start).last = some true then ReceivesForever execution start
            else ReceivesNothing execution start) := by
  have inv : state.Inv :=
    run.invariant Inv .start fun _ _ _ inv move => inv.step move
  refine ⟨inv.phase.not_mutualWait, ?_⟩
  rintro execution rfl fair
  refine ⟨ioctl_returns execution fair inv, ?_⟩
  intro alone aloneLater start settled
  exact settled.follows inv (aloneMove_solo alone) aloneLater

theorem upSection_returns (run : Nat) (receiver : RxPc) (running : Bool) (last : Option Bool) :
    setIoctl ⟨run, true, receiver, fun other => if other = 0 then .upLock else .idle,
      running, last⟩ 0 .idle = ⟨run, true, receiver, fun _ => .idle, running, last⟩ := by
  simp only [setIoctl]
  congr 1
  funext other
  split <;> rfl

def upExecution : Execution promptMove where
  states
    | 0 => .start
    | 1 => { RxThread.start with receiver := .waiting false }
    | 2 => ⟨0, true, .waiting false, fun other => if other = 0 then .upLock else .idle, true,
        some true⟩
    | 3 => ⟨1, true, .waiting true, fun _ => .idle, true, some true⟩
    | time + 4 => ⟨1, true, if time % 2 = 0 then .receiving else .top, fun _ => .idle, true,
        some true⟩
  labels
    | 0 => .receiverTop none
    | 1 => .callUp 0
    | 2 => .upSection 0 (some .receiver)
    | 3 => .receiverWake
    | time + 4 => if time % 2 = 0 then .batch else .receiverTop none
  step := by
    intro time
    match time with
    | 0 => exact ⟨⟨⟨rfl, rfl⟩, rfl⟩, trivial⟩
    | 1 => exact ⟨⟨rfl, rfl⟩, trivial⟩
    | 2 => exact ⟨⟨⟨rfl, rfl⟩, upSection_returns ..⟩, trivial⟩
    | 3 => exact ⟨⟨⟨true, rfl⟩, rfl⟩, trivial⟩
    | time + 4 =>
        rcases Nat.mod_two_eq_zero_or_one time with even | odd
        · have next : (time + 1) % 2 ≠ 0 := by omega
          simp only [if_pos even, if_neg next]
          exact ⟨⟨rfl, rfl⟩, trivial⟩
        · have next : (time + 1) % 2 = 0 := by omega
          have now : time % 2 ≠ 0 := by omega
          simp only [if_neg now, if_pos next]
          exact ⟨⟨⟨rfl, rfl⟩, rfl⟩, trivial⟩

theorem upExecution_later (time : Nat) (late : 4 ≤ time) :
    (upExecution.states time).Quiet ∧ (upExecution.labels time).actor = some .receiver ∧
      ¬ (upExecution.labels time).IsCall ∧
      (upExecution.states time).Alone (upExecution.labels time) := by
  obtain ⟨offset, rfl⟩ := Nat.exists_eq_add_of_le' late
  refine ⟨fun _ => rfl, ?_⟩
  simp only [upExecution]
  split
  · exact ⟨rfl, id, trivial⟩
  · exact ⟨rfl, id, trivial⟩

theorem upExecution_fair : upExecution.Fair Ready RxStep.actor := by
  intro party start ready
  have late := upExecution_later (start + 4) (by omega)
  cases party with
  | receiver => exact ⟨start + 4, by omega, late.2.1⟩
  | ioctl thread => exact absurd (late.1 thread) (ready (start + 4) (by omega)).1

theorem upExecution_alone (time : Nat) :
    (upExecution.states time).Alone (upExecution.labels time) := by
  match time with
  | 0 => trivial
  | 1 => exact fun _ => rfl
  | 2 => trivial
  | 3 => trivial
  | time + 4 => exact (upExecution_later (time + 4) (by omega)).2.2.2

theorem upExecution_receives : ReceivesForever upExecution 4 :=
  ((rxThread_handshake .nil).2 upExecution rfl upExecution_fair).2 .nil upExecution_alone 4
    ⟨(upExecution_later 4 (by omega)).1, fun time late => (upExecution_later time late).2.2.1⟩

def RxThread.Stuck (state : RxThread) : Prop :=
  state.runState = 2 ∧ state.ReceiverWaits ∧ state.Waits 0

theorem RxThread.Stuck.step {state next : RxThread} {label : RxStep} (stuck : state.Stuck)
    (move : rxThreadMove state label next) : next.Stuck := by
  obtain ⟨two, receiverWaits, waits⟩ := stuck
  obtain ⟨woken, at_⟩ := receiverWaits
  have still : next.runState = 2 ∧ next.ReceiverWaits := by
    cases rxThreadMove_cases move with
    | begin _ run | ask _ run | answered _ run | wake _ run => omega
    | answer top | sleep top | go top | batch top => cases top.symm.trans at_
    | doze => exact ⟨two, false, rfl⟩
    | _ => exact ⟨two, woken, at_⟩
  exact ⟨still.1, still.2, waits_step two move waits⟩

theorem rxThread_mutual_wait :
    ∃ state, Run rxThreadMove .start [.receiverTop none, .callUp 0,
        .upSection 0 (some .receiver), .callDown 0, .downSection 0 none, .receiverWake] state ∧
      state.MutualWait ∧ ∀ labels later, Run rxThreadMove state labels later →
        later.MutualWait ∧ later.ioctl 0 ≠ .idle := by
  have stuck : ∀ state : RxThread, state.Stuck → state.MutualWait ∧ state.ioctl 0 ≠ .idle := by
    rintro state ⟨two, receiverWaits, woken, at_⟩
    refine ⟨⟨⟨0, woken, at_⟩, receiverWaits, by omega, by omega⟩, ?_⟩
    rw [at_]
    rintro ⟨⟩
  let started : RxThread := ⟨1, true, .waiting true, fun _ => .idle, true, some true⟩
  let asked := (started.step (.callDown 0)).step (.downSection 0 none)
  have up : Run rxThreadMove .start
      [.receiverTop none, .callUp 0, .upSection 0 (some .receiver)] started :=
    .snoc (.snoc (.snoc .nil (upExecution.step 0).1) (upExecution.step 1).1)
      (upExecution.step 2).1
  have nobody : (started.step (.callDown 0)).Signals none := by
    rintro (_ | thread)
    · rintro ⟨⟩
    · intro asleep
      by_cases zero : thread = 0
      · subst zero
        cases asleep
      · cases (setIoctl_other started .downLock zero).symm.trans asleep
  have down : Run rxThreadMove started [.callDown 0, .downSection 0 none, .receiverWake]
      (asked.step .receiverWake) :=
    .snoc (.snoc (.snoc .nil ⟨rfl, rfl⟩) ⟨⟨rfl, nobody⟩, rfl⟩) ⟨⟨true, rfl⟩, rfl⟩
  have reached : (asked.step .receiverWake).Stuck := ⟨rfl, ⟨false, rfl⟩, false, rfl⟩
  refine ⟨_, up.append down, (stuck _ reached).1, ?_⟩
  intro labels later run
  exact stuck later (run.invariant Stuck reached fun _ _ _ held move => held.step move)

structure RxThread.Receives (state : RxThread) : Prop where
  waitForStart : state.waitForStart = true
  up : state.receiver = .receiving → state.runState = 1 ∨ state.runState = 2

theorem RxThread.Receives.step {state next : RxThread} {label : RxStep}
    (receives : state.Receives) (move : rxThreadMove state label next) : next.Receives := by
  obtain ⟨waits, up⟩ := receives
  cases rxThreadMove_cases move with
  | callUp | callDown | stay | pass | downStop | ignore | again => exact ⟨waits, up⟩
  | begin => exact ⟨(cvSignal_kept ..).2.trans waits, fun _ => .inl (cvSignal_kept ..).1⟩
  | ask => exact ⟨(cvSignal_kept ..).2.trans waits, fun _ => .inr (cvSignal_kept ..).1⟩
  | answered _ three =>
    refine ⟨waits, fun receiving => ?_⟩
    have run := up receiving
    omega
  | answer => exact ⟨rfl, by rintro ⟨⟩⟩
  | sleep | doze | batch => exact ⟨waits, by rintro ⟨⟩⟩
  | go _ _ ready =>
    refine ⟨waits, fun _ => .inl ?_⟩
    by_contra other
    exact ready ⟨waits, other⟩
  | wake _ one => exact ⟨waits, fun _ => .inl one⟩

/-- Frames are received only in run states 1 and 2, so none once a down request is answered. -/
theorem rxThread_receives_when_up {labels : List RxStep} {state next : RxThread}
    (run : Run rxThreadMove .start labels state) (batch : rxThreadMove state .batch next) :
    state.runState = 1 ∨ state.runState = 2 := by
  have receives : state.Receives :=
    run.invariant Receives ⟨rfl, by rintro ⟨⟩⟩ fun _ _ _ receives move => receives.step move
  exact receives.up batch.1

theorem rxThread_receives_after_up :
    (upExecution.states 4).runState = 1 ∨ (upExecution.states 4).runState = 2 :=
  rxThread_receives_when_up (.snoc (.snoc (.snoc (.snoc .nil (upExecution.step 0).1)
    (upExecution.step 1).1) (upExecution.step 2).1) (upExecution.step 3).1) (upExecution.step 4).1

end Libunsod.Uinet
