import Libunsod.Base.Fairness
import Mathlib.Data.BitVec
import Mathlib.Logic.Function.Basic
import Mathlib.Tactic.IntervalCases

/-!
Events of a single-threaded stack instance. A sender sets bits of `sts_events` and notifies the
stack's thread. That thread reads the word, runs the handlers of the bits it has read and then
clears those bits. Bits that are set between the start of a handler and the clear are lost.
-/

namespace Libunsod.Net

open Runs

variable {sender : Nat}

def prDrain : BitVec 32 := 0x00000001#32

def drains (events : BitVec 32) : Bool := events &&& prDrain != 0#32

inductive ProcessPc where
  | idle
  | read (events : BitVec 32)
  | draining (events : BitVec 32)
  | clearing (events : BitVec 32)

structure VnetSts where
  stsEvents : BitVec 32
  notified : Bool
  pc : ProcessPc
  sending : Nat → Bool

inductive StsStep where
  | send (sender : Nat) (events : BitVec 32)
  | notify (sender : Nat)
  | process

namespace VnetSts

def start : VnetSts := ⟨0#32, false, .idle, fun _ => false⟩

def eventSend (vnet : VnetSts) (sender : Nat) (events : BitVec 32) : VnetSts :=
  { vnet with
    stsEvents := vnet.stsEvents ||| events
    sending := Function.update vnet.sending sender true }

def eventNotify (vnet : VnetSts) (sender : Nat) : VnetSts :=
  { vnet with notified := true, sending := Function.update vnet.sending sender false }

def eventsProcess (vnet : VnetSts) : VnetSts :=
  match vnet.pc with
  | .idle => { vnet with pc := .read vnet.stsEvents, notified := false }
  | .read events =>
      if events = 0#32 then { vnet with pc := .idle }
      else if drains events then { vnet with pc := .draining events }
      else { vnet with pc := .clearing events }
  | .draining events => { vnet with pc := .clearing events }
  | .clearing events => { vnet with pc := .idle, stsEvents := vnet.stsEvents &&& ~~~events }

def Enabled (vnet : VnetSts) : StsStep → Prop
  | .send sender _ => vnet.sending sender = false
  | .notify sender => vnet.sending sender = true
  | .process => True

def step (vnet : VnetSts) : StsStep → VnetSts
  | .send sender events => vnet.eventSend sender events
  | .notify sender => vnet.eventNotify sender
  | .process => vnet.eventsProcess

end VnetSts

def stsMove : VnetSts → StsStep → VnetSts → Prop := Guarded VnetSts.Enabled VnetSts.step

inductive StsParty where
  | stack
  | sender (sender : Nat)

def StsStep.actor : Option StsStep → Option StsParty
  | some .process => some .stack
  | some (.notify sender) => some (.sender sender)
  | _ => none

def VnetSts.Ready (vnet : VnetSts) : StsParty → Prop
  | .stack => vnet.pc ≠ .idle ∨ vnet.notified = true
  | .sender sender => vnet.sending sender = true

def VnetSts.Open (vnet : VnetSts) : Prop :=
  match vnet.pc with
  | .idle | .read _ => True
  | .draining _ => False
  | .clearing taken => drains taken = false

section Bits

theorem drains_eq (events : BitVec 32) : drains events = events.getLsbD 0 := by
  have low : events &&& prDrain = if events.getLsbD 0 then 1#32 else 0#32 := by
    ext index bound
    by_cases first : index = 0
    · subst first
      cases h : events.getLsbD 0 <;> simp_all [prDrain]
    · cases h : events.getLsbD 0 <;> simp_all [prDrain]
  unfold drains
  rw [low]
  split <;> simp_all

theorem drains_or (events other : BitVec 32) :
    drains (events ||| other) = (drains events || drains other) := by
  simp [drains_eq]

theorem drains_clear (events taken : BitVec 32) :
    drains (events &&& ~~~taken) = (drains events && !drains taken) := by
  simp [drains_eq]

theorem drains_zero : drains 0#32 = false := by
  decide

end Bits

def VnetSts.Owed (vnet : VnetSts) : Prop := drains vnet.stsEvents = true ∧ vnet.Open

def VnetSts.Coming (vnet : VnetSts) : Prop :=
  vnet.notified = true ∨ ∃ events, vnet.pc = .read events ∧ drains events = true

def VnetSts.rank (vnet : VnetSts) : Nat :=
  match vnet.pc with
  | .read events => if drains events then 0 else 3
  | .idle => 1
  | .clearing _ => 2
  | .draining _ => 0

variable {vnet : VnetSts}

theorem VnetSts.Owed.process (owed : vnet.Owed)
    (waits : ∀ events, vnet.pc = .read events → drains events = false) :
    vnet.eventsProcess.Owed ∧ (vnet.Coming → vnet.eventsProcess.Coming ∧
      vnet.eventsProcess.rank < vnet.rank) := by
  obtain ⟨set, opened⟩ := owed
  unfold VnetSts.eventsProcess
  split
  next at_ =>
    refine ⟨⟨set, trivial⟩, fun _ => ⟨.inr ⟨_, rfl, set⟩, ?_⟩⟩
    simp [VnetSts.rank, at_, set]
  next events at_ =>
    have unread := waits events at_
    have again : vnet.Coming → vnet.notified = true := by
      rintro (notified | ⟨other, same, drained⟩)
      · exact notified
      · rw [waits other same] at drained
        cases drained
    split
    next none =>
      refine ⟨⟨set, trivial⟩, fun coming => ⟨.inl (again coming), ?_⟩⟩
      simp [VnetSts.rank, at_, unread]
    next some =>
      rw [if_neg (by simp [unread])]
      refine ⟨⟨set, unread⟩, fun coming => ⟨.inl (again coming), ?_⟩⟩
      simp [VnetSts.rank, at_, unread]
  next events at_ =>
    unfold VnetSts.Open at opened
    rw [at_] at opened
    exact opened.elim
  next taken at_ =>
    have untouched : drains taken = false := by
      unfold VnetSts.Open at opened
      rw [at_] at opened
      exact opened
    refine ⟨⟨?_, trivial⟩, fun coming => ⟨.inl ?_, ?_⟩⟩
    · rw [drains_clear, set, untouched]
      rfl
    · rcases coming with notified | ⟨other, same, -⟩
      · exact notified
      · rw [at_] at same
        cases same
    · simp [VnetSts.rank, at_]

section Executions

variable {execution : Execution (Idling stsMove)}

def Begins (execution : Execution (Idling stsMove)) (time : Nat) : Prop :=
  execution.labels time = some .process ∧
    ∃ events, (execution.states time).pc = .read events ∧ drains events = true

def VnetSts.Drains (vnet : VnetSts) (label : StsStep) : Prop :=
  label = .process ∧ ∃ events, vnet.pc = .read events ∧ drains events = true

variable {next : VnetSts} {label : StsStep}

theorem owed_kept (owed : vnet.Owed) (moved : stsMove vnet label next) :
    vnet.Drains label ∨ next.Owed ∧ (vnet.Coming → next.Coming ∧ next.rank ≤ vnet.rank ∧
      (label = .process → next.rank < vnet.rank)) := by
  obtain ⟨-, rfl⟩ := moved
  cases label with
  | send sender events =>
    refine .inr ⟨⟨?_, owed.2⟩, fun coming => ⟨coming, Nat.le_refl _, by rintro ⟨⟩⟩⟩
    simp only [VnetSts.step, VnetSts.eventSend]
    rw [drains_or, owed.1]
    rfl
  | notify sender => exact .inr ⟨owed, fun _ => ⟨.inl rfl, Nat.le_refl _, by rintro ⟨⟩⟩⟩
  | process =>
    by_cases begins : ∃ events, vnet.pc = .read events ∧ drains events = true
    · exact .inl ⟨rfl, begins⟩
    · obtain ⟨still, progress⟩ := owed.process fun events at_ =>
        Bool.eq_false_iff.mpr fun drained => begins ⟨events, at_, drained⟩
      refine .inr ⟨still, fun coming => ?_⟩
      obtain ⟨after, lower⟩ := progress coming
      exact ⟨after, Nat.le_of_lt lower, fun _ => lower⟩

theorem sending_kept (sending : vnet.sending sender = true) (moved : stsMove vnet label next)
    (others : label ≠ .notify sender) : next.sending sender = true := by
  obtain ⟨-, rfl⟩ := moved
  cases label with
  | send other events =>
    by_cases same : sender = other
    · rw [same]
      exact Function.update_self ..
    · exact (Function.update_of_ne same ..).trans sending
  | notify other =>
    have different : sender ≠ other := by
      rintro rfl
      exact others rfl
    exact (Function.update_of_ne different ..).trans sending
  | process =>
    simp only [VnetSts.step, VnetSts.eventsProcess]
    split
    · exact sending
    · split
      · exact sending
      · split <;> exact sending
    · exact sending
    · exact sending

variable (fair : execution.Fair VnetSts.Ready StsStep.actor)

include fair

theorem send_notifies {start : Nat} (owed : (execution.states start).Owed)
    (sending : (execution.states start).sending sender = true) :
    ∃ time label, start ≤ time ∧ execution.labels time = some label ∧
      ((execution.states time).Drains label ∨ (execution.states (time + 1)).Owed ∧
        (execution.states (time + 1)).Coming) := by
  refine execution.descends fair (.sender sender) (by rintro ⟨⟩)
    (fun vnet => vnet.Owed ∧ vnet.sending sender = true) (fun _ => 0)
    (fun vnet label next => vnet.Drains label ∨ next.Owed ∧ next.Coming) ⟨owed, sending⟩
    (fun vnet held => held.2) fun time label _ _ held moved => ?_
  rcases owed_kept held.1 moved with begins | ⟨still, -⟩
  · exact .inl (.inl begins)
  by_cases own : label = .notify sender
  · refine .inl (.inr ⟨still, .inl ?_⟩)
    rw [← moved.2, own]
    rfl
  · refine .inr ⟨⟨still, sending_kept held.2 moved own⟩, Nat.le_refl _, fun acts => ?_⟩
    cases label with
    | notify other =>
      cases acts
      exact absurd rfl own
    | send | process => cases acts

theorem coming_begins {start : Nat} (owed : (execution.states start).Owed)
    (coming : (execution.states start).Coming) :
    ∃ time label, start ≤ time ∧ execution.labels time = some label ∧
      (execution.states time).Drains label := by
  refine execution.descends fair .stack (by rintro ⟨⟩) (fun vnet => vnet.Owed ∧ vnet.Coming)
    VnetSts.rank (fun vnet label _ => vnet.Drains label) ⟨owed, coming⟩ (fun vnet held => ?_)
    fun time label _ _ held moved => ?_
  · rcases held.2 with notified | ⟨events, at_, -⟩
    · exact .inr notified
    · exact .inl (by simp [at_])
  · rcases owed_kept held.1 moved with begins | ⟨still, progress⟩
    · exact .inl begins
    · obtain ⟨after, lower, acts⟩ := progress held.2
      refine .inr ⟨⟨still, after⟩, lower, fun own => acts ?_⟩
      cases label with
      | process => rfl
      | send | notify => cases own

end Executions

/-- A drain request that is sent while its bit cannot be cleared unseen starts the drain. -/
theorem stsEvents_handled (execution : Execution (Idling stsMove))
    (fair : execution.Fair VnetSts.Ready StsStep.actor) (time sender : Nat) (events : BitVec 32)
    (sent : execution.labels time = some (.send sender events)) (drain : drains events = true)
    (opened : (execution.states time).Open) :
    ∃ later, time < later ∧ Begins execution later := by
  have move := execution.step time
  rw [sent] at move
  obtain ⟨-, next⟩ := move
  have owed : (execution.states (time + 1)).Owed := by
    rw [← next]
    refine ⟨?_, opened⟩
    simp only [VnetSts.step, VnetSts.eventSend]
    rw [drains_or, drain, Bool.or_true]
  have sending : (execution.states (time + 1)).sending sender = true := by
    rw [← next]
    exact Function.update_self ..
  obtain ⟨notified, label, afterSend, taken, ⟨rfl, begins⟩ | ⟨still, coming⟩⟩ :=
    send_notifies fair owed sending
  · exact ⟨notified, by omega, taken, begins⟩
  · obtain ⟨later, label, afterNotice, taken, rfl, begins⟩ := coming_begins fair still coming
    exact ⟨later, by omega, taken, begins⟩

theorem idle_not_ready (idle : vnet.pc = .idle) (quiet : vnet.notified = false)
    (sent : ∀ sender, vnet.sending sender = false) (party : StsParty) : ¬ vnet.Ready party := by
  cases party with
  | stack =>
    rintro (busy | notified)
    · exact busy idle
    · rw [quiet] at notified
      cases notified
  | sender sender =>
    intro sending
    have idle := sent sender
    rw [show vnet.sending sender = true from sending] at idle
    cases idle

def oneEvent : List StsStep :=
  [.send 0 prDrain, .notify 0, .process, .process, .process, .process]

theorem oneEvent_allowed : Allowed VnetSts.Enabled VnetSts.step VnetSts.start oneEvent :=
  ⟨rfl, rfl, trivial, trivial, trivial, trivial, trivial⟩

theorem stsEvents_one_handled :
    ∃ execution : Execution (Idling stsMove), execution.states 0 = VnetSts.start ∧
      execution.labels 0 = some (.send 0 prDrain) ∧
      ∃ later, 0 < later ∧ Begins execution later := by
  have fair : (Execution.replay oneEvent_allowed).Fair VnetSts.Ready StsStep.actor := by
    refine Execution.replay_fair oneEvent_allowed (idle_not_ready rfl rfl fun sender => ?_)
    cases sender with
    | zero | succ sender => rfl
  exact ⟨Execution.replay oneEvent_allowed, rfl, rfl,
    stsEvents_handled _ fair 0 0 prDrain rfl rfl trivial⟩

def twoEvents : List StsStep :=
  [.send 0 prDrain, .notify 0, .process, .process, .send 1 prDrain, .notify 1, .process, .process,
    .process, .process]

theorem twoEvents_allowed : Allowed VnetSts.Enabled VnetSts.step VnetSts.start twoEvents :=
  ⟨rfl, rfl, trivial, trivial, rfl, rfl, trivial, trivial, trivial, trivial, trivial⟩

theorem stsEvents_second_lost :
    ∃ execution : Execution (Idling stsMove), execution.states 0 = VnetSts.start ∧
      execution.Fair VnetSts.Ready StsStep.actor ∧
      execution.labels 4 = some (.send 1 prDrain) ∧
      ∀ later, 4 < later → ¬ Begins execution later := by
  refine ⟨Execution.replay twoEvents_allowed, rfl, ?_, rfl, fun later after begins => ?_⟩
  · refine Execution.replay_fair twoEvents_allowed (idle_not_ready rfl rfl fun sender => ?_)
    match sender with
    | 0 => rfl
    | 1 => rfl
    | sender + 2 => rfl
  · obtain ⟨label, events, at_, drained⟩ := begins
    rcases Nat.lt_or_ge later 10 with early | late
    · have empty : later = 9 ∧ events = 0#32 := by
        interval_cases later <;> cases label <;> cases at_
        exact ⟨rfl, rfl⟩
      rw [empty.2, drains_zero] at drained
      cases drained
    · rw [Execution.replay_ends twoEvents_allowed late] at label
      cases label

end Libunsod.Net
