import Libunsod.Base.Cursor
import Libunsod.Uinet.CalloutCore
import Mathlib.Logic.Relation

/-!
The callout wheel over every run. The buckets hold the pending callouts, each once
and where its time hashes to. Between two calls of `uinet_hardclock` the timer
thread has caught up with `ticks` and no pending callout of its wheel is overdue;
while `softclock` walks a bucket, every callout that is due is still in front of
`cc_next`, whatever other threads and handlers link and unlink meanwhile.
-/

namespace Libunsod.Uinet

open Cursor Runs
open CalloutState
open Function (update update_of_ne update_self)
open Relation (ReflTransGen)

inductive TimerPhase where
  | settled
  | behind
  | sweeping (curticks : BitVec 32)

def TimerPc.phase : TimerPc → TimerPhase
  | .idle => .settled
  | .ticked => .behind
  | .entering => .behind
  | .window curticks => .sweeping curticks
  | .taken curticks _ => .sweeping curticks
  | .running curticks _ => .sweeping curticks
  | .finishing curticks => .sweeping curticks

def Callout.On (callout : Callout) (cpu : Cpu) : Prop :=
  callout.pending = true ∧ callout.cpu = cpu

def Ahead (ticks time : BitVec 32) : Prop :=
  (time - ticks).toNat < 2 ^ 31

def Callout.place (callout : Callout) : Option (Cpu × BitVec 32) :=
  if callout.pending then some (callout.cpu, callout.time) else none

def CalloutState.wheel (state : CalloutState) : Cpu → Nat → List CalloutId :=
  CalloutCpu.callwheel ∘ state.cpus

def CalloutState.places (state : CalloutState) : CalloutId → Option (Cpu × BitVec 32) :=
  Callout.place ∘ state.callouts

variable {bits : Nat} {self cpu : Cpu} {state next : CalloutState} {callout : CalloutId}
  {ticks time : BitVec 32} {rest : List CalloutId} {cursor : Option CalloutId}
  {wheel : Cpu → Nat → List CalloutId} {places : CalloutId → Option (Cpu × BitVec 32)}

structure Linked (bits : Nat) (wheel : Cpu → Nat → List CalloutId)
    (places : CalloutId → Option (Cpu × BitVec 32)) : Prop where
  nodup : ∀ cpu bucket, (wheel cpu bucket).Nodup
  mem : ∀ cpu bucket callout, callout ∈ wheel cpu bucket ↔
    ∃ time, places callout = some (cpu, time) ∧ bucketOf bits time = bucket

def Swept (self : Cpu) (ticks : BitVec 32) (places : CalloutId → Option (Cpu × BitVec 32))
    (late : CalloutId → BitVec 32 → Prop) : Prop :=
  ∀ callout time, places callout = some (self, time) → Ahead ticks time ∨ late callout time

def Clocked (bits : Nat) (self : Cpu) (ticks : BitVec 32) (cc : CalloutCpu)
    (places : CalloutId → Option (Cpu × BitVec 32)) : TimerPhase → Prop
  | .settled => cc.softticks = ticks ∧ cc.next = none ∧ Swept self ticks places fun _ _ => False
  | .behind =>
      cc.softticks + 1 = ticks ∧ cc.next = none ∧
        Swept self ticks places fun _ time => time + 1 = ticks
  | .sweeping curticks =>
      cc.softticks = ticks ∧ curticks + 1 = ticks ∧
        ∃ rest, At (cc.callwheel (bucketOf bits curticks)) cc.next rest ∧
          Swept self ticks places fun callout time => time = curticks ∧ callout ∈ rest

structure Wheeled (bits : Nat) (timerCpu : Cpu) (state : CalloutState) : Prop where
  linked : Linked bits state.wheel state.places
  clocked : Clocked bits timerCpu state.ticks (state.cpus timerCpu) state.places
    state.timer.phase

theorem Callout.Initialised.resting {callout : Callout} (initialised : callout.Initialised) :
    callout.pending = false ∧ callout.arming = 0 ∧
      (callout.lock = none → callout.returnUnlocked = true) := by
  rcases initialised with ⟨mpsafe, rfl⟩ | ⟨lock, returnUnlocked, rfl⟩
  · cases mpsafe with
    | false => exact ⟨rfl, rfl, by rintro ⟨⟩⟩
    | true => exact ⟨rfl, rfl, fun _ => rfl⟩
  · exact ⟨rfl, rfl, by rintro ⟨⟩⟩

theorem Callout.not_on {callout : Callout} (unarmed : callout.pending = false) (cpu : Cpu) :
    ¬callout.On cpu := by
  rintro ⟨pending, _⟩
  rw [unarmed] at pending
  cases pending

theorem Callout.place_eq_some {callout : Callout} :
    callout.place = some (cpu, time) ↔ callout.On cpu ∧ callout.time = time := by
  unfold Callout.place Callout.On
  by_cases pending : callout.pending = true
  · simp [pending]
  · simp [pending]

theorem calloutBoot_wheeled (bits : Nat) (self : Cpu) (ticks : BitVec 32)
    {callouts : CalloutId → Callout} (initialised : ∀ callout, (callouts callout).Initialised) :
    Wheeled bits self (calloutBoot ticks callouts) := by
  have idle : ∀ callout place, (calloutBoot ticks callouts).places callout ≠ some place := by
    rintro callout ⟨cpu, time⟩ place
    exact Callout.not_on (initialised callout).resting.1 cpu (Callout.place_eq_some.mp place).1
  refine ⟨⟨fun _ _ => List.nodup_nil, fun cpu bucket callout => ?_⟩, rfl, rfl, ?_⟩
  · constructor
    · intro member
      cases member
    · rintro ⟨time, place, _⟩
      exact absurd place (idle callout _)
  · intro callout time place
    exact absurd place (idle callout _)

theorem relinked_apply (wheel : Cpu → Nat → List CalloutId) (cpu other : Cpu)
    (bucket slot : Nat) (list : List CalloutId) :
    update wheel cpu (update (wheel cpu) bucket list) other slot =
      if other = cpu ∧ slot = bucket then list else wheel other slot := by
  by_cases here : other = cpu
  · subst here
    by_cases same : slot = bucket
    · subst same
      simp
    · simp [same]
  · simp [here]

theorem Linked.place_of_mem (linked : Linked bits wheel places) {bucket : Nat}
    (place : places callout = some (cpu, time)) {other : Cpu}
    (member : callout ∈ wheel other bucket) : other = cpu ∧ bucket = bucketOf bits time := by
  obtain ⟨_, same, hashed⟩ := (linked.mem other bucket callout).mp member
  rw [place] at same
  cases same
  exact ⟨rfl, hashed.symm⟩

theorem Linked.remove (linked : Linked bits wheel places)
    (place : places callout = some (cpu, time)) :
    Linked bits (update wheel cpu (update (wheel cpu) (bucketOf bits time)
      ((wheel cpu (bucketOf bits time)).erase callout))) (update places callout none) := by
  have erased : ∀ other slot, update wheel cpu (update (wheel cpu) (bucketOf bits time)
      ((wheel cpu (bucketOf bits time)).erase callout)) other slot =
        (wheel other slot).erase callout := by
    intro other slot
    rw [relinked_apply]
    split
    next here => rw [here.1, here.2]
    next apart => rw [List.erase_of_not_mem fun member => apart (linked.place_of_mem place member)]
  refine ⟨fun other slot => ?_, fun other slot entry => ?_⟩
  · rw [erased]
    exact (linked.nodup other slot).erase callout
  · rw [erased, (linked.nodup other slot).mem_erase_iff]
    by_cases same : entry = callout
    · subst same
      simp
    · simp [same, linked.mem]

theorem Linked.add (linked : Linked bits wheel places) (unarmed : places callout = none)
    (cpu : Cpu) (time : BitVec 32) :
    Linked bits (update wheel cpu (update (wheel cpu) (bucketOf bits time)
      (wheel cpu (bucketOf bits time) ++ [callout]))) (update places callout (some (cpu, time))) := by
  have absent : ∀ other slot, callout ∉ wheel other slot := by
    intro other slot member
    obtain ⟨_, place, _⟩ := (linked.mem other slot callout).mp member
    rw [unarmed] at place
    cases place
  refine ⟨fun other slot => ?_, fun other slot entry => ?_⟩
  · rw [relinked_apply]
    split
    · refine List.nodup_append.mpr ⟨linked.nodup .., List.nodup_singleton callout, ?_⟩
      rintro first member second last rfl
      rw [List.mem_singleton.mp last] at member
      exact absent _ _ member
    · exact linked.nodup other slot
  · rw [relinked_apply]
    by_cases same : entry = callout
    · subst same
      split
      next here => simp [here]
      next apart => simpa [absent, eq_comm] using fun here => (apart ⟨here.symm, ·⟩)
    · rw [update_of_ne same, ← linked.mem]
      split
      next here => simp [here, same]
      · rfl

theorem Clocked.update {ticks : BitVec 32} {cpus : Cpu → CalloutCpu} {value : CalloutCpu}
    {after : CalloutId → Option (Cpu × BitVec 32)} {phase : TimerPhase}
    (clocked : Clocked bits self ticks (cpus self) places phase)
    (softticks : value.softticks = (cpus cpu).softticks)
    (idle : (cpus cpu).next = none → value.next = none)
    (kept : ∀ callout time, after callout = some (self, time) →
      places callout = some (self, time) ∨ Ahead ticks time)
    (walked : ∀ curticks rest, At ((cpus cpu).callwheel (bucketOf bits curticks))
      (cpus cpu).next rest → ∃ left, At (value.callwheel (bucketOf bits curticks)) value.next left ∧
        ∀ callout ∈ rest, after callout ≠ none → callout ∈ left) :
    Clocked bits self ticks (Function.update cpus cpu value self) after phase := by
  have mine : (Function.update cpus cpu value self).softticks = (cpus self).softticks ∧
      ((cpus self).next = none → (Function.update cpus cpu value self).next = none) ∧
      ∀ curticks rest, At ((cpus self).callwheel (bucketOf bits curticks)) (cpus self).next rest →
        ∃ left, At ((Function.update cpus cpu value self).callwheel (bucketOf bits curticks))
          (Function.update cpus cpu value self).next left ∧
            ∀ callout ∈ rest, after callout ≠ none → callout ∈ left := by
    rcases eq_or_ne self cpu with rfl | apart
    · rw [update_self]
      exact ⟨softticks, idle, walked⟩
    · rw [update_of_ne apart]
      exact ⟨rfl, id, fun _ rest at_ => ⟨rest, at_, fun _ member _ => member⟩⟩
  obtain ⟨softticks, idle, walked⟩ := mine
  have later : ∀ late, Swept self ticks places late → Swept self ticks after late :=
    fun late swept callout time place => (kept callout time place).elim (swept callout time) .inl
  cases phase with
  | settled | behind =>
    obtain ⟨caught, none_, swept⟩ := clocked
    exact ⟨by rw [softticks, caught], idle none_, later _ swept⟩
  | sweeping curticks =>
    obtain ⟨caught, current, rest, at_, swept⟩ := clocked
    obtain ⟨left, leftAt, members⟩ := walked curticks rest at_
    refine ⟨softticks.trans caught, current, left, leftAt, fun callout time place => ?_⟩
    refine (later _ swept callout time place).imp_right fun due => ⟨due.1, ?_⟩
    exact members callout due.2 (by rw [place]; rintro ⟨⟩)

theorem unlink_at {curticks : BitVec 32} (linked : Linked bits state.wheel state.places)
    (place : state.places callout = some (cpu, time))
    (at_ : At ((state.cpus cpu).callwheel (bucketOf bits curticks)) (state.cpus cpu).next rest) :
    At (((state.cpus cpu).unlink bits callout time).callwheel (bucketOf bits curticks))
      ((state.cpus cpu).unlink bits callout time).next (rest.erase callout) := by
  have distinct : ((state.cpus cpu).callwheel (bucketOf bits curticks)).Nodup :=
    linked.nodup cpu _
  by_cases hashed : bucketOf bits curticks = bucketOf bits time
  · simp only [CalloutCpu.unlink, ← hashed, update_self]
    split
    next pointed =>
      rw [pointed] at at_
      exact at_.erase_pointer distinct
    next elsewhere => exact at_.erase distinct elsewhere
  · have absent : callout ∉ (state.cpus cpu).callwheel (bucketOf bits curticks) :=
      fun member => hashed (linked.place_of_mem place member).2
    have elsewhere : (state.cpus cpu).next ≠ some callout := by
      intro pointed
      rw [pointed] at at_
      exact absent at_.pointer_mem
    rw [List.erase_of_not_mem fun member => absent (at_.mem_list member)]
    simpa only [CalloutCpu.unlink, update_of_ne hashed, if_neg elsewhere] using at_

theorem Wheeled.disarm (wheeled : Wheeled bits self state)
    (pending : (state.callouts callout).pending = true) :
    Wheeled bits self (state.disarm bits callout) := by
  obtain ⟨linked, clocked⟩ := wheeled
  have place : state.places callout =
      some ((state.callouts callout).cpu, (state.callouts callout).time) := if_pos pending
  have places : (state.disarm bits callout).places = update state.places callout none :=
    Function.comp_update ..
  have wheel : (state.disarm bits callout).wheel = update state.wheel _ _ :=
    Function.comp_update ..
  refine ⟨by rw [places, wheel]; exact linked.remove place, ?_⟩
  rw [places]
  refine clocked.update rfl (fun none_ => ?_) (fun other time kept => .inl ?_)
    (fun curticks rest at_ => ⟨_, unlink_at linked place at_, fun other member armed => ?_⟩)
  · simp [CalloutCpu.unlink, none_]
  · rcases eq_or_ne other callout with rfl | different
    · rw [update_self] at kept
      cases kept
    · rwa [update_of_ne different] at kept
  · refine (List.mem_erase_of_ne ?_).mpr member
    rintro rfl
    exact armed (update_self ..)

section Arm

variable {call : ResetCall}

theorem ResetCall.ticks_lt (call : ResetCall) : call.ticks.toNat < 2 ^ 31 := by
  unfold ResetCall.ticks
  split
  · decide
  next positive =>
    rw [BitVec.toInt_eq_toNat_cond] at positive
    have bound := call.toTicks.isLt
    split at positive <;> omega

theorem ahead_arm : Ahead state.ticks (state.ticks + call.ticks) := by
  have cancel : state.ticks + call.ticks - state.ticks = call.ticks := by
    rw [BitVec.add_comm, BitVec.add_sub_cancel]
  unfold Ahead
  rw [cancel]
  exact call.ticks_lt

theorem arm_callout : (state.arm bits call).callouts call.callout =
    { state.callouts call.callout with
      arg := call.arg, active := true, pending := true, func := call.func
      time := state.ticks + call.ticks, arming := state.armings + 1 } := by
  simp [CalloutState.arm, CalloutState.setCallout]

theorem arm_other (different : other ≠ call.callout) :
    (state.arm bits call).callouts other = state.callouts other := by
  simp [CalloutState.arm, CalloutState.setCallout, CalloutState.setCpu, different]

theorem Wheeled.arm (wheeled : Wheeled bits self state)
    (unarmed : (state.callouts call.callout).pending = false) :
    Wheeled bits self (state.arm bits call) := by
  obtain ⟨linked, clocked⟩ := wheeled
  have places : (state.arm bits call).places = update state.places call.callout
      (some ((state.callouts call.callout).cpu, state.ticks + call.ticks)) :=
    Function.comp_update ..
  have wheel : (state.arm bits call).wheel = update state.wheel _ _ := Function.comp_update ..
  refine ⟨?_, ?_⟩
  · rw [places, wheel]
    exact linked.add (by simp [CalloutState.places, Callout.place, unarmed]) _ _
  · rw [places]
    refine clocked.update rfl id (fun other time kept => ?_) (fun curticks rest at_ => ?_)
    · rcases eq_or_ne other call.callout with rfl | different
      · rw [update_self] at kept
        cases kept
        exact .inr ahead_arm
      · rw [update_of_ne different] at kept
        exact .inl kept
    · by_cases hashed : bucketOf bits curticks = bucketOf bits (state.ticks + call.ticks)
      · obtain ⟨left, leftAt, members⟩ := at_.append call.callout
        refine ⟨left, ?_, fun other member _ => members other member⟩
        simpa only [CalloutCpu.link, ← hashed, update_self] using leftAt
      · refine ⟨rest, ?_, fun other member _ => member⟩
        simpa only [CalloutCpu.link, update_of_ne hashed] using at_

end Arm

theorem scan_cases (callouts : CalloutId → Callout) (curticks : BitVec 32) (steps : Nat)
    (entries : List CalloutId) :
    (∃ count, scan callouts curticks steps entries = .exhausted count ∧
      ∀ callout ∈ entries, (callouts callout).time ≠ curticks) ∨
    (∃ passed rest, entries = passed ++ rest ∧ passed ≠ [] ∧
      scan callouts curticks steps entries = .window rest.head? ∧
      ∀ callout ∈ passed, (callouts callout).time ≠ curticks) ∨
    ∃ passed callout rest, entries = passed ++ callout :: rest ∧
      scan callouts curticks steps entries = .due callout rest.head? ∧
      (∀ other ∈ passed, (callouts other).time ≠ curticks) ∧
      (callouts callout).time = curticks := by
  induction entries generalizing steps with
  | nil =>
    refine .inl ⟨steps, rfl, ?_⟩
    rintro callout ⟨⟩
  | cons head tail ih =>
    by_cases due : (callouts head).time = curticks
    · refine .inr (.inr ⟨[], head, tail, rfl, ?_, ?_, due⟩)
      · simp [scan, due]
      · rintro other ⟨⟩
    · by_cases late : maxSoftclockSteps ≤ steps + 1
      · refine .inr (.inl ⟨[head], tail, rfl, List.cons_ne_nil _ _, ?_, ?_⟩)
        · simp [scan, due, late]
        · intro callout member
          rw [List.mem_singleton] at member
          subst member
          exact due
      · have unfolded : scan callouts curticks steps (head :: tail) =
            scan callouts curticks (steps + 1) tail := by
          simp [scan, due, late]
        rw [unfolded]
        rcases ih (steps + 1) with ⟨count, ended, none_⟩ |
          ⟨passed, rest, split, _, ended, none_⟩ |
          ⟨passed, callout, rest, split, ended, none_, found⟩
        · refine .inl ⟨count, ended, ?_⟩
          exact List.forall_mem_cons.mpr ⟨due, none_⟩
        · refine .inr (.inl ⟨head :: passed, rest, by rw [split]; rfl,
            List.cons_ne_nil _ _, ended, ?_⟩)
          exact List.forall_mem_cons.mpr ⟨due, none_⟩
        · refine .inr (.inr ⟨head :: passed, callout, rest, by rw [split]; rfl,
            ended, ?_, found⟩)
          exact List.forall_mem_cons.mpr ⟨due, none_⟩

def CalloutState.walk (bits : Nat) (self : Cpu) (state : CalloutState) (cc : CalloutCpu)
    (curticks : BitVec 32) (entries : List CalloutId) : CalloutState :=
  state.endSweep self (cc.endScan bits curticks
    (fun steps => cc.sweep bits state.callouts 0 steps) (scan state.callouts curticks 0 entries))

def CalloutState.takeDue (bits : Nat) (self : Cpu) (state : CalloutState) (cc : CalloutCpu)
    (curticks : BitVec 32) (callout : CalloutId) (next : Option CalloutId) : CalloutState :=
  state.endSweep self ({ cc with
    next := next
    callwheel := Function.update cc.callwheel (bucketOf bits curticks)
      ((cc.callwheel (bucketOf bits curticks)).erase callout)
    curr := some callout
    cancel := false }, .due curticks callout)

inductive Walked (bits : Nat) (self : Cpu) (state : CalloutState) (cc : CalloutCpu)
    (curticks : BitVec 32) (entries : List CalloutId) : CalloutState → Prop
  | finished (none_ : ∀ callout ∈ entries, (state.callouts callout).time ≠ curticks) :
      Walked bits self state cc curticks entries
        { state.setCpu self { cc with next := none } with timer := .idle }
  | window (passed rest : List CalloutId) (split : entries = passed ++ rest)
      (moved : passed ≠ [])
      (none_ : ∀ callout ∈ passed, (state.callouts callout).time ≠ curticks) :
      Walked bits self state cc curticks entries
        { state.setCpu self { cc with next := rest.head? } with timer := .window curticks }
  | due (passed : List CalloutId) (callout : CalloutId) (rest : List CalloutId)
      (split : entries = passed ++ callout :: rest)
      (none_ : ∀ other ∈ passed, (state.callouts other).time ≠ curticks)
      (found : (state.callouts callout).time = curticks) :
      Walked bits self state cc curticks entries
        (state.takeDue bits self cc curticks callout rest.head?)

theorem walk_walked (bits : Nat) (self : Cpu) (state : CalloutState) (cc : CalloutCpu)
    (curticks : BitVec 32) (entries : List CalloutId) :
    Walked bits self state cc curticks entries
      (state.walk bits self cc curticks entries) := by
  unfold walk
  rcases scan_cases state.callouts curticks 0 entries with ⟨count, ended, none_⟩ |
    ⟨passed, rest, split, moved, ended, none_⟩ |
    ⟨passed, callout, rest, split, ended, none_, found⟩
  · rw [ended]
    exact Walked.finished none_
  · rw [ended]
    exact Walked.window passed rest split moved none_
  · rw [ended]
    exact Walked.due passed callout rest split none_ found

theorem entriesFrom_at {list : List CalloutId} (distinct : list.Nodup) (at_ : At list cursor rest) :
    entriesFrom list cursor = some rest := by
  cases cursor with
  | none =>
    have empty : rest = [] := List.head?_eq_none_iff.mp at_.2.symm
    rw [empty]
    rfl
  | some callout => rw [entriesFrom, if_pos at_.pointer_mem, at_.dropWhile_eq distinct]

theorem setCpu_self (state : CalloutState) (cpu : Cpu) (value : CalloutCpu) :
    (state.setCpu cpu value).cpus cpu = value := by
  simp [CalloutState.setCpu]

theorem setCpu_other (state : CalloutState) {other : Cpu} (value : CalloutCpu)
    (different : other ≠ cpu) : (state.setCpu cpu value).cpus other = state.cpus other := by
  simp [CalloutState.setCpu, different]

theorem setCpu_cpus (state : CalloutState) (cpu : Cpu) :
    state.setCpu cpu (state.cpus cpu) = state := by
  simp [CalloutState.setCpu]

theorem setCpu_field {β : Type} (field : CalloutCpu → β) {value : CalloutCpu}
    (same : field value = field (state.cpus cpu)) (other : Cpu) :
    field ((state.setCpu cpu value).cpus other) = field (state.cpus other) := by
  by_cases here : other = cpu
  · subst here
    rw [setCpu_self, same]
  · rw [setCpu_other _ _ here]

theorem wheel_setCpu {value : CalloutCpu} (same : value.callwheel = (state.cpus cpu).callwheel) :
    (state.setCpu cpu value).wheel = state.wheel :=
  funext (setCpu_field CalloutCpu.callwheel same)

section Walk

variable {cc : CalloutCpu} {curticks : BitVec 32} {entries : List CalloutId}

theorem endSweep_setCpu (ended : CalloutCpu × SweepEnd) :
    (state.setCpu self cc).endSweep self ended = state.endSweep self ended := by
  rcases ended with ⟨value, _ | _ | _⟩ <;> simp [endSweep, setCpu]

theorem resume_eq_walk (linked : Linked bits state.wheel state.places)
    (same : cc.callwheel = (state.cpus self).callwheel) (caught : cc.softticks = state.ticks)
    (at_ : At (cc.callwheel (bucketOf bits curticks)) cc.next rest) :
    (state.setCpu self cc).resume bits self curticks =
      some (state.walk bits self cc curticks rest) := by
  have zero : distance (state.setCpu self cc) cc = 0 := by
    unfold distance
    rw [caught]
    exact congrArg BitVec.toNat (BitVec.sub_self state.ticks)
  have distinct : (cc.callwheel (bucketOf bits curticks)).Nodup := by
    rw [same]
    exact linked.nodup self (bucketOf bits curticks)
  unfold resume walk
  simp only [setCpu_self, entriesFrom_at distinct at_, zero, Option.map_some, endSweep_setCpu]
  rfl

theorem taken_wheeled {passed : List CalloutId} (linked : Linked bits state.wheel state.places)
    (same : cc.callwheel = (state.cpus self).callwheel) (caught : cc.softticks = state.ticks)
    (current : curticks + 1 = state.ticks)
    (at_ : At (cc.callwheel (bucketOf bits curticks)) cursor (passed ++ callout :: rest))
    (swept : Swept self state.ticks state.places fun other time =>
      time = curticks ∧ other ∈ passed ++ callout :: rest)
    (none_ : ∀ other ∈ passed, (state.callouts other).time ≠ curticks)
    (found : (state.callouts callout).time = curticks) :
    Wheeled bits self (state.takeDue bits self cc curticks callout rest.head?) := by
  have mine : cc.callwheel = state.wheel self := same
  rw [mine] at at_
  have member : callout ∈ state.wheel self (bucketOf bits curticks) :=
    at_.mem_list (List.mem_append_right _ (List.mem_cons_self ..))
  obtain ⟨time, place, hashed⟩ := (linked.mem self _ callout).mp member
  have placed : state.places callout = some (self, curticks) := by
    rw [place, ← (Callout.place_eq_some.mp place).2, found]
  have places : (state.takeDue bits self cc curticks callout rest.head?).places =
      update state.places callout none := Function.comp_update ..
  have wheel : (state.takeDue bits self cc curticks callout rest.head?).wheel =
      update state.wheel self _ := Function.comp_update ..
  have cpus : (state.takeDue bits self cc curticks callout rest.head?).cpus self = _ :=
    update_self ..
  refine ⟨?_, ?_⟩
  · rw [places, wheel, mine]
    exact linked.remove placed
  · rw [places, cpus]
    refine ⟨caught, current, rest, ?_, fun other time kept => ?_⟩
    · simpa only [mine, update_self] using at_.take (linked.nodup self _)
    · rcases eq_or_ne other callout with rfl | different
      · rw [update_self] at kept
        cases kept
      · rw [update_of_ne different] at kept
        refine (swept other time kept).imp_right fun due => ⟨due.1, ?_⟩
        rcases List.mem_append.mp due.2 with early | late
        · exact absurd ((Callout.place_eq_some.mp kept).2.trans due.1) (none_ other early)
        · exact List.mem_of_ne_of_mem different late

theorem Walked.wheeled (walked : Walked bits self state cc curticks entries next)
    (linked : Linked bits state.wheel state.places)
    (same : cc.callwheel = (state.cpus self).callwheel)
    (caught : cc.softticks = state.ticks) (current : curticks + 1 = state.ticks)
    (at_ : At (cc.callwheel (bucketOf bits curticks)) cursor entries)
    (swept : Swept self state.ticks state.places fun callout time =>
      time = curticks ∧ callout ∈ entries) :
    Wheeled bits self next := by
  have wheel : ∀ next timer, Linked bits ({ state.setCpu self { cc with next := next } with
      timer := timer } : CalloutState).wheel state.places := by
    intro next timer
    exact (wheel_setCpu same : (state.setCpu self { cc with next := next }).wheel = _) ▸ linked
  cases walked with
  | finished none_ =>
    refine ⟨wheel none .idle, ?_⟩
    simp only [setCpu, update_self]
    refine ⟨caught, rfl, fun callout time place => ?_⟩
    exact (swept callout time place).imp_right fun due =>
      none_ callout due.2 ((Callout.place_eq_some.mp place).2.trans due.1)
  | window passed rest split moved none_ =>
    subst split
    refine ⟨wheel rest.head? (.window curticks), ?_⟩
    simp only [setCpu, update_self]
    refine ⟨caught, current, rest, at_.advance, fun callout time place => ?_⟩
    refine (swept callout time place).imp_right fun due => ⟨due.1, ?_⟩
    rcases List.mem_append.mp due.2 with early | late
    · exact absurd ((Callout.place_eq_some.mp place).2.trans due.1) (none_ callout early)
    · exact late
  | due passed callout rest split none_ found =>
    subst split
    exact taken_wheeled linked same caught current at_ swept none_ found

end Walk

theorem ahead_tick {time : BitVec 32} (ahead : Ahead ticks time) :
    Ahead (ticks + 1) time ∨ time + 1 = ticks + 1 := by
  unfold Ahead at *
  by_cases same : time = ticks
  · exact .inr (by rw [same])
  · left
    bv_omega

theorem distance_behind {state : CalloutState} {cc : CalloutCpu}
    (behind : cc.softticks + 1 = state.ticks) : distance state cc = 1 := by
  unfold distance
  bv_omega

theorem skipEmpty_behind (bits : Nat) {cc : CalloutCpu} (behind : cc.softticks + 1 = ticks) :
    cc.skipEmpty bits ticks 1 =
      if cc.callwheel (bucketOf bits cc.softticks) ≠ [] then (cc, true)
      else ({ cc with softticks := ticks }, false) := by
  have negative : (cc.softticks - ticks).toInt < 0 := by
    have wrapped : cc.softticks - ticks = -1 := by bv_omega
    rw [wrapped]
    decide
  simp only [CalloutCpu.skipEmpty, negative, if_true, behind]

theorem sweep_behind (bits : Nat) {self : Cpu} {state : CalloutState}
    (behind : (state.cpus self).softticks + 1 = state.ticks) :
    state.endSweep self ((state.cpus self).sweep bits state.callouts
        (distance state (state.cpus self)) 0) =
      state.walk bits self { state.cpus self with softticks := state.ticks }
        (state.cpus self).softticks
        ((state.cpus self).callwheel (bucketOf bits (state.cpus self).softticks)) := by
  rw [distance_behind behind]
  simp only [CalloutCpu.sweep, walk, behind]

def TimerPc.cached : TimerPc → Option Taken
  | .taken _ held => some held
  | .running _ held => some held
  | _ => none

def entriesLeft (bits : Nat) (cc : CalloutCpu) (curticks : BitVec 32) : Nat :=
  ((entriesFrom (cc.callwheel (bucketOf bits curticks)) cc.next).getD []).length

def timerRank (bits : Nat) (self : Cpu) (state : CalloutState) : Nat :=
  let cc := state.cpus self
  match state.timer with
  | .idle => 0
  | .window curticks => 5 * entriesLeft bits cc curticks + 1
  | .finishing curticks => 5 * entriesLeft bits cc curticks + 3
  | .running curticks _ => 5 * entriesLeft bits cc curticks + 4
  | .taken curticks _ => 5 * entriesLeft bits cc curticks + 5
  | .entering => 5 * (cc.callwheel (bucketOf bits cc.softticks)).length + 2
  | .ticked => 5 * (cc.callwheel (bucketOf bits cc.softticks)).length + 3

inductive TimerCase (bits : Nat) (self : Cpu) (state : CalloutState) : CalloutState → Prop
  | tick (idle : state.timer = .idle) :
      TimerCase bits self state { state with
        ticks := state.ticks + 1, hardclocks := state.hardclocks + 1, timer := .ticked }
  | entered (ticked : state.timer = .ticked) :
      TimerCase bits self state { state with timer := .entering }
  | skipped (ticked : state.timer = .ticked)
      (empty : (state.cpus self).callwheel (bucketOf bits (state.cpus self).softticks) = []) :
      TimerCase bits self state
        { state.setCpu self { state.cpus self with softticks := state.ticks } with
          timer := .idle }
  | walk (cc : CalloutCpu) (curticks : BitVec 32) (cursor : Option CalloutId)
      (entries : List CalloutId) (uncached : state.timer.cached = none)
      (current : curticks + 1 = state.ticks)
      (same : cc.callwheel = (state.cpus self).callwheel) (caught : cc.softticks = state.ticks)
      (waiting : cc.waiting = (state.cpus self).waiting)
      (at_ : At (cc.callwheel (bucketOf bits curticks)) cursor entries)
      (swept : Swept self state.ticks state.places fun callout time =>
        time = curticks ∧ callout ∈ entries)
      (lower : 5 * entries.length < timerRank bits self state) :
      TimerCase bits self state (state.walk bits self cc curticks entries)
  | cancelled (curticks : BitVec 32) (taken : Taken) (pc : state.timer = .taken curticks taken)
      (cancel : (state.cpus self).cancel = true) :
      TimerCase bits self state { state with timer := .finishing curticks }
  | invoked (curticks : BitVec 32) (taken : Taken) (pc : state.timer = .taken curticks taken)
      (cancel : Bool) :
      TimerCase bits self state
        ((state.setCpu self { state.cpus self with cancel := cancel }).invoke curticks taken)
  | returned (curticks : BitVec 32) (taken : Taken)
      (pc : state.timer = .running curticks taken) :
      TimerCase bits self state { state with timer := .finishing curticks }

theorem TimerCase.resume {cc : CalloutCpu} {curticks : BitVec 32}
    (wheeled : Wheeled bits self state) (sweeping : state.timer.phase = .sweeping curticks)
    (uncached : state.timer.cached = none)
    (same : cc.callwheel = (state.cpus self).callwheel)
    (next : cc.next = (state.cpus self).next)
    (softticks : cc.softticks = (state.cpus self).softticks)
    (waiting : cc.waiting = (state.cpus self).waiting)
    (lower : 5 * entriesLeft bits (state.cpus self) curticks < timerRank bits self state) :
    ∃ next, (state.setCpu self cc).resume bits self curticks = some next ∧
      TimerCase bits self state next := by
  obtain ⟨linked, clocked⟩ := wheeled
  rw [sweeping] at clocked
  obtain ⟨caught, current, rest, cursor, swept⟩ := clocked
  have distinct : ((state.cpus self).callwheel (bucketOf bits curticks)).Nodup :=
    linked.nodup self _
  have left : entriesLeft bits (state.cpus self) curticks = rest.length := by
    unfold entriesLeft
    rw [entriesFrom_at distinct cursor]
    rfl
  rw [left] at lower
  rw [← same, ← next] at cursor
  exact ⟨_, resume_eq_walk linked same (softticks.trans caught) cursor,
    .walk cc curticks _ rest uncached current same (softticks.trans caught) waiting cursor swept
      lower⟩

theorem timerStep_total (wheeled : Wheeled bits self state)
    (usable : ∀ curticks taken, state.timer = .running curticks taken →
      ¬(taken.returnUnlocked = false ∧ taken.lock = none))
    (unflagged : ∀ curticks, state.timer = .finishing curticks → (state.cpus self).waiting = 0) :
    ∃ next, timerStep bits self state = some next ∧ TimerCase bits self state next := by
  obtain ⟨linked, clocked⟩ := id wheeled
  cases timer : state.timer with
  | idle => exact ⟨_, by simp only [timerStep, timer], .tick timer⟩
  | ticked =>
    rw [timer] at clocked
    obtain ⟨behind, _⟩ := clocked
    simp only [timerStep, timer, distance_behind behind, skipEmpty_behind bits behind]
    by_cases empty :
        (state.cpus self).callwheel (bucketOf bits (state.cpus self).softticks) = []
    · exact ⟨_, by simp only [empty, ne_eq, not_true_eq_false, if_false, Bool.false_eq_true],
        .skipped timer empty⟩
    · exact ⟨_, by simp only [empty, ne_eq, not_false_eq_true, if_true, setCpu_cpus],
        .entered timer⟩
  | entering =>
    rw [timer] at clocked
    obtain ⟨behind, _, swept⟩ := clocked
    refine ⟨_, by simp only [timerStep, timer, sweep_behind bits behind],
      .walk { state.cpus self with softticks := state.ticks } _ _ _ (by rw [timer]; rfl) behind
        rfl rfl rfl (At.start _) ?_ ?_⟩
    · refine fun callout time place => (swept callout time place).imp_right fun due => ?_
      have hashed := add_right_cancel (due.trans behind.symm)
      exact ⟨hashed, (linked.mem self _ callout).mpr ⟨time, place, by rw [hashed]⟩⟩
    · simp only [timerRank, timer]
      omega
  | window curticks =>
    have resumed : ∃ next, (state.setCpu self (state.cpus self)).resume bits self curticks =
        some next ∧ TimerCase bits self state next :=
      TimerCase.resume wheeled (by rw [timer]; rfl) (by rw [timer]; rfl) rfl rfl rfl rfl
        (by simp only [timerRank, timer]; omega)
    rw [setCpu_cpus] at resumed
    simpa only [timerStep, timer] using resumed
  | taken curticks taken =>
    simp only [timerStep, timer]
    cases lock : taken.lock with
    | none =>
      have same := congrArg (fun value => value.invoke curticks taken) (setCpu_cpus state self)
      exact ⟨_, congrArg some same.symm, .invoked curticks taken timer (state.cpus self).cancel⟩
    | some lock =>
      dsimp only
      split
      next cancel => exact ⟨_, rfl, .cancelled curticks taken timer cancel⟩
      · exact ⟨_, rfl, .invoked curticks taken timer true⟩
  | running curticks taken =>
    exact ⟨_, by simp only [timerStep, timer, usable curticks taken timer, if_false],
      .returned curticks taken timer⟩
  | finishing curticks =>
    simp only [timerStep, timer]
    rw [if_neg (not_not.mpr (unflagged curticks timer))]
    refine TimerCase.resume wheeled (by rw [timer]; rfl) (by rw [timer]; rfl) rfl rfl rfl rfl ?_
    simp only [timerRank, timer]
    omega

theorem timerStep_cases (wheeled : Wheeled bits self state)
    (stepped : timerStep bits self state = some next) : TimerCase bits self state next := by
  have usable : ∀ curticks taken, state.timer = .running curticks taken →
      ¬(taken.returnUnlocked = false ∧ taken.lock = none) := by
    intro curticks taken pc stuck
    simp only [timerStep, pc, stuck, and_self, if_true] at stepped
    cases stepped
  have unflagged : ∀ curticks, state.timer = .finishing curticks →
      (state.cpus self).waiting = 0 := by
    intro curticks pc
    by_contra waiting
    simp only [timerStep, pc, ne_eq, waiting, not_false_eq_true, if_true] at stepped
    cases stepped
  obtain ⟨other, same, ended⟩ := timerStep_total wheeled usable unflagged
  rw [stepped] at same
  cases same
  exact ended

theorem Wheeled.setCpu (wheeled : Wheeled bits self state) {cc : CalloutCpu}
    (callwheel : cc.callwheel = (state.cpus cpu).callwheel)
    (next : cc.next = (state.cpus cpu).next)
    (softticks : cc.softticks = (state.cpus cpu).softticks) :
    Wheeled bits self (state.setCpu cpu cc) := by
  refine ⟨(wheel_setCpu callwheel).symm ▸ wheeled.linked, ?_⟩
  refine wheeled.clocked.update softticks next.trans (fun _ _ => .inl) fun _ rest at_ =>
    ⟨rest, ?_, fun _ member _ => member⟩
  rwa [callwheel, next]

theorem Wheeled.relabel (wheeled : Wheeled bits self state) (timer : TimerPc)
    (phase : timer.phase = state.timer.phase) (log : List Invocation)
    (retrying : List ResetCall) : Wheeled bits self
      { state with timer := timer, log := log, retrying := retrying } :=
  ⟨wheeled.linked, by rw [phase]; exact wheeled.clocked⟩

theorem timerStep_idle (idle : state.timer = .idle) : timerStep bits self state =
    some { state with
      ticks := state.ticks + 1, hardclocks := state.hardclocks + 1, timer := .ticked } := by
  simp only [timerStep, idle]

theorem timerStep_wheeled (wheeled : Wheeled bits self state)
    (stepped : timerStep bits self state = some next) : Wheeled bits self next := by
  cases timerStep_cases wheeled stepped with
  | tick idle =>
    obtain ⟨linked, clocked⟩ := wheeled
    rw [idle] at clocked
    obtain ⟨caught, none_, swept⟩ := clocked
    refine ⟨linked, congrArg (· + 1) caught, none_, fun callout time place => ?_⟩
    exact ahead_tick ((swept callout time place).resolve_right id)
  | entered ticked => exact wheeled.relabel _ (by rw [ticked]; rfl) _ _
  | skipped ticked empty =>
    obtain ⟨linked, clocked⟩ := wheeled
    rw [ticked] at clocked
    obtain ⟨behind, none_, swept⟩ := clocked
    have wheel : (state.setCpu self { state.cpus self with softticks := state.ticks }).wheel =
        state.wheel := wheel_setCpu rfl
    refine ⟨wheel.symm ▸ linked, ?_⟩
    simp only [CalloutState.setCpu, update_self]
    refine ⟨rfl, none_, fun callout time place => ?_⟩
    refine (swept callout time place).imp_right fun due => ?_
    have member := (linked.mem self _ callout).mpr ⟨time, place, rfl⟩
    rw [add_right_cancel (due.trans behind.symm)] at member
    have none_ : state.wheel self _ = [] := empty
    rw [none_] at member
    cases member
  | walk cc curticks cursor entries uncached current same caught waiting at_ swept lower =>
    exact (walk_walked ..).wheeled wheeled.linked same caught current at_ swept
  | cancelled curticks taken pc | returned curticks taken pc =>
    exact wheeled.relabel _ (by rw [pc]; rfl) _ _
  | invoked curticks taken pc =>
    exact (wheeled.relabel (.running curticks taken) (by rw [pc]; rfl) _ _).setCpu rfl rfl rfl

/-- One change that `callout_reset_on` or `_callout_stop_safe` makes to the callout
it is called on. -/
inductive Touch (bits : Nat) (target : CalloutId) (state : CalloutState) : CalloutState → Prop
  | cancelled (running : (state.cpus (state.callouts target).cpu).curr = some target) :
      Touch bits target state (state.setCpu (state.callouts target).cpu
        { state.cpus (state.callouts target).cpu with cancel := true })
  | moved (active : Bool) (cpu : Cpu) (resting : (state.callouts target).pending = false) :
      Touch bits target state
        (state.setCallout target { state.callouts target with active := active, cpu := cpu })
  | disarmed (pending : (state.callouts target).pending = true) :
      Touch bits target state (state.disarm bits target)
  | armed (call : ResetCall) (same : call.callout = target)
      (resting : (state.callouts target).pending = false) :
      Touch bits target state (state.arm bits call)
  | listed (retrying : List ResetCall) :
      Touch bits target state { state with retrying := retrying }

section Calls

variable {target : CalloutId}

theorem Touch.wheeled (touch : Touch bits target state next) (wheeled : Wheeled bits self state) :
    Wheeled bits self next := by
  cases touch with
  | cancelled running => exact wheeled.setCpu rfl rfl rfl
  | moved active cpu resting =>
    have places : (state.setCallout target
        { state.callouts target with active := active, cpu := cpu }).places = state.places := by
      refine (Function.comp_update ..).trans (Function.update_eq_self_iff.mpr ?_)
      simp [Callout.place, resting]
    exact ⟨places.symm ▸ wheeled.linked, places.symm ▸ wheeled.clocked⟩
  | disarmed pending => exact wheeled.disarm pending
  | armed call same resting =>
    subst same
    exact wheeled.arm resting
  | listed retrying => exact wheeled.relabel _ rfl _ _

inductive ResetCase (bits : Nat) (state : CalloutState) (call : ResetCall) :
    CalloutState × ResetOutcome → Prop
  | refused (running : (state.cpus (state.callouts call.callout).cpu).curr = some call.callout)
      (drained : (state.cpus (state.callouts call.callout).cpu).waiting ≠ 0) (cancelled : Bool) :
      ResetCase bits state call (state.cancelRunning call.callout, .refused cancelled)
  | migrated (moving : (state.callouts call.callout).cpu ≠ call.cpu) (cancelled : Bool) :
      ResetCase bits state call
        (((state.cancelRunning call.callout).disarmPending bits call.callout).setCallout
          call.callout
          { ((state.cancelRunning call.callout).disarmPending bits call.callout).callouts
              call.callout with cpu := call.cpu }, .migrated cancelled)
  | armed
      (undrained : ¬((state.cpus (state.callouts call.callout).cpu).curr = some call.callout ∧
        (state.cpus (state.callouts call.callout).cpu).waiting ≠ 0))
      (staying : (state.callouts call.callout).cpu = call.cpu) (cancelled : Bool) :
      ResetCase bits state call
        (((state.cancelRunning call.callout).disarmPending bits call.callout).arm bits call,
          .armed cancelled)

theorem calloutResetOn_cases (bits : Nat) (state : CalloutState) (call : ResetCall) :
    ResetCase bits state call (calloutResetOn bits state call) := by
  simp only [calloutResetOn]
  split
  next both => exact .refused both.1 both.2 _
  next undrained =>
    split
    next moving => exact .migrated moving _
    next staying => exact .armed undrained (not_not.mp staying) _

def CalloutState.deactivate (state : CalloutState) (callout : CalloutId) : CalloutState :=
  state.setCallout callout { state.callouts callout with active := false }

inductive StopCase (bits : Nat) (state : CalloutState) (callout : CalloutId) (safe : Bool) :
    CalloutState × StopOutcome → Prop
  | missed (resting : (state.callouts callout).pending = false)
      (value : Int) : StopCase bits state callout safe (state.deactivate callout, .returned value)
  | faulted (resting : (state.callouts callout).pending = false)
      (running : (state.cpus (state.callouts callout).cpu).curr = some callout)
      (drains : safe = true) :
      StopCase bits state callout safe (state.deactivate callout, .faulted)
  | cancelled (resting : (state.callouts callout).pending = false)
      (running : (state.cpus (state.callouts callout).cpu).curr = some callout) :
      StopCase bits state callout safe
        ((state.deactivate callout).setCpu (state.callouts callout).cpu
          { state.cpus (state.callouts callout).cpu with cancel := true }, .returned 1)
  | stopped (pending : (state.callouts callout).pending = true) :
      StopCase bits state callout safe (state.disarm bits callout, .returned 1)

theorem calloutStopSafe_cases (bits : Nat) (state : CalloutState) (callout : CalloutId)
    (safe : Bool) :
    StopCase bits state callout safe (calloutStopSafe bits state callout safe) := by
  simp only [calloutStopSafe]
  split
  next resting =>
    split
    · exact .missed resting 0
    next running =>
      split
      next drains => exact .faulted resting (not_not.mp running) drains
      · split
        · exact .cancelled resting (not_not.mp running)
        · exact .missed resting 0
  next pending => exact .stopped (Bool.not_eq_false _ |>.mp pending)

theorem cancelRunning_callouts (callout : CalloutId) :
    (state.cancelRunning callout).callouts = state.callouts := by
  unfold cancelRunning
  split <;> rfl

theorem disarmPending_unarmed (callout : CalloutId) :
    ((state.disarmPending bits callout).callouts callout).pending = false := by
  unfold disarmPending
  split
  · simp [CalloutState.disarm, CalloutState.setCallout]
  next resting => simpa using resting

theorem cancelRunning_touches (bits : Nat) (state : CalloutState) (callout : CalloutId) :
    ReflTransGen (Touch bits callout) state (state.cancelRunning callout) := by
  unfold cancelRunning
  split
  next cancellable =>
    simp only [CalloutState.cancellable, Bool.and_eq_true, decide_eq_true_eq] at cancellable
    exact .single (.cancelled cancellable.1.1)
  · exact .refl

theorem stopped_touches (bits : Nat) (state : CalloutState) (callout : CalloutId) :
    ReflTransGen (Touch bits callout) state
      ((state.cancelRunning callout).disarmPending bits callout) := by
  have marked := cancelRunning_touches bits state callout
  unfold disarmPending
  split
  next pending => exact marked.tail (.disarmed pending)
  · exact marked

theorem calloutResetOn_touches (bits : Nat) (state : CalloutState) (call : ResetCall) :
    ReflTransGen (Touch bits call.callout) state
      ((calloutResetOn bits state call).1.afterReset call (calloutResetOn bits state call).2) := by
  have stopped := stopped_touches bits state call.callout
  generalize reset : calloutResetOn bits state call = result
  have ended := calloutResetOn_cases bits state call
  rw [reset] at ended
  cases ended with
  | refused running drained cancelled => exact cancelRunning_touches bits state call.callout
  | migrated moving cancelled =>
    exact (stopped.tail (.moved _ call.cpu (disarmPending_unarmed call.callout))).tail
      (.listed _)
  | armed undrained staying cancelled =>
    exact stopped.tail (.armed call rfl (disarmPending_unarmed call.callout))

theorem calloutStopSafe_touches (bits : Nat) (state : CalloutState) (callout : CalloutId)
    (safe : Bool) :
    ReflTransGen (Touch bits callout) state (calloutStopSafe bits state callout safe).1 := by
  generalize stop : calloutStopSafe bits state callout safe = result
  have ended := calloutStopSafe_cases bits state callout safe
  rw [stop] at ended
  cases ended with
  | missed resting value | faulted resting running drains =>
    exact .single (.moved false _ resting)
  | cancelled resting running =>
    have marked : Touch bits callout state _ := .cancelled running
    exact (ReflTransGen.single marked).tail
      (show Touch bits callout (state.setCpu _ _) _ from .moved false _ resting)
  | stopped pending => exact .single (.disarmed pending)

theorem calloutMove_touches {label : CalloutLabel} (elsewhere : label.target ≠ some callout)
    (moved : calloutMove bits self state label next) :
    timerStep bits self state = some next ∨
      ∃ target, target ≠ callout ∧ ReflTransGen (Touch bits target) state next := by
  cases label with
  | timer => exact .inl moved
  | reset call =>
    obtain ⟨_, rfl⟩ := moved
    exact .inr ⟨call.callout, fun same => elsewhere (congrArg some same),
      calloutResetOn_touches bits state call⟩
  | retry before call after =>
    obtain ⟨_, rfl⟩ := moved
    exact .inr ⟨call.callout, fun same => elsewhere (congrArg some same),
      .head (.listed (before ++ after)) (calloutResetOn_touches bits _ call)⟩
  | stop target safe =>
    obtain ⟨value, stopped⟩ := moved
    have touches := calloutStopSafe_touches bits state target safe
    rw [stopped] at touches
    exact .inr ⟨target, fun same => elsewhere (congrArg some same), touches⟩

theorem CalloutLabel.exists_elsewhere (label : CalloutLabel) :
    ∃ callout, label.target ≠ some callout := by
  cases target : label.target with
  | none => exact ⟨0, by rintro ⟨⟩⟩
  | some callout => exact ⟨callout + 1, fun same => Nat.succ_ne_self callout
      (Option.some.inj same).symm⟩

theorem calloutMove_wheeled {label : CalloutLabel} (wheeled : Wheeled bits self state)
    (moved : calloutMove bits self state label next) : Wheeled bits self next := by
  obtain ⟨callout, elsewhere⟩ := label.exists_elsewhere
  rcases calloutMove_touches elsewhere moved with stepped | ⟨target, _, touches⟩
  · exact timerStep_wheeled wheeled stepped
  · clear moved
    induction touches with
    | refl => exact wheeled
    | tail _ touch ih => exact touch.wheeled ih

end Calls

end Libunsod.Uinet
