import Libunsod.Uinet.CalloutWheel

/-!
What one step does to the callouts and to the log of handler calls: a section of
`callout_reset_on` or `_callout_stop_safe` touches the callout it is called on and
may cancel its pending invocation; a step of the timer thread takes a due callout
from its wheel, calls a handler, or leaves both alone.
-/

namespace Libunsod.Uinet

open Cursor Runs
open CalloutState
open Relation (ReflTransGen)

variable {cc : CalloutCpu}

structure CallEffect (target : CalloutId) (before after : CalloutState) : Prop where
  timer : after.timer = before.timer
  log : after.log = before.log
  hardclocks : after.hardclocks = before.hardclocks
  ticks : after.ticks = before.ticks
  armings : before.armings ≤ after.armings
  curr : ∀ cpu, (after.cpus cpu).curr = (before.cpus cpu).curr
  waiting : ∀ cpu, (after.cpus cpu).waiting = (before.cpus cpu).waiting
  cancel : ∀ cpu, (before.cpus cpu).curr ≠ some target →
    (after.cpus cpu).cancel = (before.cpus cpu).cancel
  others : ∀ other, other ≠ target → after.callouts other = before.callouts other
  number : (after.callouts target).arming = (before.callouts target).arming ∨
    (before.armings < (after.callouts target).arming ∧
      (after.callouts target).arming ≤ after.armings)
  lock : (after.callouts target).lock = (before.callouts target).lock
  returnUnlocked :
    (after.callouts target).returnUnlocked = (before.callouts target).returnUnlocked

section Calls

variable {bits : Nat} {target : CalloutId} {state next : CalloutState}

theorem CallEffect.trans {first second third : CalloutState}
    (one : CallEffect target first second) (two : CallEffect target second third) :
    CallEffect target first third where
  timer := two.timer.trans one.timer
  log := two.log.trans one.log
  hardclocks := two.hardclocks.trans one.hardclocks
  ticks := two.ticks.trans one.ticks
  armings := one.armings.trans two.armings
  curr cpu := (two.curr cpu).trans (one.curr cpu)
  waiting cpu := (two.waiting cpu).trans (one.waiting cpu)
  cancel cpu apart :=
    (two.cancel cpu (by rw [one.curr]; exact apart)).trans (one.cancel cpu apart)
  others other different := (two.others other different).trans (one.others other different)
  number := by
    have lower := one.armings
    have upper := two.armings
    rcases two.number with same | ⟨fresh, bound⟩
    · rw [same]
      rcases one.number with kept | ⟨fresh, bound⟩
      · exact .inl kept
      · exact .inr ⟨fresh, by omega⟩
    · exact .inr ⟨by omega, bound⟩
  lock := two.lock.trans one.lock
  returnUnlocked := two.returnUnlocked.trans one.returnUnlocked

theorem Touch.effect (touch : Touch bits target state next) : CallEffect target state next := by
  cases touch with
  | cancelled running =>
    refine ⟨rfl, rfl, rfl, rfl, Nat.le_refl _, setCpu_field CalloutCpu.curr rfl,
      setCpu_field CalloutCpu.waiting rfl, fun cpu apart => ?_, fun _ _ => rfl, .inl rfl, rfl, rfl⟩
    by_cases here : cpu = (state.callouts target).cpu
    · subst here
      exact absurd running apart
    · rw [setCpu_other _ _ here]
  | moved active cpu resting =>
    refine ⟨rfl, rfl, rfl, rfl, Nat.le_refl _, fun _ => rfl, fun _ => rfl, fun _ _ => rfl,
      fun other different => Function.update_of_ne different _ _, .inl ?_, ?_, ?_⟩
    all_goals simp [setCallout]
  | disarmed pending =>
    have cancel : ∀ cpu, ((state.disarm bits target).cpus cpu).cancel = (state.cpus cpu).cancel :=
      setCpu_field CalloutCpu.cancel rfl
    refine ⟨rfl, rfl, rfl, rfl, Nat.le_refl _, setCpu_field CalloutCpu.curr rfl,
      setCpu_field CalloutCpu.waiting rfl, fun cpu _ => cancel cpu,
      fun other different => Function.update_of_ne different _ _, .inl ?_, ?_, ?_⟩
    all_goals simp [disarm, setCallout]
  | armed call same resting =>
    subst same
    have cancel : ∀ cpu, ((state.arm bits call).cpus cpu).cancel = (state.cpus cpu).cancel :=
      setCpu_field CalloutCpu.cancel rfl
    refine ⟨rfl, rfl, rfl, rfl, Nat.le_succ _, setCpu_field CalloutCpu.curr rfl,
      setCpu_field CalloutCpu.waiting rfl, fun cpu _ => cancel cpu,
      fun other different => arm_other different, .inr ?_, ?_, ?_⟩
    · rw [arm_callout]
      exact ⟨Nat.lt_succ_self _, Nat.le_refl _⟩
    all_goals rw [arm_callout]
  | listed retrying =>
    exact ⟨rfl, rfl, rfl, rfl, Nat.le_refl _, fun _ => rfl, fun _ => rfl, fun _ _ => rfl,
      fun _ _ => rfl, .inl rfl, rfl, rfl⟩

theorem touches_effect (touches : ReflTransGen (Touch bits target) state next) :
    CallEffect target state next := by
  induction touches with
  | refl =>
    have unchanged : Touch bits target state state := .listed state.retrying
    exact unchanged.effect
  | tail _ touch ih => exact ih.trans touch.effect

end Calls

theorem TimerPc.not_taken {timer : TimerPc} (uncached : timer.cached = none)
    (curticks : BitVec 32) (taken : Taken) : timer ≠ .taken curticks taken := by
  rintro rfl
  cases uncached

inductive TimerEffect (self : Cpu) (before : CalloutState) : CalloutState → Prop
  | tick (idle : before.timer = .idle) :
      TimerEffect self before { before with
        ticks := before.ticks + 1, hardclocks := before.hardclocks + 1, timer := .ticked }
  | quiet (cpus : Cpu → CalloutCpu) (timer : TimerPc)
      (busy : ∀ curticks taken, before.timer ≠ .taken curticks taken)
      (still : timer.cached = none) :
      TimerEffect self before { before with cpus := cpus, timer := timer }
  | take (callout : CalloutId) (curticks : BitVec 32) (cpus : Cpu → CalloutCpu)
      (busy : ∀ curticks taken, before.timer ≠ .taken curticks taken)
      (current : curticks + 1 = before.ticks) (on : (before.callouts callout).On self)
      (due : (before.callouts callout).time = curticks)
      (curr : (cpus self).curr = some callout) (cancel : (cpus self).cancel = false) :
      TimerEffect self before { before with
        cpus := cpus
        callouts := Function.update before.callouts callout
          { before.callouts callout with pending := false }
        timer := .taken curticks
          ⟨callout, (before.callouts callout).lock, (before.callouts callout).func,
            (before.callouts callout).arg, (before.callouts callout).returnUnlocked,
            (before.callouts callout).arming⟩ }
  | invoke (curticks : BitVec 32) (taken : Taken) (cpus : Cpu → CalloutCpu)
      (pc : before.timer = .taken curticks taken) :
      TimerEffect self before { before with
        cpus := cpus
        timer := .running curticks taken
        log := before.log ++ [⟨taken.arming, taken.callout, taken.func, taken.arg,
          before.hardclocks, before.ticks⟩] }
  | skipped (curticks : BitVec 32) (taken : Taken) (pc : before.timer = .taken curticks taken)
      (cancel : (before.cpus self).cancel = true) :
      TimerEffect self before { before with timer := .finishing curticks }

section Timer

variable {bits : Nat} {self : Cpu} {state next : CalloutState}

theorem Walked.effect {curticks : BitVec 32} {entries : List CalloutId} {cursor : Option CalloutId}
    (walked : Walked bits self state cc curticks entries next) (linked : Linked bits state.wheel state.places)
    (current : curticks + 1 = state.ticks)
    (same : cc.callwheel = (state.cpus self).callwheel)
    (at_ : At (cc.callwheel (bucketOf bits curticks)) cursor entries)
    (busy : ∀ curticks taken, state.timer ≠ .taken curticks taken) :
    TimerEffect self state next := by
  cases walked with
  | finished none_ | window passed rest split moved none_ => exact .quiet _ _ busy rfl
  | due passed callout rest split none_ found =>
    have member : callout ∈ (state.cpus self).callwheel (bucketOf bits curticks) := by
      rw [← same]
      exact at_.mem_list (by rw [split]; exact List.mem_append_right _ (List.mem_cons_self ..))
    obtain ⟨time, place, _⟩ := (linked.mem self (bucketOf bits curticks) callout).mp member
    have on := (Callout.place_eq_some.mp place).1
    refine .take callout curticks _ busy current on found ?_ ?_
    · simp [setCallout, setCpu]
    · simp [setCallout, setCpu]

theorem timerStep_effect (wheeled : Wheeled bits self state)
    (stepped : timerStep bits self state = some next) : TimerEffect self state next := by
  cases timerStep_cases wheeled stepped with
  | tick idle => exact .tick idle
  | entered ticked | skipped ticked empty =>
    exact .quiet _ _ (by rw [ticked]; rintro _ _ ⟨⟩) rfl
  | walk cc curticks cursor entries uncached current same caught waiting at_ swept lower =>
    exact (walk_walked ..).effect wheeled.linked current same at_ (TimerPc.not_taken uncached)
  | cancelled curticks taken pc cancel => exact .skipped curticks taken pc cancel
  | invoked curticks taken pc cancel => exact .invoke curticks taken _ pc
  | returned curticks taken pc => exact .quiet _ _ (by rw [pc]; rintro _ _ ⟨⟩) rfl

theorem calloutMove_effect {label : CalloutLabel} {callout : CalloutId}
    (wheeled : Wheeled bits self state) (elsewhere : label.target ≠ some callout)
    (moved : calloutMove bits self state label next) :
    TimerEffect self state next ∨ ∃ target, target ≠ callout ∧ CallEffect target state next := by
  rcases calloutMove_touches elsewhere moved with stepped | ⟨target, different, touches⟩
  · exact .inl (timerStep_effect wheeled stepped)
  · exact .inr ⟨target, different, touches_effect touches⟩

end Timer

end Libunsod.Uinet
