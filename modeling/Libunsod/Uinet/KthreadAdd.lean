import Libunsod.Base.Runs

/-!
The start of a thread: `kthread_add` and `kproc_kthread_add`, and what the new thread does
before its entry point. The caller waits until the thread has reported its state, also when
no thread was made.
-/

namespace Libunsod.Uinet

open Runs

/-- The state that was allocated for the thread, and the thread's `uinet_curthread`. -/
inductive UinetThread where
  | allocated
  | native

/-- `checking` is in front of the test of `notice.utd`. -/
inductive AdderPc where
  | creating
  | checking
  | asleep
  | returned (error : Nat) (tdp : UinetThread)

inductive StarterPc where
  | absent
  | settingTls
  | runningHooks
  | notifying
  | running

/-- `utdFrees` and `tsaFrees` count how often the allocated state and the arguments of the
thread were freed. -/
structure Adding where
  caller : AdderPc
  thread : StarterPc
  tls : Option UinetThread
  notice : Option UinetThread
  utdFrees : Nat
  tsaFrees : Nat
  procp : Option Nat

def proc0 : Nat := 0

def kthreadAdd (p : Option Nat) : Adding :=
  ⟨.creating, .absent, none, none, 0, 0, p⟩

/-- The same function, but for the process that is returned. -/
def kprocKthreadAdd (p : Option Nat) : Adding :=
  { kthreadAdd p with procp := some (p.getD proc0) }

namespace Adding

def uhiThreadCreate (error : Nat) (state : Adding) : Adding :=
  { state with
    caller := .checking
    thread := if error = 0 then .settingTls else .absent }

def uinetThreadStartHook (hasNativeTls : Bool) (state : Adding) : Adding :=
  if hasNativeTls then { state with tls := some .native, utdFrees := state.utdFrees + 1 }
  else state

def notifyStarted (state : Adding) : Adding :=
  { state with
    notice := state.tls
    caller := match state.caller with
      | .asleep => .checking
      | pc => pc }

def callerStep (error : Nat) (state : Adding) : Option Adding :=
  match state.caller, state.notice with
  | .creating, _ => some (state.uhiThreadCreate error)
  | .checking, none => some { state with caller := .asleep }
  | .checking, some utd => some { state with caller := .returned error utd }
  | .asleep, _ | .returned _ _, _ => none

def threadStep (hasNativeTls : Bool) (state : Adding) : Option Adding :=
  match state.thread with
  | .absent | .running => none
  | .settingTls => some { state with tls := some .allocated, thread := .runningHooks }
  | .runningHooks => some { state.uinetThreadStartHook hasNativeTls with thread := .notifying }
  | .notifying => some { state.notifyStarted with thread := .running }

end Adding

inductive AddParty where
  | caller
  | thread

def addMove (hasNativeTls : Bool) (error : Nat) (state : Adding) (party : AddParty)
    (next : Adding) : Prop :=
  match party with
  | .caller => state.callerStep error = some next
  | .thread => state.threadStep hasNativeTls = some next

/-- What callers rely on. A run is over after finitely many steps, and not before the call
has returned. -/
structure Starts (hasNativeTls : Bool) (error : Nat) (start : Adding) : Prop where
  returns : ∀ labels state, Run (addMove hasNativeTls error) start labels state →
    labels.length ≤ 6 ∧ ((∃ ret utd, state.caller = .returned ret utd) ∨
      ∃ party next, addMove hasNativeTls error state party next)
  created : error = 0 → ∀ labels state ret utd, Run (addMove hasNativeTls error) start labels state →
    state.caller = .returned ret utd → ret = 0 ∧ state.tls = some utd
  failed : error ≠ 0 → ∀ labels state, Run (addMove hasNativeTls error) start labels state →
    state.caller ≠ .asleep ∧ ∀ ret utd, state.caller = .returned ret utd →
      ret = error ∧ state.utdFrees = 1 ∧ state.tsaFrees = 1

def AdderPc.Waits (pc : AdderPc) : Prop := pc = .checking ∨ pc = .asleep

def AdderPc.left : AdderPc → Nat
  | .creating => 6
  | .checking => 1
  | .asleep | .returned _ _ => 0

def StarterPc.left : StarterPc → Nat
  | .absent | .running => 0
  | .settingTls => 4
  | .runningHooks => 3
  | .notifying => 2

def Adding.left (state : Adding) : Nat := state.caller.left + state.thread.left

/-- What is known in each phase of a thread that was made. -/
def Adding.Inv (state : Adding) : Prop :=
  match state.thread with
  | .absent => state.caller = .creating ∧ state.notice = none
  | .settingTls => state.caller.Waits ∧ state.notice = none
  | .runningHooks | .notifying =>
      state.caller.Waits ∧ state.notice = none ∧ ∃ utd, state.tls = some utd
  | .running => ∃ utd, state.tls = some utd ∧ state.notice = some utd ∧
      (state.caller = .checking ∨ state.caller = .returned 0 utd)

section Step

variable {hasNativeTls : Bool} {state next : Adding}

theorem Adding.Inv.callerStep (inv : state.Inv) (moved : state.callerStep 0 = some next) :
    next.Inv ∧ next.left < state.left := by
  obtain ⟨caller, thread, tls, notice, utdFrees, tsaFrees, procp⟩ := state
  cases thread with
  | absent =>
    obtain ⟨rfl, rfl⟩ : caller = .creating ∧ notice = none := inv
    cases moved
    exact ⟨⟨.inl rfl, rfl⟩, (by decide : 5 < 6)⟩
  | settingTls =>
    obtain ⟨rfl | rfl, rfl⟩ : (caller = .checking ∨ caller = .asleep) ∧ notice = none := inv
    · cases moved
      exact ⟨⟨.inr rfl, rfl⟩, (by decide : 4 < 5)⟩
    · cases moved
  | runningHooks | notifying =>
    obtain ⟨rfl | rfl, rfl, known⟩ : (caller = .checking ∨ caller = .asleep) ∧ notice = none ∧ _ :=
      inv
    · cases moved
      exact ⟨⟨.inr rfl, rfl, known⟩, Nat.add_lt_add_right Nat.one_pos _⟩
    · cases moved
  | running =>
    obtain ⟨utd, known, same, at_⟩ := inv
    cases same
    rcases at_ with rfl | rfl
    · cases moved
      exact ⟨⟨utd, known, rfl, .inr rfl⟩, Nat.one_pos⟩
    · cases moved

theorem Adding.Inv.threadStep (inv : state.Inv) (moved : state.threadStep hasNativeTls = some next) :
    next.Inv ∧ next.left < state.left := by
  obtain ⟨caller, thread, tls, notice, utdFrees, tsaFrees, procp⟩ := state
  cases thread with
  | absent | running => cases moved
  | settingTls =>
    cases moved
    exact ⟨⟨inv.1, inv.2, _, rfl⟩, Nat.lt_succ_self _⟩
  | runningHooks =>
    obtain ⟨waits, unset, utd, known⟩ := inv
    cases hasNativeTls with
    | true =>
      cases moved
      exact ⟨⟨waits, unset, _, rfl⟩, Nat.lt_succ_self _⟩
    | false =>
      cases moved
      exact ⟨⟨waits, unset, utd, known⟩, Nat.lt_succ_self _⟩
  | notifying =>
    obtain ⟨waits, -, utd, known⟩ := inv
    rcases waits with rfl | rfl
    · cases moved
      exact ⟨⟨utd, known, known, .inl rfl⟩, (by decide : 1 < 3)⟩
    · cases moved
      exact ⟨⟨utd, known, known, .inl rfl⟩, (by decide : 1 < 2)⟩

theorem Adding.Inv.move {party : AddParty} (inv : state.Inv)
    (moved : addMove hasNativeTls 0 state party next) : next.Inv ∧ next.left < state.left := by
  cases party with
  | caller => exact inv.callerStep moved
  | thread => exact inv.threadStep moved

theorem Adding.Inv.progress (inv : state.Inv) : (∃ ret utd, state.caller = .returned ret utd) ∨
    ∃ party next, addMove hasNativeTls 0 state party next := by
  obtain ⟨caller, thread, tls, notice, utdFrees, tsaFrees, procp⟩ := state
  cases thread with
  | absent =>
    obtain ⟨rfl, -⟩ : caller = .creating ∧ notice = none := inv
    exact .inr ⟨.caller, _, rfl⟩
  | settingTls | runningHooks | notifying => exact .inr ⟨.thread, _, rfl⟩
  | running =>
    obtain ⟨utd, known, same, at_⟩ := inv
    cases same
    rcases at_ with rfl | rfl
    · exact .inr ⟨.caller, _, rfl⟩
    · exact .inl ⟨_, _, rfl⟩

theorem Adding.Inv.run {start : Adding} {labels : List AddParty} (inv : start.Inv)
    (run : Run (addMove hasNativeTls 0) start labels state) :
    state.Inv ∧ labels.length + state.left ≤ start.left := by
  induction run with
  | nil => exact ⟨inv, by simp⟩
  | snoc _ moved ih =>
    obtain ⟨invNext, less⟩ := ih.1.move moved
    refine ⟨invNext, ?_⟩
    rw [List.length_append, List.length_singleton]
    omega

theorem Adding.Inv.starts {start : Adding} (inv : start.Inv) (small : start.left ≤ 6) :
    Starts hasNativeTls 0 start := by
  refine ⟨fun labels state run => ?_, fun _ labels state ret utd run back => ?_,
    fun wrong => absurd rfl wrong⟩
  · obtain ⟨reached, bound⟩ := inv.run run
    exact ⟨by omega, reached.progress⟩
  · have reached := (inv.run run).1
    unfold Adding.Inv at reached
    rw [back] at reached
    generalize state.thread = thread at reached
    cases thread with
    | absent => cases reached.1
    | settingTls | runningHooks | notifying => rcases reached.1 with wrong | wrong <;> cases wrong
    | running =>
      obtain ⟨utd, known, -, wrong | same⟩ := reached
      · cases wrong
      · cases same
        exact ⟨rfl, known⟩

/-- Without a thread the caller checks once, finds no notice and sleeps. -/
theorem Adding.starts_iff {start : Adding} {error : Nat} (caller : start.caller = .creating)
    (thread : start.thread = .absent) (notice : start.notice = none) :
    Starts hasNativeTls error start ↔ error = 0 := by
  constructor
  · intro starts
    by_contra failure
    have create : addMove hasNativeTls error start .caller (start.uhiThreadCreate error) := by
      simp only [addMove, Adding.callerStep, caller]
    have sleep : addMove hasNativeTls error (start.uhiThreadCreate error) .caller
        { start.uhiThreadCreate error with caller := .asleep } := by
      simp only [addMove, Adding.callerStep, Adding.uhiThreadCreate, notice]
    exact (starts.failed failure _ _ (.snoc (.snoc .nil create) sleep)).1 rfl
  · rintro rfl
    refine Adding.Inv.starts ?_ ?_
    · simp only [Adding.Inv, thread, caller, notice, and_self]
    · simp only [Adding.left, caller, thread, AdderPc.left, StarterPc.left, Nat.le_refl]

end Step

/-- Each of the two functions keeps its contract exactly when the thread is made. -/
theorem kthreadAdd_starts_iff (hasNativeTls : Bool) (error : Nat) (p : Option Nat) :
    (Starts hasNativeTls error (kthreadAdd p) ↔ error = 0) ∧
      (Starts hasNativeTls error (kprocKthreadAdd p) ↔ error = 0) :=
  ⟨Adding.starts_iff rfl rfl rfl, Adding.starts_iff rfl rfl rfl⟩

theorem kthreadAdd_never_returns :
    ∃ state, Run (addMove true 11) (kthreadAdd none) [.caller, .caller] state ∧
      state.caller = .asleep ∧ state.utdFrees = 0 ∧ state.tsaFrees = 0 ∧
      ∀ party next, ¬addMove true 11 state party next := by
  have create : addMove true 11 (kthreadAdd none) .caller
      ((kthreadAdd none).uhiThreadCreate 11) := rfl
  have sleep : addMove true 11 ((kthreadAdd none).uhiThreadCreate 11) .caller
      { (kthreadAdd none).uhiThreadCreate 11 with caller := .asleep } := rfl
  refine ⟨_, .snoc (.snoc .nil create) sleep, rfl, rfl, rfl, fun party next moved => ?_⟩
  cases party <;> cases moved

end Libunsod.Uinet
