import Libunsod.Uinet.CalloutEffect

/-!
The timer thread is never stuck, and a call of `uinet_hardclock` ends after
finitely many of its own steps: every critical section of `softclock` shortens
what is left of the bucket. Handlers that return are a step of the timer thread.
-/

namespace Libunsod.Uinet

open Cursor Runs
open CalloutState

variable {curticks : BitVec 32}

def Unflagged (state : CalloutState) : Prop :=
  ∀ cpu, (state.cpus cpu).waiting = 0

structure Unlockable (state : CalloutState) : Prop where
  callouts : ∀ callout, (state.callouts callout).lock = none →
    (state.callouts callout).returnUnlocked = true
  cached : ∀ taken, state.timer.cached = some taken → taken.lock = none →
    taken.returnUnlocked = true
  unflagged : Unflagged state

theorem calloutBoot_unlockable (ticks : BitVec 32) {callouts : CalloutId → Callout}
    (initialised : ∀ callout, (callouts callout).Initialised) :
    Unlockable (calloutBoot ticks callouts) := by
  exact ⟨fun callout => (initialised callout).resting.2.2, by rintro taken ⟨⟩, fun _ => rfl⟩

def mpsafeCallouts : CalloutId → Callout := fun _ => calloutInit true

theorem mpsafeCallouts_initialised (callout : CalloutId) :
    (mpsafeCallouts callout).Initialised :=
  .inl ⟨true, rfl⟩

section Moves

variable {bits : Nat} {self : Cpu} {before after : CalloutState}

theorem CallEffect.unlockable {target : CalloutId} (effect : CallEffect target before after)
    (unlockable : Unlockable before) : Unlockable after := by
  refine ⟨fun callout => ?_, by rw [effect.timer]; exact unlockable.cached,
    fun cpu => (effect.waiting cpu).trans (unlockable.unflagged cpu)⟩
  by_cases same : callout = target
  · subst same
    rw [effect.lock, effect.returnUnlocked]
    exact unlockable.callouts callout
  · rw [effect.others callout same]
    exact unlockable.callouts callout

theorem Unflagged.setCpu (unflagged : Unflagged before) (cpu : Cpu) {value : CalloutCpu}
    (unset : value.waiting = 0) : Unflagged (before.setCpu cpu value) :=
  fun other => (setCpu_field CalloutCpu.waiting (unset.trans (unflagged cpu).symm) other).trans
    (unflagged other)

theorem Walked.unflagged {cc : CalloutCpu} {entries : List CalloutId}
    (walked : Walked bits self before cc curticks entries after) (unflagged : Unflagged before)
    (unset : cc.waiting = 0) : Unflagged after := by
  cases walked <;> exact unflagged.setCpu self unset

theorem timerStep_unflagged (wheeled : Wheeled bits self before) (unflagged : Unflagged before)
    (stepped : timerStep bits self before = some after) : Unflagged after := by
  cases timerStep_cases wheeled stepped with
  | tick idle | entered ticked | cancelled curticks taken pc cancel
  | returned curticks taken pc => exact unflagged
  | skipped ticked empty | invoked curticks taken pc cancel =>
    exact unflagged.setCpu self (unflagged self)
  | walk cc curticks cursor entries uncached current same caught waiting at_ swept lower =>
    exact (walk_walked bits self before cc curticks entries).unflagged unflagged
      (waiting.trans (unflagged self))

theorem TimerEffect.unlockable (effect : TimerEffect self before after)
    (unlockable : Unlockable before) (unflagged : Unflagged after) : Unlockable after := by
  cases effect with
  | tick idle => exact ⟨unlockable.callouts, by rintro taken ⟨⟩, unflagged⟩
  | quiet cpus timer busy still =>
    refine ⟨unlockable.callouts, ?_, unflagged⟩
    rw [still]
    rintro taken ⟨⟩
  | take callout curticks cpus busy current on due curr cancel =>
    refine ⟨fun other => ?_, ?_, unflagged⟩
    · by_cases same : other = callout
      · subst same
        dsimp only
        rw [Function.update_self]
        exact unlockable.callouts other
      · dsimp only
        rw [Function.update_of_ne same]
        exact unlockable.callouts other
    · rintro taken ⟨⟩
      exact unlockable.callouts callout
  | invoke curticks taken cpus pc =>
    have held := unlockable.cached taken (by rw [pc]; rfl)
    refine ⟨unlockable.callouts, ?_, unflagged⟩
    rintro other ⟨⟩
    exact held
  | skipped curticks taken pc cancel => exact ⟨unlockable.callouts, by rintro other ⟨⟩, unflagged⟩

theorem calloutMove_unlockable {label : CalloutLabel} (wheeled : Wheeled bits self before)
    (unlockable : Unlockable before) (moved : calloutMove bits self before label after) :
    Unlockable after := by
  obtain ⟨callout, elsewhere⟩ := label.exists_elsewhere
  rcases calloutMove_touches elsewhere moved with stepped | ⟨target, _, touches⟩
  · exact (timerStep_effect wheeled stepped).unlockable unlockable
      (timerStep_unflagged wheeled unlockable.unflagged stepped)
  · exact (touches_effect touches).unlockable unlockable

end Moves

def timerMove (bits : Nat) (self : Cpu) (state : CalloutState) (label : CalloutLabel)
    (next : CalloutState) : Prop :=
  label = .timer ∧ calloutMove bits self state label next

def timerSteps (bits : Nat) (self : Cpu) : Nat → CalloutState → Option CalloutState
  | 0, state => some state
  | count + 1, state => (timerSteps bits self count state).bind (timerStep bits self)

theorem timerSteps_run {bits : Nat} {self : Cpu} {count : Nat} {state final : CalloutState}
    (steps : timerSteps bits self count state = some final) :
    Run (timerMove bits self) state (List.replicate count .timer) final := by
  induction count generalizing final with
  | zero =>
    cases steps
    exact Run.nil
  | succ count ih =>
    obtain ⟨middle, early, last⟩ := Option.bind_eq_some_iff.mp steps
    rw [List.replicate_succ']
    exact Run.snoc (ih early) ⟨rfl, last⟩

theorem timerMove_move {bits : Nat} {self : Cpu} (state : CalloutState) (label : CalloutLabel)
    (next : CalloutState) (moved : timerMove bits self state label next) :
    calloutMove bits self state label next :=
  moved.2

section Rank

variable {bits : Nat} {self : Cpu} {state next : CalloutState}

theorem entriesLeft_at {cc : CalloutCpu} {rest : List CalloutId}
    (distinct : (cc.callwheel (bucketOf bits curticks)).Nodup)
    (at_ : At (cc.callwheel (bucketOf bits curticks)) cc.next rest) :
    entriesLeft bits cc curticks = rest.length := by
  unfold entriesLeft
  rw [entriesFrom_at distinct at_]
  rfl

theorem Walked.rank_le {cc : CalloutCpu} {entries : List CalloutId} {cursor : Option CalloutId}
    (walked : Walked bits self state cc curticks entries next)
    (distinct : (cc.callwheel (bucketOf bits curticks)).Nodup)
    (at_ : At (cc.callwheel (bucketOf bits curticks)) cursor entries) :
    next.hardclocks = state.hardclocks ∧ timerRank bits self next ≤ 5 * entries.length := by
  cases walked with
  | finished none_ => exact ⟨rfl, Nat.zero_le _⟩
  | window passed rest split moved none_ =>
    subst split
    have left : entriesLeft bits { cc with next := rest.head? } curticks = rest.length :=
      entriesLeft_at distinct at_.advance
    have longer : 0 < passed.length := List.length_pos_iff.mpr moved
    refine ⟨rfl, ?_⟩
    simp only [timerRank, setCpu_self, left, List.length_append]
    omega
  | due passed callout rest split none_ found =>
    subst split
    have taken := at_.take distinct
    have wheel : ((state.takeDue bits self cc curticks callout rest.head?).cpus self).callwheel
        (bucketOf bits curticks) = (cc.callwheel (bucketOf bits curticks)).erase callout := by
      simp [takeDue, endSweep, setCallout, setCpu]
    have left : entriesLeft bits ((state.takeDue bits self cc curticks callout rest.head?).cpus
        self) curticks = rest.length := by
      refine entriesLeft_at (by rw [wheel]; exact distinct.erase callout) ?_
      rw [wheel]
      simpa [takeDue, endSweep, setCallout, setCpu] using taken
    refine ⟨rfl, ?_⟩
    show 5 * entriesLeft bits ((state.takeDue bits self cc curticks callout rest.head?).cpus self)
      curticks + 5 ≤ _
    rw [left, List.length_append, List.length_cons]
    omega

theorem timer_progress (wheeled : Wheeled bits self state) (unlockable : Unlockable state)
    (busy : state.timer ≠ .idle) :
    ∃ next, timerStep bits self state = some next ∧ next.hardclocks = state.hardclocks ∧
      timerRank bits self next < timerRank bits self state := by
  have usable : ∀ curticks taken, state.timer = .running curticks taken →
      ¬(taken.returnUnlocked = false ∧ taken.lock = none) := by
    rintro curticks taken timer ⟨locked, unlocked⟩
    have unlocks := unlockable.cached taken (by rw [timer]; rfl) unlocked
    rw [locked] at unlocks
    cases unlocks
  obtain ⟨next, stepped, ended⟩ :=
    timerStep_total wheeled usable fun _ _ => unlockable.unflagged self
  refine ⟨next, stepped, ?_⟩
  cases ended with
  | tick idle => exact absurd idle busy
  | entered pc | skipped pc | cancelled curticks taken pc | returned curticks taken pc =>
    refine ⟨rfl, ?_⟩
    simp only [timerRank, pc]
    omega
  | walk cc curticks cursor entries uncached current same caught waiting at_ swept lower =>
    have distinct : ((state.cpus self).callwheel (bucketOf bits curticks)).Nodup :=
      wheeled.linked.nodup self _
    rw [← same] at distinct
    obtain ⟨hardclocks, bound⟩ := (walk_walked bits self state cc _ _).rank_le distinct at_
    exact ⟨hardclocks, bound.trans_lt lower⟩
  | invoked curticks taken pc cancel =>
    refine ⟨rfl, ?_⟩
    simp only [timerRank, pc, CalloutState.invoke, setCpu_self]
    exact Nat.lt_succ_self _

theorem timer_finishes (wheeled : Wheeled bits self state) (unlockable : Unlockable state) :
    ∃ labels final, Run (timerMove bits self) state labels final ∧ final.timer = .idle ∧
      final.hardclocks = state.hardclocks ∧ Wheeled bits self final ∧ Unlockable final := by
  induction rank : timerRank bits self state using Nat.strongRecOn generalizing state with
  | ind rank ih =>
    by_cases busy : state.timer = .idle
    · exact ⟨[], state, Run.nil, busy, rfl, wheeled, unlockable⟩
    · obtain ⟨next, stepped, hardclocks, lower⟩ := timer_progress wheeled unlockable busy
      have moved : calloutMove bits self state .timer next := stepped
      obtain ⟨labels, final, run, idle, same, kept⟩ := ih (timerRank bits self next)
        (by omega) (calloutMove_wheeled wheeled moved)
        (calloutMove_unlockable wheeled unlockable moved) rfl
      have first : Run (timerMove bits self) state ([] ++ [.timer]) next :=
        Run.snoc Run.nil ⟨rfl, moved⟩
      exact ⟨_, final, first.append run, idle, same.trans hardclocks, kept⟩

theorem timer_reaches (wheeled : Wheeled bits self state) (unlockable : Unlockable state)
    (more : Nat) :
    ∃ labels final, Run (timerMove bits self) state labels final ∧ final.timer = .idle ∧
      final.hardclocks = state.hardclocks + more ∧ Wheeled bits self final ∧
      Unlockable final := by
  induction more with
  | zero => exact timer_finishes wheeled unlockable
  | succ more ih =>
    obtain ⟨labels, middle, run, idle, count, kept, keptLocks⟩ := ih
    have moved : calloutMove bits self middle .timer _ := timerStep_idle idle
    obtain ⟨others, final, rest, past, same, finalKept⟩ :=
      timer_finishes (calloutMove_wheeled kept moved)
        (calloutMove_unlockable kept keptLocks moved)
    refine ⟨_, final, (Run.snoc run ⟨rfl, moved⟩).append rest, past, ?_, finalKept⟩
    rw [same]
    show middle.hardclocks + 1 = state.hardclocks + (more + 1)
    omega

end Rank

end Libunsod.Uinet
