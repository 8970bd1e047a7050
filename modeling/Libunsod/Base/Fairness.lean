import Libunsod.Base.Runs
import Mathlib.Data.Nat.Find

/-!
Infinite executions of labelled transition systems under weak fairness: a party
that stays ready takes a step at some time. What one step of a party reaches is
reached eventually by the rule `ensures`, what takes several by the rule `descends`.
-/

namespace Runs

variable {State Label Party : Type} {move : State → Label → State → Prop}

variable {ready : State → Party → Prop} {actor : Label → Option Party} {time : Nat}

structure Execution (move : State → Label → State → Prop) where
  states : Nat → State
  labels : Nat → Label
  step : ∀ time, move (states time) (labels time) (states (time + 1))

def Execution.Fair (execution : Execution move) (ready : State → Party → Prop)
    (actor : Label → Option Party) : Prop :=
  ∀ party start, (∀ time, start ≤ time → ready (execution.states time) party) →
    ∃ time, start ≤ time ∧ actor (execution.labels time) = some party

def Execution.StronglyFair (execution : Execution move) (ready : State → Party → Prop)
    (actor : Label → Option Party) : Prop :=
  ∀ party start,
    (∀ time, start ≤ time → ∃ later, time ≤ later ∧ ready (execution.states later) party) →
    ∃ time, start ≤ time ∧ actor (execution.labels time) = some party

theorem Execution.StronglyFair.fair {execution : Execution move}
    (strongly : execution.StronglyFair ready actor) : execution.Fair ready actor := by
  intro party start isReady
  apply strongly party start
  intro time later
  exact ⟨time, Nat.le_refl time, isReady time later⟩

theorem Execution.always (execution : Execution move) (holds : State → Prop) {start : Nat}
    (initial : holds (execution.states start))
    (kept : ∀ time, start ≤ time → holds (execution.states time) →
      holds (execution.states (time + 1))) :
    ∀ time, start ≤ time → holds (execution.states time) := by
  intro time later
  obtain ⟨offset, rfl⟩ := Nat.exists_eq_add_of_le later
  induction offset with
  | zero => exact initial
  | succ offset ih =>
    have earlier : start ≤ start + offset := Nat.le_add_right ..
    exact kept (start + offset) earlier (ih earlier)

theorem Execution.ensures (execution : Execution move) (fair : execution.Fair ready actor)
    (party : Party) (holds goal : State → Prop) {start : Nat}
    (initial : holds (execution.states start)) (isReady : ∀ state, holds state → ready state party)
    (kept : ∀ state label next, holds state → actor label ≠ some party →
      move state label next → holds next ∨ goal next)
    (acts : ∀ state label next, holds state → actor label = some party →
      move state label next → goal next) : ∃ time, start ≤ time ∧ goal (execution.states time) := by
  by_contra never
  have stays := execution.always holds initial fun time later held => by
    by_cases acting : actor (execution.labels time) = some party
    · exact absurd ⟨time + 1, by omega, acts _ _ _ held acting (execution.step time)⟩ never
    · rcases kept _ _ _ held acting (execution.step time) with still | reached
      · exact still
      · exact absurd ⟨time + 1, by omega, reached⟩ never
  obtain ⟨time, later, acting⟩ := fair party start fun time later =>
    isReady _ (stays time later)
  exact never ⟨time + 1, by omega, acts _ _ _ (stays time later) acting (execution.step time)⟩

theorem eventually_trans {start : Nat} {first second : Nat → Prop}
    (reached : ∃ time, start ≤ time ∧ first time)
    (next : ∀ time, first time → ∃ later, time ≤ later ∧ second later) :
    ∃ time, start ≤ time ∧ second time := by
  obtain ⟨time, after, here⟩ := reached
  obtain ⟨later, afterwards, there⟩ := next time here
  exact ⟨later, Nat.le_trans after afterwards, there⟩

def Idling (move : State → Label → State → Prop) (state : State) : Option Label → State → Prop
  | some label, next => move state label next
  | none, next => next = state

theorem Execution.next (execution : Execution (Idling move)) (holds : State → Prop) {time : Nat}
    (idle : holds (execution.states time))
    (moved : ∀ label, execution.labels time = some label →
      move (execution.states time) label (execution.states (time + 1)) →
      holds (execution.states (time + 1))) : holds (execution.states (time + 1)) := by
  have step := execution.step time
  cases taken : execution.labels time with
  | none =>
    rw [taken] at step
    rw [show execution.states (time + 1) = execution.states time from step]
    exact idle
  | some label =>
    rw [taken] at step
    exact moved label taken step

theorem Execution.stays (execution : Execution (Idling move)) (holds : State → Prop) {start : Nat}
    (initial : holds (execution.states start))
    (kept : ∀ time label, start ≤ time → execution.labels time = some label →
      holds (execution.states time) →
      move (execution.states time) label (execution.states (time + 1)) →
      holds (execution.states (time + 1))) : ∀ time, start ≤ time → holds (execution.states time) :=
  execution.always holds initial fun time later held => execution.next holds held
    fun label taken moved => kept time label later taken held moved

theorem Execution.invariant (execution : Execution (Idling move)) (holds : State → Prop)
    (initial : holds (execution.states 0))
    (kept : ∀ state label next, holds state → move state label next → holds next) (time : Nat) :
    holds (execution.states time) :=
  execution.stays holds initial (fun _ _ _ _ held moved => kept _ _ _ held moved) time
    (Nat.zero_le time)

theorem Execution.settles (execution : Execution move) (rank : State → Nat) {start : Nat}
    (lowers : ∀ time, start ≤ time →
      rank (execution.states (time + 1)) ≤ rank (execution.states time)) :
    ∃ last, start ≤ last ∧ ∀ time, last ≤ time →
      rank (execution.states time) = rank (execution.states last) := by
  classical
  have some_ : ∃ least time, start ≤ time ∧ rank (execution.states time) = least :=
    ⟨_, start, Nat.le_refl start, rfl⟩
  obtain ⟨last, begun, least⟩ := Nat.find_spec some_
  refine ⟨last, begun, execution.always
    (fun state => rank state = rank (execution.states last)) rfl fun time later same => ?_⟩
  have lower := lowers time (by omega)
  have smallest := Nat.find_min' some_ ⟨time + 1, by omega, rfl⟩
  omega

theorem Execution.descends {actor : Option Label → Option Party}
    (execution : Execution (Idling move)) (fair : execution.Fair ready actor) (party : Party)
    (idles : actor none ≠ some party) (holds : State → Prop) (rank : State → Nat)
    (goal : State → Label → State → Prop) {start : Nat} (initial : holds (execution.states start))
    (isReady : ∀ state, holds state → ready state party)
    (kept : ∀ time label, start ≤ time → execution.labels time = some label →
      holds (execution.states time) →
      move (execution.states time) label (execution.states (time + 1)) →
      goal (execution.states time) label (execution.states (time + 1)) ∨
        holds (execution.states (time + 1)) ∧
          rank (execution.states (time + 1)) ≤ rank (execution.states time) ∧
          (actor (some label) = some party →
            rank (execution.states (time + 1)) < rank (execution.states time))) :
    ∃ time label, start ≤ time ∧ execution.labels time = some label ∧
      goal (execution.states time) label (execution.states (time + 1)) := by
  by_contra never
  have goes : ∀ time, start ≤ time → holds (execution.states time) →
      holds (execution.states (time + 1)) ∧
        rank (execution.states (time + 1)) ≤ rank (execution.states time) ∧
        (actor (execution.labels time) = some party →
          rank (execution.states (time + 1)) < rank (execution.states time)) := by
    intro time later held
    have moved := execution.step time
    cases at_ : execution.labels time with
    | none =>
      rw [at_] at moved
      rw [show execution.states (time + 1) = execution.states time from moved]
      exact ⟨held, Nat.le_refl _, fun acts => absurd acts idles⟩
    | some label =>
      rw [at_] at moved
      exact (kept time label later at_ held moved).resolve_left fun reached =>
        never ⟨time, label, later, at_, reached⟩
  have stays := execution.always holds initial fun time later held => (goes time later held).1
  obtain ⟨last, begun, same⟩ := execution.settles rank fun time later =>
    (goes time later (stays time later)).2.1
  obtain ⟨time, later, acting⟩ := fair party last fun time later =>
    isReady _ (stays time (by omega))
  have drop := (goes time (by omega) (stays time (by omega))).2.2 acting
  rw [same time later, same (time + 1) (by omega)] at drop
  exact Nat.lt_irrefl _ drop

section Replay

variable {enabled : State → Label → Prop} {step : State → Label → State} {start : State}
  {labels : List Label}

def replay (step : State → Label → State) (start : State) (labels : List Label) (time : Nat) :
    State :=
  (labels.take time).foldl step start

theorem replay_late (late : labels.length ≤ time) :
    replay step start labels time = labels.foldl step start := by
  rw [replay, List.take_of_length_le late]

theorem Allowed.at_time (allowed : Allowed enabled step start labels) {label : Label}
    (next : labels[time]? = some label) : enabled (replay step start labels time) label := by
  induction labels generalizing start time with
  | nil => simp at next
  | cons first rest ih =>
    cases time with
    | zero =>
      simp only [List.getElem?_cons_zero, Option.some.injEq] at next
      subst next
      exact allowed.1
    | succ time => exact ih allowed.2 next

def Execution.replay (allowed : Allowed enabled step start labels) :
    Execution (Idling (Guarded enabled step)) where
  states := Runs.replay step start labels
  labels time := labels[time]?
  step time := by
    cases label : labels[time]? with
    | none =>
        have late : labels.length ≤ time := List.getElem?_eq_none_iff.mp label
        simp only [Idling]
        rw [replay_late late, replay_late (by omega)]
    | some next =>
        refine ⟨allowed.at_time label, ?_⟩
        simp only [Runs.replay]
        rw [List.take_add_one, label]
        simp

theorem Execution.replay_ends (allowed : Allowed enabled step start labels)
    (late : labels.length ≤ time) : (Execution.replay allowed).labels time = none :=
  List.getElem?_eq_none late

theorem Execution.replay_stronglyFair {actor : Option Label → Option Party}
    (allowed : Allowed enabled step start labels)
    (rests : ∀ party, ¬ ready (labels.foldl step start) party) :
    (Execution.replay allowed).StronglyFair ready actor := by
  intro party begun isReady
  obtain ⟨later, after, now⟩ := isReady (begun + labels.length) (by omega)
  simp only [Execution.replay] at now
  rw [replay_late (by omega)] at now
  exact absurd now (rests party)

theorem Execution.replay_fair {actor : Option Label → Option Party}
    (allowed : Allowed enabled step start labels)
    (rests : ∀ party, ¬ ready (labels.foldl step start) party) :
    (Execution.replay allowed).Fair ready actor :=
  (Execution.replay_stronglyFair allowed rests).fair

end Replay

end Runs
