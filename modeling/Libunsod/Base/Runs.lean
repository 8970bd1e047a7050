import Mathlib.Tactic.Common

/-!
Finite runs of labelled transition systems. A run is extended at its end, so a
statement about every run is also a statement about every prefix of a run.
-/

namespace Runs

inductive Run {State Label : Type} (move : State → Label → State → Prop) (start : State) :
    List Label → State → Prop
  | nil : Run move start [] start
  | snoc {labels state label next} : Run move start labels state → move state label next →
      Run move start (labels ++ [label]) next

variable {State Label : Type} {move : State → Label → State → Prop}

theorem Run.invariant {start state : State} {labels : List Label} (holds : State → Prop)
    (initial : holds start)
    (preserved : ∀ state label next, holds state → move state label next → holds next)
    (run : Run move start labels state) : holds state := by
  induction run with
  | nil => exact initial
  | snoc _ moved ih => exact preserved _ _ _ ih moved

theorem Run.mono {other : State → Label → State → Prop} {start state : State}
    {labels : List Label} (weaker : ∀ state label next, move state label next →
      other state label next) (run : Run move start labels state) :
    Run other start labels state := by
  induction run with
  | nil => exact Run.nil
  | snoc _ moved ih => exact Run.snoc ih (weaker _ _ _ moved)

theorem Run.append {start middle state : State} {labels others : List Label}
    (first : Run move start labels middle) (second : Run move middle others state) :
    Run move start (labels ++ others) state := by
  induction second with
  | nil =>
    rw [List.append_nil]
    exact first
  | snoc _ moved ih =>
    rw [← List.append_assoc]
    exact Run.snoc ih moved

theorem Run.exists_with {start : State} {labels : List Label} {reached lawful : State → Prop}
    (law : ∀ state, Run move start labels state → lawful state)
    (found : ∃ state, Run move start labels state ∧ reached state) :
    ∃ state, Run move start labels state ∧ reached state ∧ lawful state := by
  obtain ⟨state, run, holds⟩ := found
  exact ⟨state, run, holds, law state run⟩

theorem Run.exists_with_two {start : State} {labels : List Label}
    {reached also lawful : State → Prop}
    (law : ∀ state, Run move start labels state → lawful state)
    (found : ∃ state, Run move start labels state ∧ reached state ∧ also state) :
    ∃ state, Run move start labels state ∧ reached state ∧ also state ∧ lawful state := by
  obtain ⟨state, run, holds, too⟩ := found
  exact ⟨state, run, holds, too, law state run⟩

def Guarded (enabled : State → Label → Prop) (step : State → Label → State)
    (state : State) (label : Label) (next : State) : Prop :=
  enabled state label ∧ step state label = next

def Allowed (enabled : State → Label → Prop) (step : State → Label → State) :
    State → List Label → Prop
  | _, [] => True
  | state, label :: labels => enabled state label ∧ Allowed enabled step (step state label) labels

theorem Allowed.run {enabled : State → Label → Prop} {step : State → Label → State} {start : State}
    {labels : List Label} (allowed : Allowed enabled step start labels) :
    Run (Guarded enabled step) start labels (labels.foldl step start) := by
  induction labels generalizing start with
  | nil => exact Run.nil
  | cons label labels ih =>
    exact Run.append (Run.snoc Run.nil ⟨allowed.1, rfl⟩) (ih allowed.2)

theorem Allowed.run_and {enabled extra : State → Label → Prop} {step : State → Label → State}
    {start : State} {labels : List Label}
    (allowed : Allowed (fun state label => enabled state label ∧ extra state label) step start
      labels) :
    Run (fun state label next => Guarded enabled step state label next ∧ extra state label) start
      labels (labels.foldl step start) := by
  refine allowed.run.mono fun state label next moved => ?_
  exact ⟨⟨moved.1.1, moved.2⟩, moved.1.2⟩

end Runs
