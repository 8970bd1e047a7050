import Mathlib.Data.List.Perm.Basic

/-!
The table of thread hooks of `uinet_host_interface.c`. `uhi_thread_hook_add` answers the
number of its slot plus one, and `uhi_thread_hook_remove` takes that answer for the number
of the slot: the next slot is cleared, or one behind the table.
-/

namespace Libunsod.Uinet

inductive HookType where
  | start
  | finish
  deriving DecidableEq

def uhiMaxThreadHooks : Nat := 16

variable {Pair : Type}

/-- The loop of `uhi_thread_hook_add`: the first free slot is filled. -/
def fillFree (pair : Pair) : List (Option Pair) → Option (List (Option Pair) × Nat)
  | [] => none
  | none :: rest => some (some pair :: rest, 0)
  | some taken :: rest =>
      (fillFree pair rest).map fun (slots, index) => (some taken :: slots, index + 1)

def uhiThreadHookAdd (slots : List (Option Pair)) (pair : Pair) : List (Option Pair) × Nat :=
  match fillFree pair slots with
  | some (filled, index) => (filled, index + 1)
  | none => (slots, 0)

/-- None if the assertion fails. -/
def uhiThreadHookRemove (slots : List (Option Pair)) (id : Nat) : Option (List (Option Pair)) :=
  if id < uhiMaxThreadHooks then some (slots.set id none) else none

/-- The calls that are made, in their order. -/
def uhiThreadRunHooks (slots : List (Option Pair)) : List Pair := slots.filterMap id

/-- The tables, and the answers of the additions that were not removed with their hooks and
arguments. -/
structure Hooks (Pair : Type) where
  slots : HookType → List (Option Pair)
  live : HookType → List (Nat × Pair)

/-- A removal names the addition whose answer it passes. -/
inductive HookCall (Pair : Type) where
  | add (which : HookType) (pair : Pair)
  | remove (which : HookType) (id : Nat) (pair : Pair)

namespace Hooks

def init : Hooks Pair := ⟨fun _ => List.replicate uhiMaxThreadHooks none, fun _ => []⟩

def set (hooks : Hooks Pair) (which : HookType) (slots : List (Option Pair))
    (live : List (Nat × Pair)) : Hooks Pair where
  slots := Function.update hooks.slots which slots
  live := Function.update hooks.live which live

variable [DecidableEq Pair]

def step (hooks : Hooks Pair) : HookCall Pair → Option (Hooks Pair)
  | .add which pair =>
      let added := uhiThreadHookAdd (hooks.slots which) pair
      some (hooks.set which added.1
        (if added.2 = 0 then hooks.live which else (added.2, pair) :: hooks.live which))
  | .remove which id pair =>
      (uhiThreadHookRemove (hooks.slots which) id).map fun slots =>
        hooks.set which slots ((hooks.live which).erase (id, pair))

def Enabled (hooks : Hooks Pair) : HookCall Pair → Prop
  | .add _ _ => True
  | .remove which id pair => (id, pair) ∈ hooks.live which

def Valid : Hooks Pair → List (HookCall Pair) → Prop
  | _, [] => True
  | hooks, call :: calls => hooks.Enabled call ∧
      ∀ next, hooks.step call = some next → Valid next calls

def Sound (hooks : Hooks Pair) : Prop :=
  ∀ which, (uhiThreadRunHooks (hooks.slots which)).Perm ((hooks.live which).map Prod.snd)

/-- After every call the hooks that run are those that were added and not removed. -/
def Faithful : Hooks Pair → List (HookCall Pair) → Prop
  | hooks, [] => hooks.Sound
  | hooks, call :: calls => hooks.Sound ∧ ∃ next, hooks.step call = some next ∧
      Faithful next calls

/-- The slot behind the one of the removed hook has the same hook and argument. -/
def Copies (hooks : Hooks Pair) : HookCall Pair → Prop
  | .add _ _ => True
  | .remove which id pair => id < uhiMaxThreadHooks ∧
      (hooks.slots which)[id]? = some (some pair)

def AllCopies : Hooks Pair → List (HookCall Pair) → Prop
  | _, [] => True
  | hooks, call :: calls => hooks.Copies call ∧
      ∀ next, hooks.step call = some next → AllCopies next calls

end Hooks

theorem fillFree_runs {pair : Pair} {slots filled : List (Option Pair)} {index : Nat}
    (found : fillFree pair slots = some (filled, index)) :
    (uhiThreadRunHooks filled).Perm (pair :: uhiThreadRunHooks slots) := by
  induction slots generalizing filled index with
  | nil => cases found
  | cons slot rest ih =>
    cases slot with
    | none =>
      cases found
      exact .refl _
    | some taken =>
      obtain ⟨⟨slots, inner⟩, later, same⟩ := Option.map_eq_some_iff.mp found
      cases same
      exact ((ih later).cons taken).trans (.swap ..)

theorem hookAdd_runs (slots : List (Option Pair)) (pair : Pair) :
    (uhiThreadHookAdd slots pair).2 = 0 ∧ (uhiThreadHookAdd slots pair).1 = slots ∨
      (uhiThreadHookAdd slots pair).2 ≠ 0 ∧
        (uhiThreadRunHooks (uhiThreadHookAdd slots pair).1).Perm
          (pair :: uhiThreadRunHooks slots) := by
  unfold uhiThreadHookAdd
  split
  next found => exact .inr ⟨Nat.succ_ne_zero _, fillFree_runs found⟩
  next => exact .inl ⟨rfl, rfl⟩

theorem set_none_runs (slots : List (Option Pair)) (index : Nat) :
    (∃ pair, slots[index]? = some (some pair) ∧
      (uhiThreadRunHooks slots).Perm (pair :: uhiThreadRunHooks (slots.set index none))) ∨
    (∀ pair, slots[index]? ≠ some (some pair)) ∧
      uhiThreadRunHooks (slots.set index none) = uhiThreadRunHooks slots := by
  induction slots generalizing index with
  | nil => exact .inr ⟨by rintro pair ⟨⟩, rfl⟩
  | cons slot rest ih =>
    cases index with
    | zero =>
      cases slot with
      | none => exact .inr ⟨by rintro pair ⟨⟩, rfl⟩
      | some pair => exact .inl ⟨pair, rfl, .refl _⟩
    | succ index =>
      rcases ih index with ⟨pair, here, runs⟩ | ⟨free, same⟩
      · refine .inl ⟨pair, here, ?_⟩
        cases slot with
        | none => exact runs
        | some taken => exact (runs.cons taken).trans (.swap ..)
      · refine .inr ⟨free, ?_⟩
        cases slot with
        | none => exact same
        | some taken => exact congrArg (taken :: ·) same

section Step

variable {hooks : Hooks Pair}

theorem Hooks.Sound.set {which : HookType} {slots : List (Option Pair)} {live : List (Nat × Pair)}
    (sound : hooks.Sound) : (hooks.set which slots live).Sound ↔
      (uhiThreadRunHooks slots).Perm (live.map Prod.snd) := by
  constructor
  · intro after
    simpa [Hooks.set] using after which
  · intro own other
    by_cases same : other = which
    · subst same
      simpa [Hooks.set] using own
    · simpa [Hooks.set, same] using sound other

theorem Hooks.Sound.step_iff [DecidableEq Pair] {call : HookCall Pair} (sound : hooks.Sound)
    (enabled : hooks.Enabled call) :
    (∃ next, hooks.step call = some next ∧ next.Sound) ↔ hooks.Copies call := by
  cases call with
  | add which pair =>
    simp only [Hooks.step, Option.some.injEq, exists_eq_left', sound.set]
    refine iff_of_true ?_ trivial
    rcases hookAdd_runs (hooks.slots which) pair with ⟨full, same⟩ | ⟨added, runs⟩
    · rw [if_pos full, same]
      exact sound which
    · rw [if_neg added]
      exact runs.trans ((sound which).cons pair)
  | remove which id pair =>
    have removed : ((hooks.live which).map Prod.snd).Perm
        (pair :: ((hooks.live which).erase (id, pair)).map Prod.snd) :=
      (List.perm_cons_erase enabled).map Prod.snd
    have before := (sound which).trans removed
    simp only [Hooks.step, uhiThreadHookRemove, Hooks.Copies]
    by_cases inside : id < uhiMaxThreadHooks
    · rw [if_pos inside]
      simp only [Option.map_some, Option.some.injEq, exists_eq_left', sound.set, inside, true_and]
      rcases set_none_runs (hooks.slots which) id with
        ⟨other, here, runs⟩ | ⟨free, same⟩
      · rw [here, Option.some.injEq, Option.some.injEq]
        constructor
        · intro after
          have both := (runs.symm.trans before).trans (after.symm.cons pair)
          simpa [List.count_cons] using both.count_eq pair
        · rintro rfl
          exact (runs.symm.trans before).cons_inv
      · refine iff_of_false (fun after => ?_) (free pair)
        rw [same] at after
        have lengths := (after.symm.trans before).length_eq
        simp at lengths
    · simp [inside]

end Step

/-- Every removal clears another slot than its own, which goes unnoticed only if that slot
has a copy of the hook. -/
theorem threadHooks_faithful_iff [DecidableEq Pair] (calls : List (HookCall Pair))
    (valid : Hooks.init.Valid calls) : Hooks.init.Faithful calls ↔ Hooks.init.AllCopies calls := by
  have sound : (Hooks.init : Hooks Pair).Sound := fun which => by
    simp [uhiThreadRunHooks, Hooks.init]
  generalize (Hooks.init : Hooks Pair) = hooks at valid sound
  induction calls generalizing hooks with
  | nil => exact iff_of_true sound trivial
  | cons call calls ih =>
    obtain ⟨enabled, later⟩ := valid
    rw [Hooks.Faithful, Hooks.AllCopies, ← sound.step_iff enabled]
    constructor
    · rintro ⟨-, next, moved, faithful⟩
      have soundNext : next.Sound := by
        cases calls with
        | nil => exact faithful
        | cons => exact faithful.1
      refine ⟨⟨next, moved, soundNext⟩, fun other same => ?_⟩
      cases moved.symm.trans same
      exact (ih next (later next moved) soundNext).mp faithful
    · rintro ⟨⟨next, moved, soundNext⟩, copies⟩
      exact ⟨sound, next, moved, (ih next (later next moved) soundNext).mpr (copies next moved)⟩

theorem threadHooks_faithful_twice :
    Hooks.init.Faithful [.add .start 7, .add .finish 3, .add .start 7, .remove .start 1 7] := by
  refine (threadHooks_faithful_iff _ ?_).mpr ?_
  all_goals
    refine ⟨trivial, fun _ first => ⟨trivial, fun _ second => ⟨trivial, fun _ third => ?_⟩⟩⟩
    cases first
    cases second
    cases third
  · exact ⟨.tail _ (.head _), fun _ _ => trivial⟩
  · exact ⟨⟨by decide, rfl⟩, fun _ _ => trivial⟩

theorem threadHooks_run_removed :
    Hooks.init.Valid [HookCall.add .start 7, .remove .start 1 7] ∧
      ¬Hooks.init.Faithful [HookCall.add .start 7, .remove .start 1 7] := by
  refine ⟨⟨trivial, fun _ first => ?_⟩, ?_⟩
  · cases first
    exact ⟨.head _, fun _ _ => trivial⟩
  · rintro ⟨-, _, first, -, _, second, sound⟩
    cases first
    cases second
    exact absurd (sound .start) (by decide)

end Libunsod.Uinet
