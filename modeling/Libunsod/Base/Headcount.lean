import Mathlib.Algebra.BigOperators.Group.Finset.Basic
import Mathlib.Data.Fintype.BigOperators

/-!
How many of finitely many parties are in a phase, and what one party's change does to the number.
-/

namespace Libunsod.Headcount

variable {Party Phase : Type} [Fintype Party] {test other : Phase → Bool}
  {phases : Party → Phase} {party : Party} {phase : Phase}

def headcount (test : Phase → Bool) (phases : Party → Phase) : Nat :=
  (Finset.univ.filter fun party => test (phases party) = true).card

theorem headcount_le (test : Phase → Bool) (phases : Party → Phase) :
    headcount test phases ≤ Fintype.card Party :=
  Finset.card_le_univ _

theorem headcount_eq_zero_iff :
    headcount test phases = 0 ↔ ∀ party, test (phases party) = false := by
  simp [headcount, Finset.filter_eq_empty_iff]

theorem headcount_pos (passes : test (phases party) = true) : 0 < headcount test phases := by
  rw [Nat.pos_iff_ne_zero]
  intro none
  rw [headcount_eq_zero_iff.mp none party] at passes
  cases passes

theorem headcount_const (fails : test phase = false) :
    headcount test (fun _ : Party => phase) = 0 :=
  headcount_eq_zero_iff.mpr fun _ => fails

variable [DecidableEq Party]

theorem headcount_update (test : Phase → Bool) (phases : Party → Phase) (party : Party)
    (phase : Phase) :
    headcount test (Function.update phases party phase) + (test (phases party)).toNat =
      headcount test phases + (test phase).toNat := by
  have split : ∀ phases : Party → Phase, headcount test phases = (test (phases party)).toNat +
      ∑ each ∈ Finset.univ.erase party, (test (phases each)).toNat := by
    intro phases
    rw [headcount, Finset.card_filter,
      ← Finset.add_sum_erase Finset.univ _ (Finset.mem_univ party)]
    congr 1
    · cases test (phases party) <;> rfl
    · refine Finset.sum_congr rfl fun each _ => ?_
      cases test (phases each) <;> rfl
  have others : ∑ each ∈ Finset.univ.erase party,
      (test (Function.update phases party phase each)).toNat =
      ∑ each ∈ Finset.univ.erase party, (test (phases each)).toNat := by
    refine Finset.sum_congr rfl fun each member => ?_
    rw [Function.update_of_ne (Finset.ne_of_mem_erase member)]
  rw [split (Function.update phases party phase), split phases, others, Function.update_self]
  omega

end Libunsod.Headcount
