import Mathlib.Data.BitVec
import Mathlib.Tactic.Ring

/-!
Positions in an unbounded sequence seen through words of a fixed width. Two
positions less than half the range apart are compared by the signed difference
of their words.
-/

namespace SerialNumber

variable {width : Nat}

theorem add_ofNat (base : BitVec width) (left right : Nat) :
    base + BitVec.ofNat width left + BitVec.ofNat width right =
      base + BitVec.ofNat width (left + right) := by
  rw [BitVec.add_assoc, BitVec.ofNat_add]

theorem sub_toInt_of_le (positive : 0 < width) (base : BitVec width) {left right : Nat}
    (below : left < right + 2 ^ (width - 1)) (above : right ≤ left + 2 ^ (width - 1)) :
    (base + BitVec.ofNat width left - (base + BitVec.ofNat width right)).toInt =
      (left : Int) - right := by
  rw [add_sub_add_left_eq_sub, BitVec.toInt_sub, BitVec.toInt_ofNat', BitVec.toInt_ofNat',
    Int.sub_bmod_bmod, Int.bmod_sub_bmod]
  obtain ⟨half, rfl⟩ := Nat.exists_eq_add_one.mpr positive
  simp only [Nat.add_sub_cancel] at below above
  have power : ((2 ^ (half + 1) : Nat) : Int) = 2 * ((2 ^ half : Nat) : Int) := by
    rw [Nat.pow_succ]
    push_cast
    ring
  apply Int.bmod_eq_of_le_mul_two <;> omega

theorem sub_toNat (base : BitVec width) {left right : Nat} (ordered : right ≤ left)
    (near : left < right + 2 ^ width) :
    (base + BitVec.ofNat width left - (base + BitVec.ofNat width right)).toNat =
      left - right := by
  have split : left = right + (left - right) := by omega
  have offset : base + BitVec.ofNat width left - (base + BitVec.ofNat width right) =
      BitVec.ofNat width (left - right) := by
    rw [add_sub_add_left_eq_sub]
    nth_rewrite 1 [split]
    rw [BitVec.ofNat_add]
    ring
  rw [offset, BitVec.toNat_ofNat, Nat.mod_eq_of_lt (by omega)]

theorem eq_of_eq {base : BitVec width} {left right : Nat} (ordered : right ≤ left)
    (near : left < right + 2 ^ width)
    (same : base + BitVec.ofNat width left = base + BitVec.ofNat width right) : left = right := by
  have difference := sub_toNat base ordered near
  rw [same, BitVec.sub_self, BitVec.toNat_zero] at difference
  omega

end SerialNumber
