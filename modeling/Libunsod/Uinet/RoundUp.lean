import Mathlib.Data.BitVec
import Mathlib.Data.Nat.Log

/-!
`roundup_nearest_power_of_2` of `uinet_init.c`, which sizes the syncache and the
connection tables. Its loop counts the shifts that take the argument to one, so on an
argument that is no power of two it stops at the power below it.
-/

namespace Libunsod.Uinet

variable {n : BitVec 32}

def powerof2 (n : BitVec 32) : Bool := (n - 1) &&& n = 0

def shiftsToOne : Nat → BitVec 32 → Nat → Option Nat
  | 0, _, _ => none
  | fuel + 1, n, shift => if n = 1 then some shift else shiftsToOne fuel (n >>> 1) (shift + 1)

def roundupNearestPowerOf2 (fuel : Nat) (n : BitVec 32) : Option (BitVec 32) :=
  if powerof2 n then some n
  else (shiftsToOne fuel n 0).map fun shift => 1 <<< shift

structure RoundsUp (n result : BitVec 32) : Prop where
  power : ∃ exponent, result.toNat = 2 ^ exponent
  above : n ≤ result
  least : ∀ exponent, n.toNat ≤ 2 ^ exponent → result.toNat ≤ 2 ^ exponent

theorem shiftsToOne_eq {fuel : Nat} (positive : 1 ≤ n.toNat) (enough : Nat.log 2 n.toNat < fuel)
    (shift : Nat) : shiftsToOne fuel n shift = some (shift + Nat.log 2 n.toNat) := by
  induction fuel generalizing n shift with
  | zero => omega
  | succ fuel ih =>
    rw [shiftsToOne]
    split
    next one =>
      subst one
      rfl
    next more =>
      have two : 2 ≤ n.toNat := by
        by_contra small
        exact more (BitVec.eq_of_toNat_eq (by simp; omega))
      have half : (n >>> 1).toNat = n.toNat / 2 := by
        rw [BitVec.toNat_ushiftRight, Nat.shiftRight_one]
      have next : Nat.log 2 n.toNat = Nat.log 2 (n.toNat / 2) + 1 :=
        Nat.log_of_one_lt_of_le (by decide) two
      rw [ih (by omega) (by rw [half]; omega), half, next]
      congr 1
      omega

/-- The loop ends, and what it returns is the power of two above only where the
argument is a power of two itself. -/
theorem roundupNearestPowerOf2_roundsUp_iff {fuel : Nat} (enough : 32 ≤ fuel)
    (positive : 1 ≤ n.toNat) :
    ∃ result, roundupNearestPowerOf2 fuel n = some result ∧
      (RoundsUp n result ↔ ∃ exponent, n.toNat = 2 ^ exponent) := by
  unfold roundupNearestPowerOf2
  split
  · refine ⟨n, rfl, RoundsUp.power, fun power => ⟨power, BitVec.le_refl n, fun _ => id⟩⟩
  · have bound : Nat.log 2 n.toNat < 32 := Nat.log_lt_of_lt_pow (by omega) n.isLt
    have below : 2 ^ Nat.log 2 n.toNat ≤ n.toNat := Nat.pow_log_le_self 2 (by omega)
    have value : (1#32 <<< Nat.log 2 n.toNat).toNat = 2 ^ Nat.log 2 n.toNat := by
      rw [BitVec.toNat_shiftLeft, Nat.shiftLeft_eq, Nat.mod_eq_of_lt (by have := n.isLt; simp; omega)]
      simp
    refine ⟨1 <<< Nat.log 2 n.toNat, ?_, fun rounds => ?_, ?_⟩
    · rw [shiftsToOne_eq positive (by omega), Nat.zero_add, Option.map_some]
    · have above : n.toNat ≤ 2 ^ Nat.log 2 n.toNat := value ▸ rounds.above
      exact ⟨_, Nat.le_antisymm above below⟩
    · rintro ⟨exponent, power⟩
      have same : (1#32 <<< Nat.log 2 n.toNat).toNat = n.toNat := by
        rw [value, power, Nat.log_pow (by decide)]
      refine ⟨⟨_, value⟩, Nat.le_of_eq same.symm, fun exponent above => ?_⟩
      exact same.trans_le above

theorem roundupNearestPowerOf2_twelve :
    ∃ result, roundupNearestPowerOf2 32 12 = some result ∧
      (RoundsUp 12 result ↔ ∃ exponent, (12 : BitVec 32).toNat = 2 ^ exponent) :=
  roundupNearestPowerOf2_roundsUp_iff (Nat.le_refl 32) (by decide)

theorem roundupNearestPowerOf2_three :
    roundupNearestPowerOf2 32 3 = some 2 ∧ ¬RoundsUp 3 2 :=
  ⟨rfl, fun rounds => absurd rounds.above (by decide)⟩

end Libunsod.Uinet
