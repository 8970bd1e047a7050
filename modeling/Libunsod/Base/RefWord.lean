import Mathlib.Data.BitVec

/-!
A machine word that counts references. The word is only meaningful while there
is a reference, it counts modulo its width, and a flag beside it may promise that
there is at most one reference, so that the word need not be looked at.
-/

namespace RefWord

variable {width : Nat}

variable {word : BitVec width}

structure Tracks (word : BitVec width) (single : Prop) (holders : Nat) : Prop where
  counted : 0 < holders → word = BitVec.ofNat width holders
  bounded : holders ≤ 2 ^ width
  alone : single → holders ≤ 1

theorem ofNat_eq_one_iff (wide : 0 < width) {count : Nat} (bounded : count ≤ 2 ^ width) :
    BitVec.ofNat width count = 1 ↔ count = 1 := by
  have two : 2 ≤ 2 ^ width := Nat.le_self_pow (by omega) 2
  rw [← BitVec.toNat_inj, BitVec.toNat_ofNat, show (1 : BitVec width) = BitVec.ofNat width 1 from rfl,
    BitVec.toNat_ofNat, Nat.mod_eq_of_lt (show 1 < 2 ^ width by omega)]
  rcases Nat.lt_or_eq_of_le bounded with small | full
  · rw [Nat.mod_eq_of_lt small]
  · rw [full, Nat.mod_self]
    omega

theorem Tracks.none (word : BitVec width) (single : Prop) : Tracks word single 0 where
  counted := fun positive => absurd positive (Nat.lt_irrefl 0)
  bounded := Nat.zero_le _
  alone := fun _ => Nat.zero_le 1

theorem Tracks.fresh (single : Prop) : Tracks (1 : BitVec width) single 1 where
  counted := fun _ => rfl
  bounded := Nat.one_le_two_pow
  alone := fun _ => Nat.le_refl 1

theorem Tracks.weaken {single other : Prop} {holders : Nat} (tracks : Tracks word single holders)
    (implied : other → single) : Tracks word other holders where
  counted := tracks.counted
  bounded := tracks.bounded
  alone := fun flagged => tracks.alone (implied flagged)

theorem Tracks.eq_one_iff {single : Prop} {holders : Nat} (tracks : Tracks word single holders)
    (wide : 0 < width) (held : 0 < holders) : word = 1 ↔ holders = 1 := by
  rw [tracks.counted held]
  exact ofNat_eq_one_iff wide tracks.bounded

theorem Tracks.drop {single : Prop} {holders : Nat} (tracks : Tracks word single holders)
    (held : 0 < holders) : Tracks (word - 1) single (holders - 1) where
  counted := by
    intro left
    have two : 2 ≤ 2 ^ width := by
      have := tracks.bounded
      omega
    rw [tracks.counted held, show (1 : BitVec width) = BitVec.ofNat width 1 from rfl]
    exact BitVec.ofNat_sub_ofNat_of_le holders 1 (by omega) (by omega)
  bounded := Nat.le_trans (Nat.sub_le _ _) tracks.bounded
  alone := fun flagged => Nat.le_trans (Nat.sub_le _ _) (tracks.alone flagged)

theorem Tracks.take {single other : Prop} {holders : Nat} (tracks : Tracks word single holders)
    (extra : Nat) (held : 0 < holders) (fits : holders + extra ≤ 2 ^ width) (shared : ¬other) :
    Tracks (word + BitVec.ofNat width extra) other (holders + extra) where
  counted := by
    intro _
    rw [tracks.counted held, BitVec.ofNat_add]
  bounded := fits
  alone := fun flagged => absurd flagged shared

end RefWord
