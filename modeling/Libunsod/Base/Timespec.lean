import Mathlib.Tactic.Common

/-!
Times in two fields, seconds and nanoseconds, with the carry and borrow of `timespecadd` and
`timespecsub`. The nanoseconds of a value are always below a second, so the fields can be compared
one after the other.
-/

structure Timespec where
  sec : Int
  nsec : Int
  nonneg : 0 ≤ nsec
  small : nsec < 1000000000

namespace Timespec

variable (left right : Timespec)

def zero : Timespec := ⟨0, 0, by decide, by decide⟩

def nanos (time : Timespec) : Int := 1000000000 * time.sec + time.nsec

def add : Timespec :=
  if carry : 1000000000 ≤ left.nsec + right.nsec then
    ⟨left.sec + right.sec + 1, left.nsec + right.nsec - 1000000000, by omega,
      by have := left.small; have := right.small; omega⟩
  else ⟨left.sec + right.sec, left.nsec + right.nsec,
    Int.add_nonneg left.nonneg right.nonneg, by omega⟩

def sub : Timespec :=
  if borrow : left.nsec - right.nsec < 0 then
    ⟨left.sec - right.sec - 1, left.nsec - right.nsec + 1000000000,
      by have := left.nonneg; have := right.small; omega, by omega⟩
  else ⟨left.sec - right.sec, left.nsec - right.nsec, by omega,
    by have := left.small; have := right.nonneg; omega⟩

def atLeast : Bool :=
  if left.sec = right.sec then right.nsec ≤ left.nsec else right.sec ≤ left.sec

@[simp] theorem zero_nanos : zero.nanos = 0 := rfl

@[simp] theorem add_nanos : (left.add right).nanos = left.nanos + right.nanos := by
  simp only [add, nanos]
  split <;> dsimp only <;> omega

@[simp] theorem sub_nanos : (left.sub right).nanos = left.nanos - right.nanos := by
  simp only [sub, nanos]
  split <;> dsimp only <;> omega

theorem atLeast_iff : left.atLeast right = true ↔ right.nanos ≤ left.nanos := by
  have := left.small
  have := left.nonneg
  have := right.small
  have := right.nonneg
  simp only [atLeast, nanos]
  split <;> simp only [decide_eq_true_eq] <;> omega

end Timespec
