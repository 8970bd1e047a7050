import Mathlib.Tactic.Common

/-!
Items collected in a buffer that is emptied whenever it is full, and once more at
the end. Each time the receiver takes some of what it is given and refuses the
rest; its answers are numbered.
-/

namespace Bursts

variable {Item : Type}

def split (size : Nat) : List Item → List Item → List (List Item)
  | held, [] => if held = [] then [] else [held]
  | held, item :: rest =>
      if (held ++ [item]).length = size then (held ++ [item]) :: split size [] rest
      else split size (held ++ [item]) rest

def taken (answers : Nat → Nat) : Nat → List (List Item) → Nat
  | _, [] => 0
  | index, burst :: rest => min (answers index) burst.length + taken answers (index + 1) rest

def refused (answers : Nat → Nat) : Nat → List (List Item) → Nat
  | _, [] => 0
  | index, burst :: rest =>
      (burst.length - min (answers index) burst.length) + refused answers (index + 1) rest

theorem flatten_split (size : Nat) (held items : List Item) :
    (split size held items).flatten = held ++ items := by
  induction items generalizing held with
  | nil =>
    simp only [split]
    split <;> simp_all
  | cons item rest ih =>
    simp only [split]
    split
    · simp [ih]
    · simp [ih]

theorem split_bounds {size : Nat} (held items : List Item) (room : held.length < size) :
    ∀ burst ∈ split size held items, 1 ≤ burst.length ∧ burst.length ≤ size := by
  induction items generalizing held with
  | nil =>
    simp only [split]
    split
    · simp
    · rename_i some_
      have positive := List.length_pos_iff.mpr some_
      simp only [List.mem_singleton, forall_eq]
      omega
  | cons item rest ih =>
    simp only [split]
    split
    · rename_i full
      intro burst member
      rcases List.mem_cons.mp member with rfl | later
      · rw [full]
        omega
      · exact ih [] (by simp; omega) burst later
    · rename_i more
      rw [List.length_append, List.length_singleton] at more
      exact ih (held ++ [item]) (by rw [List.length_append, List.length_singleton]; omega)

theorem taken_add_refused (answers : Nat → Nat) (index : Nat) (bursts : List (List Item)) :
    taken answers index bursts + refused answers index bursts = bursts.flatten.length := by
  induction bursts generalizing index with
  | nil => rfl
  | cons burst rest ih =>
    have total := ih (index + 1)
    simp only [taken, refused, List.flatten_cons, List.length_append]
    omega

end Bursts
