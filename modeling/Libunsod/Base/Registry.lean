import Mathlib.Data.List.Pairwise

/-!
Records found by key in a list, where a record may answer to several keys.
-/

namespace Libunsod.Registry

variable {Record Key : Type} {answers : Record → Key → Bool} {records others : List Record}
  {record : Record} {key : Key}

def Distinguishes (answers : Record → Key → Bool) (records : List Record) : Prop :=
  records.Pairwise fun first second => ∀ key, ¬(answers first key = true ∧ answers second key = true)

theorem Distinguishes.sublist (distinct : Distinguishes answers records)
    (fewer : others.Sublist records) : Distinguishes answers others :=
  List.Pairwise.sublist fewer distinct

theorem Distinguishes.snoc (distinct : Distinguishes answers records)
    (fresh : ∀ old ∈ records, ∀ key, ¬(answers old key = true ∧ answers record key = true)) :
    Distinguishes answers (records ++ [record]) := by
  refine List.pairwise_append.mpr ⟨distinct, List.pairwise_singleton _ _, ?_⟩
  intro old member new isNew
  rw [List.mem_singleton.mp isNew]
  exact fresh old member

end Libunsod.Registry
