import Mathlib.Data.List.Basic
import Mathlib.Data.List.Nodup

/-!
A cursor into a list without repetition that others edit while the walk rests.
What is left of the walk is a suffix of the list, and the cursor is its head. An
entry appended at the end leaves what is left in place; an entry that is taken out
leaves every other entry of it, provided the cursor steps past an entry that is
taken out under it.
-/

namespace Cursor

variable {α : Type}

variable {list rest passed : List α} {cursor : Option α}

def At (list : List α) (cursor : Option α) (rest : List α) : Prop :=
  (∃ before, list = before ++ rest) ∧ cursor = rest.head?

theorem At.start (list : List α) : At list list.head? list :=
  ⟨⟨[], rfl⟩, rfl⟩

theorem At.mem_list (at_ : At list cursor rest) {entry : α} (member : entry ∈ rest) :
    entry ∈ list := by
  obtain ⟨⟨before, rfl⟩, _⟩ := at_
  exact List.mem_append_right before member

theorem At.pointer_mem {entry : α} (at_ : At list (some entry) rest) : entry ∈ list := by
  have head : rest.head? = some entry := at_.2.symm
  exact at_.mem_list (List.mem_of_mem_head? head)

theorem At.advance (at_ : At list cursor (passed ++ rest)) : At list rest.head? rest := by
  obtain ⟨⟨before, rfl⟩, _⟩ := at_
  exact ⟨⟨before ++ passed, by rw [List.append_assoc]⟩, rfl⟩

theorem At.append (at_ : At list cursor rest) (entry : α) :
    ∃ left, At (list ++ [entry]) cursor left ∧ ∀ other ∈ rest, other ∈ left := by
  obtain ⟨⟨before, rfl⟩, rfl⟩ := at_
  cases rest with
  | nil =>
    refine ⟨[], ⟨⟨before ++ [] ++ [entry], ?_⟩, rfl⟩, fun other member => member⟩
    rw [List.append_nil (before ++ [] ++ [entry])]
  | cons head tail =>
    refine ⟨head :: tail ++ [entry], ⟨⟨before, ?_⟩, rfl⟩, fun other member => ?_⟩
    · rw [List.append_assoc]
    · exact List.mem_append_left _ member

variable [DecidableEq α]

theorem At.take {entry : α} (distinct : list.Nodup)
    (at_ : At list cursor (passed ++ entry :: rest)) : At (list.erase entry) rest.head? rest := by
  obtain ⟨⟨before, rfl⟩, _⟩ := at_
  refine ⟨⟨before ++ passed, ?_⟩, rfl⟩
  rw [← List.append_assoc] at distinct ⊢
  have absent : entry ∉ before ++ passed := by
    intro member
    have apart := (List.nodup_append.mp distinct).2.2
    exact apart entry member entry (List.mem_cons_self ..) rfl
  rw [List.erase_append_right _ absent, List.erase_cons_head]

theorem At.erase {entry : α} (distinct : list.Nodup) (at_ : At list cursor rest)
    (elsewhere : cursor ≠ some entry) : At (list.erase entry) cursor (rest.erase entry) := by
  obtain ⟨⟨before, rfl⟩, rfl⟩ := at_
  have apart := (List.nodup_append.mp distinct).2.2
  cases rest with
  | nil =>
    refine ⟨⟨before.erase entry, ?_⟩, rfl⟩
    simp only [List.append_nil, List.erase_nil]
  | cons head tail =>
    have different : head ≠ entry := fun same => elsewhere (by rw [same, List.head?_cons])
    have kept : (head :: tail).erase entry = head :: tail.erase entry :=
      List.erase_cons_tail (by simpa using different)
    by_cases early : entry ∈ before
    · have absent : entry ∉ head :: tail := fun late => apart entry early entry late rfl
      rw [List.erase_append_left _ early, List.erase_of_not_mem absent]
      exact ⟨⟨before.erase entry, rfl⟩, rfl⟩
    · rw [List.erase_append_right _ early, kept]
      exact ⟨⟨before, rfl⟩, rfl⟩

theorem At.dropWhile_eq {entry : α} (distinct : list.Nodup) (at_ : At list (some entry) rest) :
    list.dropWhile (· != entry) = rest := by
  obtain ⟨⟨before, rfl⟩, head⟩ := at_
  cases rest with
  | nil => cases head
  | cons first tail =>
    cases head
    have apart := (List.nodup_append.mp distinct).2.2
    have passes : ∀ other ∈ before, (other != entry) = true := by
      intro other member
      simpa using apart other member entry (List.mem_cons_self ..)
    rw [List.dropWhile_append_of_pos passes]
    simp

theorem At.erase_pointer {entry : α} (distinct : list.Nodup) (at_ : At list (some entry) rest) :
    At (list.erase entry) ((list.dropWhile (· != entry)).tail.head?) (rest.erase entry) := by
  rw [at_.dropWhile_eq distinct]
  cases rest with
  | nil => cases at_.2
  | cons first tail =>
    have same : entry = first := Option.some.inj at_.2
    subst same
    rw [List.erase_cons_head]
    have here : At list (some entry) ([] ++ entry :: tail) := at_
    exact here.take distinct

end Cursor
