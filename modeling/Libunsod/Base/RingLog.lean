import Mathlib.Data.List.Basic
import Mathlib.Tactic.Common

/-!
A bounded queue whose items live in the slots of a ring. The queue is described
by the log of all items it ever accepted: the item number `index` lives in slot
`index % size`. The consumer processes items in order and releases their slots
later; an item keeps its slot until it is released.
-/

namespace RingLog

variable {Item : Type}

variable {size : Nat}

variable {slots : Nat → Item} {first capacity : Nat} {log : List Item}

def slotAfter (size slot : Nat) : Nat :=
  if slot + 1 = size then 0 else slot + 1

theorem slotAfter_mod (count : Nat) (positive : 0 < size) :
    slotAfter size (count % size) = (count + 1) % size := by
  have below := Nat.mod_lt count positive
  rw [slotAfter, ← Nat.mod_add_mod count size 1]
  split
  next last => rw [last, Nat.mod_self]
  · exact (Nat.mod_eq_of_lt (by omega)).symm

theorem mod_ne_of_near {early late : Nat} (order : early < late) (near : late < early + size) :
    early % size ≠ late % size := by
  intro same
  have divides : size ∣ late - early :=
    Nat.dvd_of_mod_eq_zero (Nat.sub_mod_eq_zero_of_mod_eq same.symm)
  have bound := Nat.le_of_dvd (by omega) divides
  omega

def store (slots : Nat → Item) (slot : Nat) (item : Item) : Nat → Item :=
  fun other => if other = slot then item else slots other

def Holds (slots : Nat → Item) (size : Nat) (log : List Item) (first : Nat) : Prop :=
  ∀ index item, first ≤ index → log[index]? = some item → slots (index % size) = item

theorem Holds.append (item : Item) (holds : Holds slots size log first)
    (room : log.length < first + size) :
    Holds (store slots (log.length % size) item) size (log ++ [item]) first := by
  intro index found after listed
  by_cases last : index = log.length
  · rw [last, List.getElem?_append_right (Nat.le_refl _), Nat.sub_self] at listed
    simp only [List.getElem?_cons_zero, Option.some.injEq] at listed
    rw [last, store, if_pos rfl, listed]
  · have early : index < log.length := by
      by_contra late
      have beyond : log.length + 1 ≤ index := by omega
      rw [List.getElem?_eq_none (by simpa using beyond)] at listed
      simp at listed
    rw [List.getElem?_append_left early] at listed
    rw [store, if_neg (mod_ne_of_near early (by omega))]
    exact holds index found after listed

theorem Holds.release {later : Nat} (holds : Holds slots size log first) (order : first ≤ later) :
    Holds slots size log later :=
  fun index item after listed => holds index item (Nat.le_trans order after) listed

structure Fifo (Item : Type) where
  accepted : List Item
  processed : Nat
  released : Nat

variable {fifo : Fifo Item}

namespace Fifo

def empty : Fifo Item :=
  ⟨[], 0, 0⟩

def unreleased (fifo : Fifo Item) : Nat :=
  fifo.accepted.length - fifo.released

def room (capacity : Nat) (fifo : Fifo Item) : Nat :=
  capacity - fifo.unreleased

def offer (capacity : Nat) (fifo : Fifo Item) (items : List Item) : Fifo Item :=
  { fifo with accepted := fifo.accepted ++ items.take (fifo.room capacity) }

def process (fifo : Fifo Item) : Fifo Item :=
  { fifo with processed := fifo.processed + 1 }

def release (fifo : Fifo Item) : Fifo Item :=
  { fifo with released := fifo.processed }

structure Within (capacity : Nat) (fifo : Fifo Item) : Prop where
  order : fifo.released ≤ fifo.processed
  done : fifo.processed ≤ fifo.accepted.length
  bounded : fifo.accepted.length ≤ fifo.released + capacity

theorem empty_within (capacity : Nat) : Within capacity (empty : Fifo Item) :=
  ⟨Nat.le_refl 0, Nat.le_refl 0, Nat.zero_le _⟩

theorem Within.offer (within : Within capacity fifo) (items : List Item) :
    Within capacity (fifo.offer capacity items) := by
  have order := within.order
  have done := within.done
  have bounded := within.bounded
  refine ⟨order, ?_, ?_⟩
  · simp only [Fifo.offer, List.length_append]
    omega
  · simp only [Fifo.offer, room, unreleased, List.length_append, List.length_take]
    omega

theorem Within.process (within : Within capacity fifo)
    (some_ : fifo.processed < fifo.accepted.length) : Within capacity fifo.process :=
  ⟨Nat.le_succ_of_le within.order, some_, within.bounded⟩

theorem Within.release (within : Within capacity fifo) : Within capacity fifo.release := by
  have order := within.order
  have bounded := within.bounded
  refine ⟨Nat.le_refl _, within.done, ?_⟩
  simp only [Fifo.release]
  omega

end Fifo

def storeAll (size : Nat) (slots : Nat → Item) (count : Nat) : List Item → Nat → Item
  | [] => slots
  | item :: rest => storeAll size (store slots (count % size) item) (count + 1) rest

theorem Holds.appendAll {items : List Item} (slots : Nat → Item) (log : List Item)
    (holds : Holds slots size log first) (room : log.length + items.length ≤ first + size) :
    Holds (storeAll size slots log.length items) size (log ++ items) first := by
  induction items generalizing slots log with
  | nil =>
    rw [List.append_nil]
    exact holds
  | cons item rest ih =>
    simp only [List.length_cons] at room
    have next := ih (store slots (log.length % size) item) (log ++ [item])
      (holds.append item (by omega)) (by rw [List.length_append, List.length_singleton]; omega)
    rw [List.append_assoc, List.singleton_append, List.length_append,
      List.length_singleton] at next
    exact next

end RingLog
