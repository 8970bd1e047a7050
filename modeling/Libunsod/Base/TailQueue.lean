import Mathlib.Data.List.Nodup
import Mathlib.Tactic.Common

/-!
An intrusive tail queue: the head holds the first element and the address of the
last link, every element its successor and the address of the link that points
at it. Elements are only names here, so an element that leaves its memory while
it is still linked stays visible.
-/

namespace TailQueue

inductive Anchor (Elem : Type) where
  | head
  | after (elem : Elem)
  deriving DecidableEq

structure Queue (Elem : Type) where
  first : Option Elem
  last : Anchor Elem
  next : Elem → Option Elem
  prev : Elem → Anchor Elem

variable {Elem : Type}

namespace Queue

def empty : Queue Elem where
  first := none
  last := .head
  next _ := none
  prev _ := .head

def load (queue : Queue Elem) : Anchor Elem → Option Elem
  | .head => queue.first
  | .after elem => queue.next elem

def setLast (queue : Queue Elem) (anchor : Anchor Elem) : Queue Elem :=
  { queue with last := anchor }

@[simp] theorem load_setLast (queue : Queue Elem) (anchor : Anchor Elem) :
    (queue.setLast anchor).load = queue.load := by
  funext other
  cases other <;> rfl

@[simp] theorem prev_setLast (queue : Queue Elem) (anchor : Anchor Elem) :
    (queue.setLast anchor).prev = queue.prev :=
  rfl

@[simp] theorem last_setLast (queue : Queue Elem) (anchor : Anchor Elem) :
    (queue.setLast anchor).last = anchor :=
  rfl

theorem next_eq_load (queue : Queue Elem) (elem : Elem) :
    queue.next elem = queue.load (.after elem) :=
  rfl

end Queue

def Path (queue : Queue Elem) : Anchor Elem → List Elem → Prop
  | _, [] => True
  | anchor, elem :: rest =>
      queue.load anchor = some elem ∧ queue.prev elem = anchor ∧ Path queue (.after elem) rest

def endOf : Anchor Elem → List Elem → Anchor Elem
  | anchor, [] => anchor
  | _, elem :: rest => endOf (.after elem) rest

def sources : Anchor Elem → List Elem → List (Anchor Elem)
  | _, [] => []
  | anchor, elem :: rest => anchor :: sources (.after elem) rest

structure Holds (queue : Queue Elem) (elems : List Elem) : Prop where
  path : Path queue .head elems
  stop : queue.load (endOf .head elems) = none
  last : queue.last = endOf .head elems
  nodup : elems.Nodup

theorem endOf_append (anchor : Anchor Elem) (before after : List Elem) :
    endOf anchor (before ++ after) = endOf (endOf anchor before) after := by
  induction before generalizing anchor with
  | nil => rfl
  | cons elem rest ih => exact ih (.after elem)

theorem path_append (queue : Queue Elem) (anchor : Anchor Elem) (before after : List Elem) :
    Path queue anchor (before ++ after) ↔
      Path queue anchor before ∧ Path queue (endOf anchor before) after := by
  induction before generalizing anchor with
  | nil => simp [Path, endOf]
  | cons elem rest ih => simp only [List.cons_append, Path, endOf, ih, and_assoc]

theorem endOf_cases (anchor : Anchor Elem) (elems : List Elem) :
    endOf anchor elems = anchor ∨ ∃ elem ∈ elems, endOf anchor elems = .after elem := by
  induction elems generalizing anchor with
  | nil => exact .inl rfl
  | cons elem rest ih =>
    right
    rcases ih (.after elem) with same | ⟨other, member, same⟩
    · exact ⟨elem, List.mem_cons_self, same⟩
    · exact ⟨other, List.mem_cons_of_mem elem member, same⟩

theorem sources_cases (anchor : Anchor Elem) {elems : List Elem} {source : Anchor Elem}
    (member : source ∈ sources anchor elems) :
    source = anchor ∨ ∃ elem ∈ elems, source = .after elem := by
  induction elems generalizing anchor with
  | nil => simp [sources] at member
  | cons elem rest ih =>
    rcases List.mem_cons.mp member with same | later
    · exact .inl same
    · right
      rcases ih (.after elem) later with same | ⟨other, found, same⟩
      · exact ⟨elem, List.mem_cons_self, same⟩
      · exact ⟨other, List.mem_cons_of_mem elem found, same⟩

theorem endOf_not_mem_sources (anchor : Anchor Elem) {elems : List Elem} (distinct : elems.Nodup)
    (fresh : ∀ elem ∈ elems, anchor ≠ .after elem) : endOf anchor elems ∉ sources anchor elems := by
  induction elems generalizing anchor with
  | nil => simp [sources]
  | cons elem rest ih =>
    have parts := List.nodup_cons.mp distinct
    intro member
    rcases List.mem_cons.mp member with same | later
    · simp only [endOf] at same
      rcases endOf_cases (.after elem) rest with last | ⟨other, found, last⟩
      · exact fresh elem List.mem_cons_self (same.symm.trans last)
      · exact fresh other (List.mem_cons_of_mem elem found) (same.symm.trans last)
    · refine ih (.after elem) parts.2 ?_ later
      intro other found same
      exact parts.1 ((Anchor.after.inj same) ▸ found)

theorem path_congr {queue changed : Queue Elem} (anchor : Anchor Elem) {elems : List Elem}
    (loads : ∀ source ∈ sources anchor elems, changed.load source = queue.load source)
    (prevs : ∀ elem ∈ elems, changed.prev elem = queue.prev elem) (path : Path queue anchor elems) :
    Path changed anchor elems := by
  induction elems generalizing anchor with
  | nil => trivial
  | cons elem rest ih =>
    obtain ⟨loaded, back, tail⟩ := path
    refine ⟨?_, ?_, ?_⟩
    · rw [loads anchor List.mem_cons_self, loaded]
    · rw [prevs elem List.mem_cons_self, back]
    · exact ih (.after elem)
        (fun source member => loads source (List.mem_cons_of_mem _ member))
        (fun other member => prevs other (List.mem_cons_of_mem _ member)) tail

theorem empty_holds : Holds (Queue.empty : Queue Elem) [] where
  path := trivial
  stop := rfl
  last := rfl
  nodup := List.nodup_nil

theorem Holds.first {queue : Queue Elem} {elems : List Elem} (holds : Holds queue elems) :
    queue.first = elems.head? := by
  cases elems with
  | nil => exact holds.stop
  | cons elem rest => exact holds.path.1

section Split

variable (before after : List Elem) (elem : Elem)

theorem split_nodup (distinct : (before ++ elem :: after).Nodup) :
    before.Nodup ∧ after.Nodup ∧ elem ∉ before ∧ elem ∉ after ∧
      ∀ other ∈ before, other ∉ after := by
  rw [List.nodup_append, List.nodup_cons] at distinct
  obtain ⟨left, ⟨notAfter, right⟩, apart⟩ := distinct
  refine ⟨left, right, ?_, notAfter, ?_⟩
  · exact fun member => apart elem member elem List.mem_cons_self rfl
  · exact fun other member found => apart other member other (List.mem_cons_of_mem elem found) rfl

theorem endOf_not_after (other : Elem) (missing : other ∉ before) :
    endOf .head before ≠ .after other := by
  rcases endOf_cases .head before with last | ⟨found, member, last⟩ <;> rw [last]
  · exact nofun
  · intro same
    exact missing (Anchor.after.inj same ▸ member)

theorem source_of_head_not_after (other : Elem) (source : Anchor Elem)
    (member : source ∈ sources .head before) (missing : other ∉ before) :
    source ≠ .after other := by
  rcases sources_cases .head member with same | ⟨found, inside, same⟩
  · simp [same]
  · rintro rfl
    exact missing (Anchor.after.inj same ▸ inside)

end Split

section Operations

theorem beyond_ne {anchor : Anchor Elem} {first : Elem} {rest : List Elem}
    (outside : ∀ other ∈ first :: rest, Anchor.after other ≠ anchor) :
    (∀ source ∈ sources (.after first) rest, source ≠ anchor) ∧
      endOf (.after first) rest ≠ anchor := by
  constructor
  · intro source member
    rcases sources_cases (.after first) member with rfl | ⟨other, found, rfl⟩
    · exact outside first List.mem_cons_self
    · exact outside other (List.mem_cons_of_mem first found)
  · rcases endOf_cases (.after first) rest with same | ⟨other, found, same⟩ <;> rw [same]
    · exact outside first List.mem_cons_self
    · exact outside other (List.mem_cons_of_mem first found)

theorem after_ne {elem first : Elem} {rest : List Elem} (fresh : elem ∉ first :: rest) :
    ∀ other ∈ first :: rest, Anchor.after other ≠ .after elem := by
  intro other member same
  exact fresh (Anchor.after.inj same ▸ member)

variable [DecidableEq Elem]

namespace Queue

def store (queue : Queue Elem) (anchor : Anchor Elem) (value : Option Elem) : Queue Elem :=
  match anchor with
  | .head => { queue with first := value }
  | .after elem =>
      { queue with next := fun other => if other = elem then value else queue.next other }

def setPrev (queue : Queue Elem) (elem : Elem) (anchor : Anchor Elem) : Queue Elem :=
  { queue with prev := fun other => if other = elem then anchor else queue.prev other }

def insertTail (queue : Queue Elem) (elem : Elem) : Queue Elem :=
  let linked := (queue.store (.after elem) none).setPrev elem queue.last
  (linked.store linked.last (some elem)).setLast (.after elem)

def remove (queue : Queue Elem) (elem : Elem) : Queue Elem :=
  let bypassed := match queue.next elem with
    | some follower => queue.setPrev follower (queue.prev elem)
    | none => queue.setLast (queue.prev elem)
  bypassed.store (bypassed.prev elem) (bypassed.next elem)

def insertAfter (queue : Queue Elem) (listed elem : Elem) : Queue Elem :=
  let follower := queue.next listed
  let pointed := queue.store (.after elem) follower
  let bypassed := match follower with
    | some follower => pointed.setPrev follower (.after elem)
    | none => pointed.setLast (.after elem)
  (bypassed.store (.after listed) (some elem)).setPrev elem (.after listed)

@[simp] theorem load_store (queue : Queue Elem) (anchor other : Anchor Elem)
    (value : Option Elem) :
    (queue.store anchor value).load other = if other = anchor then value else queue.load other := by
  cases anchor with
  | head | after elem => cases other <;> simp [store, load]

@[simp] theorem prev_store (queue : Queue Elem) (anchor : Anchor Elem) (value : Option Elem) :
    (queue.store anchor value).prev = queue.prev := by
  cases anchor <;> rfl

@[simp] theorem last_store (queue : Queue Elem) (anchor : Anchor Elem) (value : Option Elem) :
    (queue.store anchor value).last = queue.last := by
  cases anchor <;> rfl

@[simp] theorem load_setPrev (queue : Queue Elem) (elem : Elem) (anchor : Anchor Elem) :
    (queue.setPrev elem anchor).load = queue.load := by
  funext other
  cases other <;> rfl

@[simp] theorem prev_setPrev (queue : Queue Elem) (elem other : Elem) (anchor : Anchor Elem) :
    (queue.setPrev elem anchor).prev other = if other = elem then anchor else queue.prev other :=
  rfl

@[simp] theorem last_setPrev (queue : Queue Elem) (elem : Elem) (anchor : Anchor Elem) :
    (queue.setPrev elem anchor).last = queue.last :=
  rfl

end Queue

open Queue

theorem insertTail_holds {queue : Queue Elem} {elems : List Elem} {elem : Elem}
    (holds : Holds queue elems) (fresh : elem ∉ elems) :
    Holds (queue.insertTail elem) (elems ++ [elem]) := by
  have apart := endOf_not_after elems elem fresh
  refine ⟨?_, ?_, ?_, ?_⟩
  · rw [path_append]
    constructor
    · refine path_congr _ ?_ ?_ holds.path
      · intro source member
        have notEnd : source ≠ endOf .head elems := by
          rintro rfl
          exact endOf_not_mem_sources .head holds.nodup (by simp) member
        have notElem : source ≠ .after elem := by
          rcases sources_cases .head member with same | ⟨other, found, same⟩
          · simp [same]
          · rintro rfl
            exact fresh (Anchor.after.inj same ▸ found)
        simp [insertTail, holds.last, notEnd, notElem]
      · intro other member
        have different : other ≠ elem := fun same => fresh (same ▸ member)
        simp [insertTail, different]
    · simp [Path, insertTail, holds.last]
  · simp [endOf_append, endOf, insertTail, holds.last, apart.symm]
  · simp [endOf_append, endOf, insertTail]
  · rw [List.nodup_append]
    refine ⟨holds.nodup, List.nodup_singleton elem, ?_⟩
    rintro other member _ single rfl
    exact fresh (List.mem_singleton.mp single ▸ member)

theorem remove_holds {queue : Queue Elem} {before after : List Elem} {elem : Elem}
    (holds : Holds queue (before ++ elem :: after)) :
    Holds (queue.remove elem) (before ++ after) := by
  obtain ⟨left, right, notBefore, notAfter, disjoint⟩ :=
    split_nodup before after elem holds.nodup
  have path := holds.path
  rw [path_append] at path
  obtain ⟨front, _, back, tail⟩ := path
  have stop := holds.stop
  have last := holds.last
  rw [endOf_append] at stop last
  simp only [endOf] at stop last
  have notEnd (source : Anchor Elem) (member : source ∈ sources .head before) :
      source ≠ endOf .head before := by
    rintro rfl
    exact endOf_not_mem_sources .head left (by simp) member
  have distinct : (before ++ after).Nodup := by
    rw [List.nodup_append]
    exact ⟨left, right, fun other member found inside same => disjoint other member (same ▸ inside)⟩
  have selfEnd := endOf_not_after before elem notBefore
  cases after with
  | nil =>
    simp only [endOf] at stop last
    have lone : queue.remove elem =
        (queue.setLast (queue.prev elem)).store (queue.prev elem) none := by
      simp [remove, next_eq_load, stop]
    rw [lone, back, List.append_nil]
    refine ⟨?_, by simp, by simp, left⟩
    refine path_congr _ ?_ ?_ front
    · intro source member
      simp [notEnd source member]
    · simp
  | cons follower rest =>
    obtain ⟨loaded, _, beyond⟩ := tail
    have parts := List.nodup_cons.mp right
    have different : elem ≠ follower := fun same => notAfter (same ▸ List.mem_cons_self)
    have kept : queue.remove elem = (queue.setPrev follower (queue.prev elem)).store
        (queue.prev elem) (some follower) := by
      simp [remove, next_eq_load, loaded, different]
    have outside (other : Elem) (member : other ∈ follower :: rest) :
        Anchor.after other ≠ endOf .head before := by
      refine (endOf_not_after before other ?_).symm
      exact fun inside => disjoint other inside member
    obtain ⟨sourcesApart, endApart⟩ := beyond_ne outside
    rw [kept, back]
    refine ⟨?_, ?_, ?_, distinct⟩
    · rw [path_append]
      constructor
      · refine path_congr _ ?_ ?_ front
        · intro source member
          simp [notEnd source member]
        · intro other member
          have apart : other ≠ follower := by
            rintro rfl
            exact disjoint other member List.mem_cons_self
          simp [apart]
      · refine ⟨by simp, by simp, ?_⟩
        refine path_congr _ ?_ ?_ beyond
        · intro source member
          simp [sourcesApart source member]
        · intro other member
          have apart : other ≠ follower := by
            rintro rfl
            exact parts.1 member
          simp [apart]
    · simp only [endOf] at stop
      simp [endOf_append, endOf, endApart, stop]
    · simp [endOf_append, endOf, last]

theorem remove_holds_erase {queue : Queue Elem} {elems : List Elem} {elem : Elem}
    (holds : Holds queue elems) (member : elem ∈ elems) :
    Holds (queue.remove elem) (elems.erase elem) := by
  obtain ⟨before, after, _, split, erased⟩ := List.exists_erase_eq member
  rw [erased]
  rw [split] at holds
  exact remove_holds holds

theorem insertAfter_holds {queue : Queue Elem} {before after : List Elem} {listed elem : Elem}
    (holds : Holds queue (before ++ listed :: after)) (fresh : elem ∉ before ++ listed :: after) :
    Holds (queue.insertAfter listed elem) (before ++ listed :: elem :: after) := by
  obtain ⟨left, right, notBefore, notAfter, disjoint⟩ :=
    split_nodup before after listed holds.nodup
  simp only [List.mem_append, List.mem_cons, not_or] at fresh
  obtain ⟨freshBefore, freshListed, freshAfter⟩ := fresh
  have path := holds.path
  rw [path_append] at path
  obtain ⟨front, listing, back, tail⟩ := path
  have stop := holds.stop
  have last := holds.last
  rw [endOf_append] at stop last
  simp only [endOf] at stop last
  have distinct : (before ++ listed :: elem :: after).Nodup := by
    have whole := holds.nodup
    rw [List.nodup_append, List.nodup_cons] at whole ⊢
    refine ⟨left, ⟨?_, List.nodup_cons.mpr ⟨freshAfter, right⟩⟩, ?_⟩
    · simp [Ne.symm freshListed, notAfter]
    · intro other member found inside
      simp only [List.mem_cons] at inside
      rcases inside with rfl | rfl | inside
      · exact fun same => notBefore (same ▸ member)
      · exact fun same => freshBefore (same ▸ member)
      · exact fun same => disjoint other member (same ▸ inside)
  have listedEnd := endOf_not_after before listed notBefore
  have elemEnd := endOf_not_after before elem freshBefore
  have frontKept (changed : Queue Elem)
      (loads : ∀ source : Anchor Elem, source ≠ .after listed → source ≠ .after elem →
        changed.load source = queue.load source)
      (prevs : ∀ other ∈ before, changed.prev other = queue.prev other) :
      Path changed .head before := by
    refine path_congr _ ?_ prevs front
    intro source member
    exact loads source (source_of_head_not_after before listed source member notBefore)
      (source_of_head_not_after before elem source member freshBefore)
  have elemNe : elem ≠ listed := freshListed
  cases after with
  | nil =>
    simp only [endOf] at stop last
    have added : queue.insertAfter listed elem =
        (((queue.store (.after elem) none).setLast (.after elem)).store (.after listed)
          (some elem)).setPrev elem (.after listed) := by
      simp [insertAfter, next_eq_load, stop]
    rw [added]
    refine ⟨?_, ?_, by simp [endOf_append, endOf], distinct⟩
    · rw [path_append]
      refine ⟨frontKept _ ?_ ?_, ?_⟩
      · intro source notListed notElem
        simp [notListed, notElem]
      · intro other member
        have apart : other ≠ elem := fun same => freshBefore (same ▸ member)
        simp [apart]
      · simp [Path, listedEnd, elemEnd, listing, back, elemNe.symm]
    · simp [endOf_append, endOf, elemNe]
  | cons follower rest =>
    obtain ⟨loaded, _, beyond⟩ := tail
    have parts := List.nodup_cons.mp right
    obtain ⟨sourcesListed, endListed⟩ :=
      beyond_ne (after_ne notAfter)
    obtain ⟨sourcesElem, endElem⟩ :=
      beyond_ne (after_ne freshAfter)
    simp only [List.mem_cons, not_or] at freshAfter notAfter
    have added : queue.insertAfter listed elem =
        (((queue.store (.after elem) (some follower)).setPrev follower (.after elem)).store
          (.after listed) (some elem)).setPrev elem (.after listed) := by
      simp [insertAfter, next_eq_load, loaded]
    rw [added]
    refine ⟨?_, ?_, ?_, distinct⟩
    · rw [path_append]
      refine ⟨frontKept _ ?_ ?_, ?_⟩
      · intro source notListed notElem
        simp [notListed, notElem]
      · intro other member
        have apart : other ≠ elem := fun same => freshBefore (same ▸ member)
        have notFollower : other ≠ follower := by
          rintro rfl
          exact disjoint other member List.mem_cons_self
        simp [apart, notFollower]
      · refine ⟨?_, ?_, ?_, ?_, ?_, ?_, ?_⟩
        · simp [listedEnd, elemEnd, listing]
        · simp [elemNe.symm, notAfter.1, back]
        · simp
        · simp
        · simp [elemNe]
        · simp [Ne.symm freshAfter.1]
        · refine path_congr _ ?_ ?_ beyond
          · intro source member
            simp [sourcesListed source member, sourcesElem source member]
          · intro other member
            have apart : other ≠ elem := fun same => freshAfter.2 (same ▸ member)
            have notFollower : other ≠ follower := fun same => parts.1 (same ▸ member)
            simp [apart, notFollower]
    · simp only [endOf] at stop
      simp [endOf_append, endOf, endListed, endElem, stop]
    · simp [endOf_append, endOf, last]

end Operations

end TailQueue
