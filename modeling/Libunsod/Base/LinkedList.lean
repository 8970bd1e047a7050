import Mathlib.Data.List.Nodup
import Mathlib.Logic.Function.Basic

/-!
Doubly linked lists threaded through one pair of links in each element: a head holds
the first element, an element its successor and the address of the link that points
at it. Several heads share the links, so an element that is put on a second list
leaves the first one damaged.
-/

namespace LinkedList

inductive Anchor (Head Elem : Type) where
  | head (head : Head)
  | after (elem : Elem)
  deriving DecidableEq

structure Links (Head Elem : Type) where
  first : Head → Option Elem
  next : Elem → Option Elem
  prev : Elem → Anchor Head Elem

variable {Head Elem : Type} [DecidableEq Head] [DecidableEq Elem]

namespace Links

def load (links : Links Head Elem) : Anchor Head Elem → Option Elem
  | .head head => links.first head
  | .after elem => links.next elem

def store (links : Links Head Elem) (anchor : Anchor Head Elem) (value : Option Elem) :
    Links Head Elem :=
  match anchor with
  | .head head => { links with first := Function.update links.first head value }
  | .after elem => { links with next := Function.update links.next elem value }

def setPrev (links : Links Head Elem) (elem : Elem) (anchor : Anchor Head Elem) :
    Links Head Elem :=
  { links with prev := Function.update links.prev elem anchor }

def backLink (links : Links Head Elem) (target : Option Elem) (anchor : Anchor Head Elem) :
    Links Head Elem :=
  match target with
  | none => links
  | some elem => links.setPrev elem anchor

def init (links : Links Head Elem) (head : Head) : Links Head Elem :=
  links.store (.head head) none

def insertHead (links : Links Head Elem) (head : Head) (elem : Elem) : Links Head Elem :=
  let linked := links.store (.after elem) (links.first head)
  let backed := linked.backLink (linked.next elem) (.after elem)
  (backed.store (.head head) (some elem)).setPrev elem (.head head)

def remove (links : Links Head Elem) (elem : Elem) : Links Head Elem :=
  let backed := links.backLink (links.next elem) (links.prev elem)
  backed.store (backed.prev elem) (backed.next elem)

def swap (links : Links Head Elem) (left right : Head) : Links Head Elem :=
  let swapped := (links.store (.head left) (links.first right)).store (.head right)
    (links.first left)
  (swapped.backLink (swapped.first left) (.head left)).backLink (swapped.first right)
    (.head right)

theorem load_store (links : Links Head Elem) (anchor other : Anchor Head Elem)
    (value : Option Elem) :
    (links.store anchor value).load other = if other = anchor then value else links.load other := by
  cases anchor <;> cases other <;>
    simp [store, load, Function.update_apply]

@[simp] theorem prev_store (links : Links Head Elem) (anchor : Anchor Head Elem)
    (value : Option Elem) : (links.store anchor value).prev = links.prev := by
  cases anchor <;> rfl

omit [DecidableEq Head] in
@[simp] theorem load_backLink (links : Links Head Elem) (target : Option Elem)
    (anchor : Anchor Head Elem) : (links.backLink target anchor).load = links.load := by
  funext other
  cases target <;> cases other <;> rfl

omit [DecidableEq Head] in
theorem prev_backLink (links : Links Head Elem) (target : Option Elem)
    (anchor : Anchor Head Elem) (elem : Elem) :
    (links.backLink target anchor).prev elem =
      if target = some elem then anchor else links.prev elem := by
  cases target with
  | none => simp [backLink]
  | some other =>
    simp only [backLink, setPrev, Function.update_apply, Option.some.injEq]
    by_cases same : elem = other
    · simp [same]
    · simp [same, Ne.symm same]

omit [DecidableEq Head] [DecidableEq Elem] in
theorem first_eq_load (links : Links Head Elem) (head : Head) :
    links.first head = links.load (.head head) := rfl

omit [DecidableEq Head] [DecidableEq Elem] in
theorem next_eq_load (links : Links Head Elem) (elem : Elem) :
    links.next elem = links.load (.after elem) := rfl

theorem load_insertHead (links : Links Head Elem) (head : Head) (elem : Elem)
    (other : Anchor Head Elem) :
    (links.insertHead head elem).load other =
      if other = .head head then some elem
      else if other = .after elem then links.first head else links.load other := by
  have setPrev_load : ∀ (base : Links Head Elem) (target : Elem) (anchor : Anchor Head Elem),
      (base.setPrev target anchor).load = base.load := by
    intro base target anchor
    exact load_backLink base (some target) anchor
  simp only [insertHead, setPrev_load, load_store, load_backLink]

theorem prev_insertHead (links : Links Head Elem) (head : Head) (elem other : Elem) :
    (links.insertHead head elem).prev other =
      if other = elem then .head head
      else if links.first head = some other then .after elem else links.prev other := by
  have loaded : (links.store (.after elem) (links.first head)).next elem = links.first head := by
    rw [next_eq_load, load_store, if_pos rfl]
  simp only [insertHead, setPrev, Function.update_apply, prev_store, prev_backLink, loaded]

theorem load_remove (links : Links Head Elem) (elem : Elem) (other : Anchor Head Elem) :
    (links.remove elem).load other =
      if other = links.prev elem then links.next elem else links.load other := by
  simp only [remove, load_store, load_backLink, prev_backLink, ite_self, next_eq_load]

theorem prev_remove (links : Links Head Elem) (elem other : Elem) :
    (links.remove elem).prev other =
      if links.next elem = some other then links.prev elem else links.prev other := by
  simp only [remove, prev_store, prev_backLink]

theorem load_swap (links : Links Head Elem) {left right : Head} (different : left ≠ right)
    (other : Anchor Head Elem) :
    (links.swap left right).load other =
      if other = .head left then links.first right
      else if other = .head right then links.first left else links.load other := by
  simp only [swap, load_backLink, load_store]
  by_cases isRight : other = .head right
  · have notLeft : (Anchor.head right : Anchor Head Elem) ≠ .head left := by
      intro same
      exact different (Anchor.head.inj same).symm
    rw [isRight, if_pos rfl, if_neg notLeft, if_pos rfl]
  · rw [if_neg isRight, if_neg isRight]

theorem prev_swap (links : Links Head Elem) {left right : Head} (different : left ≠ right)
    (other : Elem) :
    (links.swap left right).prev other =
      if links.first left = some other then .head right
      else if links.first right = some other then .head left else links.prev other := by
  have toRight : ((links.store (.head left) (links.first right)).store (.head right)
      (links.first left)).first right = links.first left := by
    rw [first_eq_load, load_store, if_pos rfl]
  have toLeft : ((links.store (.head left) (links.first right)).store (.head right)
      (links.first left)).first left = links.first right := by
    rw [first_eq_load, load_store, if_neg (by simpa using different), load_store, if_pos rfl]
  simp only [swap, prev_backLink, prev_store, toRight, toLeft]

end Links

open Links

def Path (links : Links Head Elem) : Anchor Head Elem → List Elem → Prop
  | anchor, [] => links.load anchor = none
  | anchor, elem :: rest =>
      links.load anchor = some elem ∧ links.prev elem = anchor ∧ Path links (.after elem) rest

structure Chained (links : Links Head Elem) (head : Head) (elems : List Elem) : Prop where
  path : Path links (.head head) elems
  nodup : elems.Nodup

def Walks (links : Links Head Elem) : Option Elem → List Elem → Prop
  | pointer, [] => pointer = none
  | pointer, elem :: rest => pointer = some elem ∧ Walks links (links.next elem) rest

omit [DecidableEq Head] [DecidableEq Elem] in
theorem path_congr {links changed : Links Head Elem} {anchor : Anchor Head Elem}
    {elems : List Elem} (start : changed.load anchor = links.load anchor)
    (loads : ∀ elem ∈ elems, changed.load (.after elem) = links.load (.after elem))
    (prevs : ∀ elem ∈ elems, changed.prev elem = links.prev elem)
    (path : Path links anchor elems) : Path changed anchor elems := by
  induction elems generalizing anchor with
  | nil => exact start.trans path
  | cons elem rest ih =>
    obtain ⟨loaded, back, tail⟩ := path
    refine ⟨start.trans loaded, (prevs elem List.mem_cons_self).trans back, ?_⟩
    exact ih (loads elem List.mem_cons_self)
      (fun other member => loads other (List.mem_cons_of_mem _ member))
      (fun other member => prevs other (List.mem_cons_of_mem _ member)) tail

omit [DecidableEq Head] [DecidableEq Elem] in
theorem walks_congr {links changed : Links Head Elem} {pointer : Option Elem}
    {elems : List Elem} (nexts : ∀ elem ∈ elems, changed.next elem = links.next elem)
    (walks : Walks links pointer elems) : Walks changed pointer elems := by
  induction elems generalizing pointer with
  | nil => exact walks
  | cons elem rest ih =>
    obtain ⟨here, tail⟩ := walks
    refine ⟨here, ?_⟩
    rw [nexts elem List.mem_cons_self]
    exact ih (fun other member => nexts other (List.mem_cons_of_mem _ member)) tail

omit [DecidableEq Head] [DecidableEq Elem] in
theorem path_walks {links : Links Head Elem} {anchor : Anchor Head Elem} {elems : List Elem}
    (path : Path links anchor elems) : Walks links (links.load anchor) elems := by
  induction elems generalizing anchor with
  | nil => exact path
  | cons elem rest ih => exact ⟨path.1, ih path.2.2⟩

section Insert

variable {links : Links Head Elem} {head : Head} {elem : Elem} {elems : List Elem}

theorem Chained.insertHead (chained : Chained links head elems) (fresh : elem ∉ elems) :
    Chained (links.insertHead head elem) head (elem :: elems) := by
  obtain ⟨path, nodup⟩ := chained
  refine ⟨⟨?_, ?_, ?_⟩, List.nodup_cons.mpr ⟨fresh, nodup⟩⟩
  · rw [load_insertHead, if_pos rfl]
  · rw [prev_insertHead, if_pos rfl]
  · have start : (links.insertHead head elem).load (.after elem) = links.first head := by
      rw [load_insertHead, if_neg (by rintro ⟨⟩), if_pos rfl]
    cases elems with
    | nil => exact start.trans path
    | cons second rest =>
      obtain ⟨loaded, -, tail⟩ := path
      have parts := List.nodup_cons.mp nodup
      have outside : ∀ other ∈ second :: rest, other ≠ elem := by
        rintro other member rfl
        exact fresh member
      have loads : ∀ other ∈ second :: rest,
          (links.insertHead head elem).load (.after other) = links.load (.after other) := by
        intro other member
        rw [load_insertHead, if_neg (by rintro ⟨⟩),
          if_neg (fun same => outside other member (Anchor.after.inj same))]
      refine ⟨start.trans loaded, ?_, path_congr (loads second List.mem_cons_self) ?_ ?_ tail⟩
      · rw [prev_insertHead, if_neg (outside second List.mem_cons_self)]
        exact if_pos loaded
      · exact fun other member => loads other (List.mem_cons_of_mem _ member)
      · intro other member
        have notSecond : links.first head ≠ some other := by
          intro same
          cases loaded.symm.trans same
          exact parts.1 member
        rw [prev_insertHead, if_neg (outside other (List.mem_cons_of_mem _ member)),
          if_neg notSecond]

theorem Chained.insertHead_other {other : Head} {others : List Elem}
    (chained : Chained links other others) (different : other ≠ head) (fresh : elem ∉ others)
    (apart : ∀ first, links.first head = some first → first ∉ others) :
    Chained (links.insertHead head elem) other others := by
  refine ⟨path_congr ?_ ?_ ?_ chained.path, chained.nodup⟩
  · rw [load_insertHead, if_neg (fun same => different (Anchor.head.inj same)),
      if_neg (by rintro ⟨⟩)]
  · intro member found
    rw [load_insertHead, if_neg (by rintro ⟨⟩), if_neg]
    intro same
    cases same
    exact fresh found
  · intro member found
    rw [prev_insertHead, if_neg, if_neg]
    · exact fun same => apart member same found
    · rintro rfl
      exact fresh found

theorem Walks.insertHead {pointer : Option Elem} {others : List Elem}
    (walks : Walks links pointer others) (fresh : elem ∉ others) :
    Walks (links.insertHead head elem) pointer others := by
  refine walks_congr (fun other member => ?_) walks
  rw [next_eq_load, load_insertHead, if_neg (by rintro ⟨⟩), if_neg]
  · rfl
  · intro same
    cases same
    exact fresh member

end Insert

omit [DecidableEq Head] [DecidableEq Elem] in
theorem Chained.first_mem {links : Links Head Elem} {head : Head} {elems : List Elem}
    {elem : Elem} (chained : Chained links head elems) (first : links.first head = some elem) :
    elem ∈ elems := by
  obtain ⟨path, -⟩ := chained
  cases elems with
  | nil => cases path.symm.trans first
  | cons other rest =>
    cases path.1.symm.trans first
    exact List.mem_cons_self

section Remove

variable {links : Links Head Elem} {elem : Elem}

def endOf : Anchor Head Elem → List Elem → Anchor Head Elem
  | anchor, [] => anchor
  | _, first :: rest => endOf (.after first) rest

omit [DecidableEq Head] [DecidableEq Elem] in
theorem endOf_cases (anchor : Anchor Head Elem) (elems : List Elem) :
    endOf anchor elems = anchor ∧ elems = [] ∨
      ∃ last ∈ elems, endOf anchor elems = .after last := by
  induction elems generalizing anchor with
  | nil => exact .inl ⟨rfl, rfl⟩
  | cons first rest ih =>
    right
    rcases ih (.after first) with ⟨same, -⟩ | ⟨last, member, same⟩
    · exact ⟨first, List.mem_cons_self, same⟩
    · exact ⟨last, List.mem_cons_of_mem _ member, same⟩

omit [DecidableEq Head] [DecidableEq Elem] in
theorem path_prev {anchor : Anchor Head Elem} {before after : List Elem}
    (path : Path links anchor (before ++ elem :: after)) :
    links.prev elem = endOf anchor before ∧ Path links (.after elem) after := by
  induction before generalizing anchor with
  | nil => exact path.2
  | cons first rest ih => exact ih path.2.2

omit [DecidableEq Head] [DecidableEq Elem] in
theorem path_next {anchor : Anchor Head Elem} {elems : List Elem}
    (path : Path links anchor elems) : links.load anchor = elems.head? := by
  cases elems with
  | nil => exact path
  | cons first rest => exact path.1

theorem path_remove {anchor : Anchor Head Elem} {before after : List Elem}
    (path : Path links anchor (before ++ elem :: after))
    (nodup : (before ++ elem :: after).Nodup)
    (outside : ∀ other ∈ before ++ elem :: after, anchor ≠ .after other) :
    Path (links.remove elem) anchor (before ++ after) := by
  have back := (path_prev path).1
  have next : links.next elem = after.head? := path_next (path_prev path).2
  induction before generalizing anchor with
  | nil =>
    obtain ⟨-, -, tail⟩ := path
    have parts := List.nodup_cons.mp nodup
    have loads : ∀ other ∈ after,
        (links.remove elem).load (.after other) = links.load (.after other) := by
      intro other member
      rw [load_remove, if_neg]
      rw [back]
      exact fun same => outside other (List.mem_cons_of_mem _ member) same.symm
    have start : (links.remove elem).load anchor = links.next elem := by
      rw [load_remove, back]
      exact if_pos rfl
    cases after with
    | nil => exact start.trans next
    | cons second rest =>
      have inner := List.nodup_cons.mp parts.2
      refine ⟨start.trans next, ?_, path_congr (loads second List.mem_cons_self)
        (fun other member => loads other (List.mem_cons_of_mem _ member)) ?_ tail.2.2⟩
      · rw [prev_remove, back]
        exact if_pos next
      · intro other member
        rw [prev_remove, if_neg]
        rw [next]
        intro same
        cases same
        exact inner.1 member
  | cons first rest ih =>
    obtain ⟨loaded, firstBack, tail⟩ := path
    have parts := List.nodup_cons.mp nodup
    have firstOut : ∀ other ∈ rest ++ elem :: after, first ≠ other := by
      rintro other member rfl
      exact parts.1 member
    refine ⟨?_, ?_, ih tail parts.2 ?_ back⟩
    · rw [load_remove, if_neg, loaded]
      rw [back]
      rcases endOf_cases (.after first : Anchor Head Elem) rest with ⟨same, -⟩ |
        ⟨last, member, same⟩
      · intro equal
        exact outside first List.mem_cons_self (equal.trans same)
      · intro equal
        exact outside last (List.mem_cons_of_mem _ (List.mem_append_left _ member))
          (equal.trans same)
    · rw [prev_remove, if_neg, firstBack]
      rw [next]
      intro same
      have member : first ∈ after := List.mem_of_mem_head? same
      exact firstOut first
        (List.mem_append_right _ (List.mem_cons_of_mem _ member)) rfl
    · intro other member same
      exact firstOut other member (Anchor.after.inj same)

variable {head : Head} {before after : List Elem}

theorem Chained.remove (chained : Chained links head (before ++ elem :: after)) :
    Chained (links.remove elem) head (before ++ after) := by
  refine ⟨path_remove chained.path chained.nodup (by rintro _ _ ⟨⟩), ?_⟩
  exact (List.nodup_middle.mp chained.nodup).of_cons

theorem Chained.remove_other {other : Head} {others : List Elem}
    (chained : Chained links head (before ++ elem :: after))
    (kept : Chained links other others) (different : other ≠ head)
    (apart : ∀ member ∈ before ++ elem :: after, member ∉ others) :
    Chained (links.remove elem) other others := by
  obtain ⟨back, tail⟩ := path_prev chained.path
  have next : links.next elem = after.head? := path_next tail
  refine ⟨path_congr ?_ ?_ ?_ kept.path, kept.nodup⟩
  · rw [load_remove, if_neg]
    rw [back]
    rcases endOf_cases (.head head : Anchor Head Elem) before with ⟨same, -⟩ | ⟨last, _, same⟩
    · rw [same]
      exact fun equal => different (Anchor.head.inj equal)
    · rw [same]
      rintro ⟨⟩
  · intro member found
    rw [load_remove, if_neg]
    rw [back]
    rcases endOf_cases (.head head : Anchor Head Elem) before with ⟨same, -⟩ |
      ⟨last, inside, same⟩
    · rw [same]
      rintro ⟨⟩
    · rw [same]
      intro equal
      cases equal
      exact apart member (List.mem_append_left _ inside) found
  · intro member found
    rw [prev_remove, if_neg]
    rw [next]
    intro same
    have inside : member ∈ after := List.mem_of_mem_head? same
    exact apart member (List.mem_append_right _ (List.mem_cons_of_mem _ inside)) found

end Remove

section Swap

variable {links : Links Head Elem} {left right : Head} {lefts rights : List Elem}

omit [DecidableEq Head] [DecidableEq Elem] in
theorem path_moved {changed : Links Head Elem} {source target : Head} {elems : List Elem}
    (chained : Chained links source elems)
    (start : changed.load (.head target) = links.load (.head source))
    (loads : ∀ elem, changed.load (.after elem) = links.load (.after elem))
    (first : ∀ elem, links.first source = some elem → changed.prev elem = .head target)
    (prevs : ∀ elem ∈ elems, links.first source ≠ some elem →
      changed.prev elem = links.prev elem) : Path changed (.head target) elems := by
  obtain ⟨path, nodup⟩ := chained
  cases elems with
  | nil => exact start.trans path
  | cons elem rest =>
    obtain ⟨loaded, -, tail⟩ := path
    refine ⟨start.trans loaded, first elem loaded, path_congr (loads elem)
      (fun other _ => loads other) (fun other member => ?_) tail⟩
    refine prevs other (List.mem_cons_of_mem _ member) fun same => ?_
    cases loaded.symm.trans same
    exact (List.nodup_cons.mp nodup).1 member

theorem Chained.swap (onLeft : Chained links left lefts) (onRight : Chained links right rights)
    (different : left ≠ right) (apart : ∀ elem ∈ lefts, elem ∉ rights) :
    Chained (links.swap left right) left rights ∧
      Chained (links.swap left right) right lefts := by
  have loads : ∀ elem : Elem,
      (links.swap left right).load (.after elem) = links.load (.after elem) := by
    intro elem
    rw [load_swap links different, if_neg (by rintro ⟨⟩), if_neg (by rintro ⟨⟩)]
  refine ⟨⟨path_moved onRight ?_ loads ?_ ?_, onRight.nodup⟩,
    ⟨path_moved onLeft ?_ loads ?_ ?_, onLeft.nodup⟩⟩
  · rw [load_swap links different, if_pos rfl]
    rfl
  · intro elem first
    have notLeft : links.first left ≠ some elem := fun same =>
      apart elem (onLeft.first_mem same) (onRight.first_mem first)
    rw [prev_swap links different, if_neg notLeft, if_pos first]
  · intro elem member notFirst
    have notLeft : links.first left ≠ some elem := fun same =>
      apart elem (onLeft.first_mem same) member
    rw [prev_swap links different, if_neg notLeft, if_neg notFirst]
  · rw [load_swap links different, if_neg (fun same => different (Anchor.head.inj same).symm),
      if_pos rfl]
    rfl
  · intro elem first
    rw [prev_swap links different, if_pos first]
  · intro elem member notFirst
    have notRight : links.first right ≠ some elem := fun same =>
      apart elem member (onRight.first_mem same)
    rw [prev_swap links different, if_neg notFirst, if_neg notRight]

theorem chained_init (links : Links Head Elem) (head : Head) :
    Chained (links.init head) head [] :=
  ⟨by rw [Path, Links.init, load_store, if_pos rfl], List.nodup_nil⟩

theorem Chained.init_other (kept : Chained links left lefts) (different : left ≠ right) :
    Chained (links.init right) left lefts := by
  refine ⟨path_congr ?_ ?_ ?_ kept.path, kept.nodup⟩
  · rw [Links.init, load_store, if_neg (fun same => different (Anchor.head.inj same))]
  · intro elem _
    rw [Links.init, load_store, if_neg (by rintro ⟨⟩)]
  · intro elem _
    rw [Links.init, prev_store]

end Swap

end LinkedList
