import Libunsod.Base.Headcount
import Libunsod.Base.Runs
import Libunsod.Udsock.ErrnoCore
import Mathlib.Data.List.Nodup

/-!
SYN filters and the sockets they are attached to, in `in_promisc.c`. A registration is one
reference. `syn_filter_add` gives a filter that is still attached its callback back without taking
that reference, and `syn_filter_del` drops it again for a filter that has no registration.
-/

namespace Libunsod.Netinet

open Runs Headcount Udsock
open Function (update update_of_ne update_self)

inductive SynfCallback where
  | null
  | module (callback : Nat)
  deriving DecidableEq

structure SynFilter (Name : Type) where
  name : Name
  callback : SynfCallback
  refcount : BitVec 32

inductive SynInstance where
  | absent
  | constructing (sfi : Nat)
  | installed (sfi : Nat)
  deriving DecidableEq

def SynInstance.uses (sfi : Nat) : SynInstance → Bool
  | .absent => false
  | .constructing own => own = sfi
  | .installed own => own = sfi

def SynInstance.locked : SynInstance → Bool
  | .constructing _ => true
  | _ => false

structure SynState (Name Sock : Type) where
  heap : Nat → SynFilter Name
  next : Nat
  head : List Nat
  freed : Nat → Nat
  synf : Sock → SynInstance

inductive SynStep (Name Sock : Type) where
  | add (name : Name) (callback : Nat) (allocated : Bool)
  | del (name : Name)
  | setopt (sock : Sock) (copied : Option Name)
  | construct (sock : Sock) (made : Bool)
  | remove (sock : Sock)
  | destroy (sock : Sock)

namespace SynState

variable {Name Sock : Type} [DecidableEq Name] [DecidableEq Sock]

def start (heap : Nat → SynFilter Name) : SynState Name Sock :=
  ⟨heap, 0, [], fun _ => 0, fun _ => .absent⟩

def put (state : SynState Name Sock) (sfi : Nat) (filter : SynFilter Name) : SynState Name Sock :=
  { state with heap := update state.heap sfi filter }

def synFilterGetLocked (state : SynState Name Sock) (name : Name) : Option Nat :=
  state.head.find? fun sfi => (state.heap sfi).name = name

def synFilterAttach (state : SynState Name Sock) (name : Name) :
    Option Nat × SynState Name Sock :=
  match state.synFilterGetLocked name with
  | none => (none, state)
  | some sfi =>
      (some sfi, state.put sfi
        { state.heap sfi with refcount := (state.heap sfi).refcount + 1 })

def synFilterDetachLocked (state : SynState Name Sock) (sfi : Nat) : SynState Name Sock :=
  let old := (state.heap sfi).refcount
  let released := state.put sfi { state.heap sfi with refcount := old - 1 }
  if old = 1 then
    { released with
      head := state.head.erase sfi
      freed := update state.freed sfi (state.freed sfi + 1) }
  else released

def synFilterAdd (state : SynState Name Sock) (name : Name) (callback : Nat) (allocated : Bool) :
    Int × SynState Name Sock :=
  match state.synFilterGetLocked name with
  | some sfi =>
      if (state.heap sfi).callback ≠ .null then (ErrName.eexist.uinet, state)
      else (0, state.put sfi { state.heap sfi with callback := .module callback })
  | none =>
      if allocated then
        (0, { state.put state.next ⟨name, .module callback, 1⟩ with
          next := state.next + 1
          head := state.next :: state.head })
      else (ErrName.enomem.uinet, state)

def synFilterDel (state : SynState Name Sock) (name : Name) : SynState Name Sock :=
  match state.synFilterGetLocked name with
  | none => state
  | some sfi =>
      (state.put sfi { state.heap sfi with callback := .null }).synFilterDetachLocked sfi

def synFilterSetopt (state : SynState Name Sock) (sock : Sock) (copied : Option Name) :
    SynState Name Sock :=
  match copied with
  | none => state
  | some name =>
      if state.synf sock ≠ .absent then state
      else
        match state.synFilterAttach name with
        | (none, _) => state
        | (some sfi, attached) =>
            { attached with synf := update state.synf sock (.constructing sfi) }

def synFilterConstruct (state : SynState Name Sock) (sock : Sock) (made : Bool) :
    SynState Name Sock :=
  match state.synf sock with
  | .constructing sfi =>
      if made then
        { state with synf := update state.synf sock (.installed sfi) }
      else
        { state.synFilterDetachLocked sfi with
          synf := update state.synf sock .absent }
  | _ => state

def synFilterRunDestructor (state : SynState Name Sock) (sock : Sock) : SynState Name Sock :=
  match state.synf sock with
  | .installed sfi =>
      { state.synFilterDetachLocked sfi with synf := update state.synf sock .absent }
  | _ => state

def Enabled (state : SynState Name Sock) : SynStep Name Sock → Prop
  | .add .. => True
  | .del _ => True
  | .setopt sock _ => (state.synf sock).locked = false
  | .construct sock _ => (state.synf sock).locked = true
  | .remove sock => (state.synf sock).locked = false
  | .destroy sock => (state.synf sock).locked = false

def step (state : SynState Name Sock) : SynStep Name Sock → SynState Name Sock
  | .add name callback allocated => (state.synFilterAdd name callback allocated).2
  | .del name => state.synFilterDel name
  | .setopt sock copied => state.synFilterSetopt sock copied
  | .construct sock made => state.synFilterConstruct sock made
  | .remove sock => state.synFilterRunDestructor sock
  | .destroy sock => state.synFilterRunDestructor sock

end SynState

def synMove {Name Sock : Type} [DecidableEq Name] [DecidableEq Sock] :
    SynState Name Sock → SynStep Name Sock → SynState Name Sock → Prop :=
  Guarded SynState.Enabled SynState.step

namespace SynState

section Counting

variable {Name Sock : Type} [Fintype Sock]

def registered (state : SynState Name Sock) (sfi : Nat) : Bool :=
  (state.heap sfi).callback ≠ .null

def holders (state : SynState Name Sock) (sfi : Nat) : Nat :=
  headcount (SynInstance.uses sfi) state.synf + (state.registered sfi).toNat

structure Right (state : SynState Name Sock) (sfi : Nat) : Prop where
  counted : (state.heap sfi).refcount.toNat = state.holders sfi
  listed : sfi ∈ state.head ↔ 0 < state.holders sfi
  freed : state.freed sfi = if state.holders sfi = 0 then 1 else 0

def Balanced (state : SynState Name Sock) : Prop :=
  ∀ sfi < state.next, state.Right sfi

structure Sound (state : SynState Name Sock) : Prop where
  balanced : state.Balanced
  nodup : state.head.Nodup
  known : ∀ sfi ∈ state.head, sfi < state.next
  used : ∀ sock sfi, (state.synf sock).uses sfi = true → sfi < state.next
  unborn : ∀ sfi, state.next ≤ sfi → state.freed sfi = 0

end Counting

variable {Name Sock : Type} {state next : SynState Name Sock} {sfi other : Nat}

theorem detach_fields (state : SynState Name Sock) (sfi : Nat) :
    (state.synFilterDetachLocked sfi).next = state.next ∧
      (state.synFilterDetachLocked sfi).synf = state.synf ∧
      (state.synFilterDetachLocked sfi).head.Sublist state.head ∧
      ∀ other, other ≠ sfi → (state.synFilterDetachLocked sfi).freed other = state.freed other := by
  unfold synFilterDetachLocked
  simp only
  split
  · exact ⟨rfl, rfl, List.erase_sublist, fun other apart => update_of_ne apart ..⟩
  · exact ⟨rfl, rfl, List.Sublist.refl _, fun _ _ => rfl⟩

theorem getLocked_mem [DecidableEq Name] {name : Name}
    (found : state.synFilterGetLocked name = some sfi) : sfi ∈ state.head :=
  List.mem_of_find?_eq_some found

theorem uses_iff {inst : SynInstance} : inst.uses sfi = true ↔
    inst = .constructing sfi ∨ inst = .installed sfi := by
  cases inst with
  | absent | constructing own | installed own => simp [SynInstance.uses]

variable [Fintype Sock]

theorem Right.of_same (right : state.Right other) (heap : next.heap other = state.heap other)
    (heads : headcount (SynInstance.uses other) next.synf =
      headcount (SynInstance.uses other) state.synf)
    (listed : other ∈ next.head ↔ other ∈ state.head)
    (freed : next.freed other = state.freed other) : next.Right other := by
  have same : next.holders other = state.holders other := by
    unfold holders registered
    rw [heads, heap]
  refine ⟨?_, ?_, ?_⟩
  · rw [same, heap]
    exact right.counted
  · rw [same, listed]
    exact right.listed
  · rw [same, freed]
    exact right.freed

theorem detach_holders (state : SynState Name Sock) (sfi other : Nat) :
    (state.synFilterDetachLocked sfi).holders other = state.holders other := by
  have fields : (state.synFilterDetachLocked sfi).synf = state.synf ∧
      ((state.synFilterDetachLocked sfi).heap other).callback = (state.heap other).callback := by
    unfold synFilterDetachLocked put
    simp only
    by_cases same : other = sfi
    · subst same
      split <;> simp
    · split <;> simp [update_of_ne same]
  unfold holders registered
  rw [fields.1, fields.2]

theorem detach_right (nodup : state.head.Nodup) (listed : sfi ∈ state.head)
    (counted : (state.heap sfi).refcount.toNat = state.holders sfi + 1)
    (freed : state.freed sfi = 0) : (state.synFilterDetachLocked sfi).Right sfi := by
  have same := state.detach_holders sfi sfi
  by_cases last : (state.heap sfi).refcount = 1
  · have none : state.holders sfi = 0 := by
      rw [last] at counted
      exact (Nat.succ.inj counted).symm
    refine ⟨?_, ?_, ?_⟩
    · rw [same, none]
      simp [synFilterDetachLocked, put, last]
    · rw [same, none]
      simp [synFilterDetachLocked, last, nodup.mem_erase_iff]
    · rw [same, none]
      simp [synFilterDetachLocked, last, freed]
  · have some_ : state.holders sfi ≠ 0 := by
      intro none
      rw [none] at counted
      exact last (BitVec.eq_of_toNat_eq counted)
    refine ⟨?_, ?_, ?_⟩
    · rw [same]
      simp only [synFilterDetachLocked, put, last, if_false, update_self]
      bv_omega
    · rw [same]
      simp only [synFilterDetachLocked, put, last, if_false, listed, true_iff]
      omega
    · rw [same, if_neg some_]
      simp only [synFilterDetachLocked, put, last, if_false]
      exact freed

theorem detach_other (right : state.Right other) (apart : other ≠ sfi) :
    (state.synFilterDetachLocked sfi).Right other := by
  unfold synFilterDetachLocked
  simp only
  split
  · refine right.of_same ?_ rfl ?_ ?_
    · exact update_of_ne apart ..
    · exact List.mem_erase_of_ne apart
    · exact update_of_ne apart ..
  · exact right.of_same (update_of_ne apart ..) rfl Iff.rfl rfl

theorem Sound.detach (nodup : state.head.Nodup) (known : ∀ sfi ∈ state.head, sfi < state.next)
    (used : ∀ sock sfi, (state.synf sock).uses sfi = true → sfi < state.next)
    (unborn : ∀ sfi, state.next ≤ sfi → state.freed sfi = 0)
    (others : ∀ other < state.next, other ≠ sfi → state.Right other) (listed : sfi ∈ state.head)
    (counted : (state.heap sfi).refcount.toNat = state.holders sfi + 1)
    (freed : state.freed sfi = 0) : (state.synFilterDetachLocked sfi).Sound := by
  obtain ⟨next, synf, head, untouched⟩ := state.detach_fields sfi
  refine ⟨?_, nodup.sublist head, ?_, ?_, ?_⟩
  · intro other below
    by_cases same : other = sfi
    · rw [same]
      exact detach_right nodup listed counted freed
    · rw [next] at below
      exact detach_other (others other below same) same
  · rw [next]
    exact fun sfi member => known sfi (head.subset member)
  · rw [next, synf]
    exact used
  · rw [next]
    intro other unknown
    have apart : other ≠ sfi := by
      have below := known sfi listed
      omega
    rw [untouched other apart]
    exact unborn other unknown

theorem Sound.start (heap : Nat → SynFilter Name) :
    (start heap : SynState Name Sock).Sound := by
  refine ⟨?_, List.nodup_nil, ?_, ?_, fun _ _ => rfl⟩
  · intro sfi below
    exact absurd below (Nat.not_lt_zero sfi)
  · rintro sfi ⟨⟩
  · rintro sock sfi ⟨⟩

theorem Sound.unused (sound : state.Sound) :
    headcount (SynInstance.uses state.next) state.synf = 0 := by
  refine headcount_eq_zero_iff.mpr fun sock => ?_
  rw [← Bool.not_eq_true]
  intro uses
  exact absurd (sound.used sock state.next uses) (Nat.lt_irrefl _)

theorem Sound.of_listed (sound : state.Sound) (listed : sfi ∈ state.head) :
    state.Right sfi ∧ state.freed sfi = 0 := by
  have right := sound.balanced sfi (sound.known sfi listed)
  have positive := right.listed.mp listed
  refine ⟨right, ?_⟩
  rw [right.freed, if_neg (by omega)]

theorem Sound.add [DecidableEq Name] (sound : state.Sound) {name : Name} (callback : Nat)
    (allocated : Bool)
    (tidy : ∀ sfi, state.synFilterGetLocked name = some sfi → state.registered sfi = true) :
    (state.synFilterAdd name callback allocated).2.Sound := by
  unfold synFilterAdd
  cases found : state.synFilterGetLocked name with
  | some sfi =>
    have kept : (state.heap sfi).callback ≠ .null := of_decide_eq_true (tidy sfi found)
    simp only [if_pos kept]
    exact sound
  | none =>
    cases allocated with
    | false => exact sound
    | true =>
      simp only [if_true]
      refine ⟨?_, ?_, ?_, ?_, ?_⟩
      · intro other below
        by_cases same : other = state.next
        · refine ⟨?_, ?_, ?_⟩
          · simp [SynState.holders, registered, put, same, sound.unused]
          · simp [SynState.holders, registered, put, same]
          · have unfreed := sound.unborn state.next (le_refl _)
            simp [SynState.holders, registered, put, same, unfreed]
        · have older : other < state.next := by
            simp only at below
            omega
          refine (sound.balanced other older).of_same ?_ rfl ?_ rfl
          · exact update_of_ne same ..
          · simp [same]
      · refine List.nodup_cons.mpr ⟨fun listed => ?_, sound.nodup⟩
        exact absurd (sound.known _ listed) (Nat.lt_irrefl _)
      · intro other listed
        rcases List.mem_cons.mp listed with new | old
        · rw [new]
          exact Nat.lt_succ_self _
        · exact Nat.lt_succ_of_lt (sound.known other old)
      · intro sock other uses
        exact Nat.lt_succ_of_lt (sound.used sock other uses)
      · intro other above
        exact sound.unborn other (Nat.le_of_succ_le above)

theorem Sound.del [DecidableEq Name] (sound : state.Sound) {name : Name}
    (tidy : ∀ sfi, state.synFilterGetLocked name = some sfi → state.registered sfi = true) :
    (state.synFilterDel name).Sound := by
  unfold synFilterDel
  cases found : state.synFilterGetLocked name with
  | none => exact sound
  | some sfi =>
    have listed := getLocked_mem found
    obtain ⟨right, freed⟩ := sound.of_listed listed
    have before : state.holders sfi = headcount (SynInstance.uses sfi) state.synf + 1 := by
      unfold holders
      rw [tidy sfi found]
      rfl
    refine Sound.detach sound.nodup sound.known sound.used sound.unborn ?_ listed ?_ freed
    · intro other below apart
      exact (sound.balanced other below).of_same (update_of_ne apart ..) rfl Iff.rfl rfl
    · have counted := right.counted
      rw [before] at counted
      simp [holders, registered, put, counted]

variable [DecidableEq Sock]

theorem Sound.release (sound : state.Sound) {sock : Sock}
    (uses : (state.synf sock).uses sfi = true) :
    Sound { state.synFilterDetachLocked sfi with
      synf := update state.synf sock .absent } := by
  have below := sound.used sock sfi uses
  have heads : ∀ other, headcount (SynInstance.uses other)
      (update state.synf sock .absent) + (decide (sfi = other)).toNat =
      headcount (SynInstance.uses other) state.synf := by
    intro other
    have change := headcount_update (SynInstance.uses other) state.synf sock .absent
    have own : (state.synf sock).uses other = decide (sfi = other) := by
      rcases uses_iff.mp uses with inst | inst
      · rw [inst]
        rfl
      · rw [inst]
        rfl
    rw [own] at change
    exact change
  have swap : { state.synFilterDetachLocked sfi with
      synf := update state.synf sock .absent } =
      ({ state with synf := update state.synf sock .absent } :
        SynState Name Sock).synFilterDetachLocked sfi := by
    unfold synFilterDetachLocked
    simp only [put]
    split
    · rfl
    · rfl
  have right := sound.balanced sfi below
  have listed : sfi ∈ state.head := by
    apply right.listed.mpr
    have some_ := headcount_pos uses
    unfold holders
    omega
  obtain ⟨_, freed⟩ := sound.of_listed listed
  rw [swap]
  refine Sound.detach sound.nodup sound.known ?_ sound.unborn ?_ listed ?_ freed
  · intro each other uses
    simp only at uses
    by_cases own : each = sock
    · rw [own, update_self] at uses
      cases uses
    · rw [update_of_ne own] at uses
      exact sound.used each other uses
  · intro other below apart
    refine (sound.balanced other below).of_same rfl ?_ Iff.rfl rfl
    have change := heads other
    rw [decide_eq_false (fun eq => apart eq.symm)] at change
    exact change
  · have change := heads sfi
    rw [decide_eq_true rfl, Bool.toNat_true] at change
    have counted := right.counted
    unfold holders at counted ⊢
    rw [← change] at counted
    simp only [registered] at counted ⊢
    omega

theorem Sound.construct (sound : state.Sound) (sock : Sock) (made : Bool) :
    (state.synFilterConstruct sock made).Sound := by
  unfold synFilterConstruct
  cases inst : state.synf sock with
  | absent | installed sfi => exact sound
  | constructing sfi =>
    cases made with
    | false =>
      apply sound.release
      rw [inst]
      exact decide_eq_true rfl
    | true =>
      have heads : ∀ other, headcount (SynInstance.uses other)
          (update state.synf sock (.installed sfi)) =
          headcount (SynInstance.uses other) state.synf := by
        intro other
        have change := headcount_update (SynInstance.uses other) state.synf sock
          (.installed sfi)
        rw [inst] at change
        exact Nat.add_right_cancel change
      refine ⟨?_, sound.nodup, sound.known, ?_, sound.unborn⟩
      · intro other below
        exact (sound.balanced other below).of_same rfl (heads other) Iff.rfl rfl
      · intro each other uses
        simp only [if_true] at uses
        by_cases own : each = sock
        · rw [own, update_self] at uses
          apply sound.used sock other
          rw [inst]
          exact uses
        · rw [update_of_ne own] at uses
          exact sound.used each other uses

theorem Sound.destructor (sound : state.Sound) (sock : Sock) :
    (state.synFilterRunDestructor sock).Sound := by
  unfold synFilterRunDestructor
  cases inst : state.synf sock with
  | absent | constructing sfi => exact sound
  | installed sfi =>
    apply sound.release
    rw [inst]
    exact decide_eq_true rfl

variable [DecidableEq Name]

theorem Sound.setopt (sound : state.Sound) (few : Fintype.card Sock + 1 < 2 ^ 32) (sock : Sock)
    (copied : Option Name) : (state.synFilterSetopt sock copied).Sound := by
  unfold synFilterSetopt
  cases copied with
  | none => exact sound
  | some name =>
    simp only
    split
    · exact sound
    · rename_i free
      rw [not_not] at free
      unfold synFilterAttach
      cases found : state.synFilterGetLocked name with
      | none => exact sound
      | some sfi =>
        have listed := getLocked_mem found
        obtain ⟨right, freed⟩ := sound.of_listed listed
        have heads : ∀ other, headcount (SynInstance.uses other)
            (update state.synf sock (.constructing sfi)) =
            headcount (SynInstance.uses other) state.synf +
              (decide (sfi = other)).toNat := by
          intro other
          have change := headcount_update (SynInstance.uses other) state.synf sock
            (.constructing sfi)
          rw [free] at change
          exact change
        refine ⟨?_, sound.nodup, sound.known, ?_, sound.unborn⟩
        · intro other below
          by_cases same : other = sfi
          · subst same
            have bound := headcount_le (SynInstance.uses other)
              (update state.synf sock (.constructing other))
            rw [heads, decide_eq_true rfl] at bound
            have counted := right.counted
            have more : SynState.holders { state.put other
                { state.heap other with refcount := (state.heap other).refcount + 1 } with
                synf := update state.synf sock (.constructing other) } other =
                state.holders other + 1 := by
              simp only [holders, registered, put, update_self, heads,
                decide_true, Bool.toNat_true]
              omega
            refine ⟨?_, ?_, ?_⟩
            · rw [more, ← counted]
              have small : (state.heap other).refcount.toNat + 1 < 2 ^ 32 := by
                rw [counted, holders]
                have one := Bool.toNat_le (state.registered other)
                simp only [Bool.toNat_true] at bound
                omega
              simp only [put, update_self]
              bv_omega
            · rw [more]
              exact ⟨fun _ => Nat.succ_pos _, fun _ => listed⟩
            · rw [more]
              exact freed
          · refine (sound.balanced other below).of_same ?_ ?_ Iff.rfl rfl
            · exact update_of_ne same ..
            · have apart : decide (sfi = other) = false := decide_eq_false fun eq => same eq.symm
              simp only [heads, apart]
              rfl
        · intro each other uses
          simp only at uses
          by_cases own : each = sock
          · rw [own, update_self] at uses
            have same : sfi = other := of_decide_eq_true uses
            rw [← same]
            exact sound.known sfi listed
          · rw [update_of_ne own] at uses
            exact sound.used each other uses

def Tidy (state : SynState Name Sock) : SynStep Name Sock → Prop
  | .add name _ _ => ∀ sfi, state.synFilterGetLocked name = some sfi → state.registered sfi = true
  | .del name => ∀ sfi, state.synFilterGetLocked name = some sfi → state.registered sfi = true
  | _ => True

theorem Sound.step (sound : state.Sound) (few : Fintype.card Sock + 1 < 2 ^ 32)
    {label : SynStep Name Sock} (tidy : state.Tidy label) : (state.step label).Sound := by
  cases label with
  | add name callback allocated => exact sound.add callback allocated tidy
  | del name => exact sound.del tidy
  | setopt sock copied => exact sound.setopt few sock copied
  | construct sock made => exact sound.construct sock made
  | remove sock | destroy sock => exact sound.destructor sock

end SynState

def tidySynMove {Name Sock : Type} [DecidableEq Name] [DecidableEq Sock] [Fintype Sock]
    (state : SynState Name Sock) (label : SynStep Name Sock) (next : SynState Name Sock) : Prop :=
  synMove state label next ∧ state.Tidy label

/-- The count of each filter is the number of its sockets and of its registration, it is in the
list while that is positive, and it is freed once, when it is zero. -/
theorem synFilter_balanced {Name Sock : Type} [DecidableEq Name] [DecidableEq Sock] [Fintype Sock]
    (few : Fintype.card Sock + 1 < 2 ^ 32) (heap : Nat → SynFilter Name)
    {labels : List (SynStep Name Sock)} {state : SynState Name Sock}
    (run : Run tidySynMove (SynState.start heap) labels state) : state.Balanced := by
  have sound : state.Sound := by
    refine run.invariant SynState.Sound (SynState.Sound.start heap) ?_
    rintro before label after sound ⟨⟨_, rfl⟩, tidy⟩
    exact sound.step few tidy
  exact sound.balanced

def synLife : List (SynStep Unit Unit) :=
  [.add () 1 true, .setopt () (some ()), .construct () true, .del (), .remove ()]

def synGarbage : Nat → SynFilter Unit := fun _ => ⟨(), .null, 0⟩

theorem synFilter_balanced_life :
    ∃ state, Run tidySynMove (SynState.start synGarbage) synLife state ∧ state.next = 1 ∧
      state.freed 0 = 1 ∧ state.Balanced := by
  have allowed : Allowed (fun state label => SynState.Enabled state label ∧ state.Tidy label)
      SynState.step (SynState.start synGarbage) synLife := by
    refine ⟨⟨trivial, ?_⟩, ⟨rfl, trivial⟩, ⟨rfl, trivial⟩, ⟨trivial, ?_⟩, ⟨rfl, trivial⟩, trivial⟩
    · rintro sfi ⟨⟩
    · rintro sfi ⟨⟩
      rfl
  have run := allowed.run_and
  exact ⟨_, run, rfl, rfl, synFilter_balanced (by decide) synGarbage run⟩

theorem synFilter_freed_attached :
    (∃ state, Run synMove (SynState.start synGarbage)
        [.add () 1 true, .setopt () (some ()), .construct () true, .del (), .add () 1 true] state ∧
      (state.heap 0).refcount = 1 ∧ state.holders 0 = 2 ∧
      ∃ next, synMove state (.del ()) next ∧ next.freed 0 = 1 ∧
        next.synf () = .installed 0 ∧ next.head = []) ∧
    ∃ state, Run synMove (SynState.start synGarbage)
        [.add () 1 true, .setopt () (some ()), .construct () true, .del (), .del ()] state ∧
      state.freed 0 = 1 ∧ state.synf () = .installed 0 ∧ state.holders 0 = 1 := by
  exact ⟨⟨_, Allowed.run ⟨trivial, rfl, rfl, trivial, trivial, trivial⟩, rfl, rfl, _,
      ⟨trivial, rfl⟩, rfl, rfl, rfl⟩,
    ⟨_, Allowed.run ⟨trivial, rfl, rfl, trivial, trivial, trivial⟩, rfl, rfl, rfl⟩⟩

end Libunsod.Netinet
