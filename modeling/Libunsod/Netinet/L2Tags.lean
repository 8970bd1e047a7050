import Mathlib.Data.BitVec
import Mathlib.Data.List.Basic

/-!
Stacks of layer 2 tags: `in_promisc_tagcmp` compares two of them without the tags whose mask
is zero, and `in_promisc_hash32` hashes them.
-/

namespace Libunsod.Netinet

structure L2Tag where
  tag : BitVec 32
  mask : BitVec 32

structure L2TagStack where
  tags : List L2Tag
  bound : tags.length ≤ 16

def L2Tag.masked (tag : L2Tag) : BitVec 32 := tag.tag &&& tag.mask

def L2Tag.isZeroMasked (tag : L2Tag) : Bool := tag.mask == 0

/-- The tags of a stack that may be missing. -/
def l2Tags : Option L2TagStack → List L2Tag
  | none => []
  | some stack => stack.tags

def tagcmpLoop (first second : List L2Tag) : Nat :=
  match _ : first.dropWhile L2Tag.isZeroMasked, second.dropWhile L2Tag.isZeroMasked with
  | [], [] => 0
  | [], _ :: _ | _ :: _, [] => 1
  | tag :: first', other :: second' =>
      if tag.masked ≠ other.masked then 1 else tagcmpLoop first' second'
termination_by first.length
decreasing_by
  have shorter := (List.dropWhile_sublist L2Tag.isZeroMasked (l := first)).length_le
  rw [‹first.dropWhile L2Tag.isZeroMasked = tag :: first'›, List.length_cons] at shorter
  exact shorter

def inPromiscTagcmp (first second : Option L2TagStack) : Nat :=
  if (l2Tags first).length + (l2Tags second).length = 0 then 0
  else tagcmpLoop (l2Tags first) (l2Tags second)

def rotl32 (x : BitVec 32) (r : Nat) : BitVec 32 := x <<< r ||| x >>> (32 - r)

def fmix32 (h : BitVec 32) : BitVec 32 :=
  let h := h ^^^ h >>> 16
  let h := h * 0x85ebca6b
  let h := h ^^^ h >>> 13
  let h := h * 0xc2b2ae35
  h ^^^ h >>> 16

def hashBlock (h1 block : BitVec 32) : BitVec 32 :=
  let k1 := rotl32 (block * 0xcc9e2d51) 15 * 0x1b873593
  rotl32 (h1 ^^^ k1) 13 * 5 + 0xe6546b64

def hashTag (state : BitVec 32 × Nat) (tag : L2Tag) : BitVec 32 × Nat :=
  if tag.mask ≠ 0 then (hashBlock state.1 tag.masked, state.2) else (state.1, state.2 - 1)

def inPromiscHash32 (tags : List L2Tag) (seed : BitVec 32) : BitVec 32 :=
  let hashed := tags.foldl hashTag (seed, tags.length)
  fmix32 (hashed.1 ^^^ BitVec.ofNat 32 hashed.2 <<< 2)

def uinetL2tagstackCmp (first second : Option L2TagStack) : Nat := inPromiscTagcmp first second

def uinetL2tagstackHash (stack : L2TagStack) : BitVec 32 :=
  if stack.tags.length ≠ 0 then inPromiscHash32 stack.tags 0 else 0

/-- What a stack says: its tags under their masks, without those whose mask is zero. -/
def effective (tags : List L2Tag) : List (BitVec 32) :=
  (tags.filter fun tag => !tag.isZeroMasked).map L2Tag.masked

theorem effective_eq (tags : List L2Tag) : effective tags =
    match tags.dropWhile L2Tag.isZeroMasked with
    | [] => []
    | tag :: rest => tag.masked :: effective rest := by
  induction tags with
  | nil => rfl
  | cons tag tags ih =>
    unfold effective at ih ⊢
    cases zero : tag.isZeroMasked with
    | true => rw [List.filter_cons_of_neg (by simp [zero]), List.dropWhile_cons_of_pos zero, ih]
    | false =>
      rw [List.filter_cons_of_pos (by simp [zero]), List.dropWhile_cons_of_neg (by simp [zero]),
        List.map_cons]

theorem tagcmpLoop_eq_zero_iff (first second : List L2Tag) :
    tagcmpLoop first second = 0 ↔ effective first = effective second := by
  fun_induction tagcmpLoop first second with
  | case1 first second left right => simp [effective_eq first, effective_eq second, left, right]
  | case2 first second _ _ left right => simp [effective_eq first, effective_eq second, left, right]
  | case3 first second _ _ left right => simp [effective_eq first, effective_eq second, left, right]
  | case4 first second tag first' other second' left right different =>
    simp [effective_eq first, effective_eq second, left, right, different]
  | case5 first second tag first' other second' left right same ih =>
    simp only [effective_eq first, effective_eq second, left, right, List.cons.injEq]
    rw [ih]
    exact (and_iff_right (not_not.mp same)).symm

theorem tagcmp_eq_zero_iff (first second : Option L2TagStack) :
    inPromiscTagcmp first second = 0 ↔ effective (l2Tags first) = effective (l2Tags second) := by
  unfold inPromiscTagcmp
  split
  next empty =>
    obtain ⟨left, right⟩ := Nat.add_eq_zero_iff.mp empty
    simp [List.length_eq_zero_iff.mp left, List.length_eq_zero_iff.mp right]
  next => exact tagcmpLoop_eq_zero_iff ..

theorem foldl_hashTag (tags : List L2Tag) (seed : BitVec 32) (before : Nat) :
    tags.foldl hashTag (seed, before + tags.length) =
      ((effective tags).foldl hashBlock seed, before + (effective tags).length) := by
  induction tags generalizing seed before with
  | nil => rfl
  | cons tag tags ih =>
    rw [List.foldl_cons, hashTag]
    by_cases zero : tag.mask = 0
    · have skipped : effective (tag :: tags) = effective tags := by
        simp [effective, L2Tag.isZeroMasked, zero]
      rw [if_neg (not_not.mpr zero), skipped]
      exact ih seed before
    · have kept : effective (tag :: tags) = tag.masked :: effective tags := by
        unfold effective
        rw [List.filter_cons_of_pos (by simpa [L2Tag.isZeroMasked] using zero), List.map_cons]
      have shifted := ih (hashBlock seed tag.masked) (before + 1)
      rw [Nat.add_right_comm, Nat.add_right_comm before 1] at shifted
      rw [if_pos zero, kept, List.foldl_cons, List.length_cons, List.length_cons]
      dsimp only
      rw [← Nat.add_assoc, ← Nat.add_assoc, shifted]

theorem hash32_eq (tags : List L2Tag) (seed : BitVec 32) : inPromiscHash32 tags seed =
    fmix32 ((effective tags).foldl hashBlock seed ^^^
      BitVec.ofNat 32 (effective tags).length <<< 2) := by
  have folded := foldl_hashTag tags seed 0
  simp only [Nat.zero_add] at folded
  simp only [inPromiscHash32, folded]

theorem hash32_of_effective_nil {tags : List L2Tag} (empty : effective tags = [])
    (seed : BitVec 32) : inPromiscHash32 tags seed = fmix32 seed := by
  rw [hash32_eq, empty]
  simp

theorem l2tagstackHash_eq (stack : L2TagStack) :
    uinetL2tagstackHash stack = inPromiscHash32 stack.tags 0 := by
  unfold uinetL2tagstackHash
  split
  next => rfl
  next empty =>
    rw [List.length_eq_zero_iff.mp (not_not.mp empty)]
    rfl

/-- Equality of what the stacks say, and a hash that respects it. -/
theorem tagcmp_equivalence :
    (∀ first second, inPromiscTagcmp first second = 0 ↔
      effective (l2Tags first) = effective (l2Tags second)) ∧
    Equivalence (fun first second => inPromiscTagcmp first second = 0) ∧
    ∀ first second : L2TagStack, uinetL2tagstackCmp (some first) (some second) = 0 →
      uinetL2tagstackHash first = uinetL2tagstackHash second := by
  refine ⟨tagcmp_eq_zero_iff, ⟨?_, ?_, ?_⟩, fun first second same => ?_⟩
  · exact fun stack => (tagcmp_eq_zero_iff stack stack).mpr rfl
  · intro first second same
    rw [tagcmp_eq_zero_iff] at same ⊢
    exact same.symm
  · intro first second third left right
    rw [tagcmp_eq_zero_iff] at left right ⊢
    exact left.trans right
  · have equal : effective first.tags = effective second.tags := (tagcmp_eq_zero_iff ..).mp same
    rw [l2tagstackHash_eq, l2tagstackHash_eq, hash32_eq, hash32_eq, equal]

end Libunsod.Netinet
