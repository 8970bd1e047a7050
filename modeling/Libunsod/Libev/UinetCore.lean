import Mathlib.Data.List.Nodup

/-!
The data that the socket watchers of `ev.c` share: the event bits and flags of
`pend_flags`, the watchers, and the `unsigned short` counters of `ev_uinet_ctx`.
-/

namespace Libunsod.Libev

variable {count : Nat}

inductive Direction where
  | read
  | write
  deriving DecidableEq

abbrev Events := Direction → Bool

def noEvents : Events := fun _ => false

def Events.only (dir : Direction) : Events := fun other => decide (other = dir)

def Events.union (left right : Events) : Events := fun dir => left dir || right dir

def Events.inter (left right : Events) : Events := fun dir => left dir && right dir

def Events.any (events : Events) : Bool := events .read || events .write

structure PendFlags where
  events : Events
  pending : Bool
  inhibited : Bool
  stsReady : Bool

def evNone : PendFlags := ⟨noEvents, false, false, false⟩

structure EvUinet where
  ctx : Nat
  events : Events

def shortRange : Nat := 65536

def countUp (count : Nat) : Nat := (count + 1) % shortRange

def countDown (count : Nat) : Nat := (count + shortRange - 1) % shortRange

theorem countUp_eq (within : count + 1 < shortRange) : countUp count = count + 1 :=
  Nat.mod_eq_of_lt within

theorem countDown_eq (positive : 0 < count) (within : count < shortRange) :
    countDown count = count - 1 := by
  unfold countDown
  have shift : count + shortRange - 1 = count - 1 + shortRange := by omega
  rw [shift, Nat.add_mod_right, Nat.mod_eq_of_lt (by omega)]

theorem filter_ne_length {elems : List Nat} {elem : Nat} (keep : Nat → Bool)
    (nodup : elems.Nodup) (member : elem ∈ elems) (kept : keep elem = true) :
    (elems.filter keep).length =
      (elems.filter fun other => keep other && decide (other ≠ elem)).length + 1 := by
  have split : (elems.filter fun other => keep other && decide (other ≠ elem)) =
      (elems.filter keep).erase elem := by
    rw [(nodup.filter keep).erase_eq_filter, List.filter_filter]
    refine List.filter_congr fun other _ => ?_
    rw [Bool.and_comm]
    simp [bne, Bool.beq_eq_decide_eq]
  have inside : elem ∈ elems.filter keep := List.mem_filter.mpr ⟨member, kept⟩
  have positive := List.length_pos_of_mem inside
  rw [split, List.length_erase_of_mem inside]
  omega

end Libunsod.Libev
