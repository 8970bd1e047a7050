import Libunsod.Vm.UmaCore
import Mathlib.Data.List.Perm.Subperm

/-!
The slots of the tables of caches. Choosing a slot and marking it are two sections, so a
second constructor may choose the slot of a first one that has not marked it yet. Where a
lower slot has become free for it, zones own different slots, the flags and the counter
say which, and the caches of a thread have items of one zone each.
-/

namespace Libunsod.Vm

open Runs
open Function (update update_apply update_of_ne update_self)
open Uma

variable {zone : Zone}

variable {phase : ZonePhase}

def ZonePhase.Owns : ZonePhase → Prop
  | .unborn | .chosen | .dead => False
  | _ => True

def ZonePhase.Holding (thread : Nat) : ZonePhase → Prop
  | .live | .inDtor => True
  | .draining rest => thread ∈ rest
  | _ => False

theorem ZonePhase.Owns.allocated (owns : phase.Owns) : phase.allocated = true := by
  cases phase with
  | unborn | chosen | dead => exact owns.elim
  | live | inDtor | draining | cachesDrained | bucketsDrained => rfl

theorem ZonePhase.Holding.owns {thread : Nat} (holding : phase.Holding thread) : phase.Owns := by
  cases phase with
  | live | inDtor | draining => trivial
  | unborn | chosen | cachesDrained | bucketsDrained | dead => exact holding.elim

theorem ZonePhase.owns_of_allocated (allocated : phase.allocated = true)
    (marked : phase ≠ .chosen) : phase.Owns := by
  cases phase with
  | unborn | dead => cases allocated
  | chosen => exact absurd rfl marked
  | live | inDtor | draining | cachesDrained | bucketsDrained => trivial

namespace Uma

structure Slots (uma : Uma) : Prop where
  distinct : ∀ zone other, (uma.zones zone).phase.allocated = true →
    (uma.zones other).phase.allocated = true →
    (uma.zones zone).cacheidx = (uma.zones other).cacheidx → zone = other
  bound : ∀ zone, (uma.zones zone).phase.allocated = true →
    (uma.zones zone).cacheidx < umaCacheTableSlots
  flagged : ∀ slot, (uma.slotFlags slot).inuse = true ↔
    ∃ zone, (uma.zones zone).phase.Owns ∧ (uma.zones zone).cacheidx = slot
  counted : ∃ owned : List Nat, owned.Nodup ∧
    (∀ slot, slot ∈ owned ↔ (uma.slotFlags slot).inuse = true) ∧
    uma.slotsAvailable + owned.length = umaCacheTableSlots
  undestroyed : ∀ zone, (uma.zones zone).phase = .live →
    (uma.slotFlags (uma.zones zone).cacheidx).indtor = false

end Uma

open Uma

variable {uma next : Uma} {number : Nat}

section Slots

theorem slots_start : Uma.start.Slots where
  distinct _ _ allocated := by cases allocated
  bound _ allocated := by cases allocated
  flagged _ := iff_of_false (by rintro ⟨⟩) (by rintro ⟨_, owns, -⟩; exact owns)
  counted := ⟨[], List.nodup_nil, fun _ => iff_of_false (by rintro ⟨⟩) (by rintro ⟨⟩), rfl⟩
  undestroyed _ live := by cases live

theorem Uma.Slots.apart (slots : uma.Slots) {other : Nat} (different : other ≠ number)
    (allocated : (uma.zones number).phase.allocated = true)
    (alsoAllocated : (uma.zones other).phase.allocated = true) :
    (uma.zones other).cacheidx ≠ (uma.zones number).cacheidx :=
  fun same => different (slots.distinct other number alsoAllocated allocated same)

theorem setZone_here (uma : Uma) (number : Nat) (zone : Zone) :
    (uma.setZone number zone).zones number = zone := update_self ..

theorem setZone_there (uma : Uma) (zone : Zone) {other : Nat} (different : other ≠ number) :
    (uma.setZone number zone).zones other = uma.zones other := update_of_ne different ..

theorem Uma.Slots.setZone (slots : uma.Slots)
    (apart : zone.phase.allocated = true → zone.cacheidx < umaCacheTableSlots ∧
      ∀ other, other ≠ number → (uma.zones other).phase.allocated = true →
        (uma.zones other).cacheidx ≠ zone.cacheidx)
    (owns : ∀ slot, (uma.zones number).phase.Owns ∧ (uma.zones number).cacheidx = slot ↔
      zone.phase.Owns ∧ zone.cacheidx = slot)
    (live : zone.phase = .live → (uma.slotFlags zone.cacheidx).indtor = false) :
    (uma.setZone number zone).Slots := by
  refine ⟨fun one other first second same => ?_, fun one is => ?_, fun slot => ?_, slots.counted,
    fun one is => ?_⟩
  · by_cases isOne : one = number
    · by_cases isOther : other = number
      · rw [isOne, isOther]
      · rw [isOne, setZone_here] at first same
        rw [setZone_there uma zone isOther] at second same
        exact absurd same.symm ((apart first).2 other isOther second)
    · rw [setZone_there uma zone isOne] at first same
      by_cases isOther : other = number
      · rw [isOther, setZone_here] at second same
        exact absurd same ((apart second).2 one isOne first)
      · rw [setZone_there uma zone isOther] at second same
        exact slots.distinct one other first second same
  · by_cases isOne : one = number
    · rw [isOne, setZone_here] at is ⊢
      exact (apart is).1
    · rw [setZone_there uma zone isOne] at is ⊢
      exact slots.bound one is
  · refine (slots.flagged slot).trans (exists_congr fun one => ?_)
    by_cases isOne : one = number
    · rw [isOne, setZone_here]
      exact owns slot
    · rw [setZone_there uma zone isOne]
  · by_cases isOne : one = number
    · rw [isOne, setZone_here] at is ⊢
      exact live is
    · rw [setZone_there uma zone isOne] at is ⊢
      exact slots.undestroyed one is

theorem Uma.Slots.keep (slots : uma.Slots)
    (allocated : zone.phase.allocated = true → (uma.zones number).phase.allocated = true)
    (owns : (uma.zones number).phase.Owns ↔ zone.phase.Owns)
    (cacheidx : zone.cacheidx = (uma.zones number).cacheidx)
    (live : zone.phase = .live → (uma.zones number).phase = .live) :
    (uma.setZone number zone).Slots := by
  refine slots.setZone (fun is => ?_) (fun slot => ?_) fun is => ?_
  · rw [cacheidx]
    exact ⟨slots.bound number (allocated is), fun _ different =>
      slots.apart different (allocated is)⟩
  · rw [owns, cacheidx]
  · rw [cacheidx]
    exact slots.undestroyed number (live is)

theorem Uma.Slots.freeSlot (slots : uma.Slots) (available : uma.slotsAvailable ≠ 0) :
    ∃ slot < umaCacheTableSlots, uma.freeSlot = some slot ∧
      (uma.slotFlags slot).inuse = false ∧
      ∀ lower < slot, (uma.slotFlags lower).inuse = true := by
  obtain ⟨owned, nodup, member, count⟩ := slots.counted
  have found : ∃ slot, uma.freeSlot = some slot := by
    rw [← Option.isSome_iff_exists, Uma.freeSlot, List.find?_isSome]
    by_contra none
    have inside : List.range umaCacheTableSlots ⊆ owned := by
      intro slot within
      rw [member]
      by_contra clear
      exact none ⟨slot, within, by simpa using clear⟩
    have short := (List.subperm_of_subset List.nodup_range inside).length_le
    rw [List.length_range] at short
    omega
  obtain ⟨slot, found⟩ := found
  have facts := List.find?_range_eq_some.mp found
  refine ⟨slot, List.mem_range.mp facts.2.1, found, by simpa using facts.1, fun lower below => ?_⟩
  simpa using facts.2.2 lower below

def Uma.Undisturbed (uma : Uma) : Prop :=
  ∀ zone, (uma.zones zone).phase = .chosen →
    ∃ slot < (uma.zones zone).cacheidx, (uma.slotFlags slot).inuse = false

theorem Uma.Slots.kill (slots : uma.Slots) (unmarked : ¬ (uma.zones number).phase.Owns) :
    (uma.setPhase number .dead).Slots :=
  slots.keep (by rintro ⟨⟩) (iff_of_false unmarked id) rfl (by rintro ⟨⟩)

theorem Uma.Slots.choose (slots : uma.Slots) (unborn : (uma.zones number).phase = .unborn)
    (undisturbed : uma.Undisturbed) : (uma.zoneCtorChoose number).Slots := by
  have unmarked : ¬ (uma.zones number).phase.Owns := by
    rw [unborn]
    exact id
  unfold zoneCtorChoose
  split
  next none => exact slots.kill unmarked
  next some =>
    obtain ⟨slot, bound, found, clear, lowest⟩ := slots.freeSlot some
    rw [found, Option.getD_some]
    refine slots.setZone (fun _ => ⟨bound, ?_⟩) (fun position => ?_) (by rintro ⟨⟩)
    · rintro other - allocated rfl
      by_cases chosen : (uma.zones other).phase = .chosen
      · obtain ⟨lower, below, free⟩ := undisturbed other chosen
        rw [lowest lower below] at free
        cases free
      · have owned := (slots.flagged _).mpr
          ⟨other, ZonePhase.owns_of_allocated allocated chosen, rfl⟩
        rw [clear] at owned
        cases owned
    · exact iff_of_false (fun both => unmarked both.1) fun both => both.1

theorem Uma.Slots.setFlags (slots : uma.Slots) {phase : ZonePhase} {flags : SlotFlags}
    {available : Nat} (allocated : (uma.zones number).phase.allocated = true)
    (owns : flags.inuse = true ↔ phase.Owns) (live : phase = .live → flags.indtor = false)
    (counted : ∃ owned : List Nat, owned.Nodup ∧ (∀ slot, slot ∈ owned ↔
      (update uma.slotFlags (uma.zones number).cacheidx flags slot).inuse = true) ∧
      available + owned.length = umaCacheTableSlots) :
    ({ (uma.setPhase number phase).setFlags (uma.zones number).cacheidx flags with
      slotsAvailable := available } : Uma).Slots := by
  have here : ((uma.setPhase number phase).zones number).phase = phase := by
    rw [setPhase, setZone_here]
  have there : ∀ other, other ≠ number →
      (uma.setPhase number phase).zones other = uma.zones other :=
    fun _ different => setZone_there uma _ different
  have cacheidx : ∀ other, ((uma.setPhase number phase).zones other).cacheidx =
      (uma.zones other).cacheidx := by
    intro other
    by_cases same : other = number
    · rw [same, setPhase, setZone_here]
    · rw [there other same]
  have before : ∀ other, ((uma.setPhase number phase).zones other).phase.allocated = true →
      (uma.zones other).phase.allocated = true := by
    intro other is
    by_cases same : other = number
    · rw [same]
      exact allocated
    · rw [there other same] at is
      exact is
  refine ⟨fun one other first second same => ?_, fun one is => ?_, fun slot => ?_, counted,
    fun one is => ?_⟩
  · exact slots.distinct one other (before one first) (before other second)
      ((cacheidx one).symm.trans (same.trans (cacheidx other)))
  · exact lt_of_eq_of_lt (cacheidx one) (slots.bound one (before one is))
  · show (update uma.slotFlags _ flags slot).inuse = true ↔ _
    by_cases own : slot = (uma.zones number).cacheidx
    · rw [own, update_self, owns]
      refine ⟨fun is => ⟨number, here.symm ▸ is, cacheidx number⟩, ?_⟩
      rintro ⟨one, is, same⟩
      have equal := slots.distinct one number (before one is.allocated) allocated
        ((cacheidx one).symm.trans same)
      exact here ▸ equal ▸ is
    · rw [update_of_ne own]
      refine (slots.flagged slot).trans (exists_congr fun one => ?_)
      by_cases same : one = number
      · subst same
        exact iff_of_false (fun both => own both.2.symm)
          fun both => own (both.2.symm.trans (cacheidx one))
      · exact there one same ▸ Iff.rfl
  · show (update uma.slotFlags _ flags
      ((uma.setPhase number phase).zones one).cacheidx).indtor = false
    rw [cacheidx one]
    by_cases same : one = number
    · rw [same, update_self]
      exact live (here.symm.trans (same ▸ is))
    · have liveBefore : (uma.zones one).phase = .live := there one same ▸ is
      have alsoAllocated : (uma.zones one).phase.allocated = true := by
        rw [liveBefore]
        rfl
      rw [update_of_ne (slots.apart same allocated alsoAllocated)]
      exact slots.undestroyed one liveBefore

theorem Uma.Slots.mark (slots : uma.Slots) (chosen : (uma.zones number).phase = .chosen) :
    (uma.zoneCtorMark number).Slots := by
  have allocated : (uma.zones number).phase.allocated = true := by
    rw [chosen]
    rfl
  obtain ⟨owned, nodup, member, count⟩ := slots.counted
  have fresh : (uma.zones number).cacheidx ∉ owned := by
    intro inside
    rw [member, slots.flagged] at inside
    obtain ⟨other, owns, same⟩ := inside
    have equal := slots.distinct other number owns.allocated allocated same
    rw [equal, chosen] at owns
    exact owns
  have inside : (uma.zones number).cacheidx :: owned ⊆ List.range umaCacheTableSlots := by
    intro slot within
    rw [List.mem_range]
    rcases List.mem_cons.mp within with rfl | old
    · exact slots.bound number allocated
    · rw [member, slots.flagged] at old
      obtain ⟨other, owns, rfl⟩ := old
      exact slots.bound other owns.allocated
  have nodupAll := List.nodup_cons.mpr ⟨fresh, nodup⟩
  have short := (List.subperm_of_subset nodupAll inside).length_le
  refine slots.setFlags allocated (iff_of_true rfl trivial) (fun _ => rfl)
    ⟨_, nodupAll, fun slot => ?_, ?_⟩
  · rw [update_apply, List.mem_cons]
    split
    next own => exact iff_of_true (.inl own) rfl
    next other => exact (or_iff_right other).trans (member slot)
  · rw [List.length_range, List.length_cons] at short
    rw [List.length_cons]
    unfold umaCacheTableSlots at *
    omega

theorem Uma.Slots.inuse (slots : uma.Slots) (owns : (uma.zones number).phase.Owns) :
    (uma.slotFlags (uma.zones number).cacheidx).inuse = true :=
  (slots.flagged _).mpr ⟨number, owns, rfl⟩

theorem Uma.Slots.destroy (slots : uma.Slots) (live : (uma.zones number).phase = .live) :
    (uma.zoneDtorFlag number).Slots := by
  have owns : (uma.zones number).phase.Owns := by
    rw [live]
    trivial
  obtain ⟨owned, nodup, member, count⟩ := slots.counted
  refine slots.setFlags owns.allocated (iff_of_true (slots.inuse owns) trivial) (by rintro ⟨⟩)
    ⟨owned, nodup, fun slot => ?_, count⟩
  rw [member, update_apply]
  split
  next own => rw [own]
  next other => rfl

theorem Uma.Slots.release (slots : uma.Slots)
    (drained : (uma.zones number).phase = .bucketsDrained) :
    (uma.zoneDtorRelease number).Slots := by
  have owns : (uma.zones number).phase.Owns := by
    rw [drained]
    trivial
  obtain ⟨owned, nodup, member, count⟩ := slots.counted
  have inside : (uma.zones number).cacheidx ∈ owned := (member _).mpr (slots.inuse owns)
  refine slots.setFlags owns.allocated (iff_of_false (by rintro ⟨⟩) id) (fun _ => rfl)
    ⟨owned.erase (uma.zones number).cacheidx, nodup.erase _, fun slot => ?_, ?_⟩
  · rw [nodup.mem_erase_iff, update_apply, member]
    split
    next own => exact iff_of_false (fun both => both.1 own) (by rintro ⟨⟩)
    next other => exact and_iff_right other
  · have positive := List.length_pos_of_mem inside
    rw [List.length_erase_of_mem inside]
    unfold umaCacheTableSlots at *
    omega

end Slots

end Libunsod.Vm
