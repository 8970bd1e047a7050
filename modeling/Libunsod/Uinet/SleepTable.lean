import Libunsod.Uinet.SleepCore
import Mathlib.Data.Finset.Card

/-!
The table of sleep entries. The entry of a channel is in the table as long as a thread uses it,
and there is at most one, so a lookup finds the entry that the threads of the channel use.
-/

namespace Libunsod.Uinet

open Function (update update_of_ne update_self)
open Synch

/-- The channel and the entry on which a thread is registered. -/
def SleepPc.use : SleepPc → Option (Nat × Nat)
  | .registered args se | .timed args se | .waiting args se | .relocking args se _
  | .leaving args se _ => some (args.ident, se)
  | .running | .entering _ | .napping _ | .returned _ _ => none

def Users (uses : Nat → Option (Nat × Nat)) (key : Nat × Nat) (count : Nat) : Prop :=
  ∃ threads : Finset Nat, (∀ thread, thread ∈ threads ↔ uses thread = some key) ∧
    threads.card = count

section Entries

variable {se ident other thread count : Nat} {key : Nat × Nat} {uses : Nat → Option (Nat × Nat)}

theorem Users.keep (users : Users uses key count) {use : Option (Nat × Nat)}
    (before : uses thread ≠ some key) (after : use ≠ some key) :
    Users (update uses thread use) key count := by
  obtain ⟨threads, mem, card⟩ := users
  refine ⟨threads, fun user => ?_, card⟩
  rw [mem]
  by_cases self : user = thread
  · subst self
    rw [update_self]
    exact iff_of_false before after
  · rw [update_of_ne self]

theorem Users.join (users : Users uses key count) (outside : uses thread = none) :
    Users (update uses thread (some key)) key (count + 1) := by
  obtain ⟨threads, mem, rfl⟩ := users
  have absent : thread ∉ threads := by
    rw [mem, outside]
    rintro ⟨⟩
  refine ⟨insert thread threads, fun user => ?_, Finset.card_insert_of_notMem absent⟩
  by_cases self : user = thread
  · simp [self]
  · simp [self, mem]

theorem Users.leave (users : Users uses key count) (inside : uses thread = some key) :
    Users (update uses thread none) key (count - 1) := by
  obtain ⟨threads, mem, rfl⟩ := users
  refine ⟨threads.erase thread, fun user => ?_, Finset.card_erase_of_mem ((mem thread).mpr inside)⟩
  by_cases self : user = thread
  · simp [self]
  · simp [self, mem]

theorem Users.eq_zero_iff (users : Users uses key count) :
    count = 0 ↔ ∀ thread, uses thread ≠ some key := by
  obtain ⟨threads, mem, rfl⟩ := users
  rw [Finset.card_eq_zero, Finset.eq_empty_iff_forall_notMem]
  exact forall_congr' fun thread => not_congr (mem thread)

structure Entries (config : SynchConfig) (active : Nat → List Nat) (chans waiters : Nat → Nat)
    (fresh : Nat) (uses : Nat → Option (Nat × Nat)) : Prop where
  nodup : ∀ bucket, ((active bucket).map chans).Nodup
  placed : ∀ bucket, ∀ se ∈ active bucket, se < fresh ∧ seHash config (chans se) = bucket
  counted : ∀ bucket, ∀ se ∈ active bucket, waiters se ≠ 0 ∧ Users uses (chans se, se) (waiters se)
  linked : ∀ thread ident se, uses thread = some (ident, se) →
    se ∈ active (seHash config ident) ∧ chans se = ident

variable {config : SynchConfig} {active : Nat → List Nat} {chans waiters : Nat → Nat} {fresh : Nat}

theorem Entries.unique (entries : Entries config active chans waiters fresh uses)
    {bucket : Nat} (first : se ∈ active bucket) (second : other ∈ active bucket)
    (same : chans se = chans other) : se = other :=
  List.inj_on_of_nodup_map (entries.nodup bucket) first second same

theorem Entries.join (entries : Entries config active chans waiters fresh uses)
    (outside : uses thread = none) (member : se ∈ active (seHash config (chans se))) :
    Entries config active chans (update waiters se (waiters se + 1)) fresh
      (update uses thread (some (chans se, se))) := by
  refine ⟨entries.nodup, entries.placed, fun bucket other listed => ?_,
    fun user ident entry used => ?_⟩
  · obtain ⟨some_, users⟩ := entries.counted bucket other listed
    by_cases same : other = se
    · subst same
      rw [update_self]
      exact ⟨Nat.succ_ne_zero _, users.join outside⟩
    · rw [update_of_ne same]
      refine ⟨some_, users.keep (by simp [outside]) ?_⟩
      simp [Ne.symm same]
  · by_cases self : user = thread
    · subst self
      rw [update_self] at used
      cases used
      exact ⟨member, rfl⟩
    · rw [update_of_ne self] at used
      exact entries.linked user ident entry used

theorem Entries.alloc (entries : Entries config active chans waiters fresh uses)
    (outside : uses thread = none) (absent : ∀ se ∈ active (seHash config ident), chans se ≠ ident) :
    Entries config
      (update active (seHash config ident) (fresh :: active (seHash config ident)))
      (update chans fresh ident) (update waiters fresh 1) (fresh + 1)
      (update uses thread (some (ident, fresh))) := by
  have older : ∀ bucket, ∀ se ∈ active bucket, se ≠ fresh := fun bucket se member =>
    Nat.ne_of_lt (entries.placed bucket se member).1
  have mapped : ∀ bucket, (active bucket).map (update chans fresh ident) =
      (active bucket).map chans := fun bucket =>
    List.map_congr_left fun se member => update_of_ne (older bucket se member) ..
  have listed : ∀ bucket se, se ∈ update active (seHash config ident)
      (fresh :: active (seHash config ident)) bucket →
      (se = fresh ∧ bucket = seHash config ident) ∨ se ≠ fresh ∧ se ∈ active bucket := by
    intro bucket se member
    by_cases here : bucket = seHash config ident
    · subst here
      rw [update_self] at member
      exact (List.mem_cons.mp member).imp (⟨·, rfl⟩) fun old => ⟨older _ se old, old⟩
    · rw [update_of_ne here] at member
      exact .inr ⟨older _ se member, member⟩
  refine ⟨fun bucket => ?_, fun bucket se member => ?_, fun bucket se member => ?_,
    fun user channel entry used => ?_⟩
  · by_cases here : bucket = seHash config ident
    · subst here
      rw [update_self, List.map_cons, mapped, update_self]
      refine List.nodup_cons.mpr ⟨fun member => ?_, entries.nodup _⟩
      obtain ⟨se, old, same⟩ := List.mem_map.mp member
      exact absent se old same
    · rw [update_of_ne here, mapped]
      exact entries.nodup bucket
  · rcases listed bucket se member with ⟨rfl, rfl⟩ | ⟨older, old⟩
    · rw [update_self]
      exact ⟨Nat.lt_succ_self _, rfl⟩
    · rw [update_of_ne older]
      exact ⟨Nat.lt_succ_of_lt (entries.placed bucket se old).1, (entries.placed bucket se old).2⟩
  · rcases listed bucket se member with ⟨rfl, rfl⟩ | ⟨older', old⟩
    · rw [update_self, update_self]
      refine ⟨Nat.one_ne_zero, Users.join ⟨∅, fun user => ?_, rfl⟩ outside⟩
      refine iff_of_false (by simp) fun used => ?_
      exact older _ _ (entries.linked user ident se used).1 rfl
    · rw [update_of_ne older', update_of_ne older']
      obtain ⟨some_, users⟩ := entries.counted bucket se old
      refine ⟨some_, users.keep (by simp [outside]) ?_⟩
      simp [Ne.symm older']
  · by_cases self : user = thread
    · subst self
      rw [update_self] at used
      cases used
      rw [update_self, update_self]
      exact ⟨List.mem_cons_self, rfl⟩
    · rw [update_of_ne self] at used
      obtain ⟨member, same⟩ := entries.linked user channel entry used
      rw [update_of_ne (older _ entry member)]
      refine ⟨?_, same⟩
      by_cases here : seHash config channel = seHash config ident
      · rw [here] at member ⊢
        rw [update_self]
        exact List.mem_cons_of_mem _ member
      · rw [update_of_ne here]
        exact member

theorem Entries.left (entries : Entries config active chans waiters fresh uses)
    (inside : uses thread = some (ident, se)) {bucket : Nat} (listed : other ∈ active bucket)
    (more : other = se → waiters se - 1 ≠ 0) :
    update waiters se (waiters se - 1) other ≠ 0 ∧
      Users (update uses thread none) (chans other, other)
        (update waiters se (waiters se - 1) other) := by
  obtain ⟨some_, users⟩ := entries.counted bucket other listed
  have chan := (entries.linked thread ident se inside).2
  by_cases same : other = se
  · subst same
    rw [update_self]
    exact ⟨more rfl, users.leave (inside.trans (by rw [chan]))⟩
  · rw [update_of_ne same]
    refine ⟨some_, users.keep ?_ (by simp)⟩
    simp [inside, Ne.symm same]

theorem Entries.stays (entries : Entries config active chans waiters fresh uses)
    {user : Nat} (used : update uses thread none user = some key) :
    user ≠ thread ∧ uses user = some key ∧ key.2 ∈ active (seHash config key.1) ∧
      chans key.2 = key.1 := by
  have different : user ≠ thread := by
    rintro rfl
    rw [update_self] at used
    cases used
  rw [update_of_ne different] at used
  exact ⟨different, used, entries.linked user _ _ used⟩

theorem Entries.leave (entries : Entries config active chans waiters fresh uses)
    (inside : uses thread = some (ident, se)) (more : waiters se - 1 ≠ 0) :
    Entries config active chans (update waiters se (waiters se - 1)) fresh
      (update uses thread none) :=
  ⟨entries.nodup, entries.placed, fun _ _ listed => entries.left inside listed fun _ => more,
    fun _ _ _ used => (entries.stays used).2.2⟩

theorem Entries.mem_erase (entries : Entries config active chans waiters fresh uses) {bucket : Nat} :
    other ∈ update active (seHash config (chans se))
      ((active (seHash config (chans se))).erase se) bucket ↔ other ∈ active bucket ∧ other ≠ se := by
  by_cases here : bucket = seHash config (chans se)
  · subst here
    rw [update_self, ((entries.nodup _).of_map _).mem_erase_iff]
    exact And.comm
  · rw [update_of_ne here]
    refine ⟨fun listed => ⟨listed, ?_⟩, And.left⟩
    rintro rfl
    exact here (entries.placed bucket other listed).2.symm

theorem Entries.last (entries : Entries config active chans waiters fresh uses)
    (inside : uses thread = some (ident, se)) (last : waiters se - 1 = 0) :
    Entries config
      (update active (seHash config (chans se))
        ((active (seHash config (chans se))).erase se))
      chans (update waiters se (waiters se - 1)) fresh
      (update uses thread none) := by
  obtain ⟨member, chan⟩ := entries.linked thread ident se inside
  have users := (entries.counted _ se member).2.leave (inside.trans (by rw [chan]))
  refine ⟨fun bucket => ?_, fun bucket other listed => ?_, fun bucket other listed => ?_,
    fun user channel entry used => ?_⟩
  · by_cases here : bucket = seHash config (chans se)
    · subst here
      rw [update_self]
      exact (entries.nodup _).sublist (List.erase_sublist.map _)
    · rw [update_of_ne here]
      exact entries.nodup bucket
  · exact entries.placed bucket other (entries.mem_erase.mp listed).1
  · obtain ⟨listed, different⟩ := entries.mem_erase.mp listed
    exact entries.left inside listed fun same => absurd same different
  · obtain ⟨different, used', linked, same⟩ := entries.stays used
    refine ⟨entries.mem_erase.mpr ⟨linked, ?_⟩, same⟩
    rintro rfl
    refine users.eq_zero_iff.mp last user ?_
    rw [used]
    exact congrArg some (Prod.ext same.symm rfl)

end Entries

variable {config : SynchConfig} {synch next : Synch} {pc : SleepPc} {args : SleepArgs}
  {se chan thread : Nat} {label : SleepStep}

namespace Synch

def uses (synch : Synch) : Nat → Option (Nat × Nat) := SleepPc.use ∘ synch.pcs

def Table (config : SynchConfig) (synch : Synch) : Prop :=
  Entries config synch.seActive synch.seChan synch.seWaiters synch.fresh synch.uses

end Synch

theorem synch_table_start : Synch.start.Table config where
  nodup _ := List.nodup_nil
  placed _ _ member := by cases member
  counted _ _ member := by cases member
  linked _ _ _ used := by cases used

theorem uses_goto (synch : Synch) (thread : Nat) (pc : SleepPc) :
    (synch.goto thread pc).uses = update synch.uses thread pc.use :=
  Function.comp_update ..

theorem uses_kept {old : SleepPc} (at_ : synch.pcs thread = old) (same : pc.use = old.use) :
    (synch.goto thread pc).uses = synch.uses := by
  rw [uses_goto, same, ← at_]
  exact Function.update_eq_self ..

/-- A step that leaves the entries and their users alone. -/
def Synch.Keeps (synch next : Synch) : Prop :=
  next.uses = synch.uses ∧ ∃ clock pcs owner slept woken, next =
    { synch with clock := clock, pcs := pcs, owner := owner, slept := slept, woken := woken }

theorem Synch.Keeps.table (keeps : synch.Keeps next) (table : synch.Table config) :
    next.Table config := by
  obtain ⟨uses, clock, pcs, owner, slept, woken, rfl⟩ := keeps
  unfold Synch.Table
  rw [uses]
  exact table

theorem seLookup_some (found : synch.seLookup config chan = some se) :
    se ∈ synch.seActive (seHash config chan) ∧ synch.seChan se = chan :=
  ⟨List.mem_of_find?_eq_some found, by simpa using List.find?_some found⟩

theorem seLookup_none (absent : synch.seLookup config chan = none) :
    ∀ se ∈ synch.seActive (seHash config chan), synch.seChan se ≠ chan := by
  intro se member
  simpa using List.find?_eq_none.mp absent se member

theorem Synch.Table.lookup (table : synch.Table config) (used : synch.uses thread = some (chan, se)) :
    synch.seLookup config chan = some se := by
  obtain ⟨member, same⟩ := table.linked thread chan se used
  cases found : synch.seLookup config chan with
  | none => exact absurd same (seLookup_none found se member)
  | some other =>
    obtain ⟨listed, sameOther⟩ := seLookup_some found
    rw [table.unique listed member (sameOther.trans same.symm)]

theorem Synch.Table.register (table : synch.Table config) (outside : synch.uses thread = none) :
    (synch.register config thread args).Table config := by
  unfold Synch.register
  split
  next se found =>
    obtain ⟨member, same⟩ := seLookup_some found
    have joined := table.join outside (same.symm ▸ member)
    have moved : (synch.goto thread (.registered args se)).uses =
        update synch.uses thread (some (args.ident, se)) := uses_goto ..
    rw [same, ← moved] at joined
    exact joined
  next absent =>
    unfold Synch.Table
    rw [uses_goto]
    exact table.alloc outside (seLookup_none absent)

theorem Synch.Table.free (table : synch.Table config) (inside : synch.uses thread = some (chan, se))
    (outside : pc.use = none) : ((synch.seFree config se).goto thread pc).Table config := by
  unfold seFree Synch.Table
  rw [uses_goto, outside]
  simp only
  split
  next last => exact table.last inside last
  next more => exact table.leave inside more

theorem broadcast_uses (synch : Synch) (se : Nat) : (synch.broadcast se).uses = synch.uses := by
  funext thread
  simp only [Synch.uses, Function.comp_apply, broadcast]
  split
  next args cond at_ =>
    rw [at_]
    split <;> rfl
  next => rfl

theorem step_entries (enabled : synch.Enabled config label) :
    (∃ thread args, label = .register thread ∧ synch.uses thread = none ∧
      synch.step config label = synch.register config thread args) ∨
    (∃ thread chan se pc, label = .free thread ∧ synch.uses thread = some (chan, se) ∧
      pc.use = none ∧ synch.step config label = (synch.seFree config se).goto thread pc) ∨
    synch.Keeps (synch.step config label) := by
  cases label with
  | acquire _ _ | release _ _ | tick => exact .inr (.inr ⟨rfl, _, _, _, _, _, rfl⟩)
  | call thread args =>
    simp only [Synch.step, sleep]
    split
    · exact .inr (.inr ⟨uses_kept enabled.1 rfl, _, _, _, _, _, rfl⟩)
    · exact .inr (.inr ⟨uses_kept enabled.1 (by split <;> rfl), _, _, _, _, _, rfl⟩)
  | register thread =>
    obtain ⟨args, at_⟩ := enabled
    simp only [Synch.step, at_]
    exact .inl ⟨thread, args, rfl, congrArg SleepPc.use at_, rfl⟩
  | readClock thread =>
    obtain ⟨args, se, at_⟩ := enabled
    simp only [Synch.step, at_]
    exact .inr (.inr ⟨uses_kept at_ rfl, _, _, _, _, _, rfl⟩)
  | wait thread =>
    obtain ⟨args, se, at_⟩ := enabled
    simp only [Synch.step, at_]
    split
    · exact .inr (.inr ⟨uses_kept at_ rfl, _, _, _, _, _, rfl⟩)
    · exact .inr (.inr ⟨rfl, _, _, _, _, _, rfl⟩)
  | timeout thread =>
    obtain ⟨args, se, at_, -⟩ := enabled
    simp only [Synch.step, at_]
    exact .inr (.inr ⟨uses_kept at_ rfl, _, _, _, _, _, rfl⟩)
  | relock thread =>
    obtain ⟨args, se, rv, lock, at_, locked, -⟩ := enabled
    simp only [Synch.step, at_, locked]
    exact .inr (.inr ⟨uses_kept at_ rfl, _, _, _, _, _, rfl⟩)
  | free thread =>
    obtain ⟨args, se, rv, at_⟩ := enabled
    simp only [Synch.step, at_]
    exact .inr (.inl ⟨thread, args.ident, se, _, rfl, congrArg SleepPc.use at_, rfl, rfl⟩)
  | napped thread =>
    obtain ⟨args, at_, -⟩ := enabled
    simp only [Synch.step, at_]
    exact .inr (.inr ⟨uses_kept at_ rfl, _, _, _, _, _, rfl⟩)
  | resume thread =>
    obtain ⟨args, rv, at_⟩ := enabled
    exact .inr (.inr ⟨uses_kept at_ rfl, _, _, _, _, _, rfl⟩)
  | wakeup chan =>
    simp only [Synch.step, Synch.wakeup]
    split
    · exact .inr (.inr ⟨broadcast_uses .., _, _, _, _, _, rfl⟩)
    · exact .inr (.inr ⟨rfl, _, _, _, _, _, rfl⟩)

theorem Synch.Table.step (table : synch.Table config) (enabled : synch.Enabled config label) :
    (synch.step config label).Table config := by
  rcases step_entries enabled with ⟨thread, args, -, outside, moved⟩ |
    ⟨thread, chan, se, pc, -, inside, outside, moved⟩ | keeps
  · rw [moved]
    exact table.register outside
  · rw [moved]
    exact table.free inside outside
  · exact keeps.table table

end Libunsod.Uinet
