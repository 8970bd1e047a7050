import Libunsod.Uinet.SleepTable

/-!
The contract of `_sleep`. `wakeup` reaches every thread that waits on the channel. A thread that
sleeps with a lock and without `PDROP` gets what the contract says; every other combination of
arguments breaks it.
-/

namespace Libunsod.Uinet

open Runs
open Function (update update_of_ne update_self)
open Synch

def SleepPc.args : SleepPc → Option SleepArgs
  | .running => none
  | .entering args | .registered args _ | .timed args _ | .waiting args _ | .relocking args _ _
  | .leaving args _ _ | .napping args | .returned args _ => some args

section

variable (config : SynchConfig)

def Outcome (woken : Bool) (slept clock : Nat) (args : SleepArgs) (rv : Nat) : Prop :=
  (rv = 0 ∧ woken = true) ∨
    (rv = ewouldblock ∧ woken = false ∧ args.timo ≠ 0 ∧ slept + nsecs config args.timo ≤ clock)

/-- What holds in a thread, of the locks it holds and of its sleep. -/
def LocalAt (held : Nat → Prop) (woken : Bool) (slept clock : Nat) : SleepPc → Prop
  | .running => True
  | .entering args | .registered args _ | .timed args _ =>
      (∃ lock, args.lock = some lock ∧ held lock) ∧ woken = false
  | .waiting args _ => (∃ lock, args.lock = some lock ∧ ¬held lock) ∧ woken = false
  | .relocking args _ rv =>
      (∃ lock, args.lock = some lock ∧ ¬held lock) ∧ Outcome config woken slept clock args rv
  | .leaving args _ rv =>
      (∃ lock, args.lock = some lock ∧ held lock) ∧ Outcome config woken slept clock args rv
  | .napping args => args.lock = none
  | .returned args rv =>
      ∀ lock, args.lock = some lock → held lock ∧ Outcome config woken slept clock args rv

def Synch.holds (synch : Synch) (thread lock : Nat) : Prop := synch.owner lock = some thread

def Synch.Local (synch : Synch) (thread : Nat) : Prop :=
  LocalAt config (synch.holds thread) (synch.woken thread) (synch.slept thread) synch.clock
    (synch.pcs thread)

end

variable {config : SynchConfig} {synch next : Synch} {pc : SleepPc} {args : SleepArgs}
  {se chan thread other rv lock slept clock : Nat} {held : Nat → Prop} {woken : Bool}
  {label : SleepStep}

theorem goto_same (synch : Synch) (thread : Nat) (pc : SleepPc) :
    (synch.goto thread pc).pcs thread = pc :=
  update_self ..

theorem Outcome.later (outcome : Outcome config woken slept clock args rv) :
    Outcome config woken slept (clock + 1) args rv := by
  rcases outcome with woken | ⟨timed, unwoken, timo, elapsed⟩
  · exact .inl woken
  · exact .inr ⟨timed, unwoken, timo, Nat.le_succ_of_le elapsed⟩

theorem LocalAt.later (local_ : LocalAt config held woken slept clock pc) :
    LocalAt config held woken slept (clock + 1) pc := by
  cases pc with
  | running | entering | registered | timed | waiting | napping => exact local_
  | relocking | leaving => exact ⟨local_.1, local_.2.later⟩
  | returned => exact fun lock isLock => ⟨(local_ lock isLock).1, (local_ lock isLock).2.later⟩

theorem Synch.Local.at_place (local_ : synch.Local config thread) (at_ : synch.pcs thread = pc) :
    LocalAt config (synch.holds thread) (synch.woken thread) (synch.slept thread) synch.clock pc :=
  at_ ▸ local_

theorem local_of_place (at_ : synch.pcs thread = pc)
    (local_ : LocalAt config (synch.holds thread) (synch.woken thread) (synch.slept thread)
      synch.clock pc) : synch.Local config thread := by
  unfold Synch.Local
  rw [at_]
  exact local_

theorem setOwner_other {owner : Option Nat}
    (before : synch.owner lock = none ∨ synch.owner lock = some thread)
    (after : owner = none ∨ owner = some thread) (different : other ≠ thread) :
    (synch.setOwner lock owner).holds other = synch.holds other := by
  have notOther : ∀ {holder : Option Nat}, holder = none ∨ holder = some thread →
      holder ≠ some other := by
    rintro holder (rfl | rfl) same
    · cases same
    · exact different (Option.some.inj same).symm
  funext which
  by_cases same : which = lock
  · subst same
    simp only [Synch.holds, setOwner, update_self]
    exact propext (iff_of_false (notOther after) (notOther before))
  · simp [Synch.holds, setOwner, update_of_ne same]

theorem wakeup_frame (config : SynchConfig) (synch : Synch) (chan : Nat) :
    ∃ pcs, synch.wakeup config chan = { synch.note chan with pcs := pcs } := by
  unfold Synch.wakeup
  split <;> exact ⟨_, rfl⟩

theorem wakeup_stays (table : synch.Table config)
    (elsewhere : ∀ args se, synch.pcs thread = .waiting args se → args.ident ≠ chan) :
    (synch.wakeup config chan).pcs thread = synch.pcs thread := by
  unfold Synch.wakeup
  split
  next other found =>
    simp only [broadcast, note]
    split
    next args se at_ =>
      refine (if_neg ?_).trans at_.symm
      rintro rfl
      have linked := table.linked thread args.ident se (congrArg SleepPc.use at_)
      exact elsewhere args se at_ (linked.2.symm.trans (seLookup_some found).2)
    next => rfl
  next => rfl

theorem wakeup_moves (table : synch.Table config) (at_ : synch.pcs thread = .waiting args se) :
    (synch.wakeup config args.ident).pcs thread = .relocking args se 0 := by
  have found : synch.seLookup config args.ident = some se := table.lookup (congrArg SleepPc.use at_)
  simp [Synch.wakeup, found, broadcast, note, at_]

theorem wakeup_local (table : synch.Table config) (local_ : synch.Local config thread) (chan : Nat) :
    (synch.wakeup config chan).Local config thread := by
  obtain ⟨pcs, moved⟩ := wakeup_frame config synch chan
  cases at_ : synch.pcs thread with
  | waiting args se =>
    obtain ⟨lock, unwoken⟩ := local_.at_place at_
    by_cases here : args.ident = chan
    · subst here
      refine local_of_place (wakeup_moves table at_) ?_
      rw [moved]
      exact ⟨lock, .inl ⟨rfl, by simp [note, asleepOn, at_]⟩⟩
    · refine local_of_place ((wakeup_stays table ?_).trans at_) ?_
      · rintro _ _ same
        rw [at_] at same
        cases same
        exact here
      · rw [moved]
        exact ⟨lock, by simp [note, asleepOn, at_, here, unwoken]⟩
  | napping args =>
    refine local_of_place ((wakeup_stays table ?_).trans at_) (local_.at_place at_)
    rw [at_]
    rintro _ _ ⟨⟩
  | running | entering args | registered args se | timed args se | relocking args se rv | leaving args se rv
  | returned args rv =>
    have same : (synch.note chan).woken thread = synch.woken thread := by
      simp [note, asleepOn, at_]
    refine local_of_place (wakeup_stays table ?_) ?_
    · rw [at_]
      rintro _ _ ⟨⟩
    · simp only [moved, same]
      exact local_

theorem seFree_eq (config : SynchConfig) (synch : Synch) (se : Nat) :
    ∃ active waiters, synch.seFree config se =
      { synch with seActive := active, seWaiters := waiters } := by
  unfold seFree
  simp only
  split <;> exact ⟨_, _, rfl⟩

theorem register_eq (config : SynchConfig) (synch : Synch) (thread : Nat) (args : SleepArgs) :
    ∃ se active chan waiters fresh, synch.register config thread args =
      { synch.goto thread (.registered args se) with
        seActive := active, seChan := chan, seWaiters := waiters, fresh := fresh } := by
  unfold Synch.register
  split <;> exact ⟨_, _, _, _, _, rfl⟩

theorem Synch.Local.moved (locals : ∀ thread, synch.Local config thread)
    (clock : next.clock = synch.clock) (pcs : next.pcs = update synch.pcs thread pc)
    (others : ∀ other, other ≠ thread → next.woken other = synch.woken other ∧
      next.slept other = synch.slept other ∧ next.holds other = synch.holds other)
    (mine : LocalAt config (next.holds thread) (next.woken thread) (next.slept thread) next.clock
      pc) : next.Local config other := by
  by_cases same : other = thread
  · subst same
    exact local_of_place (by rw [pcs, update_self]) mine
  · obtain ⟨woken, slept, holds⟩ := others other same
    refine local_of_place (by rw [pcs, update_of_ne same]) ?_
    rw [woken, slept, holds, clock]
    exact locals other

theorem Synch.Local.step (locals : ∀ thread, synch.Local config thread) (table : synch.Table config)
    (enabled : synch.Enabled config label) (other : Nat) :
    (synch.step config label).Local config other := by
  cases label with
  | acquire thread lock =>
    obtain ⟨running, free⟩ := enabled
    refine moved locals rfl (Function.update_eq_self_iff.mpr running.symm).symm
      (fun _ same => ⟨rfl, rfl, setOwner_other (.inl free) (.inr rfl) same⟩) ?_
    trivial
  | release thread lock =>
    obtain ⟨running, owned⟩ := enabled
    refine moved locals rfl (Function.update_eq_self_iff.mpr running.symm).symm
      (fun _ same => ⟨rfl, rfl, setOwner_other (.inr owned) (.inl rfl) same⟩) ?_
    trivial
  | call thread args =>
    obtain ⟨running, owned⟩ := enabled
    have others : ∀ other, other ≠ thread →
        (synch.fallAsleep thread).woken other = synch.woken other ∧
        (synch.fallAsleep thread).slept other = synch.slept other ∧
        synch.holds other = synch.holds other :=
      fun _ same => ⟨update_of_ne same .., update_of_ne same .., rfl⟩
    simp only [Synch.step, sleep]
    cases lock : args.lock with
    | some held =>
      exact moved locals rfl rfl others ⟨⟨held, lock, owned held lock⟩, update_self ..⟩
    | none =>
      refine moved locals rfl rfl others ?_
      by_cases untimed : args.timo = 0
      · rw [if_pos untimed]
        intro held locked
        rw [lock] at locked
        cases locked
      · rw [if_neg untimed]
        exact lock
  | register thread =>
    obtain ⟨args, at_⟩ := enabled
    obtain ⟨se, active, chan, waiters, fresh, registered⟩ := register_eq config synch thread args
    obtain ⟨⟨lock, locked, owned⟩, unwoken⟩ := (locals thread).at_place at_
    simp only [Synch.step, at_, registered]
    exact moved locals rfl rfl (fun _ _ => ⟨rfl, rfl, rfl⟩)
      ⟨⟨lock, locked, owned⟩, unwoken⟩
  | readClock thread =>
    obtain ⟨args, se, at_⟩ := enabled
    have mine := (locals thread).at_place at_
    simp only [Synch.step, at_]
    exact moved locals rfl rfl (fun _ same => ⟨rfl, update_of_ne same .., rfl⟩) mine
  | wait thread =>
    obtain ⟨args, se, at_⟩ := enabled
    obtain ⟨⟨lock, locked, owned⟩, unwoken⟩ := (locals thread).at_place at_
    simp only [Synch.step, at_, locked]
    refine moved locals rfl rfl (fun _ same => ⟨rfl, rfl,
      setOwner_other (.inr owned) (.inl rfl) same⟩) ⟨⟨lock, locked, ?_⟩, unwoken⟩
    simp [Synch.holds, Synch.goto, setOwner]
  | timeout thread =>
    obtain ⟨args, se, at_, timo, elapsed⟩ := enabled
    obtain ⟨lock, unwoken⟩ := (locals thread).at_place at_
    simp only [Synch.step, at_]
    exact moved locals rfl rfl (fun _ _ => ⟨rfl, rfl, rfl⟩)
      ⟨lock, .inr ⟨rfl, unwoken, timo, elapsed⟩⟩
  | relock thread =>
    obtain ⟨args, se, rv, lock, at_, locked, free⟩ := enabled
    obtain ⟨-, outcome⟩ := (locals thread).at_place at_
    simp only [Synch.step, at_, locked]
    exact moved locals rfl rfl
      (fun _ same => ⟨rfl, rfl, setOwner_other (.inl free) (.inr rfl) same⟩)
      ⟨⟨lock, locked, update_self ..⟩, outcome⟩
  | free thread =>
    obtain ⟨args, se, rv, at_⟩ := enabled
    obtain ⟨⟨lock, locked, owned⟩, outcome⟩ := (locals thread).at_place at_
    obtain ⟨active, waiters, freed⟩ := seFree_eq config synch se
    simp only [Synch.step, at_, freed]
    refine moved locals rfl rfl (fun _ _ => ⟨rfl, rfl, rfl⟩) fun held isLock => ?_
    rw [locked] at isLock
    cases isLock
    exact ⟨owned, outcome⟩
  | napped thread =>
    obtain ⟨args, at_, -⟩ := enabled
    have noLock : args.lock = none := (locals thread).at_place at_
    simp only [Synch.step, at_]
    refine moved locals rfl rfl (fun _ _ => ⟨rfl, rfl, rfl⟩)
      (fun held isLock => ?_)
    rw [noLock] at isLock
    cases isLock
  | resume thread =>
    exact moved locals rfl rfl (fun _ _ => ⟨rfl, rfl, rfl⟩) trivial
  | wakeup chan => exact wakeup_local table (locals other) chan
  | tick => exact LocalAt.later (locals other)

section Contract

variable (config)

def Synch.Returns (synch : Synch) (thread : Nat) (args : SleepArgs) : Prop :=
  ∃ labels next, labels <:+ [.relock thread, .free thread] ∧
    Run (sleepMove config) synch labels next ∧ next.pcs thread = .returned args 0

structure Synch.Meets (synch : Synch) (thread : Nat) (args : SleepArgs) : Prop where
  wakes : synch.woken thread = true →
    (∀ lock holder, args.lock = some lock → synch.owner lock = some holder → holder = thread) →
      synch.Returns config thread args
  zero : ∀ rv, synch.pcs thread = .returned args rv → synch.woken thread = true → rv = 0
  untimed : ∀ rv, synch.pcs thread = .returned args rv → args.timo = 0 →
    synch.woken thread = true
  timedOut : synch.pcs thread = .returned args ewouldblock → synch.woken thread = false ∧
    synch.slept thread + Synch.nsecs config args.timo ≤ synch.clock
  locked : ∀ rv lock, synch.pcs thread = .returned args rv → args.lock = some lock →
    (args.pdrop = false → synch.owner lock = some thread) ∧
      (args.pdrop = true → synch.owner lock ≠ some thread)

variable {config}

theorem sleep_inv {labels : List SleepStep} (run : Run (sleepMove config) Synch.start labels synch) :
    synch.Table config ∧ ∀ thread, synch.Local config thread := by
  refine run.invariant (fun synch => synch.Table config ∧ ∀ thread, synch.Local config thread)
    ⟨synch_table_start, fun _ => trivial⟩ fun _ _ _ inv move => ?_
  obtain ⟨enabled, rfl⟩ := move
  exact ⟨inv.1.step enabled, Synch.Local.step inv.2 inv.1 enabled⟩

theorem outcome_zero (outcome : Outcome config woken slept clock args rv)
    (isWoken : woken = true) : rv = 0 := by
  rcases outcome with ⟨zero, -⟩ | ⟨-, unwoken, -⟩
  · exact zero
  · rw [isWoken] at unwoken
    cases unwoken

theorem free_returns (config : SynchConfig)
    (at_ : synch.pcs thread = .leaving args se rv) :
    sleepMove config synch (.free thread) (synch.step config (.free thread)) ∧
      (synch.step config (.free thread)).pcs thread = .returned args rv := by
  refine ⟨⟨⟨args, se, rv, at_⟩, rfl⟩, ?_⟩
  simp only [Synch.step, at_]
  exact goto_same ..

theorem relock_leaves (config : SynchConfig)
    (at_ : synch.pcs thread = .relocking args se rv) (locked : args.lock = some lock)
    (free : synch.owner lock = none) :
    sleepMove config synch (.relock thread) (synch.step config (.relock thread)) ∧
      (synch.step config (.relock thread)).pcs thread = .leaving args se rv := by
  refine ⟨⟨⟨args, se, rv, lock, at_, locked, free⟩, rfl⟩, ?_⟩
  simp only [Synch.step, at_, locked]
  exact goto_same ..

theorem Synch.Local.returns (local_ : synch.Local config thread)
    (called : (synch.pcs thread).args = some args) (lock : args.lock ≠ none)
    (woken : synch.woken thread = true)
    (available : ∀ lock holder, args.lock = some lock → synch.owner lock = some holder →
      holder = thread) : synch.Returns config thread args := by
  have unwoken : synch.woken thread ≠ false := by simp [woken]
  cases at_ : synch.pcs thread with
  | running =>
    rw [at_] at called
    cases called
  | entering args | registered args se | timed args se | waiting args se =>
    exact absurd (local_.at_place at_).2 unwoken
  | relocking args' se rv =>
    rw [at_] at called
    cases called
    obtain ⟨⟨held, locked, free⟩, outcome⟩ := local_.at_place at_
    have zero := outcome_zero outcome woken
    subst zero
    have unowned : synch.owner held = none := by
      cases holder : synch.owner held with
      | none => rfl
      | some holding =>
        rw [available held holding locked holder] at holder
        exact absurd holder free
    obtain ⟨move, leaving⟩ := relock_leaves config at_ locked unowned
    obtain ⟨last, returned⟩ := free_returns config leaving
    exact ⟨_, _, List.suffix_refl _, .snoc (.snoc .nil move) last, returned⟩
  | leaving args' se rv =>
    rw [at_] at called
    cases called
    obtain ⟨-, outcome⟩ := local_.at_place at_
    have zero := outcome_zero outcome woken
    subst zero
    obtain ⟨last, returned⟩ := free_returns config at_
    exact ⟨_, _, List.suffix_cons _ _, .snoc .nil last, returned⟩
  | napping args' =>
    rw [at_] at called
    cases called
    exact absurd (local_.at_place at_) lock
  | returned args' rv =>
    rw [at_] at called
    cases called
    obtain ⟨held, locked⟩ := Option.ne_none_iff_exists'.mp lock
    have zero := outcome_zero (local_.at_place at_ held locked).2 woken
    subst zero
    exact ⟨[], _, List.nil_suffix, .nil, at_⟩

theorem Synch.Local.meets (local_ : synch.Local config thread)
    (called : (synch.pcs thread).args = some args) (lock : args.lock ≠ none)
    (kept : args.pdrop = false) : synch.Meets config thread args := by
  obtain ⟨held, isLock⟩ := Option.ne_none_iff_exists'.mp lock
  have outcome : ∀ rv, synch.pcs thread = .returned args rv →
      synch.owner held = some thread ∧
        Outcome config (synch.woken thread) (synch.slept thread) synch.clock args rv :=
    fun rv at_ => local_.at_place at_ held isLock
  refine ⟨local_.returns called lock, fun rv at_ woken => outcome_zero (outcome rv at_).2 woken,
    fun rv at_ untimed => ?_, fun at_ => ?_, fun rv other at_ isOther => ⟨fun _ => ?_, fun drop => ?_⟩⟩
  · rcases (outcome rv at_).2 with ⟨-, woken⟩ | ⟨-, -, timed, -⟩
    · exact woken
    · exact absurd untimed timed
  · rcases (outcome _ at_).2 with ⟨⟨⟩, -⟩ | ⟨-, unwoken, -, elapsed⟩
    exact ⟨unwoken, elapsed⟩
  · rw [isLock] at isOther
    cases isOther
    exact (outcome rv at_).1
  · rw [kept] at drop
    cases drop

theorem start_call_enabled (config : SynchConfig) (noLock : args.lock = none) :
    Synch.start.Enabled config (.call 0 args) := by
  refine ⟨rfl, fun lock isLock => ?_⟩
  rw [noLock] at isLock
  cases isLock

theorem sleep_lockless (config : SynchConfig) (noLock : args.lock = none)
    (untimed : args.timo = 0) :
    ∃ labels synch, Run (sleepMove config) Synch.start labels synch ∧
      (synch.pcs 0).args = some args ∧ ¬ synch.Meets config 0 args := by
  have enabled := start_call_enabled config noLock
  have returned : (Synch.start.step config (.call 0 args)).pcs 0 = .returned args 0 := by
    simp only [Synch.step, sleep, noLock, untimed, if_true]
    exact goto_same ..
  have unwoken : (Synch.start.step config (.call 0 args)).woken 0 = false := by
    simp [Synch.step, sleep, noLock, Synch.goto, fallAsleep]
  refine ⟨[.call 0 args], _, .snoc .nil ⟨enabled, rfl⟩, ?_, fun meets => ?_⟩
  · rw [returned]
    rfl
  · have woken := meets.untimed 0 returned untimed
    rw [unwoken] at woken
    cases woken

theorem sleep_nap (config : SynchConfig) (noLock : args.lock = none)
    (timed : args.timo ≠ 0) :
    ∃ labels synch, Run (sleepMove config) Synch.start labels synch ∧
      (synch.pcs 0).args = some args ∧ ¬ synch.Meets config 0 args := by
  have enabled := start_call_enabled config noLock
  have asleep : (Synch.start.step config (.call 0 args)).pcs 0 = .napping args := by
    simp only [Synch.step, sleep, noLock, timed, if_false]
    exact goto_same ..
  have empty : (Synch.start.step config (.call 0 args)).seLookup config args.ident = none := by
    simp only [Synch.step, sleep, noLock]
    rfl
  have wakes : (Synch.start.step config (.call 0 args)).step config (.wakeup args.ident) =
      (Synch.start.step config (.call 0 args)).note args.ident := by
    simp only [Synch.step, Synch.wakeup] at empty ⊢
    rw [empty]
  have still : ((Synch.start.step config (.call 0 args)).note args.ident).pcs 0 = .napping args :=
    asleep
  refine ⟨[.call 0 args, .wakeup args.ident], _,
    .snoc (.snoc .nil ⟨enabled, rfl⟩) ⟨trivial, wakes⟩, ?_, fun meets => ?_⟩
  · rw [still]
    rfl
  · have woken : ((Synch.start.step config (.call 0 args)).note args.ident).woken 0 = true := by
      simp [note, asleepOn, asleep]
    obtain ⟨labels, next, suffix, run, returned⟩ := meets.wakes woken fun lock holder isLock => by
      rw [noLock] at isLock
      cases isLock
    have stays : next.pcs 0 = .napping args := by
      have only : ∀ label ∈ labels, label = .relock 0 ∨ label = .free 0 := fun label member => by
        simpa using suffix.subset member
      clear returned suffix
      induction run with
      | nil => exact still
      | snoc run move ih =>
        have before := ih fun label member => only label (List.mem_append_left _ member)
        obtain ⟨enabled, -⟩ := move
        rcases only _ (List.mem_append_right _ (List.mem_singleton.mpr rfl)) with rfl | rfl
        · obtain ⟨_, _, _, _, at_, -⟩ := enabled
          rw [before] at at_
          cases at_
        · obtain ⟨_, _, _, at_⟩ := enabled
          rw [before] at at_
          cases at_
    rw [stays] at returned
    cases returned

theorem register_moves (config : SynchConfig)
    (at_ : synch.pcs thread = .entering args) :
    ∃ se, sleepMove config synch (.register thread) (synch.step config (.register thread)) ∧
      (synch.step config (.register thread)).pcs thread = .registered args se := by
  obtain ⟨se, _, _, _, _, registered⟩ := register_eq config synch thread args
  refine ⟨se, ⟨⟨args, at_⟩, rfl⟩, ?_⟩
  simp only [Synch.step, at_, registered]
  exact goto_same ..

theorem readClock_moves (config : SynchConfig) (at_ : synch.pcs thread = .registered args se) :
    sleepMove config synch (.readClock thread) (synch.step config (.readClock thread)) ∧
      (synch.step config (.readClock thread)).pcs thread = .timed args se := by
  refine ⟨⟨⟨args, se, at_⟩, rfl⟩, ?_⟩
  simp only [Synch.step, at_]
  exact goto_same ..

theorem wait_moves (config : SynchConfig)
    (at_ : synch.pcs thread = .timed args se) (isLock : args.lock = some lock) :
    sleepMove config synch (.wait thread) (synch.step config (.wait thread)) ∧
      (synch.step config (.wait thread)).pcs thread = .waiting args se ∧
      (synch.step config (.wait thread)).owner lock = none := by
  refine ⟨⟨⟨args, se, at_⟩, rfl⟩, ?_⟩
  simp only [Synch.step, at_, isLock]
  exact ⟨goto_same .., update_self ..⟩

theorem sleep_relocks (config : SynchConfig) (isLock : args.lock = some lock) :
    ∃ labels synch rv, Run (sleepMove config) Synch.start labels synch ∧
      synch.pcs 0 = .returned args rv := by
  have held : Run (sleepMove config) Synch.start [.acquire 0 lock]
      (Synch.start.setOwner lock (some 0)) := .snoc .nil ⟨⟨rfl, rfl⟩, rfl⟩
  have called : sleepMove config (Synch.start.setOwner lock (some 0)) (.call 0 args)
      (((Synch.start.setOwner lock (some 0)).fallAsleep 0).goto 0 (.entering args)) := by
    refine ⟨⟨rfl, fun other isOther => ?_⟩, ?_⟩
    · rw [isLock] at isOther
      cases isOther
      exact update_self ..
    · simp only [Synch.step, sleep, isLock]
  obtain ⟨se, registers, registered⟩ := register_moves config (goto_same _ 0 (.entering args))
  obtain ⟨reads, timed⟩ := readClock_moves config registered
  obtain ⟨waits, waiting, free⟩ := wait_moves config timed isLock
  have run := Run.snoc (.snoc (.snoc (.snoc held called) registers) reads) waits
  have woke := Run.snoc run (show sleepMove config _ (.wakeup args.ident) _ from ⟨trivial, rfl⟩)
  have relocking := wakeup_moves (sleep_inv run).1 waiting
  obtain ⟨pcs, woken⟩ := wakeup_frame config _ args.ident
  obtain ⟨relocks, leaving⟩ := relock_leaves config relocking isLock (by rw [woken]; exact free)
  obtain ⟨frees, returned⟩ := free_returns config leaving
  exact ⟨_, _, 0, .snoc (.snoc woke relocks) frees, returned⟩

/-- `_sleep` meets its contract in every run exactly for calls with a lock and without `PDROP`. -/
theorem sleep_contract_iff (config : SynchConfig) (args : SleepArgs) :
    (∀ labels synch thread, Run (sleepMove config) Synch.start labels synch →
      (synch.pcs thread).args = some args → synch.Meets config thread args) ↔
    (args.lock ≠ none ∧ args.pdrop = false) := by
  constructor
  · intro meets
    have violated : ¬ ∃ labels synch, Run (sleepMove config) Synch.start labels synch ∧
        (synch.pcs 0).args = some args ∧ ¬ synch.Meets config 0 args := by
      rintro ⟨labels, synch, run, called, fails⟩
      exact fails (meets labels synch 0 run called)
    cases lock : args.lock with
    | none =>
      by_cases untimed : args.timo = 0
      · exact absurd (sleep_lockless config lock untimed) violated
      · exact absurd (sleep_nap config lock untimed) violated
    | some held =>
      refine ⟨by rintro ⟨⟩, Bool.eq_false_iff.mpr fun drop => ?_⟩
      obtain ⟨labels, synch, rv, run, returned⟩ := sleep_relocks config lock
      have owned := ((sleep_inv run).2 0).at_place returned held lock
      have locked := (meets labels synch 0 run (by rw [returned]; rfl)).locked rv held returned lock
      exact locked.2 drop owned.1
  · rintro ⟨lock, kept⟩ labels synch thread run called
    exact ((sleep_inv run).2 thread).meets called lock kept

theorem sleep_contract_broken :
    (∃ synch, Run (sleepMove ⟨1000, 63⟩) Synch.start [.call 0 ⟨1, none, false, 0⟩] synch ∧
      synch.pcs 0 = .returned ⟨1, none, false, 0⟩ 0 ∧ synch.woken 0 = false) ∧
    (∃ synch, Run (sleepMove ⟨1000, 63⟩) Synch.start
        [.call 0 ⟨1, none, false, 5⟩, .wakeup 1] synch ∧
      synch.pcs 0 = .napping ⟨1, none, false, 5⟩ ∧ synch.woken 0 = true ∧
        synch.clock < synch.slept 0 + Synch.nsecs ⟨1000, 63⟩ 5) ∧
    (∃ synch, Run (sleepMove ⟨1000, 63⟩) Synch.start [.acquire 0 7, .call 0 ⟨1, some 7, true, 0⟩,
        .register 0, .readClock 0, .wait 0, .wakeup 1, .relock 0, .free 0] synch ∧
      synch.pcs 0 = .returned ⟨1, some 7, true, 0⟩ 0 ∧ synch.owner 7 = some 0) := by
  refine ⟨⟨_, Allowed.run ⟨⟨rfl, by rintro _ ⟨⟩⟩, trivial⟩, rfl, rfl⟩,
    ⟨_, Allowed.run ⟨⟨rfl, by rintro _ ⟨⟩⟩, trivial, trivial⟩, rfl, rfl, by decide⟩,
    ⟨_, Allowed.run ⟨⟨rfl, rfl⟩, ⟨rfl, by rintro _ ⟨⟩; rfl⟩, ⟨_, rfl⟩, ⟨_, _, rfl⟩, ⟨_, _, rfl⟩, trivial,
      ⟨_, _, _, 7, rfl, rfl, rfl⟩, ⟨_, _, _, rfl⟩, trivial⟩, rfl, rfl⟩⟩

end Contract

end Libunsod.Uinet
