import Libunsod.Uinet.SleepTable

/-!
Sleep entries under any mix of `_sleep` with a lock, `msleep_spin`, `wakeup` and `wakeup_one`.
A thread may also come back from its condition variable without a wakeup.
-/

namespace Libunsod.Uinet

open Runs
open Function (update_of_ne update_self)
open Synch

inductive SynchStep where
  | sleep (label : SleepStep)
  | msleepSpin (thread ident mtx timo : Nat)
  | wakeupOne (chan thread : Nat)
  | spurious (thread : Nat)

namespace Synch

/-- Both functions do the same from here on: nothing else of the arguments is looked at. -/
def msleepSpin (synch : Synch) (thread ident mtx timo : Nat) : Synch :=
  (synch.fallAsleep thread).goto thread (.entering ⟨ident, some mtx, false, timo⟩)

/-- A thread that waits on the entry goes on, if it is not woken already. -/
def signal (synch : Synch) (se thread : Nat) : Synch :=
  match synch.pcs thread with
  | .waiting args cond => if cond = se then synch.goto thread (.relocking args cond 0) else synch
  | _ => synch

def wakeupOne (config : SynchConfig) (synch : Synch) (chan thread : Nat) : Synch :=
  match synch.seLookup config chan with
  | some se => (synch.note chan).signal se thread
  | none => synch.note chan

def waitsOn (synch : Synch) (se thread : Nat) : Prop := ∃ args, synch.pcs thread = .waiting args se

def EntryEnabled (config : SynchConfig) (synch : Synch) : SynchStep → Prop
  | .sleep label => synch.Enabled config label ∧ ∀ thread args, label = .call thread args →
      args.lock ≠ none
  | .msleepSpin thread _ mtx _ => synch.pcs thread = .running ∧ synch.owner mtx = some thread
  | .wakeupOne chan thread => ∀ se, synch.seLookup config chan = some se →
      (∃ other, synch.waitsOn se other) → synch.waitsOn se thread
  | .spurious thread => ∃ se, synch.waitsOn se thread

def entryStep (config : SynchConfig) (synch : Synch) : SynchStep → Synch
  | .sleep label => synch.step config label
  | .msleepSpin thread ident mtx timo => synch.msleepSpin thread ident mtx timo
  | .wakeupOne chan thread => synch.wakeupOne config chan thread
  | .spurious thread =>
      match synch.pcs thread with
      | .waiting args se => synch.goto thread (.relocking args se 0)
      | _ => synch

def Live (synch : Synch) (se : Nat) : Prop := ∃ bucket, se ∈ synch.seActive bucket

/-- The entries that a step waits on, signals or releases. -/
def Touches (config : SynchConfig) (synch : Synch) (se : Nat) : SynchStep → Prop
  | .sleep (.wait thread) | .sleep (.timeout thread) | .sleep (.relock thread)
  | .sleep (.free thread) | .spurious thread => ∃ chan, synch.uses thread = some (chan, se)
  | .sleep (.wakeup chan) | .wakeupOne chan _ => synch.seLookup config chan = some se
  | .sleep (.register thread) => ∃ args, synch.pcs thread = .entering args ∧
      synch.seLookup config args.ident = some se
  | .sleep _ | .msleepSpin _ _ _ _ => False

def registered (synch : Synch) (chan thread : Nat) : Prop := ∃ se, synch.uses thread = some (chan, se)

end Synch

def entryMove (config : SynchConfig) : Synch → SynchStep → Synch → Prop :=
  Runs.Guarded (Synch.EntryEnabled config) (Synch.entryStep config)

structure Synch.Exact (config : SynchConfig) (synch : Synch) : Prop where
  one : ∀ se other, synch.Live se → synch.Live other → synch.seChan se = synch.seChan other →
    se = other
  waiters : ∀ se, synch.Live se → ∃ threads : Finset Nat,
    (∀ thread, thread ∈ threads ↔ synch.registered (synch.seChan se) thread) ∧
      synch.seWaiters se = threads.card
  used : ∀ chan thread, synch.registered chan thread → ∃ se, synch.Live se ∧ synch.seChan se = chan
  destroyed : ∀ label next, entryMove config synch label next → ∀ se, synch.Live se →
    next.seChan se = synch.seChan se ∧
      (¬next.Live se ↔ ∀ thread, ¬next.registered (synch.seChan se) thread)
  touched : ∀ label next, entryMove config synch label next → ∀ se,
    synch.Touches config se label → synch.Live se
  waiting : ∀ thread se, synch.waitsOn se thread → synch.Live se

variable {config : SynchConfig} {synch next : Synch} {se other chan thread : Nat} {label : SynchStep}

theorem signal_keeps (synch : Synch) (se thread : Nat) : synch.Keeps (synch.signal se thread) := by
  unfold Synch.signal
  split
  next args cond at_ =>
    split
    · exact ⟨uses_kept at_ rfl, _, _, _, _, _, rfl⟩
    · exact ⟨rfl, _, _, _, _, _, rfl⟩
  next => exact ⟨rfl, _, _, _, _, _, rfl⟩

theorem entryMove_entries (move : entryMove config synch label next) :
    (∃ thread args, synch.uses thread = none ∧ next = synch.register config thread args) ∨
    (∃ thread chan se pc, synch.uses thread = some (chan, se) ∧ pc.use = none ∧
      next = (synch.seFree config se).goto thread pc) ∨ synch.Keeps next := by
  obtain ⟨enabled, rfl⟩ := move
  cases label with
  | sleep label =>
    rcases step_entries enabled.1 with ⟨thread, args, -, outside, moved⟩ |
      ⟨thread, chan, se, pc, -, inside, outside, moved⟩ | keeps
    · exact .inl ⟨thread, args, outside, moved⟩
    · exact .inr (.inl ⟨thread, chan, se, pc, inside, outside, moved⟩)
    · exact .inr (.inr keeps)
  | msleepSpin thread ident mtx timo =>
    exact .inr (.inr ⟨uses_kept enabled.1 rfl, _, _, _, _, _, rfl⟩)
  | wakeupOne chan thread =>
    simp only [entryStep, Synch.wakeupOne]
    split
    · exact .inr (.inr (signal_keeps (synch.note chan) _ thread))
    · exact .inr (.inr ⟨rfl, _, _, _, _, _, rfl⟩)
  | spurious thread =>
    obtain ⟨se, args, at_⟩ := enabled
    simp only [entryStep, at_]
    exact .inr (.inr ⟨uses_kept at_ rfl, _, _, _, _, _, rfl⟩)

theorem entryMove_table (table : synch.Table config) (move : entryMove config synch label next) :
    next.Table config := by
  rcases entryMove_entries move with ⟨thread, args, outside, rfl⟩ |
    ⟨thread, chan, se, pc, inside, outside, rfl⟩ | keeps
  · exact table.register outside
  · exact table.free inside outside
  · exact keeps.table table

theorem Synch.Table.live (table : synch.Table config) (live : synch.Live se) :
    se ∈ synch.seActive (seHash config (synch.seChan se)) := by
  obtain ⟨bucket, member⟩ := live
  rw [(table.placed bucket se member).2]
  exact member

theorem Synch.Table.one (table : synch.Table config) (live : synch.Live se)
    (liveOther : synch.Live other) (same : synch.seChan se = synch.seChan other) : se = other :=
  table.unique (table.live live) (same ▸ table.live liveOther) same

theorem Synch.Table.used (table : synch.Table config) (used : synch.uses thread = some (chan, se)) :
    synch.Live se ∧ synch.seChan se = chan :=
  ⟨⟨_, (table.linked thread chan se used).1⟩, (table.linked thread chan se used).2⟩

theorem Synch.Table.registered_iff (table : synch.Table config) (live : synch.Live se) :
    synch.registered (synch.seChan se) thread ↔ synch.uses thread = some (synch.seChan se, se) := by
  constructor
  · rintro ⟨other, used⟩
    obtain ⟨liveOther, same⟩ := table.used used
    rw [table.one live liveOther same.symm]
    rwa [same]
  · exact fun used => ⟨se, used⟩

theorem Synch.Table.stays_or_gone (table : synch.Table config)
    (move : entryMove config synch label next) (live : synch.Live se) :
    next.seChan se = synch.seChan se ∧
      (next.Live se ∨ ∀ other, next.Live other → next.seChan other ≠ synch.seChan se) := by
  have member := table.live live
  rcases entryMove_entries move with ⟨thread, args, -, rfl⟩ |
    ⟨thread, chan, freed, pc, -, -, rfl⟩ | ⟨-, clock, pcs, owner, slept, woken, rfl⟩
  · unfold Synch.register
    split
    · exact ⟨rfl, .inl live⟩
    · have older := Nat.ne_of_lt (table.placed _ se member).1
      refine ⟨update_of_ne older .., .inl ?_⟩
      obtain ⟨bucket, listed⟩ := live
      refine ⟨bucket, ?_⟩
      by_cases here : bucket = seHash config args.ident
      · subst here
        simp only [Synch.goto, seAlloc, update_self]
        exact List.mem_cons_of_mem _ listed
      · simp only [Synch.goto, seAlloc, update_of_ne here]
        exact listed
  · unfold seFree
    simp only
    split
    · by_cases same : se = freed
      · subst same
        refine ⟨rfl, .inr fun other liveOther chan => ?_⟩
        obtain ⟨bucket, listed⟩ := liveOther
        obtain ⟨listed, different⟩ := table.mem_erase.mp listed
        exact different (table.one ⟨bucket, listed⟩ live chan)
      · exact ⟨rfl, .inl ⟨_, table.mem_erase.mpr ⟨member, same⟩⟩⟩
    · exact ⟨rfl, .inl live⟩
  · exact ⟨rfl, .inl live⟩

theorem Synch.Table.exact (table : synch.Table config) : synch.Exact config where
  one _ _ := table.one
  waiters se live := by
    obtain ⟨-, threads, mem, card⟩ := table.counted _ se (table.live live)
    exact ⟨threads, fun thread => (mem thread).trans (table.registered_iff live).symm, card.symm⟩
  used chan thread used := by
    obtain ⟨se, used⟩ := used
    exact ⟨se, table.used used⟩
  destroyed label next move se live := by
    have nextTable := entryMove_table table move
    obtain ⟨chan, stays⟩ := table.stays_or_gone move live
    refine ⟨chan, fun gone thread used => ?_, fun unused liveNext => ?_⟩
    · obtain ⟨other, used⟩ := used
      obtain ⟨liveOther, same⟩ := nextTable.used used
      exact stays.resolve_left gone other liveOther same
    · obtain ⟨positive, users⟩ := nextTable.counted _ se (nextTable.live liveNext)
      refine positive (users.eq_zero_iff.mpr fun thread used => unused thread ⟨se, ?_⟩)
      rw [used, chan]
  touched label next move se touches := by
    cases label with
    | wakeupOne chan thread => exact ⟨_, (seLookup_some touches).1⟩
    | msleepSpin => cases touches
    | spurious thread =>
      obtain ⟨chan, used⟩ := touches
      exact (table.used used).1
    | sleep label =>
      cases label with
      | wait | timeout | relock | free =>
        obtain ⟨chan, used⟩ := touches
        exact (table.used used).1
      | wakeup => exact ⟨_, (seLookup_some touches).1⟩
      | register =>
        obtain ⟨args, -, found⟩ := touches
        exact ⟨_, (seLookup_some found).1⟩
      | acquire | release | call | readClock | napped | resume | tick => cases touches
  waiting thread se waits := by
    obtain ⟨args, at_⟩ := waits
    exact (table.used (congrArg SleepPc.use at_)).1

/-- A channel has a sleep entry exactly as long as threads use it, and it counts them. -/
theorem sleep_entries_exact (config : SynchConfig) (labels : List SynchStep) (synch : Synch)
    (run : Run (entryMove config) Synch.start labels synch) : synch.Exact config :=
  (run.invariant (Synch.Table config) synch_table_start fun _ _ _ => entryMove_table).exact

theorem sleep_entries_exact_shared :
    ∃ synch, Run (entryMove ⟨1000, 63⟩) Synch.start [.sleep (.acquire 0 7),
        .sleep (.call 0 ⟨1, some 7, false, 0⟩), .sleep (.register 0), .sleep (.readClock 0),
        .sleep (.wait 0), .sleep (.acquire 1 7), .msleepSpin 1 1 7 0, .sleep (.register 1)] synch ∧
      synch.seWaiters 0 = 2 ∧ synch.Exact ⟨1000, 63⟩ := by
  have other : ∀ {label : SleepStep}, (∀ thread args, label ≠ .call thread args) →
      ∀ thread args, label = .call thread args → args.lock ≠ none :=
    fun other thread args same => absurd same (other thread args)
  exact Run.exists_with (fun _ run => sleep_entries_exact _ _ _ run)
    ⟨_, Allowed.run ⟨⟨⟨rfl, rfl⟩, other nofun⟩, ⟨⟨rfl, by rintro _ ⟨⟩; rfl⟩, by rintro _ _ ⟨⟩ ⟨⟩⟩,
      ⟨⟨_, rfl⟩, other nofun⟩, ⟨⟨_, _, rfl⟩, other nofun⟩, ⟨⟨_, _, rfl⟩, other nofun⟩,
      ⟨⟨rfl, rfl⟩, other nofun⟩, ⟨rfl, rfl⟩, ⟨⟨_, rfl⟩, other nofun⟩, trivial⟩, rfl⟩

end Libunsod.Uinet
