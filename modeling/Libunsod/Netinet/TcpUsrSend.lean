import Libunsod.Netinet.TcpUsrSendCore

/-!
When `tcp_usr_send` releases what it has taken. The test of `INP_PASSIVE` at the end has to give
the same answer as the one at the beginning, except after the call's own conversion. It does as
long as no other call converts the pair between this call's first test and its locks.
-/

namespace Libunsod.Netinet

open Runs
open Function (update_of_ne update_self)
open SendState

variable {pc : SendPc} {lock : SendLock} {label : SendStep}

namespace SendPc

def infoHeld (info : Bool) : List SendLock := if info then [.info] else []

def inpsHeld (call : SendCall) (both : Bool) : List SendLock :=
  if both then [.inp call.side, .inp !call.side] else [.inp call.side]

def holds : SendPc → List SendLock
  | .idle | .entry _ | .lockInfo _ | .returned _ => []
  | .test _ info | .order _ info | .lockPrimary _ info _ | .lockOwn _ info => infoHeld info
  | .lockSecondary _ info primary | .unlockPrimary _ info primary =>
      .inp primary :: infoHeld info
  | .check call info both | .work call info both | .out call info both =>
      inpsHeld call both ++ infoHeld info
  | .drop call info => inpsHeld call true ++ infoHeld info
  | .unlockSecondary _ info primary => .inp (!primary) :: .inp primary :: infoHeld info
  | .unlockOwn call info => .inp call.side :: infoHeld info
  | .unlockInfo _ => [.info]

def Early : SendPc → Prop
  | .entry _ | .test _ _ | .lockInfo _ | .order _ _ | .lockPrimary _ _ _ | .lockSecondary _ _ _
  | .lockOwn _ _ => True
  | _ => False

def InWindow : SendPc → Prop
  | .lockInfo _ | .order _ _ | .lockPrimary _ _ _ | .lockSecondary _ _ _ => True
  | _ => False

def Knows (passive : Bool → Bool) : SendPc → Prop
  | .lockInfo call | .order call _ | .lockPrimary call _ _ | .lockSecondary call _ _ =>
      passive call.side = true
  | .lockOwn call _ | .drop call _ => passive call.side = false
  | .check call _ both | .work call _ both | .out call _ both => passive call.side = both
  | _ => True

end SendPc

namespace SendState

structure Locks (state : SendState) : Prop where
  held : ∀ lock thread, state.holder lock = some thread ↔ lock ∈ (state.pcs thread).holds
  counts : ∀ thread lock, state.taken thread lock =
    state.freed thread lock + if lock ∈ (state.pcs thread).holds then 1 else 0
  once : ∀ thread lock, state.taken thread lock ≤ 1
  early : ∀ thread, (state.pcs thread).Early → ∀ lock, state.freed thread lock = 0
  legal : ∀ thread, state.bad thread = false

structure Flags (state : SendState) : Prop where
  same : state.passive false = state.passive true
  knows : ∀ thread, (state.pcs thread).Knows state.passive

def Converts (state : SendState) (thread : Nat) : Prop :=
  ∃ call info both, state.pcs thread = .check call info both ∧ state.refuses call = false ∧
    state.passive call.side = true

def Steady (state : SendState) : SendStep → Prop
  | .run thread => state.Converts thread →
      ∀ other, other ≠ thread → ¬ (state.pcs other).InWindow
  | _ => True

end SendState

variable {state next : SendState} {thread : Nat}

theorem send_locks_start (passiveclnt : Bool → Bool) : (SendState.start passiveclnt).Locks where
  held _ _ := ⟨by rintro ⟨⟩, by rintro ⟨⟩⟩
  counts _ _ := rfl
  once _ _ := Nat.zero_le _
  early _ _ _ := rfl
  legal _ := rfl

theorem send_flags_start (passiveclnt : Bool → Bool) : (SendState.start passiveclnt).Flags where
  same := rfl
  knows _ := trivial

section Locks

theorem SendState.Locks.update (locks : state.Locks)
    (others : ∀ other, other ≠ thread → next.pcs other = state.pcs other ∧
      next.taken other = state.taken other ∧ next.freed other = state.freed other)
    (holder : ∀ lock other, other ≠ thread →
      (next.holder lock = some other ↔ state.holder lock = some other))
    (held : ∀ lock, next.holder lock = some thread ↔ lock ∈ (next.pcs thread).holds)
    (counts : ∀ lock, next.taken thread lock = next.freed thread lock +
      if lock ∈ (next.pcs thread).holds then 1 else 0)
    (once : ∀ lock, next.taken thread lock ≤ 1)
    (early : (next.pcs thread).Early → ∀ lock, next.freed thread lock = 0)
    (legal : next.bad = state.bad) : next.Locks := by
  refine ⟨fun lock other => ?_, fun other lock => ?_, fun other lock => ?_, fun other => ?_,
    legal ▸ locks.legal⟩ <;> by_cases same : other = thread
  · rw [same]
    exact held lock
  · rw [holder lock other same, (others other same).1]
    exact locks.held lock other
  · rw [same]
    exact counts lock
  · rw [(others other same).1, (others other same).2.1, (others other same).2.2]
    exact locks.counts other lock
  · rw [same]
    exact once lock
  · rw [(others other same).2.1]
    exact locks.once other lock
  · rw [same]
    exact early
  · rw [(others other same).1, (others other same).2.2]
    exact locks.early other

theorem goto_here (state : SendState) (thread : Nat) (pc : SendPc) :
    (state.goto thread pc).pcs thread = pc := update_self ..

theorem SendState.Locks.goto (locks : state.Locks)
    (holds : ∀ lock, lock ∈ pc.holds ↔ lock ∈ (state.pcs thread).holds)
    (early : pc.Early → (state.pcs thread).Early) : (state.goto thread pc).Locks := by
  refine locks.update (fun other different => ⟨update_of_ne different .., rfl, rfl⟩)
    (fun _ _ _ => Iff.rfl) (fun lock => ?_) (fun lock => ?_) (locks.once thread) ?_ rfl
  · rw [goto_here, holds]
    exact locks.held lock thread
  · simp only [goto_here, holds]
    exact locks.counts thread lock
  · rw [goto_here]
    exact fun isEarly => locks.early thread (early isEarly)

theorem SendState.Locks.acquire (locks : state.Locks) (free : state.holder lock = none)
    (isEarly : (state.pcs thread).Early)
    (holds : ∀ other, other ∈ pc.holds ↔ other = lock ∨ other ∈ (state.pcs thread).holds) :
    ((state.acquire thread lock).goto thread pc).Locks := by
  have absent : lock ∉ (state.pcs thread).holds := by
    intro member
    cases free.symm.trans ((locks.held lock thread).mpr member)
  refine locks.update (fun other different => ⟨update_of_ne different .., update_of_ne different ..,
    rfl⟩) (fun which other different => ?_) (fun which => ?_) (fun which => ?_) (fun which => ?_)
    (fun _ => locks.early thread isEarly) rfl
  all_goals
    have held := locks.held which thread
    have count := locks.counts thread which
    have once := locks.once thread which
    by_cases taken : which = lock
  · subst taken
    simp [SendState.goto, SendState.acquire, free, different.symm]
  · simp [SendState.goto, SendState.acquire, taken]
  · subst taken
    simp [SendState.goto, SendState.acquire, holds]
  · simpa [SendState.goto, SendState.acquire, holds, taken] using held
  · subst taken
    rw [if_neg absent] at count
    simp [SendState.goto, SendState.acquire, holds, count]
  · simpa [SendState.goto, SendState.acquire, holds, taken] using count
  · subst taken
    rw [if_neg absent, locks.early thread isEarly] at count
    simp [SendState.goto, SendState.acquire, count]
  · simpa [SendState.goto, SendState.acquire, taken] using once

theorem SendState.Locks.release (locks : state.Locks) (owned : lock ∈ (state.pcs thread).holds)
    (late : ¬ pc.Early)
    (holds : ∀ other, other ∈ pc.holds ↔ other ≠ lock ∧ other ∈ (state.pcs thread).holds) :
    ((state.release thread lock).goto thread pc).Locks := by
  have holder : state.holder lock = some thread := (locks.held lock thread).mpr owned
  rw [SendState.release, if_pos holder]
  refine locks.update (fun other different => ⟨update_of_ne different .., rfl,
    update_of_ne different ..⟩) (fun which other different => ?_) (fun which => ?_)
    (fun which => ?_) (locks.once thread) (fun early => ?_) rfl
  · by_cases freed : which = lock
    · subst freed
      simp [SendState.goto, holder, different.symm]
    · simp [SendState.goto, freed]
  · by_cases freed : which = lock
    · subst freed
      simp [SendState.goto, holds]
    · simpa [SendState.goto, holds, freed] using locks.held which thread
  · have count := locks.counts thread which
    by_cases freed : which = lock
    · subst freed
      rw [if_pos owned] at count
      simp [SendState.goto, holds, count]
    · simpa [SendState.goto, holds, freed] using count
  · rw [goto_here] at early
    exact absurd early late

theorem inp_ne_not (side : Bool) : SendLock.inp side ≠ .inp !side := by
  cases side <;> decide

theorem inp_mem_both (side : Bool) (call : SendCall) :
    SendLock.inp side ∈ SendPc.inpsHeld call true := by
  cases side <;> cases own : call.side <;> simp [SendPc.inpsHeld, own]

theorem mem_both (primary side : Bool) (lock : SendLock) :
    lock ∈ [SendLock.inp !primary, .inp primary] ↔ lock ∈ [SendLock.inp side, .inp !side] := by
  cases primary <;> cases side <;> simp [or_comm]

theorem mem_afterInps (call : SendCall) (info : Bool) (lock : SendLock) :
    lock ∈ (afterInps call info).holds ↔ lock ∈ SendPc.infoHeld info := by
  cases info <;> simp [afterInps, SendPc.holds, SendPc.infoHeld]

theorem inp_not_mem_info (side info : Bool) : SendLock.inp side ∉ SendPc.infoHeld info := by
  cases info <;> simp [SendPc.infoHeld]

theorem mem_infoHeld_iff (side info : Bool) (lock : SendLock) : lock ∈ SendPc.infoHeld info ↔
    lock ≠ .inp side ∧ lock ∈ SendLock.inp side :: SendPc.infoHeld info := by
  rw [List.mem_cons]
  constructor
  · intro member
    refine ⟨?_, .inr member⟩
    rintro rfl
    exact inp_not_mem_info side info member
  · rintro ⟨different, rfl | member⟩
    · exact absurd rfl different
    · exact member

theorem afterInps_late (call : SendCall) (info : Bool) :
    ¬ (afterInps call info).Early := by
  cases info <;> exact id

inductive SendState.Turn (state : SendState) (thread : Nat) : SendState → Prop
  | stay : state.Turn thread state
  | goto {pc : SendPc} : (∀ lock, lock ∈ pc.holds ↔ lock ∈ (state.pcs thread).holds) →
      (pc.Early → (state.pcs thread).Early) → pc.Knows state.passive →
      state.Turn thread (state.goto thread pc)
  | acquire {lock : SendLock} {pc : SendPc} : (state.pcs thread).wants = some lock →
      (state.pcs thread).Early →
      (∀ other, other ∈ pc.holds ↔ other = lock ∨ other ∈ (state.pcs thread).holds) →
      pc.Knows state.passive → state.Turn thread ((state.acquire thread lock).goto thread pc)
  | release {lock : SendLock} {pc : SendPc} : lock ∈ (state.pcs thread).holds → ¬ pc.Early →
      (∀ other, other ∈ pc.holds ↔ other ≠ lock ∧ other ∈ (state.pcs thread).holds) →
      pc.Knows state.passive → state.Turn thread ((state.release thread lock).goto thread pc)
  | convert {call : SendCall} {info : Bool} : state.pcs thread = .check call info true →
      state.refuses call = false → state.passive call.side = true →
      state.Turn thread ((state.convertToActive call.side).goto thread (.drop call info))

theorem run_turn (knows : (state.pcs thread).Knows state.passive) :
    state.Turn thread (state.run thread) := by
  unfold SendState.run
  split
  next at_ => exact .stay
  next call at_ => exact .stay
  next call at_ =>
    split
    next eof =>
      refine .acquire ?_ ?_ ?_ trivial
      · simp [at_, SendPc.wants, eof]
      · simp [at_, SendPc.Early]
      · simp [at_, SendPc.holds, SendPc.infoHeld]
    next =>
      refine .goto ?_ ?_ trivial
      · simp [at_, SendPc.holds, SendPc.infoHeld]
      · simp [at_, SendPc.Early]
  next call info at_ =>
    refine .goto ?_ ?_ ?_
    · split
      · split
        next locked => simp [at_, SendPc.holds, locked]
        next unlocked => simp [at_, SendPc.holds, SendPc.infoHeld, unlocked]
      · simp [at_, SendPc.holds]
    · simp [at_, SendPc.Early]
    · split
      next passive => split <;> exact passive
      next active => exact Bool.eq_false_iff.mpr active
  next call at_ =>
    rw [at_] at knows
    refine .acquire ?_ ?_ ?_ knows
    · simp [at_, SendPc.wants]
    · simp [at_, SendPc.Early]
    · simp [at_, SendPc.holds, SendPc.infoHeld]
  next call info at_ =>
    rw [at_] at knows
    refine .goto ?_ ?_ knows
    · simp [at_, SendPc.holds]
    · simp [at_, SendPc.Early]
  next call info primary at_ =>
    rw [at_] at knows
    refine .acquire ?_ ?_ ?_ knows
    · simp [at_, SendPc.wants]
    · simp [at_, SendPc.Early]
    · simp [at_, SendPc.holds]
  next call info primary at_ =>
    rw [at_] at knows
    refine .acquire ?_ ?_ ?_ knows
    · simp [at_, SendPc.wants]
    · simp [at_, SendPc.Early]
    · intro lock
      have same := mem_both primary call.side lock
      simp only [at_, SendPc.holds, SendPc.inpsHeld, if_true, List.mem_append]
      rw [← same]
      simp [or_assoc]
  next call info at_ =>
    rw [at_] at knows
    refine .acquire ?_ ?_ ?_ knows
    · simp [at_, SendPc.wants]
    · simp [at_, SendPc.Early]
    · simp [at_, SendPc.holds, SendPc.inpsHeld]
  next call info both at_ =>
    rw [at_] at knows
    split
    · refine .goto ?_ False.elim knows
      simp [at_, SendPc.holds]
    next accepts =>
      split
      next passive =>
        obtain rfl : both = true := knows.symm.trans passive
        exact .convert at_ (Bool.eq_false_iff.mpr accepts) passive
      next =>
        refine .goto ?_ False.elim knows
        simp [at_, SendPc.holds]
  next call info at_ =>
    rw [at_] at knows
    have apart := inp_ne_not call.side
    refine .release ?_ id ?_ knows
    · simp [at_, SendPc.holds, SendPc.inpsHeld]
    · intro lock
      simp only [at_, SendPc.holds, SendPc.inpsHeld, if_true, Bool.false_eq_true, if_false,
        List.mem_append, List.mem_cons, List.not_mem_nil, or_false]
      constructor
      · rintro (rfl | member)
        · exact ⟨apart, .inl (.inl rfl)⟩
        · refine ⟨?_, .inr member⟩
          rintro rfl
          exact inp_not_mem_info _ _ member
      · rintro ⟨different, (rfl | rfl) | member⟩
        · exact .inl rfl
        · exact absurd rfl different
        · exact .inr member
  next call info both at_ =>
    rw [at_] at knows
    refine .goto ?_ False.elim knows
    simp [at_, SendPc.holds]
  next call info both at_ =>
    rw [at_] at knows
    split
    next passive =>
      have isBoth : both = true := knows.symm.trans passive
      refine .goto (fun lock => ?_) False.elim trivial
      have same := mem_both (state.primaryOf call.side) call.side lock
      simp only [at_, SendPc.holds, SendPc.inpsHeld, isBoth, if_true, List.mem_append]
      rw [← same]
      simp [or_assoc]
    next active =>
      have isOwn : both = false := knows.symm.trans (Bool.eq_false_iff.mpr active)
      refine .goto ?_ False.elim trivial
      simp [at_, SendPc.holds, SendPc.inpsHeld, isOwn]
  next call info primary at_ =>
    have apart := inp_ne_not primary
    refine .release ?_ id ?_ trivial
    · simp [at_, SendPc.holds]
    · intro lock
      simp only [at_, SendPc.holds, List.mem_cons]
      constructor
      · rintro (rfl | member)
        · exact ⟨apart, .inr (.inl rfl)⟩
        · refine ⟨?_, .inr (.inr member)⟩
          rintro rfl
          exact inp_not_mem_info _ _ member
      · rintro ⟨different, rfl | rest⟩
        · exact absurd rfl different
        · exact rest
  next call info primary at_ =>
    refine .release ?_ (afterInps_late call info) ?_ ?_
    · simp [at_, SendPc.holds]
    · intro lock
      rw [mem_afterInps, at_]
      exact mem_infoHeld_iff _ info lock
    · cases info <;> trivial
  next call info at_ =>
    refine .release ?_ (afterInps_late call info) ?_ ?_
    · simp [at_, SendPc.holds]
    · intro lock
      rw [mem_afterInps, at_]
      exact mem_infoHeld_iff _ info lock
    · cases info <;> trivial
  next call at_ =>
    refine .release ?_ id ?_ trivial
    · simp [at_, SendPc.holds]
    · simp [at_, SendPc.holds]

theorem SendState.Locks.run (locks : state.Locks) (flags : state.Flags)
    (enabled : state.Enabled (.run thread)) : (state.run thread).Locks := by
  have free : ∀ lock, (state.pcs thread).wants = some lock → state.holder lock = none := enabled
  generalize state.run thread = next, run_turn (flags.knows thread) = turn
  cases turn with
  | stay => exact locks
  | goto holds early => exact locks.goto holds early
  | acquire wants early holds => exact locks.acquire (free _ wants) early holds
  | release owned late holds => exact locks.release owned late holds
  | @convert call info at_ =>
    have converted : (state.convertToActive call.side).Locks := { locks with }
    refine converted.goto ?_ False.elim
    rw [show (state.convertToActive call.side).pcs thread = _ from at_]
    exact fun _ => Iff.rfl

theorem SendState.Locks.call (locks : state.Locks) {call : SendCall}
    (idle : state.pcs thread = .idle) : (state.step (.call thread call)).Locks := by
  refine locks.update (fun other different => ⟨update_of_ne different .., update_of_ne different ..,
    update_of_ne different ..⟩) (fun _ _ _ => Iff.rfl) (fun lock => ?_) (fun lock => ?_)
    (fun lock => ?_) (fun _ lock => ?_) rfl
  · have before := locks.held lock thread
    rw [idle] at before
    simpa [SendState.step, SendState.goto, SendPc.holds] using before
  · simp [SendState.step, SendState.goto, SendPc.holds]
  · simp [SendState.step]
  · simp [SendState.step]

theorem SendState.Locks.step (locks : state.Locks) (flags : state.Flags)
    (enabled : state.Enabled label) : (state.step label).Locks := by
  cases label with
  | call thread call => exact locks.call enabled
  | run thread => exact locks.run flags enabled
  | finish thread =>
    obtain ⟨call, at_⟩ := enabled
    refine locks.goto ?_ False.elim
    simp [at_, SendPc.holds]
  | gone side => exact { locks with }

end Locks

section Flags

theorem release_passive (state : SendState) (thread : Nat) (lock : SendLock) :
    (state.release thread lock).passive = state.passive ∧
      (state.release thread lock).pcs = state.pcs := by
  unfold SendState.release
  split <;> exact ⟨rfl, rfl⟩

theorem SendState.Flags.goto (flags : state.Flags) (passive : next.passive = state.passive)
    (pcs : next.pcs = state.pcs) (knows : pc.Knows state.passive) :
    (next.goto thread pc).Flags := by
  have stays : (next.goto thread pc).passive = state.passive := passive
  refine ⟨?_, fun other => ?_⟩
  · rw [stays]
    exact flags.same
  · rw [stays]
    by_cases same : other = thread
    · subst same
      simpa [SendState.goto] using knows
    · simpa [SendState.goto, update_of_ne same, pcs] using flags.knows other

theorem SendState.Flags.convert (flags : state.Flags) (locks : state.Locks) {call : SendCall}
    {info both : Bool} (at_ : state.pcs thread = .check call info both)
    (passive : state.passive call.side = true)
    (alone : ∀ other, other ≠ thread → ¬ (state.pcs other).InWindow) :
    ((state.convertToActive call.side).goto thread (.drop call info)).Flags := by
  have all : ∀ side, state.passive side = true := by
    have equal := flags.same
    intro side
    cases side <;> cases own : call.side <;> rw [own] at passive <;> simp_all
  have mine : state.holder (.inp call.side) = some thread := by
    refine (locks.held _ thread).mpr ?_
    rw [at_]
    cases both <;> simp [SendPc.holds, SendPc.inpsHeld]
  have others : ∀ other call' info' both', other ≠ thread →
      (state.pcs other).holds = SendPc.inpsHeld call' both' ++ SendPc.infoHeld info' →
      both' = true → False := by
    intro other call' info' both' different held isBoth
    subst isBoth
    have member : SendLock.inp call.side ∈ (state.pcs other).holds := by
      rw [held]
      exact List.mem_append_left _ (inp_mem_both call.side call')
    have theirs := (locks.held _ other).mpr member
    rw [mine] at theirs
    exact different (Option.some.inj theirs).symm
  refine ⟨rfl, fun other => ?_⟩
  by_cases same : other = thread
  · subst same
    simp [SendState.goto, SendPc.Knows, convertToActive]
  · have knows := flags.knows other
    have outside := alone other same
    simp only [SendState.goto, convertToActive, update_of_ne same]
    cases pc : state.pcs other with
    | lockInfo call' | order call' info' | lockPrimary call' info' primary'
    | lockSecondary call' info' primary' =>
      rw [pc] at outside
      exact absurd trivial outside
    | check call' info' both' | work call' info' both' | out call' info' both' =>
      rw [pc] at knows
      have isBoth : both' = true := knows.symm.trans (all call'.side)
      exact (others other call' info' both' same (by rw [pc]; rfl) isBoth).elim
    | lockOwn call' info' | drop call' info' => rfl
    | _ => trivial

theorem SendState.Flags.run (flags : state.Flags) (locks : state.Locks)
    (steady : state.Steady (.run thread)) : (state.run thread).Flags := by
  generalize state.run thread = next, run_turn (flags.knows thread) = turn
  cases turn with
  | stay => exact flags
  | goto _ _ knows | acquire _ _ _ knows => exact flags.goto rfl rfl knows
  | release _ _ _ knows =>
    obtain ⟨passive, pcs⟩ := release_passive state thread _
    exact flags.goto passive pcs knows
  | @convert call info at_ accepts passive =>
    exact flags.convert locks at_ passive (steady ⟨call, info, true, at_, accepts, passive⟩)

theorem SendState.Flags.step (flags : state.Flags) (locks : state.Locks)
    (steady : state.Steady label) : (state.step label).Flags := by
  cases label with
  | call thread call =>
    have moved : (state.goto thread (.entry call)).Flags := flags.goto rfl rfl trivial
    exact { moved with }
  | run thread => exact flags.run locks steady
  | finish thread => exact flags.goto rfl rfl trivial
  | gone side => exact { flags with }

end Flags

def steadyMove (state : SendState) (label : SendStep) (next : SendState) : Prop :=
  sendMove state label next ∧ state.Steady label

def SendState.Balanced (state : SendState) : Prop :=
  ∀ thread, state.bad thread = false ∧
    ∀ call, state.pcs thread = .returned call →
      ∀ lock, state.holder lock ≠ some thread ∧
        state.taken thread lock = state.freed thread lock ∧ state.taken thread lock ≤ 1

theorem SendState.Locks.balanced (locks : state.Locks) : state.Balanced := by
  refine fun thread => ⟨locks.legal thread, fun call at_ lock => ?_⟩
  have held := locks.held lock thread
  have count := locks.counts thread lock
  rw [at_] at held count
  refine ⟨fun owned => ?_, ?_, locks.once thread lock⟩
  · cases held.mp owned
  · simpa [SendPc.holds] using count

/-- No call releases a lock it does not hold, and a returned call has released what it took. -/
theorem tcpUsrSend_balanced (passiveclnt : Bool → Bool) {labels : List SendStep}
    {state : SendState} (run : Run steadyMove (SendState.start passiveclnt) labels state) :
    state.Balanced := by
  have inv : state.Locks ∧ state.Flags := by
    refine run.invariant (fun state => state.Locks ∧ state.Flags)
      ⟨send_locks_start passiveclnt, send_flags_start passiveclnt⟩ fun _ _ _ inv move => ?_
    obtain ⟨⟨enabled, rfl⟩, steady⟩ := move
    exact ⟨inv.1.step inv.2 enabled, inv.2.step inv.1 steady⟩
  exact inv.1.balanced

def plainSend : SendCall := ⟨false, false, .absent⟩

theorem tcpUsrSend_converts :
    ∃ state, Run steadyMove (SendState.start fun _ => false) (.call 0 plainSend ::
        List.replicate 12 (.run 0)) state ∧
      state.pcs 0 = .returned plainSend ∧ state.taken 0 (.inp true) = 1 ∧ state.Balanced := by
  have alone : ∀ state : SendState, (∀ other, ¬ (state.pcs (other + 1)).InWindow) →
      state.Steady (.run 0) := by
    intro state outside _ other different
    obtain ⟨before, rfl⟩ := Nat.exists_eq_succ_of_ne_zero different
    exact outside before
  exact Run.exists_with_two (fun _ run => tcpUsrSend_balanced (fun _ => false) run)
    ⟨_, Allowed.run_and ⟨⟨rfl, trivial⟩, ⟨by rintro _ ⟨⟩, alone _ fun _ => id⟩,
      ⟨by rintro _ ⟨⟩, alone _ fun _ => id⟩, ⟨by rintro _ ⟨⟩; rfl, alone _ fun _ => id⟩,
      ⟨by rintro _ ⟨⟩, alone _ fun _ => id⟩, ⟨by rintro _ ⟨⟩; rfl, alone _ fun _ => id⟩,
      ⟨by rintro _ ⟨⟩; rfl, alone _ fun _ => id⟩, ⟨by rintro _ ⟨⟩, alone _ fun _ => id⟩,
      ⟨by rintro _ ⟨⟩, alone _ fun _ => id⟩, ⟨by rintro _ ⟨⟩, alone _ fun _ => id⟩,
      ⟨by rintro _ ⟨⟩, alone _ fun _ => id⟩, ⟨by rintro _ ⟨⟩, alone _ fun _ => id⟩,
      ⟨by rintro _ ⟨⟩, alone _ fun _ => id⟩, trivial⟩, rfl, rfl⟩

def peerSend : SendCall := ⟨true, false, .absent⟩

def bothTested : SendState :=
  [.call 0 plainSend, .run 0, .run 0, .call 1 peerSend, .run 1, .run 1].foldl SendState.step
    (SendState.start fun _ => false)

def firstReturned : SendState := (List.replicate 10 (.run 0)).foldl SendState.step bothTested

theorem tcpUsrSend_keeps_lock :
    ∃ state, Run sendMove (SendState.start fun _ => false) ([.call 0 plainSend, .run 0, .run 0,
        .call 1 peerSend, .run 1, .run 1] ++ List.replicate 10 (.run 0) ++
        List.replicate 9 (.run 1)) state ∧
      state.pcs 1 = .returned peerSend ∧ state.holder (.inp false) = some 1 ∧
      state.taken 1 (.inp false) = 1 ∧ state.freed 1 (.inp false) = 0 := by
  have tests : Run sendMove (SendState.start fun _ => false) [.call 0 plainSend, .run 0, .run 0,
      .call 1 peerSend, .run 1, .run 1] bothTested :=
    Allowed.run ⟨rfl, by rintro _ ⟨⟩, by rintro _ ⟨⟩, rfl, by rintro _ ⟨⟩, by rintro _ ⟨⟩, trivial⟩
  have first : Run sendMove bothTested (List.replicate 10 (.run 0)) firstReturned :=
    Allowed.run ⟨by rintro _ ⟨⟩; rfl, by rintro _ ⟨⟩, by rintro _ ⟨⟩; rfl, by rintro _ ⟨⟩; rfl,
      by rintro _ ⟨⟩, by rintro _ ⟨⟩, by rintro _ ⟨⟩, by rintro _ ⟨⟩, by rintro _ ⟨⟩,
      by rintro _ ⟨⟩, trivial⟩
  have second : Run sendMove firstReturned (List.replicate 9 (.run 1))
      ((List.replicate 9 (.run 1)).foldl SendState.step firstReturned) :=
    Allowed.run ⟨by rintro _ ⟨⟩; rfl, by rintro _ ⟨⟩, by rintro _ ⟨⟩; rfl, by rintro _ ⟨⟩; rfl,
      by rintro _ ⟨⟩, by rintro _ ⟨⟩, by rintro _ ⟨⟩, by rintro _ ⟨⟩, by rintro _ ⟨⟩, trivial⟩
  exact ⟨_, (tests.append first).append second, rfl, rfl, rfl, rfl⟩

end Libunsod.Netinet
