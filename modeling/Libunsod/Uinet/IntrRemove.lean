import Libunsod.Uinet.IntrCore

/-!
Removal of handlers. A handler that is removed while the thread runs is marked and the
thread takes it off the list. One that is removed while the thread waits for an interrupt is
freed and stays on the list. As long as the thread is not waiting then, nothing that is
freed is on the list or in the thread's variables.
-/

namespace Libunsod.Uinet

open Runs
open Function (update update_of_ne update_self forall_update_iff)
open Intr

variable {elem : Nat} {elems : List Nat} {pc : IntrCall}

def IthreadPc.Points (handler : Nat) : IthreadPc → Prop
  | .fetch pointer => pointer = some handler
  | .visit ih ihn | .clear ih ihn | .calling ih ihn => ih = handler ∨ ihn = some handler
  | _ => False

def IthreadPc.Apart : IthreadPc → Prop
  | .visit ih ihn | .clear ih ihn | .calling ih ihn => ihn ≠ some ih
  | _ => True

def IntrCall.owns : IntrCall → Option Nat
  | .addCreate handler | .addAttach handler | .addWait handler | .removeWait handler =>
      some handler
  | _ => none

def IntrCall.holds : IntrCall → IntrHandler
  | .removeWait _ => .removing
  | _ => .adding

namespace Intr

structure Lists (handlers : List Nat) (status : Nat → IntrHandler) (pc : IthreadPc)
    (ownEvent ieThread : Bool) : Prop where
  nodup : handlers.Nodup
  listed : ∀ handler ∈ handlers, status handler = .adding ∨ status handler = .added ∨
    status handler = .removing
  points : ∀ handler, pc.Points handler → handler ∈ handlers ∧ ownEvent = true
  apart : pc.Apart
  own : ownEvent = true → ieThread = true

structure Calls (calls : Nat → IntrCall) (status : Nat → IntrHandler) (gone : Nat → Prop) :
    Prop where
  unique : ∀ call other handler, (calls call).owns = some handler →
    (calls other).owns = some handler → call = other
  owned : ∀ call handler, (calls call).owns = some handler → status handler = (calls call).holds
  removes : ∀ call handler, calls call = .removeWait handler → gone handler

def Gone (ihDead : Nat → Bool) (handlers : List Nat) (handler : Nat) : Prop :=
  ihDead handler = false → handler ∉ handlers

structure Inv (intr : Intr) : Prop where
  lists : Lists intr.handlers intr.status intr.pc intr.ownEvent intr.ieThread
  calls : Calls intr.calls intr.status (Gone intr.ihDead intr.handlers)

end Intr

variable {config : IntrConfig} {intr next : Intr} {call handler : Nat} {label : IntrStep}

theorem tailqNext_mem {found : Nat} (next : tailqNext elem elems = some found) : found ∈ elems := by
  induction elems with
  | nil => cases next
  | cons first rest ih =>
    unfold tailqNext at next
    split at next
    · exact List.mem_cons_of_mem _ (List.mem_of_mem_head? next)
    · exact List.mem_cons_of_mem _ (ih next)

theorem tailqNext_ne (nodup : elems.Nodup) : tailqNext elem elems ≠ some elem := by
  induction elems with
  | nil => rintro ⟨⟩
  | cons first rest ih =>
    obtain ⟨absent, tail⟩ := List.nodup_cons.mp nodup
    unfold tailqNext
    split
    next same =>
      intro next
      rw [same] at absent
      exact absent (List.mem_of_mem_head? next)
    next different => exact ih tail

theorem insertHandler_perm (config : IntrConfig) (handler : Nat) (handlers : List Nat) :
    (insertHandler config handler handlers).Perm (handler :: handlers) := by
  unfold insertHandler
  refine List.perm_middle.trans (List.Perm.cons handler ?_)
  rw [List.takeWhile_append_dropWhile]

theorem intr_inv_start : Intr.start.Inv where
  lists := ⟨List.nodup_nil, by simp [start], fun _ points => points.elim, trivial, by rintro ⟨⟩⟩
  calls := ⟨by rintro _ _ _ ⟨⟩, by rintro _ _ ⟨⟩, by rintro _ _ ⟨⟩⟩

inductive ThreadCase (intr : Intr) : Intr → Prop
  | starting (at_ : intr.pc = .starting) :
      ThreadCase intr { intr.goto .test with ownEvent := intr.ieThread }
  | needed (at_ : intr.pc = .test) (need : intr.itNeed = true) : ThreadCase intr (intr.goto .reset)
  | unneeded (at_ : intr.pc = .test) (unneeded : intr.itNeed ≠ true) :
      ThreadCase intr (intr.goto .suspend)
  | reset (at_ : intr.pc = .reset) : ThreadCase intr { intr.goto .first with itNeed := false }
  | first (at_ : intr.pc = .first) : ThreadCase intr
      (intr.goto (.fetch (if intr.ownEvent then intr.handlers.head? else none)))
  | passed (at_ : intr.pc = .fetch none) : ThreadCase intr (intr.goto .test)
  | fetch (ih : Nat) (at_ : intr.pc = .fetch (some ih)) :
      ThreadCase intr (intr.goto (.visit ih (tailqNext ih intr.handlers)))
  | unlink (ih : Nat) (ihn : Option Nat) (at_ : intr.pc = .visit ih ihn)
      (dead : intr.ihDead ih = true) : ThreadCase intr
        { (intr.setDead ih false).goto (.fetch ihn) with handlers := intr.handlers.erase ih }
  | wanted (ih : Nat) (ihn : Option Nat) (at_ : intr.pc = .visit ih ihn) :
      ThreadCase intr (intr.goto (.clear ih ihn))
  | unwanted (ih : Nat) (ihn : Option Nat) (at_ : intr.pc = .visit ih ihn)
      (unwanted : intr.ihNeed ih ≠ true) : ThreadCase intr (intr.goto (.fetch ihn))
  | clear (ih : Nat) (ihn : Option Nat) (at_ : intr.pc = .clear ih ihn) :
      ThreadCase intr ((intr.setNeed ih false).goto (.calling ih ihn))
  | called (ih : Nat) (ihn : Option Nat) (at_ : intr.pc = .calling ih ihn) :
      ThreadCase intr (intr.goto (.fetch ihn))
  | again (at_ : intr.pc = .suspend) (need : intr.itNeed = true) :
      ThreadCase intr (intr.goto .test)
  | sleep (at_ : intr.pc = .suspend) (unneeded : intr.itNeed ≠ true) :
      ThreadCase intr { intr.goto .asleep with iwait := true }
  | wake (at_ : intr.pc = .asleep) : ThreadCase intr (intr.goto .test)

theorem threadStep_cases (present : intr.pc ≠ .absent) : ThreadCase intr intr.threadStep := by
  unfold threadStep
  split
  next at_ => exact absurd at_ present
  next at_ => exact .starting at_
  next at_ =>
    split
    next need => exact .needed at_ need
    next unneeded => exact .unneeded at_ unneeded
  next at_ => exact .reset at_
  next at_ => exact .first at_
  next at_ => exact .passed at_
  next ih at_ => exact .fetch ih at_
  next ih ihn at_ =>
    split
    next dead => exact .unlink ih ihn at_ dead
    · split
      · exact .wanted ih ihn at_
      next unwanted => exact .unwanted ih ihn at_ unwanted
  next ih ihn at_ => exact .clear ih ihn at_
  next ih ihn at_ => exact .called ih ihn at_
  next at_ =>
    split
    next need => exact .again at_ need
    next unneeded => exact .sleep at_ unneeded
  next at_ => exact .wake at_

theorem ThreadCase.frame (stepped : ThreadCase intr next) :
    next.calls = intr.calls ∧ next.status = intr.status ∧ next.ieThread = intr.ieThread ∧
      next.addingThread = intr.addingThread ∧ next.pc ≠ .absent ∧ next.pc ≠ .starting := by
  cases stepped <;> exact ⟨rfl, rfl, rfl, rfl, by rintro ⟨⟩, by rintro ⟨⟩⟩

theorem ThreadCase.unlinks (stepped : ThreadCase intr next) :
    (next.handlers = intr.handlers ∧ next.ihDead = intr.ihDead) ∨
      ∃ handler, intr.ihDead handler = true ∧ next.handlers = intr.handlers.erase handler ∧
        next.ihDead = update intr.ihDead handler false := by
  cases stepped with
  | unlink ih ihn at_ dead => exact .inr ⟨ih, dead, rfl, rfl⟩
  | _ => exact .inl ⟨rfl, rfl⟩

section Thread

variable {handlers : List Nat} {status : Nat → IntrHandler} {ownEvent ieThread : Bool}

theorem Intr.Lists.goto {before pc : IthreadPc}
    (lists : Lists handlers status before ownEvent ieThread)
    (points : ∀ handler, pc.Points handler → before.Points handler) (apart : pc.Apart) :
    Lists handlers status pc ownEvent ieThread :=
  { lists with points := fun handler at_ => lists.points handler (points handler at_), apart }

theorem Intr.Inv.thread (inv : intr.Inv) (stepped : ThreadCase intr next) :
    Lists next.handlers next.status next.pc next.ownEvent next.ieThread := by
  have lists := inv.lists
  have points := lists.points
  have apart := lists.apart
  cases stepped with
  | starting at_ =>
    exact { lists with points := fun _ points => points.elim, apart := trivial, own := id }
  | needed at_ | unneeded at_ | reset at_ | passed at_ | again at_ | sleep at_ | wake at_ =>
    exact lists.goto (fun _ points => points.elim) trivial
  | first at_ =>
    refine { lists with points := fun handler points => ?_, apart := trivial }
    have head : (if intr.ownEvent then intr.handlers.head? else none) = some handler := points
    split at head
    next own => exact ⟨List.mem_of_mem_head? head, own⟩
    next => cases head
  | fetch ih at_ =>
    rw [at_] at points
    obtain ⟨member, own⟩ := points ih rfl
    refine { lists with points := fun handler points => ?_, apart := tailqNext_ne lists.nodup }
    rcases points with rfl | next
    · exact ⟨member, own⟩
    · exact ⟨tailqNext_mem next, own⟩
  | unlink ih ihn at_ dead =>
    rw [at_] at points apart
    refine ⟨lists.nodup.erase ih, fun handler member => ?_, fun handler next => ?_, trivial,
      lists.own⟩
    · exact lists.listed handler (List.mem_of_mem_erase member)
    · obtain ⟨member, own⟩ := points handler (.inr next)
      refine ⟨(lists.nodup.mem_erase_iff).mpr ⟨?_, member⟩, own⟩
      rintro rfl
      exact apart next
  | wanted ih ihn at_ | clear ih ihn at_ =>
    rw [at_] at lists apart
    exact lists.goto (fun _ => id) apart
  | unwanted ih ihn at_ | called ih ihn at_ =>
    rw [at_] at lists
    exact lists.goto (fun _ => .inr) trivial

end Thread

section Calls

variable {calls : Nat → IntrCall} {status : Nat → IntrHandler} {gone : Nat → Prop}

theorem Intr.Calls.set (table : Calls calls status gone)
    (owns : ∀ handler, pc.owns = some handler → status handler = pc.holds ∧
      ∀ other, other ≠ call → (calls other).owns ≠ some handler)
    (waits : ∀ handler, pc = .removeWait handler → gone handler) :
    Calls (update calls call pc) status gone := by
  refine ⟨fun one other handler first second => ?_, ?_, ?_⟩
  · by_cases here : one = call <;> by_cases there : other = call
    · exact here.trans there.symm
    · rw [here, update_self] at first
      rw [update_of_ne there] at second
      exact absurd second ((owns handler first).2 other there)
    · rw [there, update_self] at second
      rw [update_of_ne here] at first
      exact absurd first ((owns handler second).2 one here)
    · rw [update_of_ne here] at first
      rw [update_of_ne there] at second
      exact table.unique one other handler first second
  · exact (forall_update_iff calls fun _ pc => ∀ handler, pc.owns = some handler →
      status handler = pc.holds).mpr ⟨fun handler at_ => (owns handler at_).1,
        fun one _ => table.owned one⟩
  · exact (forall_update_iff calls fun _ pc => ∀ handler, pc = .removeWait handler →
      gone handler).mpr ⟨waits, fun one _ => table.removes one⟩

theorem Intr.Calls.idle (table : Calls calls status gone) (none : pc.owns = none) :
    Calls (update calls call pc) status gone := by
  refine table.set (fun handler owns => ?_) (fun handler same => ?_)
  · rw [none] at owns
    cases owns
  · rw [same] at none
    cases none

theorem Intr.Calls.unowned (table : Calls calls status gone)
    (notAdding : status handler ≠ .adding) (notRemoving : status handler ≠ .removing) (call : Nat) :
    (calls call).owns ≠ some handler := by
  intro owns
  have held := table.owned call handler owns
  unfold IntrCall.holds at held
  split at held
  · exact notRemoving held
  · exact notAdding held

theorem Intr.Calls.setStatus (table : Calls calls status gone) (after : IntrHandler)
    (unowned : ∀ call, (calls call).owns ≠ some handler) :
    Calls calls (update status handler after) gone := by
  refine { table with owned := fun call owned owns => ?_ }
  have different : owned ≠ handler := by
    rintro rfl
    exact unowned call owns
  rw [update_of_ne different]
  exact table.owned call owned owns

theorem Intr.Calls.finishes (table : Calls calls status gone) {after : IntrHandler}
    (owns : (calls call).owns = some handler) :
    Calls (update calls call .idle) (update status handler after) gone := by
  have idle : Calls (update calls call .idle) status gone := table.idle rfl
  refine idle.setStatus after fun one owned => ?_
  by_cases same : one = call
  · rw [same, update_self] at owned
    cases owned
  · rw [update_of_ne same] at owned
    exact same (table.unique one call handler owned owns)

theorem Intr.Calls.mono {after : Nat → Prop} (table : Calls calls status gone)
    (kept : ∀ handler, status handler = .removing → gone handler → after handler) :
    Calls calls status after := by
  refine { table with removes := fun call handler at_ => ?_ }
  have removing := table.owned call handler (by rw [at_]; rfl)
  rw [at_] at removing
  exact kept handler removing (table.removes call handler at_)

theorem Intr.Inv.thread_calls (inv : intr.Inv) (stepped : ThreadCase intr next) :
    Calls next.calls next.status (Gone next.ihDead next.handlers) := by
  obtain ⟨sameCalls, sameStatus, -⟩ := stepped.frame
  rw [sameCalls, sameStatus]
  refine inv.calls.mono fun handler _ gone => ?_
  rcases stepped.unlinks with ⟨handlers, dead⟩ | ⟨taken, -, handlers, dead⟩
  · rw [handlers, dead]
    exact gone
  · rw [handlers, dead]
    intro cleared member
    obtain ⟨different, member⟩ := inv.lists.nodup.mem_erase_iff.mp member
    rw [update_of_ne different] at cleared
    exact gone cleared member

end Calls

section Steps

theorem Intr.Lists.setStatus {handlers : List Nat} {status : Nat → IntrHandler} {pc : IthreadPc}
    {ownEvent ieThread : Bool} (lists : Lists handlers status pc ownEvent ieThread)
    (after : IntrHandler)
    (good : handler ∈ handlers → after = .adding ∨ after = .added ∨ after = .removing) :
    Lists handlers (update status handler after) pc ownEvent ieThread := by
  refine { lists with listed := fun other member => ?_ }
  by_cases same : other = handler
  · subst same
    simpa using good member
  · simpa [update_of_ne same] using lists.listed other member

def Intr.linkHandler (config : IntrConfig) (intr : Intr) (handler : Nat) : Intr :=
  { intr.setStatus handler .adding with
    handlers := insertHandler config handler intr.handlers }

inductive AddCase (config : IntrConfig) (intr : Intr) (call handler : Nat) : Intr → Prop
  | refused : AddCase config intr call handler (intr.setStatus handler .refused)
  | added (thread : intr.ieThread = true) :
      AddCase config intr call handler
        ((intr.linkHandler config handler).returnCookie call handler)
  | waits : AddCase config intr call handler
      ((intr.linkHandler config handler).setCall call (.addWait handler))
  | creates (noThread : intr.ieThread = false) (noCreator : intr.addingThread = false) :
      AddCase config intr call handler
        { (intr.linkHandler config handler).setCall call (.addCreate handler) with
          addingThread := true }

theorem addHandler_cases (config : IntrConfig) (intr : Intr) (call handler : Nat) :
    AddCase config intr call handler (intr.addHandler config call handler) := by
  unfold addHandler
  split
  · exact .refused
  · simp only
    split
    next thread => exact .added thread
    next noThread =>
      split
      · exact .waits
      next noCreator =>
        exact .creates (Bool.eq_false_iff.mpr noThread) (Bool.eq_false_iff.mpr noCreator)

theorem Intr.Inv.refuse (inv : intr.Inv) (unborn : intr.status handler = .unborn) :
    handler ∉ intr.handlers ∧ ∀ call, (intr.calls call).owns ≠ some handler := by
  refine ⟨fun member => ?_, inv.calls.unowned (by simp [unborn]) (by simp [unborn])⟩
  have good := inv.lists.listed handler member
  rw [unborn] at good
  rcases good with ⟨⟨⟩⟩ | ⟨⟨⟩⟩ | ⟨⟨⟩⟩

theorem Intr.Inv.link (config : IntrConfig) (inv : intr.Inv)
    (unborn : intr.status handler = .unborn) : (intr.linkHandler config handler).Inv := by
  obtain ⟨fresh, unowned⟩ := inv.refuse unborn
  have perm := insertHandler_perm config handler intr.handlers
  have lists := inv.lists.setStatus .adding fun _ : handler ∈ _ => .inl rfl
  have adding : (intr.setStatus handler .adding).status handler = .adding := update_self ..
  refine ⟨⟨?_, fun other member => ?_, fun other points => ?_, lists.apart, lists.own⟩,
    (inv.calls.setStatus .adding unowned).mono fun other removing gone cleared member => ?_⟩
  · exact perm.nodup_iff.mpr (List.nodup_cons.mpr ⟨fresh, lists.nodup⟩)
  · rcases List.mem_cons.mp (perm.mem_iff.mp member) with rfl | member
    · exact .inl adding
    · exact lists.listed other member
  · obtain ⟨member, own⟩ := lists.points other points
    exact ⟨perm.mem_iff.mpr (List.mem_cons_of_mem _ member), own⟩
  · rcases List.mem_cons.mp (perm.mem_iff.mp member) with rfl | member
    · rw [update_self] at removing
      cases removing
    · exact gone cleared member

theorem Intr.Inv.add (inv : intr.Inv) (unborn : intr.status handler = .unborn)
    (stepped : AddCase config intr call handler next) : next.Inv := by
  obtain ⟨fresh, unowned⟩ := inv.refuse unborn
  obtain ⟨linked, called⟩ := inv.link config unborn
  have takes : ∀ pc : IntrCall, pc.owns = some handler → pc.holds = .adding →
      Calls (update intr.calls call pc) (intr.linkHandler config handler).status
        (Gone intr.ihDead (intr.linkHandler config handler).handlers) := by
    intro pc owns holds
    refine called.set (fun other same => ?_) (by rintro _ rfl; cases holds)
    rw [owns] at same
    cases same
    exact ⟨(update_self ..).trans holds.symm, fun other _ => unowned other⟩
  cases stepped with
  | refused =>
    exact ⟨inv.lists.setStatus _ fun member => absurd member fresh, inv.calls.setStatus _ unowned⟩
  | added thread =>
    exact ⟨linked.setStatus .added fun _ => .inr (.inl rfl),
      (called.setStatus .added unowned).idle rfl⟩
  | waits => exact ⟨linked, takes (.addWait handler) rfl rfl⟩
  | creates noThread noCreator => exact ⟨linked, takes (.addCreate handler) rfl rfl⟩

def Intr.Awake (intr : Intr) : IntrStep → Prop
  | .remove _ _ => intr.ieThread = true → intr.iwait = false
  | _ => True

theorem Intr.Inv.remove (inv : intr.Inv) (added : intr.status handler = .added)
    (awake : intr.ieThread = true → intr.iwait = false) :
    (intr.removeHandler call handler).Inv := by
  obtain ⟨lists, calls⟩ := inv
  have unowned : ∀ call, (intr.calls call).owns ≠ some handler :=
    calls.unowned (by simp [added]) (by simp [added])
  unfold removeHandler
  split
  next thread =>
    rw [if_neg (by simp [awake thread])]
    have marked : Calls intr.calls (update intr.status handler .removing)
        (Gone (update intr.ihDead handler true) intr.handlers) := by
      refine (calls.setStatus .removing unowned).mono fun other _ gone cleared => ?_
      by_cases same : other = handler
      · rw [same, update_self] at cleared
        cases cleared
      · rw [update_of_ne same] at cleared
        exact gone cleared
    refine ⟨lists.setStatus .removing fun _ => .inr (.inr rfl), marked.set ?_ ?_⟩
    · rintro _ ⟨⟩
      exact ⟨update_self .., fun other _ => unowned other⟩
    · rintro _ ⟨⟩ cleared
      rw [update_self] at cleared
      cases cleared
  next noThread =>
    refine ⟨⟨lists.nodup.erase handler, fun other member => ?_, fun other points => ?_,
      lists.apart, lists.own⟩, (calls.setStatus .freed unowned).mono fun other _ gone cleared
        member => gone cleared (List.mem_of_mem_erase member)⟩
    · obtain ⟨different, member⟩ := lists.nodup.mem_erase_iff.mp member
      simpa [Intr.setStatus, update_of_ne different] using lists.listed other member
    · exact absurd (lists.own (lists.points other points).2) noThread

inductive IntrCase (config : IntrConfig) (intr : Intr) : IntrStep → Intr → Prop
  | add {call handler : Nat} {next : Intr} (idle : intr.calls call = .idle)
      (unborn : intr.status handler = .unborn) (stepped : AddCase config intr call handler next) :
      IntrCase config intr (.add call handler) next
  | create {call handler : Nat} (pc : intr.calls call = .addCreate handler) :
      IntrCase config intr (.create call)
        ((intr.goto .starting).setCall call (.addAttach handler))
  | attach {call handler : Nat} (pc : intr.calls call = .addAttach handler) :
      IntrCase config intr (.attach call)
        { intr.returnCookie call handler with addingThread := false, ieThread := true }
  | addWoken {call handler : Nat} (pc : intr.calls call = .addWait handler)
      (thread : intr.ieThread = true) :
      IntrCase config intr (.addWoken call) (intr.returnCookie call handler)
  | sched {call handler : Nat} (idle : intr.calls call = .idle)
      (cookie : intr.status handler = .added ∨ intr.status handler = .removing ∨
        intr.status handler = .freed) :
      IntrCase config intr (.sched call handler)
        ((intr.setNeed handler true).setCall call (.schedCheck handler))
  | schedCheck {call handler : Nat} (pc : intr.calls call = .schedCheck handler) :
      IntrCase config intr (.schedCheck call) (intr.setCall call
        (if intr.handlers.isEmpty || !intr.ieThread then .idle else .schedSet handler))
  | schedSet {call handler : Nat} (pc : intr.calls call = .schedSet handler) :
      IntrCase config intr (.schedSet call)
        { intr.setCall call (.schedWake handler) with itNeed := true }
  | schedWake {call handler : Nat} (pc : intr.calls call = .schedWake handler) :
      IntrCase config intr (.schedWake call) { intr.setCall call .idle with iwait := false }
  | remove {call handler : Nat} (idle : intr.calls call = .idle)
      (added : intr.status handler = .added) :
      IntrCase config intr (.remove call handler) (intr.removeHandler call handler)
  | removeWoken {call handler : Nat} (pc : intr.calls call = .removeWait handler)
      (cleared : intr.ihDead handler = false) :
      IntrCase config intr (.removeWoken call) ((intr.setStatus handler .freed).setCall call .idle)
  | thread {next : Intr} (enabled : intr.Enabled .thread) (stepped : ThreadCase intr next) :
      IntrCase config intr .thread next

theorem step_cases (config : IntrConfig) (enabled : intr.Enabled label) :
    IntrCase config intr label (intr.step config label) := by
  cases label with
  | add call handler => exact .add enabled.1 enabled.2 (addHandler_cases config intr call handler)
  | create call =>
    obtain ⟨handler, pc⟩ := enabled
    simp only [Intr.step, pc]
    exact .create pc
  | attach call =>
    obtain ⟨handler, pc⟩ := enabled
    simp only [Intr.step, pc]
    exact .attach pc
  | addWoken call =>
    obtain ⟨⟨handler, pc⟩, thread⟩ := enabled
    simp only [Intr.step, pc]
    exact .addWoken pc thread
  | sched call handler => exact .sched enabled.1 enabled.2
  | schedCheck call =>
    obtain ⟨handler, pc⟩ := enabled
    simp only [Intr.step, pc]
    exact .schedCheck pc
  | schedSet call =>
    obtain ⟨handler, pc⟩ := enabled
    simp only [Intr.step, pc]
    exact .schedSet pc
  | schedWake call =>
    obtain ⟨handler, pc⟩ := enabled
    exact .schedWake pc
  | remove call handler => exact .remove enabled.1 enabled.2
  | removeWoken call =>
    obtain ⟨handler, pc, cleared⟩ := enabled
    simp only [Intr.step, pc]
    exact .removeWoken pc cleared
  | thread => exact .thread enabled (threadStep_cases enabled.1)

theorem Intr.Inv.step (inv : intr.Inv) (awake : intr.Awake label)
    (stepped : IntrCase config intr label next) : next.Inv := by
  obtain ⟨lists, calls⟩ := id inv
  cases stepped with
  | add idle unborn stepped => exact inv.add unborn stepped
  | @create call handler pc =>
    refine ⟨lists.goto (fun _ points => points.elim) trivial, calls.set ?_ (by rintro _ ⟨⟩)⟩
    rintro _ ⟨⟩
    have owns : (intr.calls call).owns = some handler := by rw [pc]; rfl
    have adding := calls.owned call handler owns
    rw [pc] at adding
    exact ⟨adding, fun other different owned => different (calls.unique _ _ _ owned owns)⟩
  | attach pc =>
    exact ⟨{ lists.setStatus .added fun _ => .inr (.inl rfl) with own := fun _ => rfl },
      calls.finishes (by rw [pc]; rfl)⟩
  | addWoken pc thread =>
    exact ⟨lists.setStatus .added fun _ => .inr (.inl rfl), calls.finishes (by rw [pc]; rfl)⟩
  | sched | schedSet | schedWake => exact ⟨lists, calls.idle rfl⟩
  | schedCheck pc =>
    refine ⟨lists, calls.idle ?_⟩
    split <;> rfl
  | remove idle added => exact inv.remove added awake
  | removeWoken pc cleared =>
    exact ⟨lists.setStatus .freed fun member => absurd member (calls.removes _ _ pc cleared),
      calls.finishes (by rw [pc]; rfl)⟩
  | thread enabled stepped => exact ⟨inv.thread stepped, inv.thread_calls stepped⟩

end Steps

def Intr.Unlinked (intr : Intr) : Prop :=
  ∀ handler, intr.status handler = .freed →
    handler ∉ intr.handlers ∧ ¬ intr.pc.Points handler

theorem Intr.Inv.unlinked (inv : intr.Inv) : intr.Unlinked := by
  intro handler freed
  have absent : handler ∉ intr.handlers := by
    intro member
    have good := inv.lists.listed handler member
    rw [freed] at good
    rcases good with ⟨⟨⟩⟩ | ⟨⟨⟩⟩ | ⟨⟨⟩⟩
  exact ⟨absent, fun points => absent (inv.lists.points handler points).1⟩

def awakeMove (config : IntrConfig) (intr : Intr) (label : IntrStep) (next : Intr) : Prop :=
  intrMove config intr label next ∧ intr.Awake label

/-- A handler that was freed is not on the list and the thread does not point at it. -/
theorem removedHandlers_unlinked (config : IntrConfig) {labels : List IntrStep} {last : Intr}
    (run : Run (awakeMove config) Intr.start labels last) : last.Unlinked := by
  have inv : last.Inv := run.invariant Inv intr_inv_start fun _ _ _ inv move => by
    obtain ⟨⟨enabled, rfl⟩, awake⟩ := move
    exact inv.step awake (step_cases config enabled)
  exact inv.unlinked

def plainConfig : IntrConfig := ⟨fun _ => 0, fun _ => false⟩

theorem removedHandlers_by_thread :
    ∃ last, Run (awakeMove plainConfig) Intr.start [.add 0 0, .create 0, .attach 0, .remove 0 0,
        .thread, .thread, .thread, .thread, .thread, .thread, .removeWoken 0] last ∧
      last.status 0 = .freed ∧ last.Unlinked := by
  exact Run.exists_with (fun _ run => removedHandlers_unlinked plainConfig run)
    ⟨_, Allowed.run_and ⟨⟨⟨rfl, rfl⟩, trivial⟩, ⟨⟨0, rfl⟩, trivial⟩, ⟨⟨0, rfl⟩, trivial⟩,
      ⟨⟨rfl, rfl⟩, fun _ => rfl⟩, ⟨⟨by rintro ⟨⟩, by rintro ⟨⟩⟩, trivial⟩,
      ⟨⟨by rintro ⟨⟩, by rintro ⟨⟩⟩, trivial⟩, ⟨⟨by rintro ⟨⟩, by rintro ⟨⟩⟩, trivial⟩,
      ⟨⟨by rintro ⟨⟩, by rintro ⟨⟩⟩, trivial⟩, ⟨⟨by rintro ⟨⟩, by rintro ⟨⟩⟩, trivial⟩,
      ⟨⟨by rintro ⟨⟩, by rintro ⟨⟩⟩, trivial⟩, ⟨⟨0, rfl, rfl⟩, trivial⟩, trivial⟩, rfl⟩

theorem removedHandlers_visited :
    ∃ last, Run (intrMove plainConfig) Intr.start [.add 0 0, .create 0, .attach 0, .thread,
        .thread, .thread, .remove 0 0, .add 0 1, .sched 0 1, .schedCheck 0, .schedSet 0,
        .schedWake 0, .thread, .thread, .thread, .thread, .thread] last ∧
      last.status 0 = .freed ∧ last.handlers = [0, 1] ∧ last.pc = .visit 0 (some 1) := by
  exact ⟨_, Allowed.run ⟨⟨rfl, rfl⟩, ⟨0, rfl⟩, ⟨0, rfl⟩, ⟨by rintro ⟨⟩, by rintro ⟨⟩⟩,
    ⟨by rintro ⟨⟩, by rintro ⟨⟩⟩, ⟨by rintro ⟨⟩, by rintro ⟨⟩⟩, ⟨rfl, rfl⟩, ⟨rfl, rfl⟩,
    ⟨rfl, .inl rfl⟩, ⟨1, rfl⟩, ⟨1, rfl⟩, ⟨1, rfl⟩, ⟨by rintro ⟨⟩, fun _ => rfl⟩,
    ⟨by rintro ⟨⟩, by rintro ⟨⟩⟩, ⟨by rintro ⟨⟩, by rintro ⟨⟩⟩, ⟨by rintro ⟨⟩, by rintro ⟨⟩⟩,
    ⟨by rintro ⟨⟩, by rintro ⟨⟩⟩, trivial⟩, rfl, rfl, rfl⟩

end Libunsod.Uinet
