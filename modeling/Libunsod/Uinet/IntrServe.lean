import Libunsod.Uinet.IntrRemove

/-!
What holds while handlers are added and scheduled but not removed, if the thread starts after
its creator has stored the event: there is one creator, a handler whose cookie was returned
is on the list and has a thread, and the thread traverses the list of its own event.
-/

namespace Libunsod.Uinet

open Intr
open Function (update update_of_ne update_self forall_update_iff)

def IntrCall.creates : IntrCall → Option Bool
  | .addCreate _ => some false
  | .addAttach _ => some true
  | _ => none

def IntrCall.schedules : IntrCall → Option Nat
  | .schedCheck handler | .schedSet handler | .schedWake handler => some handler
  | _ => none

def IntrHandler.Kept (listed : Prop) (ieThread : Bool) : IntrHandler → Prop
  | .unborn | .refused => True
  | .adding => listed
  | .added => listed ∧ ieThread = true
  | .removing | .freed => False

namespace Intr

def Attached (intr : Intr) : IntrStep → Prop
  | .remove _ _ => False
  | .thread => intr.pc = .starting → intr.ieThread = true
  | _ => True

structure Creation (calls : Nat → IntrCall) (ieThread addingThread : Bool) (pc : IthreadPc) :
    Prop where
  creator : ∀ call started, (calls call).creates = some started → ieThread = false ∧
    addingThread = true ∧ (pc = .absent ↔ started = false) ∧
    ∀ other, other ≠ call → (calls other).creates = none
  born : ieThread = true → pc ≠ .absent
  fresh : ieThread = false → addingThread = false → pc = .absent

structure Cookies (calls : Nat → IntrCall) (status : Nat → IntrHandler) (handlers : List Nat)
    (ieThread : Bool) : Prop where
  kept : ∀ handler, (status handler).Kept (handler ∈ handlers) ieThread
  scheduled : ∀ call handler, (calls call).schedules = some handler → status handler = .added

structure Serves (iwait : Bool) (pc : IthreadPc) (ownEvent : Bool) : Prop where
  sleeping : iwait = true → pc = .asleep
  own : pc ≠ .absent → pc ≠ .starting → ownEvent = true

structure Served (intr : Intr) : Prop where
  inv : intr.Inv
  creation : Creation intr.calls intr.ieThread intr.addingThread intr.pc
  alive : ∀ handler, intr.ihDead handler = false
  cookies : Cookies intr.calls intr.status intr.handlers intr.ieThread
  serves : Serves intr.iwait intr.pc intr.ownEvent

end Intr

variable {config : IntrConfig} {intr next : Intr} {label : IntrStep} {call handler : Nat}
  {calls : Nat → IntrCall} {status : Nat → IntrHandler} {handlers : List Nat}
  {ieThread addingThread : Bool} {pc : IthreadPc} {callPc : IntrCall}

theorem Intr.Attached.awake (attached : intr.Attached label) : intr.Awake label := by
  cases label with
  | remove call handler => exact attached.elim
  | _ => trivial

theorem intr_served_start : start.Served where
  inv := intr_inv_start
  creation := ⟨by rintro _ _ ⟨⟩, by rintro ⟨⟩, fun _ _ => rfl⟩
  alive _ := rfl
  cookies := ⟨fun _ => trivial, by rintro _ _ ⟨⟩⟩
  serves := ⟨by rintro ⟨⟩, fun present => absurd rfl present⟩

section Values

theorem Intr.Creation.set (creation : Creation calls ieThread addingThread pc)
    (after : callPc.creates = none) :
    Creation (update calls call callPc) ieThread addingThread pc := by
  refine { creation with creator := fun one started at_ => ?_ }
  by_cases here : one = call
  · rw [here, update_self, after] at at_
    cases at_
  · rw [update_of_ne here] at at_
    obtain ⟨noThread, adding, absent, only⟩ := creation.creator one started at_
    refine ⟨noThread, adding, absent, fun other different => ?_⟩
    by_cases there : other = call
    · rw [there, update_self]
      exact after
    · rw [update_of_ne there]
      exact only other different

theorem Intr.Creation.goto {after : IthreadPc}
    (creation : Creation calls ieThread addingThread pc) (present : pc ≠ .absent)
    (still : after ≠ .absent) : Creation calls ieThread addingThread after where
  creator call started at_ := by
    obtain ⟨noThread, adding, absent, only⟩ := creation.creator call started at_
    exact ⟨noThread, adding, iff_of_false still fun same => present (absent.mpr same), only⟩
  born _ := still
  fresh noThread noCreator := absurd (creation.fresh noThread noCreator) present

theorem Intr.Creation.move (others : ∀ other, other ≠ call → (calls other).creates = none)
    (creator : ∀ started, callPc.creates = some started → ieThread = false ∧
      addingThread = true ∧ (pc = .absent ↔ started = false))
    (born : ieThread = true → pc ≠ .absent)
    (fresh : ieThread = false → addingThread = false → pc = .absent) :
    Creation (update calls call callPc) ieThread addingThread pc := by
  refine ⟨fun one started at_ => ?_, born, fresh⟩
  have same : one = call := by
    by_contra different
    rw [update_of_ne different, others one different] at at_
    cases at_
  rw [same, update_self] at at_
  obtain ⟨noThread, adding, absent⟩ := creator started at_
  refine ⟨noThread, adding, absent, fun other different => ?_⟩
  rw [update_of_ne (same ▸ different)]
  exact others other (same ▸ different)

theorem Intr.Cookies.set (cookies : Cookies calls status handlers ieThread)
    (added : ∀ handler, callPc.schedules = some handler → status handler = .added) :
    Cookies (update calls call callPc) status handlers ieThread := by
  refine { cookies with scheduled := ?_ }
  exact (forall_update_iff calls fun _ pc => ∀ handler, pc.schedules = some handler →
    status handler = .added).mpr ⟨added, fun other _ => cookies.scheduled other⟩

theorem Intr.Cookies.setStatus (cookies : Cookies calls status handlers ieThread)
    (after : IntrHandler) (kept : after.Kept (handler ∈ handlers) ieThread)
    (fresh : status handler ≠ .added) :
    Cookies calls (update status handler after) handlers ieThread := by
  refine ⟨(forall_update_iff status fun other status => status.Kept (other ∈ handlers) ieThread).mpr
    ⟨kept, fun other _ => cookies.kept other⟩, fun call other schedules => ?_⟩
  have added := cookies.scheduled call other schedules
  have different : other ≠ handler := by
    rintro rfl
    exact fresh added
  rw [update_of_ne different]
  exact added

theorem IntrHandler.Kept.mono {status : IntrHandler} {listed wider : Prop} {thread : Bool}
    (kept : status.Kept listed ieThread) (lists : listed → wider)
    (threads : ieThread = true → thread = true) : status.Kept wider thread := by
  cases status with
  | unborn | refused => trivial
  | adding => exact lists kept
  | added => exact ⟨lists kept.1, threads kept.2⟩
  | removing | freed => exact kept.elim

end Values

theorem mem_insertHandler {other : Nat} :
    other ∈ insertHandler config handler handlers ↔ other = handler ∨ other ∈ handlers :=
  (insertHandler_perm config handler handlers).mem_iff.trans List.mem_cons

theorem Intr.Served.added (served : intr.Served) (added : intr.status handler = .added) :
    handler ∈ intr.handlers ∧ intr.ieThread = true := by
  have kept := served.cookies.kept handler
  rw [added] at kept
  exact kept

theorem Intr.Served.adding (served : intr.Served) (owns : (intr.calls call).owns = some handler)
    (holds : (intr.calls call).holds = .adding) :
    intr.status handler = .adding ∧ handler ∈ intr.handlers := by
  have adding := (served.inv.calls.owned call handler owns).trans holds
  have kept := served.cookies.kept handler
  rw [adding] at kept
  exact ⟨adding, kept⟩

theorem Intr.Served.not_removing (served : intr.Served) (call handler : Nat) :
    intr.calls call ≠ .removeWait handler := by
  intro pc
  have removing := served.inv.calls.owned call handler (by rw [pc]; rfl)
  have kept := served.cookies.kept handler
  rw [removing, pc] at kept
  exact kept.elim

theorem ThreadCase.alive (stepped : ThreadCase intr next)
    (alive : ∀ handler, intr.ihDead handler = false) :
    next.handlers = intr.handlers ∧ next.ihDead = intr.ihDead := by
  rcases stepped.unlinks with same | ⟨handler, dead, -⟩
  · exact same
  · rw [alive handler] at dead
    cases dead

theorem Intr.Served.add (served : intr.Served) (unborn : intr.status handler = .unborn)
    (stepped : AddCase config intr call handler next) : next.Served := by
  have inv := served.inv.add unborn stepped
  have fresh : intr.status handler ≠ .added := by simp [unborn]
  have linked : handler ∈ insertHandler config handler intr.handlers :=
    mem_insertHandler.mpr (.inl rfl)
  have inserted : Cookies intr.calls intr.status (insertHandler config handler intr.handlers)
      intr.ieThread := { served.cookies with
    kept := fun other => (served.cookies.kept other).mono
      (fun listed => mem_insertHandler.mpr (.inr listed)) id }
  have adding := inserted.setStatus .adding linked fresh
  cases stepped with
  | refused =>
    exact ⟨inv, served.creation, served.alive, served.cookies.setStatus .refused trivial fresh,
      served.serves⟩
  | added thread =>
    have added := adding.setStatus .added ⟨linked, thread⟩
      (show update intr.status handler .adding handler ≠ .added by simp)
    exact ⟨inv, served.creation.set rfl, served.alive, added.set (by rintro _ ⟨⟩),
      served.serves⟩
  | waits =>
    exact ⟨inv, served.creation.set rfl, served.alive, adding.set (by rintro _ ⟨⟩),
      served.serves⟩
  | creates noThread noCreator =>
    have nobody : ∀ other, (intr.calls other).creates = none := by
      intro other
      by_contra creates
      obtain ⟨started, at_⟩ := Option.ne_none_iff_exists'.mp creates
      have creating := (served.creation.creator other started at_).2.1
      rw [noCreator] at creating
      cases creating
    have absent := served.creation.fresh noThread noCreator
    refine ⟨inv, .move (fun other _ => nobody other) ?_ served.creation.born (by rintro _ ⟨⟩),
      served.alive, adding.set (by rintro _ ⟨⟩), served.serves⟩
    rintro _ ⟨⟩
    exact ⟨noThread, rfl, iff_of_true absent rfl⟩

theorem Intr.Serves.thread (serves : Serves intr.iwait intr.pc intr.ownEvent)
    (enabled : intr.Enabled .thread) (attached : intr.Attached .thread)
    (stepped : ThreadCase intr next) : Serves next.iwait next.pc next.ownEvent := by
  have own := serves.own enabled.1
  have waits : intr.pc ≠ .asleep → intr.iwait ≠ true :=
    fun awake sleeping => awake (serves.sleeping sleeping)
  cases stepped with
  | starting at_ =>
    exact ⟨fun sleeping => absurd sleeping (waits (by simp [at_])), fun _ _ => attached at_⟩
  | needed at_ | unneeded at_ | reset at_ | first at_ | passed at_ | fetch ih at_
  | unlink ih ihn at_ | wanted ih ihn at_ | unwanted ih ihn at_ | clear ih ihn at_
  | called ih ihn at_ | again at_ =>
    exact ⟨fun sleeping => absurd sleeping (waits (by simp [at_])),
      fun _ _ => own (by simp [at_])⟩
  | sleep at_ => exact ⟨fun _ => rfl, fun _ _ => own (by simp [at_])⟩
  | wake at_ =>
    exact ⟨fun sleeping => absurd ((enabled.2 at_).symm.trans sleeping) (by simp),
      fun _ _ => own (by simp [at_])⟩

theorem Intr.Served.step (served : intr.Served) (attached : intr.Attached label)
    (stepped : IntrCase config intr label next) : next.Served := by
  have inv := served.inv.step attached.awake stepped
  obtain ⟨-, creation, alive, cookies, serves⟩ := id served
  cases stepped with
  | add idle unborn stepped => exact served.add unborn stepped
  | @create call handler pc =>
    have creates : (intr.calls call).creates = some false := by rw [pc]; rfl
    obtain ⟨noThread, adding, absent, only⟩ := creation.creator call false creates
    refine ⟨inv, .move only ?_ (fun _ => by rintro ⟨⟩) fun _ noCreator => ?_, alive,
      cookies.set (by rintro _ ⟨⟩), fun sleeping => ?_, fun _ started => absurd rfl started⟩
    · rintro _ ⟨⟩
      exact ⟨noThread, adding, iff_of_false (by rintro ⟨⟩) (by rintro ⟨⟩)⟩
    · exact absurd (adding.symm.trans noCreator) (by simp)
    · have asleep := serves.sleeping sleeping
      rw [absent.mpr rfl] at asleep
      cases asleep
  | @attach call handler pc =>
    have creates : (intr.calls call).creates = some true := by rw [pc]; rfl
    obtain ⟨-, -, absent, only⟩ := creation.creator call true creates
    obtain ⟨adding, listed⟩ := served.adding (by rw [pc]; rfl : _ = some handler) (by rw [pc]; rfl)
    have threaded : Cookies intr.calls intr.status intr.handlers true :=
      { cookies with kept := fun other => (cookies.kept other).mono id fun _ => rfl }
    exact ⟨inv, .move only (by rintro _ ⟨⟩) (fun _ same => by cases absent.mp same) (by rintro ⟨⟩), alive,
      (threaded.setStatus .added ⟨listed, rfl⟩ (by simp [adding])).set (by rintro _ ⟨⟩), serves⟩
  | addWoken pc thread =>
    obtain ⟨adding, listed⟩ := served.adding (by rw [pc]; rfl : _ = some _) (by rw [pc]; rfl)
    exact ⟨inv, creation.set rfl, alive,
      (cookies.setStatus .added ⟨listed, thread⟩ (by simp [adding])).set (by rintro _ ⟨⟩), serves⟩
  | @sched call handler idle cookie =>
    have kept := cookies.kept handler
    refine ⟨inv, creation.set rfl, alive, cookies.set ?_, serves⟩
    rintro _ ⟨⟩
    rcases cookie with added | removing | freed
    · exact added
    · rw [removing] at kept
      exact kept.elim
    · rw [freed] at kept
      exact kept.elim
  | @schedCheck call handler pc =>
    have added : intr.status handler = .added := cookies.scheduled call handler (by rw [pc]; rfl)
    refine ⟨inv, creation.set ?_, alive, cookies.set fun other schedules => ?_, serves⟩
    · split <;> rfl
    · split at schedules
      · cases schedules
      · cases schedules
        exact added
  | @schedSet call handler pc =>
    have added : intr.status handler = .added := cookies.scheduled call handler (by rw [pc]; rfl)
    refine ⟨inv, creation.set rfl, alive, cookies.set ?_, serves⟩
    rintro _ ⟨⟩
    exact added
  | schedWake pc =>
    exact ⟨inv, creation.set rfl, alive, cookies.set (by rintro _ ⟨⟩), by rintro ⟨⟩, serves.own⟩
  | remove idle added => exact attached.elim
  | removeWoken pc cleared => exact absurd pc (served.not_removing _ _)
  | thread enabled stepped =>
    obtain ⟨sameCalls, status, thread, adding, after, -⟩ := stepped.frame
    obtain ⟨handlers, dead⟩ := stepped.alive alive
    refine ⟨inv, ?_, ?_, ?_, serves.thread enabled attached stepped⟩
    · rw [sameCalls, thread, adding]
      exact creation.goto enabled.1 after
    · rw [dead]
      exact alive
    · rw [sameCalls, status, handlers, thread]
      exact cookies

end Libunsod.Uinet
