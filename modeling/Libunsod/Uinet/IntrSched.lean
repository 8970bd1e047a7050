import Libunsod.Base.Fairness
import Libunsod.Uinet.IntrServe
import Mathlib.Tactic.IntervalCases

/-!
A software interrupt that is scheduled is executed. The thread owes a pass to a handler that
needs one while `it_need` is set, between the test of `it_need` and the start of a pass, and
as long as the pass has the handler ahead of it. Under fair scheduling the debt is paid, unless
handlers are added before the needed one without end. A thread that starts before its event
is stored serves a placeholder, and every interrupt is lost.
-/

namespace Libunsod.Uinet

open Runs
open Function (update update_of_ne update_self)
open Intr

variable {elem new : Nat} {pointer : Option Nat} {handlers : List Nat} {label : IntrStep}

section Traversal

def tailFrom : Option Nat → List Nat → List Nat
  | none, _ => []
  | some elem, elems => elems.dropWhile (fun other => decide (other ≠ elem))

theorem tailFrom_cons_ne {first : Nat} {rest : List Nat} (different : first ≠ elem) :
    tailFrom (some elem) (first :: rest) = tailFrom (some elem) rest := by
  simp [tailFrom, different]

theorem tailFrom_cons_eq (elem : Nat) (rest : List Nat) :
    tailFrom (some elem) (elem :: rest) = elem :: rest := by
  simp [tailFrom]

theorem tailFrom_head (elems : List Nat) : tailFrom elems.head? elems = elems := by
  cases elems with
  | nil => rfl
  | cons first rest => exact tailFrom_cons_eq first rest

theorem tailFrom_next {elems : List Nat} (nodup : elems.Nodup) (member : elem ∈ elems) :
    tailFrom (some elem) elems = elem :: tailFrom (tailqNext elem elems) elems := by
  induction elems with
  | nil => cases member
  | cons first rest ih =>
    obtain ⟨absent, tail⟩ := List.nodup_cons.mp nodup
    by_cases same : first = elem
    · subst same
      rw [tailFrom_cons_eq, tailqNext, if_pos rfl]
      cases rest with
      | nil => rfl
      | cons second others =>
        have different : first ≠ second := by
          rintro rfl
          exact absent List.mem_cons_self
        rw [List.head?_cons, tailFrom_cons_ne different, tailFrom_cons_eq]
    · have inRest : elem ∈ rest := (List.mem_cons.mp member).resolve_left fun eq => same eq.symm
      rw [tailFrom_cons_ne same, ih tail inRest, tailqNext, if_neg same]
      cases next : tailqNext elem rest with
      | none => rfl
      | some found =>
        have different : first ≠ found := by
          rintro rfl
          exact absent (tailqNext_mem next)
        rw [tailFrom_cons_ne different]

theorem tailFrom_subset (pointer : Option Nat) (elems : List Nat) :
    ∀ elem ∈ tailFrom pointer elems, elem ∈ elems := by
  intro elem member
  cases pointer with
  | none => cases member
  | some first => exact (List.dropWhile_suffix _).subset member

theorem mem_tailFrom_insert {front back : List Nat}
    (member : elem ∈ tailFrom pointer (front ++ back)) :
    elem ∈ tailFrom pointer (front ++ new :: back) := by
  cases pointer with
  | none => cases member
  | some target =>
    induction front with
    | nil =>
      by_cases same : new = target
      · subst same
        rw [List.nil_append, tailFrom_cons_eq]
        exact List.mem_cons_of_mem _ (tailFrom_subset _ _ elem member)
      · rw [List.nil_append, tailFrom_cons_ne same]
        exact member
    | cons first rest ih =>
      rw [List.cons_append] at member ⊢
      by_cases same : first = target
      · subst same
        rw [tailFrom_cons_eq] at member ⊢
        simp only [List.mem_cons, List.mem_append] at member ⊢
        tauto
      · rw [tailFrom_cons_ne same] at member ⊢
        exact ih member

theorem mem_tailFrom_insertHandler {config : IntrConfig} {handler : Nat}
    (member : handler ∈ tailFrom pointer handlers) :
    handler ∈ tailFrom pointer (insertHandler config new handlers) := by
  unfold insertHandler
  refine mem_tailFrom_insert ?_
  rwa [List.takeWhile_append_dropWhile]

end Traversal

namespace IthreadPc

def ahead (handlers : List Nat) : IthreadPc → List Nat
  | .reset | .first => handlers
  | .fetch pointer => tailFrom pointer handlers
  | .visit ih ihn | .clear ih ihn => ih :: tailFrom ihn handlers
  | .calling _ ihn => tailFrom ihn handlers
  | _ => []

def phase : IthreadPc → Nat
  | .absent => 0
  | .clear _ _ => 1
  | .test | .visit _ _ => 2
  | .starting | .suspend | .asleep | .fetch _ => 3
  | .first | .calling _ _ => 4
  | .reset => 5

def rank (handler : Nat) (handlers : List Nat) (pc : IthreadPc) : Nat :=
  (if handler ∈ pc.ahead handlers then 0 else 4 * handlers.length + 9) +
    4 * (pc.ahead handlers).length + pc.phase

end IthreadPc

variable {config : IntrConfig} {intr next : Intr} {call handler : Nat}

structure Intr.Due (handler : Nat) (intr : Intr) : Prop where
  added : intr.status handler = .added
  need : intr.ihNeed handler = true
  coming : intr.itNeed = true ∨ handler ∈ intr.pc.ahead intr.handlers

theorem mem_ahead_insert {pc : IthreadPc} (member : handler ∈ pc.ahead handlers) :
    handler ∈ pc.ahead (insertHandler config new handlers) := by
  cases pc with
  | reset | first => exact mem_insertHandler.mpr (.inr member)
  | fetch pointer | calling ih ihn => exact mem_tailFrom_insertHandler member
  | visit ih ihn | clear ih ihn =>
    exact List.mem_cons.mpr ((List.mem_cons.mp member).imp_right mem_tailFrom_insertHandler)
  | absent | starting | test | suspend | asleep => cases member

theorem rank_lt_of_same {before after : IthreadPc}
    (same : after.ahead handlers = before.ahead handlers) (phase : after.phase < before.phase) :
    after.rank handler handlers < before.rank handler handlers := by
  unfold IthreadPc.rank
  rw [same]
  exact Nat.add_lt_add_left phase _

theorem rank_lt_of_tail {before after : IthreadPc}
    (tail : before.ahead handlers = elem :: after.ahead handlers) (different : handler ≠ elem)
    (phase : after.phase < before.phase + 4) :
    after.rank handler handlers < before.rank handler handlers := by
  have same : handler ∈ before.ahead handlers ↔ handler ∈ after.ahead handlers := by
    rw [tail, List.mem_cons, or_iff_right different]
  simp only [IthreadPc.rank, same]
  rw [tail, List.length_cons]
  omega

theorem Intr.Due.thread (due : intr.Due handler) (served : intr.Served)
    (present : intr.pc ≠ .absent) (elsewhere : ∀ ihn, intr.pc ≠ .clear handler ihn)
    (stepped : ThreadCase intr next) :
    next.Due handler ∧ (intr.iwait = false → next.iwait = false) ∧
      next.pc.rank handler intr.handlers < intr.pc.rank handler intr.handlers := by
  obtain ⟨added, need, coming⟩ := due
  have member : handler ∈ intr.handlers := (served.added added).1
  have lists := served.inv.lists
  cases stepped with
  | starting at_ | again at_ | wake at_ | passed at_ =>
    rw [at_] at coming ⊢
    exact ⟨⟨added, need, coming⟩, id, Nat.lt_succ_self _⟩
  | needed at_ | reset at_ =>
    rw [at_]
    refine ⟨⟨added, need, .inr member⟩, id, ?_⟩
    simp [goto, IthreadPc.rank, IthreadPc.ahead, IthreadPc.phase, member]
  | unneeded at_ unneeded | sleep at_ unneeded =>
    rw [at_] at coming
    exact absurd (coming.resolve_right (by rintro ⟨⟩)) unneeded
  | first at_ =>
    rw [at_, if_pos (served.serves.own present (by simp [at_]))]
    have all : IthreadPc.ahead intr.handlers (.fetch intr.handlers.head?) = intr.handlers :=
      tailFrom_head _
    exact ⟨⟨added, need, .inr (all.symm ▸ member)⟩, id, rank_lt_of_same all (show 3 < 4 by decide)⟩
  | fetch ih at_ =>
    have here : ih ∈ intr.handlers := (lists.points ih (by rw [at_]; rfl)).1
    have same : IthreadPc.ahead intr.handlers (.fetch (some ih)) =
        IthreadPc.ahead intr.handlers (.visit ih (tailqNext ih intr.handlers)) :=
      tailFrom_next lists.nodup here
    rw [at_] at coming ⊢
    exact ⟨⟨added, need, same ▸ coming⟩, id, rank_lt_of_same same.symm (show 2 < 3 by decide)⟩
  | unlink ih ihn at_ dead =>
    rw [served.alive] at dead
    cases dead
  | wanted ih ihn at_ | called ih ihn at_ =>
    rw [at_] at coming ⊢
    exact ⟨⟨added, need, coming⟩, id, Nat.lt_succ_self _⟩
  | unwanted ih ihn at_ unwanted =>
    have different : handler ≠ ih := by
      rintro rfl
      exact unwanted need
    rw [at_] at coming ⊢
    exact ⟨⟨added, need, coming.imp_right fun listed =>
      (List.mem_cons.mp listed).resolve_left different⟩, id,
      rank_lt_of_tail rfl different (show 3 < 6 by decide)⟩
  | clear ih ihn at_ =>
    have different : handler ≠ ih := by
      rintro rfl
      exact elsewhere ihn at_
    rw [at_] at coming ⊢
    exact ⟨⟨added, (update_of_ne different ..).trans need, coming.imp_right fun listed =>
      (List.mem_cons.mp listed).resolve_left different⟩, id,
      rank_lt_of_tail rfl different (show 4 < 5 by decide)⟩

structure Intr.Kept (config : IntrConfig) (intr : Intr) (label : IntrStep) (next : Intr) :
    Prop where
  pc : next.pc = intr.pc
  iwait : intr.iwait = false → next.iwait = false
  itNeed : intr.itNeed = true → next.itNeed = true
  added : ∀ handler, intr.status handler = .added → next.status handler = .added
  ihNeed : ∀ handler, intr.ihNeed handler = true → next.ihNeed handler = true
  handlers : next.handlers = intr.handlers ∨ ∃ call new, label = .add call new ∧
    next.handlers = Intr.insertHandler config new intr.handlers

theorem update_held {Value : Type} {values : Nat → Value} {value : Value}
    (held : values handler = value) : update values new value handler = value := by
  rw [Function.update_apply, held, ite_self]

theorem Intr.Served.kept (served : intr.Served) (attached : intr.Attached label)
    (thread : intr.ieThread = true) (stepped : IntrCase config intr label next)
    (other : label ≠ .thread) : Kept config intr label next := by
  cases stepped with
  | @add call new _ idle unborn stepped =>
    have others : ∀ status handler, intr.status handler = .added →
        update intr.status new status handler = .added := by
      rintro status handler added
      have different : handler ≠ new := by
        rintro rfl
        cases added.symm.trans unborn
      exact (update_of_ne different ..).trans added
    cases stepped with
    | refused => exact ⟨rfl, id, id, others .refused, fun _ => id, .inl rfl⟩
    | added thread =>
      exact ⟨rfl, id, id, fun handler added => update_held (others .adding handler added),
        fun _ => id, .inr ⟨call, new, rfl, rfl⟩⟩
    | waits | creates =>
      exact ⟨rfl, id, id, others .adding, fun _ => id, .inr ⟨call, new, rfl, rfl⟩⟩
  | create pc =>
    have noThread := (served.creation.creator _ false (by rw [pc]; rfl)).1
    cases noThread.symm.trans thread
  | attach | addWoken => exact ⟨rfl, id, id, fun _ => update_held, fun _ => id, .inl rfl⟩
  | sched => exact ⟨rfl, id, id, fun _ => id, fun _ => update_held, .inl rfl⟩
  | schedCheck => exact ⟨rfl, id, id, fun _ => id, fun _ => id, .inl rfl⟩
  | schedSet => exact ⟨rfl, id, fun _ => rfl, fun _ => id, fun _ => id, .inl rfl⟩
  | schedWake => exact ⟨rfl, fun _ => rfl, id, fun _ => id, fun _ => id, .inl rfl⟩
  | remove => exact attached.elim
  | removeWoken pc => exact absurd pc (served.not_removing _ _)
  | thread => exact absurd rfl other

theorem Intr.Due.kept (due : intr.Due handler) (kept : Kept config intr label next) :
    next.Due handler := by
  refine ⟨kept.added handler due.added, kept.ihNeed handler due.need, ?_⟩
  refine due.coming.imp kept.itNeed fun listed => ?_
  rw [kept.pc]
  rcases kept.handlers with same | ⟨call, new, -, inserted⟩
  · rw [same]
    exact listed
  · rw [inserted]
    exact mem_ahead_insert listed

inductive IntrParty where
  | thread
  | call (call : Nat)

def IntrStep.actor : Option IntrStep → Option IntrParty
  | some .thread => some .thread
  | some (.create call) | some (.attach call) | some (.addWoken call) | some (.schedCheck call)
  | some (.schedSet call) | some (.schedWake call) | some (.removeWoken call) =>
      some (.call call)
  | _ => none

theorem actor_thread (own : IntrStep.actor (some label) = some .thread) : label = .thread := by
  cases label with
  | thread => rfl
  | _ => cases own

def Intr.Ready (intr : Intr) (party : IntrParty) : Prop :=
  ∃ label, IntrStep.actor (some label) = some party ∧ intr.Enabled label

theorem calls_kept (attached : intr.Attached label) (stepped : IntrCase config intr label next)
    (others : IntrStep.actor (some label) ≠ some (.call call)) (busy : intr.calls call ≠ .idle) :
    next.calls call = intr.calls call := by
  have begins : ∀ {other}, intr.calls other = .idle → call ≠ other := by
    rintro other idle rfl
    exact busy idle
  have moves : ∀ {other}, IntrStep.actor (some label) = some (.call other) → call ≠ other := by
    rintro other own rfl
    exact others own
  cases stepped with
  | add idle unborn stepped =>
    cases stepped with
    | refused => rfl
    | added | waits | creates => exact update_of_ne (begins idle) ..
  | create | attach | addWoken | schedCheck | schedSet | schedWake | removeWoken =>
    exact update_of_ne (moves rfl) ..
  | sched idle => exact update_of_ne (begins idle) ..
  | remove => exact attached.elim
  | thread enabled stepped => exact congrFun stepped.frame.1 call

theorem scheduling_step (stepped : IntrCase config intr label next)
    (own : IntrStep.actor (some label) = some (.call call))
    (schedules : (intr.calls call).schedules = some handler) :
    intr.calls call = .schedCheck handler ∧ next = intr.setCall call
        (if intr.handlers.isEmpty || !intr.ieThread then .idle else .schedSet handler) ∨
      intr.calls call = .schedSet handler ∧
        next = { intr.setCall call (.schedWake handler) with itNeed := true } ∨
      intr.calls call = .schedWake handler ∧
        next = { intr.setCall call .idle with iwait := false } := by
  cases stepped with
  | add | sched | remove | thread => cases own
  | schedCheck pc =>
    cases own
    rw [pc] at schedules
    cases schedules
    exact .inl ⟨pc, rfl⟩
  | schedSet pc =>
    cases own
    rw [pc] at schedules
    cases schedules
    exact .inr (.inl ⟨pc, rfl⟩)
  | schedWake pc =>
    cases own
    rw [pc] at schedules
    cases schedules
    exact .inr (.inr ⟨pc, rfl⟩)
  | create pc | attach pc | addWoken pc | removeWoken pc =>
    cases own
    rw [pc] at schedules
    cases schedules

def servedMove (config : IntrConfig) : Intr → IntrStep → Intr → Prop :=
  Guarded (fun intr label => intr.Enabled label ∧ intr.Attached label) (Intr.step config)

def Intr.Takes (handler : Nat) (intr : Intr) (label : IntrStep) : Prop :=
  label = .thread ∧ ∃ ihn, intr.pc = .clear handler ihn

def Intr.rank (handler : Nat) (intr : Intr) : Nat := intr.pc.rank handler intr.handlers

section Moves

variable (moved : servedMove config intr label next)

include moved

theorem moved_cases : IntrCase config intr label next ∧ intr.Attached label := by
  obtain ⟨⟨enabled, attached⟩, rfl⟩ := moved
  exact ⟨step_cases config enabled, attached⟩

theorem Intr.Served.after (served : intr.Served) : next.Served :=
  served.step (moved_cases moved).2 (moved_cases moved).1

theorem need_kept (served : intr.Served) (added : intr.status handler = .added)
    (need : intr.ihNeed handler = true) :
    intr.Takes handler label ∨ next.status handler = .added ∧ next.ihNeed handler = true := by
  obtain ⟨stepped, attached⟩ := moved_cases moved
  by_cases thread : label = .thread
  · subst thread
    cases stepped with
    | thread enabled stepped =>
      by_cases taken : ∃ ihn, intr.pc = .clear handler ihn
      · exact .inl ⟨rfl, taken⟩
      · rw [stepped.frame.2.1]
        refine .inr ⟨added, ?_⟩
        cases stepped with
        | clear ih ihn at_ =>
          have different : handler ≠ ih := by
            rintro rfl
            exact taken ⟨ihn, at_⟩
          exact (update_of_ne different ..).trans need
        | _ => exact need
  · have kept := served.kept attached (served.added added).2 stepped thread
    exact .inr ⟨kept.added handler added, kept.ihNeed handler need⟩

theorem due_kept (served : intr.Served) (due : intr.Due handler) :
    intr.Takes handler label ∨ next.Due handler ∧ (intr.iwait = false → next.iwait = false) ∧
      ((∀ call new, label ≠ .add call new) → next.rank handler ≤ intr.rank handler) ∧
      (label = .thread → next.rank handler < intr.rank handler) := by
  obtain ⟨stepped, attached⟩ := moved_cases moved
  by_cases thread : label = .thread
  · subst thread
    cases stepped with
    | thread enabled stepped =>
      by_cases taken : ∃ ihn, intr.pc = .clear handler ihn
      · exact .inl ⟨rfl, taken⟩
      · obtain ⟨still, awake, nearer⟩ :=
          due.thread served enabled.1 (fun ihn at_ => taken ⟨ihn, at_⟩) stepped
        have lower : next.rank handler < intr.rank handler := by
          rw [rank, (stepped.alive served.alive).1]
          exact nearer
        exact .inr ⟨still, awake, fun _ => Nat.le_of_lt lower, fun _ => lower⟩
  · have kept := served.kept attached (served.added due.added).2 stepped thread
    refine .inr ⟨due.kept kept, kept.iwait, fun noAdd => ?_, fun own => absurd own thread⟩
    rw [rank, kept.pc]
    rcases kept.handlers with same | ⟨call, new, rfl, -⟩
    · rw [same]
      exact Nat.le_refl _
    · exact absurd rfl (noAdd call new)

end Moves

section Executions

variable {execution : Execution (Idling (servedMove config))}
  (fair : execution.Fair Intr.Ready IntrStep.actor)

include fair

theorem sched_sets {start : Nat} (served : (execution.states start).Served)
    (added : (execution.states start).status handler = .added)
    (need : (execution.states start).ihNeed handler = true)
    (begun : (execution.states start).calls call = .schedCheck handler) :
    ∃ time label, start ≤ time ∧ execution.labels time = some label ∧
      ((execution.states time).Takes handler label ∨ (execution.states (time + 1)).Due handler ∧
        (execution.states (time + 1)).calls call = .schedWake handler) := by
  refine execution.descends fair (.call call) (by rintro ⟨⟩)
    (fun intr => intr.Served ∧ intr.status handler = .added ∧ intr.ihNeed handler = true ∧
      (intr.calls call = .schedCheck handler ∨ intr.calls call = .schedSet handler))
    (fun intr => if intr.calls call = .schedCheck handler then 1 else 0)
    (fun intr label next => intr.Takes handler label ∨ next.Due handler ∧
      next.calls call = .schedWake handler)
    ⟨served, added, need, .inl begun⟩ ?_ fun time label _ _ held moved => ?_
  · rintro intr ⟨-, -, -, at_ | at_⟩
    · exact ⟨.schedCheck call, rfl, handler, at_⟩
    · exact ⟨.schedSet call, rfl, handler, at_⟩
  · obtain ⟨served, added, need, at_⟩ := held
    generalize execution.states time = intr, execution.states (time + 1) = next at *
    rcases need_kept moved served added need with taken | ⟨addedAfter, needAfter⟩
    · exact .inl (.inl taken)
    have servedAfter := served.after moved
    obtain ⟨stepped, attached⟩ := moved_cases moved
    by_cases own : IntrStep.actor (some label) = some (.call call)
    · have schedules : (intr.calls call).schedules = some handler := by
        rcases at_ with pc | pc <;> rw [pc] <;> rfl
      obtain ⟨listed, thread⟩ := served.added added
      rcases scheduling_step stepped own schedules with ⟨pc, made⟩ | ⟨pc, rfl⟩ | ⟨pc, -⟩
      · have nonempty : (intr.handlers.isEmpty || !intr.ieThread) = false := by
          simp [thread, List.ne_nil_of_mem listed]
        have after : next.calls call = .schedSet handler := by
          rw [made, nonempty]
          exact update_self ..
        refine .inr ⟨⟨servedAfter, addedAfter, needAfter, .inr after⟩, ?_⟩
        rw [after, pc]
        simp
      · exact .inl (.inr ⟨⟨addedAfter, needAfter, .inl rfl⟩, update_self ..⟩)
      · rw [pc] at at_
        rcases at_ with ⟨⟨⟩⟩ | ⟨⟨⟩⟩
    · have still := calls_kept attached stepped own (by rcases at_ with at_ | at_ <;> simp [at_])
      rw [still]
      exact .inr ⟨⟨servedAfter, addedAfter, needAfter, at_⟩, Nat.le_refl _,
        fun acts => absurd acts own⟩

theorem sched_wakes {start : Nat} (served : (execution.states start).Served)
    (due : (execution.states start).Due handler)
    (begun : (execution.states start).calls call = .schedWake handler) :
    ∃ time label, start ≤ time ∧ execution.labels time = some label ∧
      ((execution.states time).Takes handler label ∨ (execution.states (time + 1)).Due handler ∧
        (execution.states (time + 1)).iwait = false) := by
  refine execution.descends fair (.call call) (by rintro ⟨⟩)
    (fun intr => intr.Served ∧ intr.Due handler ∧ intr.calls call = .schedWake handler)
    (fun _ => 0) (fun intr label next => intr.Takes handler label ∨ next.Due handler ∧
      next.iwait = false) ⟨served, due, begun⟩
    (fun intr held => ⟨.schedWake call, rfl, handler, held.2.2⟩) fun time label _ _ held moved => ?_
  obtain ⟨served, due, at_⟩ := held
  rcases due_kept moved served due with taken | ⟨after, -⟩
  · exact .inl (.inl taken)
  obtain ⟨stepped, attached⟩ := moved_cases moved
  by_cases own : IntrStep.actor (some label) = some (.call call)
  · rcases scheduling_step stepped own (by rw [at_]; rfl) with ⟨pc, -⟩ | ⟨pc, -⟩ | ⟨-, next⟩
    · cases at_.symm.trans pc
    · cases at_.symm.trans pc
    · refine .inl (.inr ⟨after, ?_⟩)
      rw [next]
  · have still := calls_kept attached stepped own (by simp [at_])
    exact .inr ⟨⟨served.after moved, after, still.trans at_⟩, Nat.le_refl _,
      fun acts => absurd acts own⟩

theorem due_taken {bound start : Nat}
    (finite : ∀ time, bound ≤ time → ∀ call new, execution.labels time ≠ some (.add call new))
    (served : (execution.states start).Served) (due : (execution.states start).Due handler)
    (awake : (execution.states start).iwait = false) :
    ∃ time label, start ≤ time ∧ execution.labels time = some label ∧
      (execution.states time).Takes handler label := by
  by_contra never
  have stays := execution.stays
    (fun intr => intr.Served ∧ intr.Due handler ∧ intr.iwait = false) ⟨served, due, awake⟩
    fun time label later taken held moved => by
      rcases due_kept moved held.1 held.2.1 with takes | ⟨after, iwait, -⟩
      · exact absurd ⟨time, label, later, taken, takes⟩ never
      · exact ⟨held.1.after moved, after, iwait held.2.2⟩
  obtain ⟨time, label, later, taken, takes⟩ := execution.descends fair .thread (by rintro ⟨⟩)
    (fun intr => intr.Served ∧ intr.Due handler ∧ intr.iwait = false) (rank handler)
    (fun intr label _ => intr.Takes handler label) (stays (start + bound) (by omega))
    (fun intr held => by
      have thread := (held.1.added held.2.1.added).2
      exact ⟨.thread, rfl, held.1.creation.born thread, fun _ => held.2.2⟩)
    (fun time label later taken held moved => by
      rcases due_kept moved held.1 held.2.1 with takes | ⟨after, iwait, lower, acts⟩
      · exact .inl takes
      · refine .inr ⟨⟨held.1.after moved, after, iwait held.2.2⟩, lower ?_,
          fun own => acts (actor_thread own)⟩
        rintro call new rfl
        exact finite time (by omega) call new taken)
  exact never ⟨time, label, by omega, taken, takes⟩

theorem taken_called {time : Nat} {ihn : Option Nat} (served : (execution.states time).Served)
    (taken : execution.labels time = some .thread)
    (at_ : (execution.states time).pc = .clear handler ihn) :
    ∃ later, time < later ∧ execution.labels later = some .thread ∧
      (execution.states later).pc = .calling handler ihn := by
  have moved := execution.step time
  rw [taken] at moved
  have calling : (execution.states (time + 1)).pc = .calling handler ihn := by
    rw [← moved.2]
    simp only [Intr.step, threadStep, at_]
    rfl
  obtain ⟨later, label, order, taken, rfl, pc⟩ := execution.descends fair .thread (by rintro ⟨⟩)
    (fun intr => intr.Served ∧ intr.pc = .calling handler ihn) (fun _ => 0)
    (fun intr label _ => label = .thread ∧ intr.pc = .calling handler ihn)
    ⟨served.after moved, calling⟩
    (fun intr held => ⟨.thread, rfl, by simp [held.2], by simp [held.2]⟩)
    (fun later label _ _ held moved => by
      obtain ⟨served, pc⟩ := held
      obtain ⟨stepped, attached⟩ := moved_cases moved
      by_cases own : label = .thread
      · exact .inl ⟨own, pc⟩
      · have lists := served.inv.lists
        have thread := lists.own (lists.points handler (by rw [pc]; exact .inl rfl)).2
        have kept := served.kept attached thread stepped own
        exact .inr ⟨⟨served.after moved, kept.pc.trans pc⟩, Nat.le_refl _,
          fun acts => absurd (actor_thread acts) own⟩)
  exact ⟨later, by omega, taken, pc⟩

omit fair in
theorem sched_begins {time : Nat} (served : (execution.states time).Served)
    (scheduled : execution.labels time = some (.sched call handler)) :
    (execution.states (time + 1)).status handler = .added ∧
      (execution.states (time + 1)).ihNeed handler = true ∧
      (execution.states (time + 1)).calls call = .schedCheck handler := by
  have moved := execution.step time
  rw [scheduled] at moved
  have begun : (execution.states (time + 1)).calls call = .schedCheck handler := by
    rw [← moved.2]
    exact update_self ..
  refine ⟨(served.after moved).cookies.scheduled call handler (by rw [begun]; rfl), ?_, begun⟩
  rw [← moved.2]
  exact update_self ..

end Executions

/-- A scheduled handler is called again after `swi_sched`, if the thread gets its turns and only
finitely many handlers are added. -/
theorem softwareInterrupts_executed (config : IntrConfig)
    (execution : Execution (Idling (servedMove config)))
    (initial : execution.states 0 = Intr.start)
    (fair : execution.Fair Ready IntrStep.actor)
    (finite : ∃ bound, ∀ time, bound ≤ time →
      ∀ call new, execution.labels time ≠ some (.add call new))
    (time call handler : Nat) (scheduled : execution.labels time = some (.sched call handler)) :
    ∃ taken later ihn, time < taken ∧ taken < later ∧
      execution.labels taken = some .thread ∧
      (execution.states taken).pc = .clear handler ihn ∧
      execution.labels later = some .thread ∧
      (execution.states later).pc = .calling handler ihn := by
  have served := execution.invariant Served (by rw [initial]; exact intr_served_start)
    fun _ _ _ served moved => served.after moved
  have reached : ∃ taken label, time < taken ∧ execution.labels taken = some label ∧
      (execution.states taken).Takes handler label := by
    obtain ⟨bound, finite⟩ := finite
    obtain ⟨added, need, begun⟩ := sched_begins (served time) scheduled
    obtain ⟨set, label, afterSched, at_, taken | ⟨due, wakes⟩⟩ :=
      sched_sets fair (served _) added need begun
    · exact ⟨set, label, by omega, at_, taken⟩
    obtain ⟨woken, label, afterSet, at_, taken | ⟨due, awake⟩⟩ :=
      sched_wakes fair (served _) due wakes
    · exact ⟨woken, label, by omega, at_, taken⟩
    obtain ⟨taken, label, afterWake, at_, takes⟩ := due_taken fair finite (served _) due awake
    exact ⟨taken, label, by omega, at_, takes⟩
  obtain ⟨taken, label, afterSched, thread, rfl, ihn, at_⟩ := reached
  obtain ⟨later, afterTaken, called, calling⟩ := taken_called fair (served taken) thread at_
  exact ⟨taken, later, ihn, afterSched, afterTaken, thread, at_, called, calling⟩

theorem quiet_not_ready (idle : ∀ call, intr.calls call = .idle) (asleep : intr.pc = .asleep)
    (waiting : intr.iwait = true) (party : IntrParty) : ¬ intr.Ready party := by
  rintro ⟨label, own, enabled⟩
  have stepped := step_cases plainConfig enabled
  generalize intr.step plainConfig label = next at stepped
  cases stepped with
  | add | sched | remove => cases own
  | create pc | attach pc | schedCheck pc | schedSet pc | schedWake pc | addWoken pc
  | removeWoken pc =>
    rw [idle] at pc
    cases pc
  | thread enabled => cases waiting.symm.trans (enabled.2 asleep)

def wokenLabels : List IntrStep :=
  [.add 0 0, .create 0, .attach 0, .thread, .thread, .thread, .sched 0 0, .schedCheck 0,
    .schedSet 0, .schedWake 0, .thread, .thread, .thread, .thread, .thread, .thread, .thread,
    .thread, .thread, .thread, .thread]

theorem wokenLabels_allowed :
    Allowed (fun intr label => intr.Enabled label ∧ intr.Attached label) (Intr.step plainConfig)
      Intr.start wokenLabels := by
  have other : ∀ {intr : Intr}, intr.pc ≠ .absent → intr.pc ≠ .asleep → intr.pc ≠ .starting →
      intr.Enabled .thread ∧ intr.Attached .thread := fun present awake started =>
    ⟨⟨present, fun asleep => absurd asleep awake⟩, fun starting => absurd starting started⟩
  refine ⟨⟨⟨rfl, rfl⟩, trivial⟩, ⟨⟨0, rfl⟩, trivial⟩, ⟨⟨0, rfl⟩, trivial⟩,
    ⟨⟨by rintro ⟨⟩, by rintro ⟨⟩⟩, fun _ => rfl⟩, other ?_ ?_ ?_, other ?_ ?_ ?_,
    ⟨⟨rfl, .inl rfl⟩, trivial⟩, ⟨⟨0, rfl⟩, trivial⟩, ⟨⟨0, rfl⟩, trivial⟩, ⟨⟨0, rfl⟩, trivial⟩,
    ⟨⟨by rintro ⟨⟩, fun _ => rfl⟩, by rintro ⟨⟩⟩, other ?_ ?_ ?_, other ?_ ?_ ?_,
    other ?_ ?_ ?_, other ?_ ?_ ?_, other ?_ ?_ ?_, other ?_ ?_ ?_, other ?_ ?_ ?_,
    other ?_ ?_ ?_, other ?_ ?_ ?_, other ?_ ?_ ?_, trivial⟩
  all_goals rintro ⟨⟩

theorem softwareInterrupts_woken :
    ∃ execution : Execution (Idling (servedMove plainConfig)),
      execution.labels 6 = some (.sched 0 0) ∧
      ∃ taken later ihn, 6 < taken ∧ taken < later ∧
        execution.labels taken = some .thread ∧
        (execution.states taken).pc = .clear 0 ihn ∧
        execution.labels later = some .thread ∧
        (execution.states later).pc = .calling 0 ihn := by
  have fair : (Execution.replay wokenLabels_allowed).Fair Ready IntrStep.actor := by
    refine Execution.replay_fair wokenLabels_allowed (quiet_not_ready (fun call => ?_) rfl rfl)
    cases call with
    | zero | succ call => rfl
  exact ⟨Execution.replay wokenLabels_allowed, rfl,
    softwareInterrupts_executed plainConfig _ rfl fair
      ⟨21, fun time late call new adds => by
        rw [Execution.replay_ends wokenLabels_allowed late] at adds
        cases adds⟩ 6 0 0 rfl⟩

def placeholderLabels : List IntrStep :=
  [.add 0 0, .create 0, .thread, .attach 0, .thread, .thread, .sched 0 0, .schedCheck 0,
    .schedSet 0, .schedWake 0, .thread, .thread, .thread, .thread, .thread, .thread, .thread]

theorem placeholderLabels_allowed :
    Allowed Enabled (Intr.step plainConfig) Intr.start placeholderLabels := by
  have other : ∀ {intr : Intr}, intr.pc ≠ .absent → intr.pc ≠ .asleep → intr.Enabled .thread :=
    fun present awake => ⟨present, fun asleep => absurd asleep awake⟩
  refine ⟨⟨rfl, rfl⟩, ⟨0, rfl⟩, other ?_ ?_, ⟨0, rfl⟩, other ?_ ?_, other ?_ ?_,
    ⟨rfl, .inl rfl⟩, ⟨0, rfl⟩, ⟨0, rfl⟩, ⟨0, rfl⟩, ⟨by rintro ⟨⟩, fun _ => rfl⟩, other ?_ ?_,
    other ?_ ?_, other ?_ ?_, other ?_ ?_, other ?_ ?_, other ?_ ?_, trivial⟩
  all_goals rintro ⟨⟩

theorem softwareInterrupts_lost :
    ∃ execution : Execution (Idling (intrMove plainConfig)),
      execution.states 0 = Intr.start ∧ execution.Fair Ready IntrStep.actor ∧
      (∀ time, 17 ≤ time → execution.labels time = none) ∧
      execution.labels 6 = some (.sched 0 0) ∧
      ∀ time ihn, (execution.states time).pc ≠ .clear 0 ihn ∧
        (execution.states time).pc ≠ .calling 0 ihn := by
  refine ⟨Execution.replay placeholderLabels_allowed, rfl, ?_,
    fun time late => Execution.replay_ends placeholderLabels_allowed late, rfl, ?_⟩
  · refine Execution.replay_fair placeholderLabels_allowed
      (quiet_not_ready (fun call => ?_) rfl rfl)
    cases call with
    | zero | succ call => rfl
  · intro time ihn
    have elsewhere : ∀ short, short ≤ 17 →
        (replay (Intr.step plainConfig) Intr.start placeholderLabels short).pc ≠ .clear 0 ihn ∧
          (replay (Intr.step plainConfig) Intr.start placeholderLabels short).pc ≠
            .calling 0 ihn := by
      intro short bound
      interval_cases short <;> exact ⟨by rintro ⟨⟩, by rintro ⟨⟩⟩
    rcases Nat.le_total time 17 with early | late
    · exact elsewhere time early
    · have last := elsewhere 17 (Nat.le_refl _)
      have same : replay (Intr.step plainConfig) Intr.start placeholderLabels time =
          replay (Intr.step plainConfig) Intr.start placeholderLabels 17 := replay_late late
      rw [← same] at last
      exact last

end Libunsod.Uinet
