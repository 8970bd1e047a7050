import Libunsod.Libev.PendingInv

/-!
How each step of the loop thread changes what is kept about the socket it works on.
-/

namespace Libunsod.Libev

open Function (update)
open EvLoop

variable {watchers : Nat → EvUinet}

section Askers

variable {head : List Nat} {watcher : Nat} {dir : Direction}

theorem askers_some (head : List Nat) (watcher : Nat) (dir : Direction) :
    askers watchers head dir (some watcher) = head.filter fun other =>
      (watchers other).events dir && decide (other ≠ watcher) := by
  simp [askers]

theorem askers_none (head : List Nat) (dir : Direction) :
    askers watchers head dir none = head.filter fun other => (watchers other).events dir := by
  simp [askers]

theorem askers_asking (nodup : head.Nodup) (listed : watcher ∈ head)
    (asks : (watchers watcher).events dir = true) :
    (askers watchers head dir none).length =
      (askers watchers head dir (some watcher)).length + 1 := by
  rw [askers_none, askers_some]
  exact filter_ne_length _ nodup listed asks

theorem askers_silent (head : List Nat) (silent : (watchers watcher).events dir = false) :
    askers watchers head dir none = askers watchers head dir (some watcher) := by
  rw [askers_none, askers_some]
  refine List.filter_congr fun other _ => ?_
  by_cases same : other = watcher
  · simp [same, silent]
  · simp [same]

end Askers

section Slot

variable {due : Prop → Prop} {excused : Prop} {asked count : Nat} {flags : PendFlags}
  {event installed ready : Bool}

theorem Slot.recount {owed : Prop → Prop} {pardoned : Prop} {number least : Nat}
    (slot : Slot due excused asked flags event count installed ready) (counted : number = least)
    (same : due (flags.inhibited = false ∧ 0 < count) ↔ owed (flags.inhibited = false ∧ 0 < number))
    (still : ready = true → excused → pardoned) :
    Slot owed pardoned least flags event number installed ready :=
  ⟨slot.upcall.trans same, fun set is => (slot.noted set is).imp_right (still is), counted⟩

theorem Slot.excuse {pardoned : Prop}
    (slot : Slot due excused asked flags event count installed ready)
    (still : ready = true → excused → pardoned) :
    Slot due pardoned asked flags event count installed ready :=
  slot.recount slot.counted Iff.rfl still

theorem Slot.cleared (undue : ¬due (flags.inhibited = false ∧ 0 < count)) (counted : count = asked) :
    Slot due excused asked flags event count false ready :=
  ⟨iff_of_false (by rintro ⟨⟩) undue, by rintro ⟨⟩, counted⟩

theorem Slot.opened (owed : due (flags.inhibited = false ∧ 0 < count)) (is : excused)
    (counted : count = asked) : Slot due excused asked flags event count true ready :=
  ⟨iff_of_true rfl owed, fun _ _ => .inr is, counted⟩

theorem Slot.off {owed : Prop → Prop} {pardoned : Prop} {changed : PendFlags} {noted : Bool}
    (slot : Slot due excused asked flags event count installed ready)
    (undue : ¬due (flags.inhibited = false ∧ 0 < count))
    (still : ¬owed (changed.inhibited = false ∧ 0 < count)) :
    Slot owed pardoned asked changed noted count installed ready := by
  have clear : installed = false := by simpa using mt slot.upcall.mp undue
  subst clear
  exact .cleared still slot.counted

end Slot

section View

variable {view : SockView} {watcher so : Nat} {inhibited : Bool} {initial current : Events}
  {following : Option Nat} {at_ : Direction}

namespace SockView

def setUpcall (view : SockView) (dir : Direction) (installed : Bool) : SockView :=
  { view with upcall := update view.upcall dir installed }

def setCount (view : SockView) (dir : Direction) (count : Nat) : SockView :=
  { view with count := update view.count dir count }

def setReady (view : SockView) (dir : Direction) (ready : Bool) : SockView :=
  { view with ready := update view.ready dir ready }

def setFlags (view : SockView) (flags : PendFlags) : SockView := { view with flags := flags }

def post (view : SockView) (events : Events) : SockView :=
  view.setFlags { view.flags with events := view.flags.events.union events, pending := true }

def found (view : SockView) (events : Events) (dir : Direction) : Events :=
  if view.ready dir then events.union (Events.only dir) else events

end SockView

theorem found_keeps {dir : Direction} (held : initial dir = true) :
    view.found initial at_ dir = true := by
  unfold SockView.found
  split
  · simp [Events.union, held]
  · exact held

theorem found_ready (ready : view.ready at_ = true) : view.found initial at_ at_ = true := by
  simp [SockView.found, ready, Events.union, Events.only]

theorem found_cases {dir : Direction} (held : view.found initial at_ dir = true) :
    initial dir = true ∨ dir = at_ := by
  unfold SockView.found at held
  split at held
  · simpa [Events.union, Events.only] using held
  · exact .inl held

theorem setCount_bound {count : Nat} (bound : ∀ dir, view.count dir < shortRange)
    (small : count < shortRange) (dir : Direction) :
    (view.setCount at_ count).count dir < shortRange := by
  cases at_ <;> cases dir <;> first | exact small | exact bound _

namespace SockView.At

theorem startSet (served : view.At watchers (.startSet watcher inhibited initial at_)) :
    (view.setUpcall at_ true).At watchers (.startCheck watcher inhibited initial at_) := by
  refine ⟨fun dir => ?_, served.bound, served.nodup, served.locals⟩
  have slot := served.slot dir
  cases at_ <;> cases dir
  case read.write | write.read => exact slot
  all_goals exact .opened trivial trivial slot.counted

theorem startNext_locals (held : view.Held watcher inhibited)
    (alone : view.Alone watchers watcher initial) :
    (startNext watcher inhibited initial at_).Locals watchers view := by
  cases at_
  · exact ⟨held, alone⟩
  · exact alone

theorem startSkip (silent : (watchers watcher).events at_ = false)
    (served : view.At watchers (.startBranch watcher inhibited initial at_)) :
    view.At watchers (startNext watcher inhibited initial at_) := by
  refine ⟨fun dir => ?_, served.bound, served.nodup,
    startNext_locals served.locals.1 served.locals.2⟩
  have slot := served.slot dir
  have same := congrArg List.length (askers_silent view.head silent)
  cases at_ <;> cases dir
  case read.write | write.read => exact slot
  all_goals exact slot.recount (slot.counted.trans same.symm) Iff.rfl fun _ => id

theorem startCount (asks : (watchers watcher).events at_ = true)
    (within : view.count at_ + 1 < shortRange)
    (asked : view.flags.inhibited = false → 0 < view.count at_)
    (served : view.At watchers (.startBranch watcher inhibited initial at_)) :
    (view.setCount at_ (countUp (view.count at_))).At watchers
      (startNext watcher inhibited initial at_) := by
  have more := askers_asking served.nodup served.locals.1.1 asks
  rw [countUp_eq within]
  refine ⟨fun dir => ?_, setCount_bound served.bound within, served.nodup,
    startNext_locals served.locals.1 served.locals.2⟩
  have slot := served.slot dir
  cases at_ <;> cases dir
  case read.write | write.read => exact slot
  all_goals
    refine slot.recount ((congrArg (· + 1) slot.counted).trans more.symm) ?_ fun _ => id
    exact ⟨fun plain => ⟨plain.1, Nat.succ_pos _⟩, fun plain => ⟨plain.1, asked plain.1⟩⟩

theorem startCheck (served : view.At watchers (.startCheck watcher inhibited initial at_)) :
    (view.setCount at_ (countUp (view.count at_))).At watchers
      (startNext watcher inhibited (view.found initial at_) at_) := by
  obtain ⟨⟨held, alone⟩, free, asks, zero⟩ := served.locals
  have more := askers_asking served.nodup held.1 asks
  have none_ : askers watchers view.head at_ (some watcher) = [] := by
    have counted := (served.slot at_).counted
    rw [zero] at counted
    cases at_ <;> exact List.length_eq_zero_iff.mp counted.symm
  have within : view.count at_ + 1 < shortRange := by
    rw [zero]
    decide
  rw [countUp_eq within]
  refine ⟨fun dir => ?_, setCount_bound served.bound within, served.nodup,
    startNext_locals held fun dir noted => ?_⟩
  · have slot := served.slot dir
    cases at_ <;> cases dir
    case read.write | write.read => exact slot.excuse fun _ => found_keeps
    all_goals
      refine slot.recount ((congrArg (· + 1) slot.counted).trans more.symm) ?_
        fun ready _ => found_ready ready
      exact iff_of_true trivial ⟨free, Nat.succ_pos _⟩
  · rcases found_cases noted with earlier | rfl
    · exact alone dir earlier
    · refine ⟨free, fun other listed wants => ?_⟩
      by_contra different
      have member : other ∈ askers watchers view.head dir (some watcher) := by
        have inside : other ∈ view.head := listed
        simp [askers, inside, wants, different]
      rw [none_] at member
      cases member

theorem posted {events : Events} {excused : Direction → Prop} {locals : Prop}
    (served : view.Served watchers (fun _ plain => plain) excused (fun _ => none) locals)
    (notes : ∀ dir, excused dir → events dir = true) :
    (if events.any then view.post events else view).At watchers .idle := by
  split
  next =>
    refine ⟨fun dir => ?_, served.bound, served.nodup, trivial⟩
    have slot := served.slot dir
    refine ⟨slot.upcall, fun set is => .inl ⟨rfl, ?_⟩, slot.counted⟩
    show (view.flags.events dir || events dir) = true
    rcases slot.noted set is with ⟨-, event⟩ | excuse
    · rw [event, Bool.true_or]
    · rw [notes dir excuse, Bool.or_true]
  next none_ =>
    refine ⟨fun dir => (served.slot dir).excuse fun _ excuse => none_ ?_, served.bound, served.nodup,
      trivial⟩
    have noted := notes dir excuse
    cases dir <;> simp [Events.any, noted]

theorem stopNext_locals (held : view.Held watcher inhibited) :
    (stopNext watcher inhibited at_).Locals watchers view := by
  cases at_
  · exact held
  · exact held.1

theorem stopSkip (silent : (watchers watcher).events at_ = false)
    (served : view.At watchers (.stopBranch watcher inhibited at_)) :
    view.At watchers (stopNext watcher inhibited at_) := by
  refine ⟨fun dir => ?_, served.bound, served.nodup, stopNext_locals served.locals⟩
  have slot := served.slot dir
  have same := congrArg List.length (askers_silent view.head silent)
  cases at_ <;> cases dir
  case read.write | write.read => exact slot
  all_goals exact slot.recount (slot.counted.trans same) Iff.rfl fun _ => id

theorem asked (asks : (watchers watcher).events at_ = true)
    (served : view.At watchers (.stopBranch watcher inhibited at_)) :
    view.count at_ = (askers watchers view.head at_ (some watcher)).length + 1 := by
  rw [← askers_asking served.nodup served.locals.1 asks]
  have slot := served.slot at_
  cases at_ <;> exact slot.counted

theorem stopCount (asks : (watchers watcher).events at_ = true)
    (more : view.flags.inhibited = false → 1 < view.count at_)
    (served : view.At watchers (.stopBranch watcher inhibited at_)) :
    (view.setCount at_ (view.count at_ - 1)).At watchers (stopNext watcher inhibited at_) := by
  have counted := served.asked asks
  refine ⟨fun dir => ?_, setCount_bound served.bound (Nat.lt_of_le_of_lt (Nat.sub_le ..)
    (served.bound at_)), served.nodup, stopNext_locals served.locals⟩
  have slot := served.slot dir
  cases at_ <;> cases dir
  case read.write | write.read => exact slot
  all_goals
    refine slot.recount (by rw [counted]; rfl) ?_ fun _ => False.elim
    exact ⟨fun plain => ⟨plain.1, Nat.sub_pos_of_lt (more plain.1)⟩,
      fun plain => ⟨plain.1, by rw [counted]; exact Nat.succ_pos _⟩⟩

theorem stopLast (asks : (watchers watcher).events at_ = true)
    (free : view.flags.inhibited = false) (last : view.count at_ - 1 = 0)
    (served : view.At watchers (.stopBranch watcher inhibited at_)) :
    (view.setCount at_ (view.count at_ - 1)).At watchers (.stopClear watcher inhibited at_) := by
  have counted := served.asked asks
  refine ⟨fun dir => ?_, setCount_bound served.bound (by rw [last]; decide), served.nodup,
    served.locals, free, asks, by simp [setCount, last]⟩
  have slot := served.slot dir
  cases at_ <;> cases dir
  case read.write | write.read => exact slot
  all_goals
    refine slot.recount (by rw [counted]; rfl) (iff_of_true ⟨free, ?_⟩ trivial) fun _ => False.elim
    rw [counted]
    exact Nat.succ_pos _

theorem stopClear (served : view.At watchers (.stopClear watcher inhibited at_)) :
    (view.setUpcall at_ false).At watchers (stopNext watcher inhibited at_) := by
  obtain ⟨held, -, -, zero⟩ := served.locals
  refine ⟨fun dir => ?_, served.bound, served.nodup, stopNext_locals held⟩
  have slot := served.slot dir
  cases at_ <;> cases dir
  case read.write | write.read => exact slot
  all_goals exact .cleared (fun plain => absurd plain.2 (zero ▸ Nat.lt_irrefl 0)) slot.counted

theorem stopDel {pc : LoopPc} (served : view.At watchers (.stopDel watcher))
    (due : pc.Due = LoopPc.idle.Due) (uncounted : ∀ dir, pc.uncounted dir = none)
    (locals : pc.Locals watchers { view with head := view.head.erase watcher }) :
    { view with head := view.head.erase watcher }.At watchers pc := by
  refine ⟨fun dir => ?_, served.bound, served.nodup.erase watcher, locals⟩
  have slot := served.slot dir
  have same : askers watchers (view.head.erase watcher) dir none =
      askers watchers view.head dir (some watcher) := by
    rw [askers_none, askers_some, served.nodup.erase_eq_filter, List.filter_filter]
    refine List.filter_congr fun other _ => ?_
    simp [bne, Bool.beq_eq_decide_eq]
  rw [due, uncounted, same]
  exact slot.excuse fun _ => False.elim

theorem stopReset (served : view.At watchers (.stopReset watcher)) :
    (view.setFlags evNone).At watchers .idle := by
  have zero : ∀ dir, view.count dir = 0 := by
    intro dir
    rw [(served.slot dir).counted, show view.head = [] from served.locals]
    rfl
  refine ⟨fun dir => (served.slot dir).off ?_ ?_, served.bound, served.nodup, trivial⟩
  all_goals exact fun plain => absurd plain.2 (zero dir ▸ Nat.lt_irrefl 0)

theorem processClear (served : view.At watchers (.processClear so at_)) :
    (view.setUpcall at_ false).At watchers (processStep so at_) := by
  refine ⟨fun dir => ?_, served.bound, served.nodup, by cases at_ <;> trivial⟩
  have slot := served.slot dir
  cases at_ <;> cases dir
  case read.write | write.read => exact slot
  all_goals exact .cleared id slot.counted

theorem processSkip (unasked : ¬0 < view.count at_)
    (served : view.At watchers (.processClear so at_)) : view.At watchers (processStep so at_) := by
  refine ⟨fun dir => ?_, served.bound, served.nodup, by cases at_ <;> trivial⟩
  have slot := served.slot dir
  cases at_ <;> cases dir
  case read.write | write.read => exact slot
  all_goals exact slot.off (fun plain => unasked plain.2) id

theorem processAt {pointer : Option Nat} (served : view.At watchers .idle) :
    view.At watchers (EvLoop.processAt pointer) := by
  cases pointer with
  | none => exact served
  | some so =>
    refine ⟨fun dir => ?_, served.bound, served.nodup, trivial⟩
    have slot := served.slot dir
    cases dir <;> exact slot

theorem processInhibit (served : view.At watchers (.processInhibit so)) :
    (view.setFlags { evNone with inhibited := true }).At watchers (.processNext so) :=
  ⟨fun dir => (served.slot dir).off id (by rintro ⟨⟨⟩, -⟩), served.bound, served.nodup, trivial⟩

theorem reenableReset (inhibited : view.flags.inhibited = true)
    (served : view.At watchers (.reenableReset so following)) :
    (view.setFlags evNone).At watchers (.reenableSet so following noEvents .read) := by
  refine ⟨fun dir => ?_, served.bound, served.nodup, rfl⟩
  refine (served.slot dir).off (fun plain => ?_) (by cases dir <;> exact id)
  cases inhibited.symm.trans plain.1

theorem reenableSet (asked : 0 < view.count at_)
    (served : view.At watchers (.reenableSet so following current at_)) :
    (view.setUpcall at_ true).At watchers (.reenableCheck so following current at_) := by
  refine ⟨fun dir => ?_, served.bound, served.nodup, served.locals⟩
  have slot := served.slot dir
  cases at_ <;> cases dir
  case read.write | write.read => exact slot
  all_goals exact .opened ⟨served.locals, asked⟩ trivial slot.counted

theorem reenableStep_locals (free : view.flags.inhibited = false) :
    (reenableStep so following current at_).Locals watchers view := by
  cases at_ <;> exact free

theorem reenableSkip (unasked : ¬0 < view.count at_)
    (served : view.At watchers (.reenableSet so following current at_)) :
    view.At watchers (reenableStep so following current at_) := by
  refine ⟨fun dir => ?_, served.bound, served.nodup, reenableStep_locals served.locals⟩
  have slot := served.slot dir
  cases at_ <;> cases dir
  case read.write | write.read => exact slot
  all_goals exact slot.off id fun plain => unasked plain.2

theorem reenableCheck (served : view.At watchers (.reenableCheck so following current at_)) :
    view.At watchers (reenableStep so following (view.found current at_) at_) := by
  refine ⟨fun dir => ?_, served.bound, served.nodup, reenableStep_locals served.locals⟩
  have slot := served.slot dir
  cases at_ <;> cases dir
  case read.write | write.read => exact slot.excuse fun _ => found_keeps
  all_goals exact slot.excuse fun ready _ => found_ready ready

variable {pc : LoopPc} {dir : Direction}

theorem setReady (served : view.At watchers pc) (ready : Bool)
    (quiet : ready = true → view.upcall dir = false) : (view.setReady dir ready).At watchers pc := by
  refine ⟨fun toward => ?_, served.bound, served.nodup, served.locals⟩
  obtain ⟨upcall, noted, counted⟩ := served.slot toward
  refine ⟨upcall, fun set is => ?_, counted⟩
  cases dir <;> cases toward
  case read.write | write.read => exact noted set is
  all_goals cases set.symm.trans (quiet is)

theorem arrive (served : view.At watchers pc) :
    ((view.setReady dir true).post (Events.only dir)).At watchers pc := by
  have locals : pc.Locals watchers ((view.setReady dir true).post (Events.only dir)) := by
    have locals := served.locals
    cases pc with
    | stopRemove => exact ⟨locals.1, .inr rfl⟩
    | _ => exact locals
  refine ⟨fun toward => ?_, served.bound, served.nodup, locals⟩
  obtain ⟨upcall, noted, counted⟩ := served.slot toward
  refine ⟨upcall, fun set is => ?_, counted⟩
  show (_ ∧ (view.flags.events toward || Events.only dir toward) = true) ∨ _
  cases dir <;> cases toward
  case read.write | write.read =>
    exact (noted set is).imp_left fun held => ⟨rfl, by rw [held.2, Bool.true_or]⟩
  all_goals exact .inl ⟨rfl, Bool.or_true _⟩

end SockView.At

end View

end Libunsod.Libev
