import Libunsod.Libev.StsCore

/-!
What the steps of single-thread stacks keep: the flag `EV_UINET_STS_READY` says which
sockets the ready list has, the counters count the watchers on the sockets' lists and
the upcalls are installed while there is one to call. `ev_uinet_start` and
`ev_uinet_stop` are described by what both of their branches do together.
-/

namespace Libunsod.Libev

open LinkedList LinkedList.Links
open Function (update update_apply update_of_ne update_self update_eq_self forall_update_iff
  update_idem)
open StsLoop

def PendFlags.Plain (flags : PendFlags) : Prop := flags.pending = false ∧ flags.inhibited = false

namespace StsLoop

structure ReadyList (links : Links Unit Nat) (flags : Nat → PendFlags) (elems : List Nat) :
    Prop where
  chained : Chained links () elems
  member : ∀ so, so ∈ elems ↔ (flags so).stsReady = true

structure Counts (watchers : Nat → EvUinet) (so : Nat) (active : Nat → Bool)
    (count : Direction → Nat) (head : List Nat) (installed : Direction → Bool) : Prop where
  upcall : ∀ dir, installed dir = true ↔ 0 < count dir
  counted : ∀ dir, count dir = (head.filter fun watcher => (watchers watcher).events dir).length
  bound : ∀ dir, count dir < shortRange
  member : ∀ watcher, watcher ∈ head ↔ active watcher = true ∧ (watchers watcher).ctx = so
  nodup : head.Nodup

def Listed (ready : Direction → Bool) (count : Direction → Nat) (flags : PendFlags) : Prop :=
  ∀ dir, ready dir = true → 0 < count dir → flags.stsReady = true

structure Inv (watchers : Nat → EvUinet) (loop : StsLoop) : Prop where
  list : ∃ elems, ReadyList loop.links loop.pendFlags elems
  plain : ∀ so, (loop.pendFlags so).Plain
  counts : ∀ so, Counts watchers so loop.active (loop.count so) (loop.head so) (loop.upcall so)
  listed : ∀ so, Listed (loop.ready so) (loop.count so) (loop.pendFlags so)

end StsLoop

variable {watchers : Nat → EvUinet} {loop next : StsLoop} {elems : List Nat} {so watcher : Nat}
  {dir : Direction}

theorem StsLoop.Inv.start (watchers : Nat → EvUinet) (ready : Nat → Direction → Bool) :
    (StsLoop.start ready).Inv watchers where
  list := ⟨[], ⟨rfl, List.nodup_nil⟩, fun _ => iff_of_false (by rintro ⟨⟩) (by rintro ⟨⟩)⟩
  plain _ := ⟨rfl, rfl⟩
  counts _ :=
    { upcall := fun _ => iff_of_false (by rintro ⟨⟩) (Nat.lt_irrefl 0)
      counted := fun _ => rfl
      bound := fun _ => show 0 < shortRange by decide
      member := fun _ => iff_of_false (by rintro ⟨⟩) (by rintro ⟨⟨⟩, -⟩)
      nodup := List.nodup_nil }
  listed _ _ _ counted := absurd counted (Nat.lt_irrefl 0)

section Flags

variable {links : Links Unit Nat} {flags : Nat → PendFlags} {new : PendFlags}

theorem stsReady_update (flags : Nat → PendFlags) (so : Nat) (new : PendFlags) (other : Nat) :
    (update flags so new other).stsReady = true ↔
      if other = so then new.stsReady = true else (flags other).stsReady = true := by
  rw [update_apply]
  split <;> rfl

theorem StsLoop.ReadyList.keep (list : ReadyList links flags elems)
    (ready : new.stsReady = (flags so).stsReady) : ReadyList links (update flags so new) elems := by
  refine ⟨list.chained, fun other => ?_⟩
  rw [stsReady_update, list.member]
  split
  next same => rw [ready, same]
  next => rfl

theorem StsLoop.ReadyList.mark (list : ReadyList links flags elems) (ready : new.stsReady = true) :
    ∃ elems, ReadyList (if (flags so).stsReady then links else links.insertHead () so)
      (update flags so new) elems := by
  split
  next already => exact ⟨elems, list.keep (ready.trans already.symm)⟩
  next absent =>
    have fresh : so ∉ elems := fun member => absent ((list.member so).mp member)
    refine ⟨so :: elems, list.chained.insertHead fresh, fun other => ?_⟩
    rw [stsReady_update, List.mem_cons, list.member]
    split
    next same => exact iff_of_true (.inl same) ready
    next other => exact or_iff_right other

theorem StsLoop.ReadyList.drop {before after : List Nat}
    (list : ReadyList links flags (before ++ so :: after)) :
    ReadyList (links.remove so) (update flags so evNone) (before ++ after) := by
  have parts := List.nodup_cons.mp (List.nodup_middle.mp list.chained.nodup)
  refine ⟨list.chained.remove, fun other => ?_⟩
  rw [stsReady_update]
  split
  next same =>
    rw [same]
    exact iff_of_false parts.1 (by rintro ⟨⟩)
  next other =>
    rw [← list.member]
    simp [other]

theorem StsLoop.ReadyList.forget (list : ReadyList links flags elems) :
    ∃ elems, ReadyList (if (flags so).stsReady then links.remove so else links)
      (update flags so evNone) elems := by
  split
  next ready =>
    obtain ⟨before, after, rfl⟩ := List.append_of_mem ((list.member so).mpr ready)
    exact ⟨before ++ after, list.drop⟩
  next absent => exact ⟨elems, list.keep (Bool.not_eq_true _ ▸ absent).symm⟩

theorem makeReady_eq (loop : StsLoop) (so : Nat) : loop.makeReady so =
    { loop with
      links := if (loop.pendFlags so).stsReady then loop.links else loop.links.insertHead () so
      pendFlags := update loop.pendFlags so { loop.pendFlags so with stsReady := true } } := by
  unfold StsLoop.makeReady
  by_cases already : (loop.pendFlags so).stsReady = true
  · rw [if_pos already, if_pos already, ← already, update_eq_self]
  · rw [if_neg already, if_neg already]
    rfl

theorem socketEvents_eq (loop : StsLoop) (so : Nat) (events : Events) :
    loop.uinetStsSocketEvents so events =
      { loop with
        links := if (loop.pendFlags so).stsReady then loop.links else loop.links.insertHead () so
        pendFlags := update loop.pendFlags so { loop.pendFlags so with
          events := (loop.pendFlags so).events.union events, stsReady := true } } := by
  unfold uinetStsSocketEvents
  rw [makeReady_eq]
  simp [setFlags]

end Flags

section Upcalls

theorem StsLoop.Inv.runUpcall (list : ∃ elems, ReadyList loop.links loop.pendFlags elems)
    (plain : ∀ so, (loop.pendFlags so).Plain)
    (counts : ∀ so, Counts watchers so loop.active (loop.count so) (loop.head so) (loop.upcall so))
    (others : ∀ other toward, ¬ (other = so ∧ toward = dir) → loop.ready other toward = true →
      0 < loop.count other toward → (loop.pendFlags other).stsReady = true) :
    (loop.runUpcall so dir).Inv watchers := by
  unfold StsLoop.runUpcall
  split
  next installed =>
    obtain ⟨elems, list⟩ := list
    rw [socketEvents_eq]
    exact ⟨list.mark rfl, (forall_update_iff _ fun _ => PendFlags.Plain).mpr
      ⟨plain so, fun other _ => plain other⟩, counts,
      (forall_update_iff _ fun other => Listed (loop.ready other) (loop.count other)).mpr
        ⟨fun _ _ _ => rfl, fun other own toward => others other toward fun both => own both.1⟩⟩
  next clear =>
    refine ⟨list, plain, counts, fun other toward is asked => others other toward ?_ is asked⟩
    rintro ⟨rfl, rfl⟩
    exact clear (((counts other).upcall toward).mpr asked)

theorem setReady_other (loop : StsLoop) (ready : Bool) {other : Nat} {toward : Direction}
    (different : ¬ (other = so ∧ toward = dir)) :
    (loop.setReady so dir ready).ready other toward = loop.ready other toward := by
  by_cases same : other = so
  · subst same
    have notDir : toward ≠ dir := fun equal => different ⟨rfl, equal⟩
    simp [setReady, notDir]
  · simp [setReady, same]

theorem StsLoop.Inv.arrive (inv : loop.Inv watchers) (so : Nat) (dir : Direction) :
    ((loop.setReady so dir true).runUpcall so dir).Inv watchers := by
  refine StsLoop.Inv.runUpcall inv.list inv.plain inv.counts fun other toward different is asked => ?_
  rw [setReady_other loop true different] at is
  exact inv.listed other toward is asked

theorem StsLoop.Inv.upcalled (inv : loop.Inv watchers) (so : Nat) (dir : Direction) :
    (loop.runUpcall so dir).Inv watchers :=
  StsLoop.Inv.runUpcall inv.list inv.plain inv.counts fun other toward _ => inv.listed other toward

theorem StsLoop.Inv.leave (inv : loop.Inv watchers) (so : Nat) (dir : Direction) :
    (loop.setReady so dir false).Inv watchers := by
  refine ⟨inv.list, inv.plain, inv.counts, fun other toward is asked => ?_⟩
  by_cases own : other = so ∧ toward = dir
  · obtain ⟨rfl, rfl⟩ := own
    simp [setReady] at is
  · rw [setReady_other loop false own] at is
    exact inv.listed other toward is asked

end Upcalls

section Counts

variable {active : Nat → Bool} {count : Direction → Nat} {head : List Nat}
  {installed : Direction → Bool}

theorem StsLoop.Counts.asked (counts : Counts watchers so active count head installed)
    (member : watcher ∈ head) (asks : (watchers watcher).events dir = true) : 0 < count dir := by
  rw [counts.counted]
  exact List.length_pos_of_mem (List.mem_filter.mpr ⟨member, asks⟩)

theorem StsLoop.Counts.started
    (counts : Counts watchers (watchers watcher).ctx active count head installed)
    (inactive : active watcher = false)
    (room : ∀ dir, (watchers watcher).events dir = true → count dir + 1 < shortRange) :
    Counts watchers (watchers watcher).ctx (update active watcher true)
      (fun dir => if (watchers watcher).events dir then countUp (count dir) else count dir)
      (watcher :: head)
      (fun dir => installed dir || ((watchers watcher).events dir && count dir == 0)) := by
  have fresh : watcher ∉ head := by
    rw [counts.member, inactive]
    exact fun member => Bool.false_ne_true member.1
  refine ⟨fun dir => ?_, fun dir => ?_, fun dir => ?_, fun other => ?_,
    List.nodup_cons.mpr ⟨fresh, counts.nodup⟩⟩
  · have before := counts.upcall dir
    by_cases asks : (watchers watcher).events dir = true
    · rw [if_pos asks, countUp_eq (room dir asks)]
      refine iff_of_true ?_ (Nat.succ_pos _)
      by_cases first : count dir = 0
      · simp [asks, first]
      · simp [before.mpr (Nat.pos_of_ne_zero first)]
    · simpa [asks] using before
  · rw [List.filter_cons]
    split
    next asks => rw [countUp_eq (room _ asks), List.length_cons, counts.counted]
    next => exact counts.counted _
  · split
    · exact Nat.mod_lt _ (by decide)
    · exact counts.bound dir
  · rw [List.mem_cons, counts.member]
    by_cases own : other = watcher
    · simp [own]
    · simp [own]

theorem StsLoop.Counts.stopped
    (counts : Counts watchers (watchers watcher).ctx active count head installed)
    (isActive : active watcher = true) :
    Counts watchers (watchers watcher).ctx (update active watcher false)
      (fun dir => if (watchers watcher).events dir then countDown (count dir) else count dir)
      (head.erase watcher) (fun dir =>
        installed dir && !((watchers watcher).events dir && countDown (count dir) == 0)) := by
  have member : watcher ∈ head := (counts.member watcher).mpr ⟨isActive, rfl⟩
  refine ⟨fun dir => ?_, fun dir => ?_, fun dir => ?_, fun other => ?_, counts.nodup.erase watcher⟩
  · have before := counts.upcall dir
    by_cases asks : (watchers watcher).events dir = true
    · simp [asks, before, counts.asked member asks, Nat.pos_iff_ne_zero]
    · simpa [asks] using before
  · rw [counts.nodup.erase_eq_filter, List.filter_filter]
    split
    next asks =>
      rw [countDown_eq (counts.asked member asks) (counts.bound _), counts.counted,
        filter_ne_length _ counts.nodup member asks, Nat.add_sub_cancel]
      congr 1
      refine List.filter_congr fun other _ => ?_
      simp [bne, Bool.beq_eq_decide_eq]
    next silent =>
      rw [counts.counted]
      congr 1
      refine List.filter_congr fun other _ => ?_
      by_cases own : other = watcher
      · subst own
        simp [silent]
      · simp [own]
  · split
    · exact Nat.mod_lt _ (by decide)
    · exact counts.bound dir
  · rw [counts.nodup.mem_erase_iff, counts.member]
    by_cases own : other = watcher
    · simp [own]
    · simp [own]

theorem StsLoop.Counts.put {active : Nat → Bool} {count : Nat → Direction → Nat}
    {head : Nat → List Nat} {installed : Nat → Direction → Bool} {on : Bool}
    {count' : Direction → Nat} {head' : List Nat} {installed' : Direction → Bool}
    (counts : ∀ so, Counts watchers so active (count so) (head so) (installed so))
    (own : Counts watchers (watchers watcher).ctx (update active watcher on) count' head' installed')
    (so : Nat) :
    Counts watchers so (update active watcher on) (update count (watchers watcher).ctx count' so)
      (update head (watchers watcher).ctx head' so)
      (update installed (watchers watcher).ctx installed' so) := by
  by_cases same : so = (watchers watcher).ctx
  · subst same
    rwa [update_self, update_self, update_self]
  · rw [update_of_ne same, update_of_ne same, update_of_ne same]
    refine { counts so with member := fun other => ?_ }
    rw [(counts so).member]
    by_cases here : other = watcher
    · subst here
      exact iff_of_false (fun both => same both.2.symm) fun both => same both.2.symm
    · rw [update_of_ne here]

theorem listed_put {ready : Nat → Direction → Bool} {counts : Nat → Direction → Nat}
    {old new : Nat → PendFlags} (listed : ∀ so, Listed (ready so) (counts so) (old so))
    (own : Listed (ready so) count (new so)) (others : ∀ other, other ≠ so → new other = old other) :
    ∀ other, Listed (ready other) (update counts so count other) (new other) := by
  refine (forall_update_iff counts fun other count => Listed (ready other) count (new other)).mpr
    ⟨own, fun other elsewhere => ?_⟩
  rw [others other elsewhere]
  exact listed other

end Counts

theorem update_both {Value : Type} (old new : Direction → Value) :
    update (update old .read (new .read)) .write (new .write) = new := by
  funext dir
  cases dir <;> rfl

section Start

def StsLoop.Roomy (watchers : Nat → EvUinet) (loop : StsLoop) (watcher : Nat) : Prop :=
  loop.active watcher = false → ∀ dir, (watchers watcher).events dir = true →
    loop.count (watchers watcher).ctx dir + 1 < shortRange

theorem startBranch_eq (loop : StsLoop) (watcher : Nat) (dir : Direction) (check : Bool)
    (own : (watchers watcher).ctx = so) :
    startBranch watchers watcher dir (loop, check) =
      ({ loop with
          count := update loop.count so (update (loop.count so) dir
            (if (watchers watcher).events dir then countUp (loop.count so dir)
              else loop.count so dir))
          upcall := update loop.upcall so (update (loop.upcall so) dir
            (loop.upcall so dir || ((watchers watcher).events dir && loop.count so dir == 0))) },
        check || ((watchers watcher).events dir && loop.count so dir == 0)) := by
  unfold StsLoop.startBranch
  subst own
  by_cases asks : (watchers watcher).events dir = true
  · by_cases first : loop.count (watchers watcher).ctx dir = 0
    · simp [asks, first, setCount, setUpcall]
    · simp [asks, first, setCount]
  · simp [asks]

theorem startBranches_eq (loop : StsLoop) (watcher : Nat) (own : (watchers watcher).ctx = so) :
    startBranch watchers watcher .write (startBranch watchers watcher .read (loop, false)) =
      ({ loop with
          count := update loop.count so fun dir =>
            if (watchers watcher).events dir then countUp (loop.count so dir) else loop.count so dir
          upcall := update loop.upcall so fun dir =>
            loop.upcall so dir || ((watchers watcher).events dir && loop.count so dir == 0) },
        ((watchers watcher).events .read && loop.count so .read == 0) ||
          ((watchers watcher).events .write && loop.count so .write == 0)) := by
  rw [startBranch_eq loop watcher .read false own, startBranch_eq _ watcher .write _ own]
  simp only [update_self, update_idem, update_of_ne (show Direction.write ≠ .read by decide),
    Bool.false_or]
  rw [update_both _ fun dir => if (watchers watcher).events dir then countUp (loop.count so dir)
      else loop.count so dir,
    update_both _ fun dir => loop.upcall so dir ||
      ((watchers watcher).events dir && loop.count so dir == 0)]

theorem StsLoop.Inv.started (inv : loop.Inv watchers) (room : loop.Roomy watchers watcher) :
    (loop.evUinetStart watchers watcher).Inv watchers := by
  unfold evUinetStart
  by_cases already : loop.active watcher = true
  · simp only [already, if_true]
    exact inv
  · obtain ⟨⟨elems, list⟩, plain, counts, listed⟩ := inv
    have inactive : loop.active watcher = false := by simpa using already
    have countsNext := Counts.put counts ((counts _).started inactive (room inactive))
    simp only [inactive, Bool.false_eq_true, if_false, startBranches_eq _ watcher rfl]
    split
    next isCheck =>
      rw [makeReady_eq]
      refine ⟨list.mark rfl, (forall_update_iff _ fun _ => PendFlags.Plain).mpr
        ⟨plain _, fun other _ => plain other⟩, countsNext, listed_put listed (fun toward is asked => ?_)
          fun other elsewhere => update_of_ne elsewhere ..⟩
      exact (stsReady_update ..).mpr (by rw [if_pos rfl])
    next quiet =>
      refine ⟨⟨elems, list⟩, plain, countsNext, listed_put listed (fun toward is asked => ?_)
        fun _ _ => rfl⟩
      refine listed _ toward is (Nat.pos_of_ne_zero fun zero => ?_)
      by_cases asks : (watchers watcher).events toward = true
      · refine quiet ?_
        cases toward <;> simp [setHead, setActive, asks, zero]
      · rw [if_neg asks] at asked
        exact absurd zero (Nat.ne_of_gt asked)

end Start

section Stop

theorem stopBranch_eq (plain : ∀ so, (loop.pendFlags so).Plain) (watcher : Nat) (dir : Direction)
    (own : (watchers watcher).ctx = so) :
    stopBranch watchers watcher dir loop =
      { loop with
        count := update loop.count so (update (loop.count so) dir
          (if (watchers watcher).events dir then countDown (loop.count so dir)
            else loop.count so dir))
        upcall := update loop.upcall so (update (loop.upcall so) dir (loop.upcall so dir &&
          !((watchers watcher).events dir && countDown (loop.count so dir) == 0))) } := by
  unfold StsLoop.stopBranch
  subst own
  by_cases asks : (watchers watcher).events dir = true
  · by_cases last : countDown (loop.count (watchers watcher).ctx dir) = 0
    · simp [asks, last, (plain (watchers watcher).ctx).2, setCount, setUpcall]
    · simp [asks, last, setCount]
  · simp [asks]

theorem stopBranches_eq (plain : ∀ so, (loop.pendFlags so).Plain) (watcher : Nat)
    (own : (watchers watcher).ctx = so) :
    stopBranch watchers watcher .write (stopBranch watchers watcher .read loop) =
      { loop with
        count := update loop.count so fun dir =>
          if (watchers watcher).events dir then countDown (loop.count so dir) else loop.count so dir
        upcall := update loop.upcall so fun dir => loop.upcall so dir &&
          !((watchers watcher).events dir && countDown (loop.count so dir) == 0) } := by
  rw [stopBranch_eq plain watcher .read own, stopBranch_eq (by exact plain) watcher .write own]
  simp only [update_self, update_idem, update_of_ne (show Direction.write ≠ .read by decide)]
  rw [update_both _ fun dir => if (watchers watcher).events dir then countDown (loop.count so dir)
      else loop.count so dir,
    update_both _ fun dir => loop.upcall so dir &&
      !((watchers watcher).events dir && countDown (loop.count so dir) == 0)]

theorem ite_links (unlink : Prop) [Decidable unlink] (loop : StsLoop) (links : Links Unit Nat) :
    (if unlink then { loop with links := links } else loop) =
      { loop with links := if unlink then links else loop.links } := by
  split <;> rfl

theorem StsLoop.Inv.stopped (inv : loop.Inv watchers) (watcher : Nat) :
    (loop.evUinetStop watchers watcher).Inv watchers := by
  unfold evUinetStop
  split
  next isActive =>
    obtain ⟨⟨elems, list⟩, plain, counts, listed⟩ := inv
    have own := (counts _).stopped isActive
    have countsNext := Counts.put counts own
    simp only [stopBranches_eq plain watcher rfl]
    split
    next empty =>
      have none : (loop.head (watchers watcher).ctx).erase watcher = [] := by simpa using empty
      have isPlain := plain (watchers watcher).ctx
      rw [isPlain.1, isPlain.2, Bool.or_false, Bool.or_false, ite_links]
      refine ⟨list.forget, (forall_update_iff _ fun _ => PendFlags.Plain).mpr
        ⟨⟨rfl, rfl⟩, fun other _ => plain other⟩, countsNext, listed_put listed (fun toward is asked => ?_)
          fun other elsewhere => update_of_ne elsewhere ..⟩
      rw [own.counted, none] at asked
      exact absurd asked (Nat.lt_irrefl 0)
    next others =>
      refine ⟨⟨elems, list⟩, plain, countsNext, listed_put listed (fun toward is asked => ?_)
        fun _ _ => rfl⟩
      refine listed _ toward is ?_
      by_cases asks : (watchers watcher).events toward = true
      · exact (counts _).asked (((counts _).member watcher).mpr ⟨isActive, rfl⟩) asks
      · rwa [if_neg asks] at asked
  next => exact inv

end Stop

end Libunsod.Libev
