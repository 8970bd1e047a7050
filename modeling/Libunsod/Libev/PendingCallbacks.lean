import Libunsod.Libev.PendingSteps

/-!
The two callbacks of the loop, `uinet_process_pending_list` and
`uinet_reenable_upcalls`, keep the invariant step by step.
-/

namespace Libunsod.Libev

open LinkedList LinkedList.Links
open Function (update update_of_ne update_self)
open EvLoop

variable {watchers : Nat → EvUinet} {loop next : EvLoop} {pc after : LoopPc} {so : Nat}
  {dir : Direction}

theorem EvLoop.InvAt.neutral (inv : loop.InvAt watchers pc) (views : next.view = loop.view)
    (leaves : ∀ view, SockView.At watchers view pc → SockView.At watchers view .idle)
    (enters : ∀ view, SockView.At watchers view .idle → SockView.At watchers view after)
    (books : next.Books watchers after) : next.InvAt watchers after := by
  refine ⟨fun so => ?_, books⟩
  have idle : (loop.view so).At watchers .idle := by
    have served := inv.served so
    unfold LoopPc.seenBy at served
    split at served
    · exact leaves _ served
    · exact served
  rw [views]
  unfold LoopPc.seenBy
  split
  · exact enters _ idle
  · exact idle

section Process

theorem EvLoop.InvAt.processClear (inv : loop.InvAt watchers (.processClear so dir))
    (here : loop.pc = .processClear so dir) : (loop.advance watchers).Inv watchers := by
  have within : (processStep so dir).Within watchers so := by
    cases dir <;> exact .inr rfl
  have books : loop.Books watchers (processStep so dir) := by
    cases dir <;> exact inv.books
  simp only [advance, here]
  split
  next => exact inv.move (view_setUpcall loop so dir false) (.inr rfl) within (·.processClear) books
  next unasked => exact inv.stay rfl (.inr rfl) within (·.processSkip unasked) books

theorem EvLoop.InvAt.processFeed (inv : loop.InvAt watchers (.processFeed so))
    (here : loop.pc = .processFeed so) : (loop.advance watchers).Inv watchers := by
  simp only [advance, here]
  exact inv.stay rfl (.inr rfl) (.inr rfl) (fun served => { served with }) inv.books

theorem EvLoop.InvAt.processInhibit (inv : loop.InvAt watchers (.processInhibit so))
    (here : loop.pc = .processInhibit so) : (loop.advance watchers).Inv watchers := by
  obtain ⟨heads, pend, resting, swapped, lists, track, rest, rfl⟩ := inv.books
  have regroup : resting ++ so :: rest = (resting ++ [so]) ++ rest := by simp
  have parts := List.nodup_append.mp lists.nodup
  have absent : ¬(so ∈ pend ∨ so ∈ rest) := by
    rintro (inPend | inRest)
    · exact parts.2.2 so inPend so (List.mem_append_right _ List.mem_cons_self) rfl
    · exact (List.nodup_cons.mp (List.nodup_append.mp parts.2.1).2.1).1 inRest
  simp only [advance, here]
  refine inv.move (view_setFlags loop so _) (.inr rfl) (.inr rfl) (·.processInhibit)
    ⟨heads, pend, resting ++ [so], rest, ⟨lists.chained, regroup ▸ lists.nodup, ?_, ?_,
      lists.counted, lists.notified, fun renewed => ?_⟩, regroup ▸ track, resting, rfl⟩
  · refine reflagged (·.pending) (iff_of_false absent (by rintro ⟨⟨⟩, -⟩)) (fun other different => ?_)
      fun other _ => lists.pending other
    rw [List.mem_cons, or_iff_right different]
  · refine reflagged (·.inhibited) ?_ (fun other different => ?_) fun other _ => lists.inhibited other
    · exact iff_of_true (List.mem_append_right _ List.mem_cons_self) ⟨rfl, id⟩
    · rw [List.mem_append, List.mem_singleton, or_iff_left different]
  · cases (lists.renewed renewed).2

theorem processAt_books {pend resting swapped : List Nat} {pointer : Option Nat}
    (heads : Heads watchers loop.head loop.active fun _ => False)
    (lists : Lists loop.links loop.pendFlags loop.numPending (loop.sent = true ∨ 0 < loop.inBatch)
      (loop.reenabled = true) (fun _ => False) pend resting swapped)
    (track : Chained loop.links .prevPend (resting ++ swapped)) (first : pointer = swapped.head?) :
    loop.Books watchers (processAt pointer) := by
  subst first
  cases swapped with
  | nil => exact ⟨heads, pend, resting, [], lists, track, rfl⟩
  | cons so rest => exact ⟨heads, pend, resting, so :: rest, lists, track, rest, rfl⟩

theorem EvLoop.InvAt.processNext (inv : loop.InvAt watchers (.processNext so))
    (here : loop.pc = .processNext so) : (loop.advance watchers).Inv watchers := by
  obtain ⟨heads, pend, resting, swapped, lists, track, before, rfl⟩ := inv.books
  have next : loop.links.next so = swapped.head? := by
    have path := Chained.path track
    rw [List.append_assoc] at path
    exact path_next (path_prev path).2
  simp only [advance, here]
  exact inv.neutral rfl (fun _ => id) (fun _ => .processAt) (processAt_books heads lists track next)

theorem EvLoop.InvAt.process (inv : loop.InvAt watchers .idle) (renewed : loop.reenabled = true) :
    (loop.uinetProcessPendingList).Inv watchers := by
  obtain ⟨heads, pend, resting, swapped, lists, track, -⟩ := inv.books
  obtain ⟨rfl, rfl⟩ := lists.renewed renewed
  obtain ⟨empty, full⟩ := lists.chained.swap track (by rintro ⟨⟩) (by rintro _ _ ⟨⟩)
  have nodup := lists.nodup
  rw [List.append_nil, List.append_nil] at nodup
  have moved : Lists (loop.links.swap .pend .prevPend) loop.pendFlags 0
      (false = true ∨ 0 < loop.inBatch) (false = true) (fun _ => False) [] [] pend :=
    ⟨empty, nodup, fun other => Iff.trans (by simp) (lists.pending other), lists.inhibited,
      Nat.le_refl _, fun wrong => absurd rfl wrong, by rintro ⟨⟩⟩
  exact inv.neutral rfl (fun _ => id) (fun _ => .processAt)
    (processAt_books heads moved full (path_next full.path))

end Process

section Reenable

variable {following : Option Nat} {current : Events}

theorem EvLoop.InvAt.reenable (inv : loop.InvAt watchers .idle) (idle : loop.pc = .idle) :
    (loop.uinetReenableUpcalls).Inv watchers := by
  obtain ⟨heads, pend, resting, swapped, lists, track, rfl⟩ := inv.books
  have path := Chained.path track
  have first : loop.links.first .prevPend = (resting ++ []).head? := path_next path
  unfold uinetReenableUpcalls
  cases pointer : loop.links.first .prevPend with
  | none =>
    have empty : resting = [] := by simpa [pointer] using first.symm
    refine ⟨?_, ?_⟩
    · rw [show ({ loop with reenabled := true } : EvLoop).pc = .idle from idle]
      exact inv.served
    · rw [show ({ loop with reenabled := true } : EvLoop).pc = .idle from idle]
      exact ⟨heads, pend, resting, [], { lists with renewed := fun _ => ⟨empty, rfl⟩ }, track, rfl⟩
  | some so =>
    have walks := path_walks path
    rw [show loop.links.load (.head .prevPend) = some so from pointer] at walks
    exact inv.neutral rfl (fun _ => id) (fun _ served => { served with })
      ⟨heads, pend, resting, [], lists, walks, rfl, rfl⟩

theorem EvLoop.InvAt.reenableReset (inv : loop.InvAt watchers (.reenableReset so following))
    (here : loop.pc = .reenableReset so following) : (loop.advance watchers).Inv watchers := by
  obtain ⟨heads, pend, resting, swapped, lists, track, rfl, next⟩ := inv.books
  cases resting with
  | nil => cases track
  | cons first rest =>
    obtain ⟨same, walks⟩ := track
    cases same
    rw [next] at walks
    have parts := List.nodup_append.mp lists.nodup
    have fresh := List.nodup_cons.mp parts.2.1
    have notPend : so ∉ pend := fun member => parts.2.2 so member so List.mem_cons_self rfl
    simp only [advance, here]
    refine inv.move (view_setFlags loop so _) (.inr rfl) (.inr rfl)
      (·.reenableReset ((lists.inhibited so).mp List.mem_cons_self).1)
      ⟨heads, pend, rest, [], ⟨lists.chained, ?_, ?_, ?_, lists.counted, lists.notified,
        fun renewed => ?_⟩, walks, rfl⟩
    · exact lists.nodup.sublist ((List.Sublist.refl pend).append (List.sublist_cons_self ..))
    · refine reflagged (·.pending) ?_ (fun _ _ => Iff.rfl) fun other _ => lists.pending other
      exact iff_of_false (not_or.mpr ⟨notPend, by rintro ⟨⟩⟩) (by rintro ⟨⟨⟩, -⟩)
    · refine reflagged (·.inhibited) (iff_of_false ?_ (by rintro ⟨⟨⟩, -⟩)) (fun other different => ?_)
        fun other _ => lists.inhibited other
      · exact fun inside => fresh.1 (List.mem_append_left _ inside)
      · rw [List.mem_cons, or_iff_right different]
    · cases (lists.renewed renewed).1

theorem reenableStep_within : (reenableStep so following current dir).Within watchers so := by
  cases dir <;> exact .inr rfl

theorem EvLoop.InvAt.reenableSet (inv : loop.InvAt watchers (.reenableSet so following current dir))
    (here : loop.pc = .reenableSet so following current dir) :
    (loop.advance watchers).Inv watchers := by
  simp only [advance, here]
  split
  next asked =>
    exact inv.move (view_setUpcall loop so dir true) (.inr rfl) (.inr rfl) (·.reenableSet asked)
      inv.books
  next unasked =>
    exact inv.stay rfl (.inr rfl) reenableStep_within (·.reenableSkip unasked)
      (by cases dir <;> exact inv.books)

theorem EvLoop.InvAt.reenableCheck
    (inv : loop.InvAt watchers (.reenableCheck so following current dir))
    (here : loop.pc = .reenableCheck so following current dir) :
    (loop.advance watchers).Inv watchers := by
  simp only [advance, here]
  exact inv.stay rfl (.inr rfl) reenableStep_within (·.reenableCheck)
    (by cases dir <;> exact inv.books)

theorem EvLoop.InvAt.reenablePost (inv : loop.InvAt watchers (.reenablePost so following current))
    (here : loop.pc = .reenablePost so following current) :
    (loop.advance watchers).Inv watchers := by
  simp only [advance, here]
  exact inv.posted (.inr rfl) (.inl rfl) (fun _ => (inv.own (.inr rfl)).locals) id (fun _ => id)
    fun served => SockView.At.posted served fun _ => id

theorem EvLoop.InvAt.reenableNext (inv : loop.InvAt watchers (.reenableNext following))
    (here : loop.pc = .reenableNext following) : (loop.advance watchers).Inv watchers := by
  obtain ⟨heads, pend, resting, swapped, lists, track, place⟩ := inv.books
  simp only [advance, here]
  cases following with
  | none => exact inv.neutral rfl (fun _ => id) (fun _ => id) inv.books
  | some so =>
    exact inv.neutral rfl (fun _ => id) (fun _ served => { served with })
      ⟨heads, pend, resting, swapped, lists, track, place, rfl⟩

theorem EvLoop.InvAt.reenableInit (inv : loop.InvAt watchers .reenableInit)
    (here : loop.pc = .reenableInit) : (loop.advance watchers).Inv watchers := by
  obtain ⟨heads, pend, resting, swapped, lists, track, rfl⟩ := inv.books
  have empty : resting = [] := by
    cases resting with
    | nil => rfl
    | cons first rest => cases track.1
  subst empty
  simp only [advance, here]
  exact inv.neutral rfl (fun _ => id) (fun _ => id) ⟨heads, pend, [], [],
    ⟨lists.chained.init_other (by rintro ⟨⟩), lists.nodup, lists.pending, lists.inhibited,
      lists.counted, lists.notified, fun _ => ⟨rfl, rfl⟩⟩, chained_init _ _, rfl⟩

end Reenable

end Libunsod.Libev
