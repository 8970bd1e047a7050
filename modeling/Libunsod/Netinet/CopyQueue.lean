import Libunsod.Base.Runs
import Libunsod.Uinet.PdRefCore
import Mathlib.Data.List.Nodup
import Mathlib.Logic.Function.Basic

/-!
The nodes of a connection's copy queue: `inp_copyq` and `inp_copyq_tail`, the `next`
pointers between them, and the pool the nodes come from. A node that is in the pool
may be written by any other user of the pool. `in_copy_flush` sets head and tail to
the node it stops at, which is right because only the last node is not full.
-/

namespace Libunsod.Netinet

open Runs
open Uinet (pdXlistMaxDescs)
open Function (update update_of_ne update_self)

structure CopyQueue where
  next : Nat → Option Nat
  numDescs : Nat → Nat
  copyq : Option Nat
  copyqTail : Option Nat
  obtained : List Nat
  returned : List Nat

namespace CopyQueue

variable {queue after : CopyQueue} {nodes passed rest init : List Nat} {start : Option Nat}
  {tail cur fuel : Nat} {finished : Bool} {next : Nat → Option Nat}

def poolAlloc (queue : CopyQueue) (cur : Nat) : CopyQueue :=
  { queue with
    next := update queue.next cur none
    numDescs := update queue.numDescs cur 0
    obtained := cur :: queue.obtained }

def poolFree (queue : CopyQueue) (cur : Nat) : CopyQueue :=
  { queue with returned := cur :: queue.returned }

def link (queue : CopyQueue) (cur : Nat) : CopyQueue :=
  { queue with
    next := match queue.copyqTail with
      | some tail => update queue.next tail (some cur)
      | none => queue.next
    copyqTail := some cur
    copyq := if queue.copyq = none then some cur else queue.copyq }

def addDesc (queue : CopyQueue) (cur : Nat) : CopyQueue :=
  { queue with numDescs := update queue.numDescs cur (queue.numDescs cur + 1) }

def uinetPdXlistAddMbuf (queue : CopyQueue) (alloc : Option Nat) : CopyQueue × Int :=
  match queue.copyqTail.filter fun tail => queue.numDescs tail ≠ pdXlistMaxDescs, alloc with
  | some cur, _ => (queue.addDesc cur, 0)
  | none, some cur => (((queue.poolAlloc cur).link cur).addDesc cur, 0)
  | none, none => (queue, 1)

def flushes (queue : CopyQueue) (finished : Bool) (node : Nat) : Bool :=
  queue.numDescs node = pdXlistMaxDescs || finished

def flushLoop (queue : CopyQueue) (finished : Bool) : Nat → Option Nat → Option (Option Nat)
  | 0, _ => none
  | _ + 1, none => some none
  | fuel + 1, some cur =>
      if queue.flushes finished cur then queue.flushLoop finished fuel (queue.next cur)
      else some (some cur)

def uinetPdXlistFree : Nat → Option Nat → Option Nat → CopyQueue → Option (Option Nat × CopyQueue)
  | 0, _, _, _ => none
  | _ + 1, none, _, queue => some (none, queue)
  | fuel + 1, some cur, stopAt, queue =>
      if some cur = stopAt then some (some cur, queue)
      else uinetPdXlistFree fuel (queue.next cur) stopAt (queue.poolFree cur)

def freeUntil (queue : CopyQueue) (fuel : Nat) (stopAt : Option Nat) : Option CopyQueue :=
  (uinetPdXlistFree fuel queue.copyq stopAt queue).map fun freed =>
    { freed.2 with copyq := freed.1, copyqTail := freed.1 }

def inCopyFlush (queue : CopyQueue) (fuel : Nat) (finished : Bool) : Option CopyQueue :=
  (queue.flushLoop finished fuel queue.copyq).bind (queue.freeUntil fuel)

def inCopyDispose (queue : CopyQueue) (fuel : Nat) : Option CopyQueue :=
  (queue.flushLoop true fuel queue.copyq).bind fun _ => queue.freeUntil fuel none

inductive Step where
  | add (alloc : Option Nat)
  | flush (finished : Bool)
  | dispose
  | other (node : Nat) (next : Option Nat) (numDescs : Nat)

def Idle (queue : CopyQueue) (node : Nat) : Prop :=
  queue.obtained.count node = queue.returned.count node

def move (queue : CopyQueue) : Step → CopyQueue → Prop
  | .add alloc, after =>
      (∀ node, alloc = some node → queue.Idle node) ∧ after = (queue.uinetPdXlistAddMbuf alloc).1
  | .flush finished, after => ∃ fuel, queue.inCopyFlush fuel finished = some after
  | .dispose, after => ∃ fuel, queue.inCopyDispose fuel = some after
  | .other node next numDescs, after =>
      queue.Idle node ∧ after = { queue with
        next := update queue.next node next
        numDescs := update queue.numDescs node numDescs }

def Chain (next : Nat → Option Nat) : Option Nat → List Nat → Prop
  | start, [] => start = none
  | start, node :: rest => start = some node ∧ Chain next (next node) rest

structure Holds (queue : CopyQueue) (nodes : List Nat) : Prop where
  chain : Chain queue.next queue.copyq nodes
  tail : queue.copyqTail = nodes.getLast?
  full : ∀ node ∈ nodes.dropLast, queue.numDescs node = pdXlistMaxDescs
  last : ∀ node ∈ nodes.getLast?,
    1 ≤ queue.numDescs node ∧ queue.numDescs node ≤ pdXlistMaxDescs
  nodup : nodes.Nodup
  ledger : ∀ node, queue.obtained.count node = queue.returned.count node + nodes.count node

theorem Chain.congr {other : Nat → Option Nat} (chain : Chain next start nodes)
    (same : ∀ node ∈ nodes, other node = next node) : Chain other start nodes := by
  induction nodes generalizing start with
  | nil => exact chain
  | cons node rest ih =>
    rw [List.forall_mem_cons] at same
    refine ⟨chain.1, ih ?_ same.2⟩
    rw [same.1]
    exact chain.2

theorem Chain.snoc (chain : Chain next start (init ++ [tail])) (fresh : tail ∉ init)
    (apart : cur ∉ init ++ [tail]) :
    Chain (update (update next cur none) tail (some cur)) start (init ++ [tail] ++ [cur]) := by
  induction init generalizing start with
  | nil =>
    rw [List.nil_append, List.mem_singleton] at apart
    refine ⟨chain.1, update_self .., ?_⟩
    rw [update_of_ne apart, update_self]
    rfl
  | cons node rest ih =>
    simp only [List.mem_cons, not_or, List.cons_append] at fresh apart
    refine ⟨chain.1, ?_⟩
    rw [update_of_ne (Ne.symm fresh.1), update_of_ne (Ne.symm apart.1)]
    exact ih chain.2 fresh.2 apart.2

theorem flushLoop_eq (chain : Chain queue.next start (passed ++ rest))
    (gone : ∀ node ∈ passed, queue.flushes finished node = true)
    (stays : ∀ node ∈ rest.head?, queue.flushes finished node = false) :
    queue.flushLoop finished fuel start = if passed.length < fuel then some rest.head? else none := by
  induction passed generalizing start fuel with
  | nil =>
    cases fuel with
    | zero => rfl
    | succ fuel =>
      cases rest with
      | nil =>
        cases chain
        rfl
      | cons node rest =>
        cases chain.1
        rw [flushLoop, stays node rfl]
        rfl
  | cons node passed ih =>
    cases fuel with
    | zero => rfl
    | succ fuel =>
      rw [List.forall_mem_cons] at gone
      cases chain.1
      rw [flushLoop, if_pos gone.1, ih chain.2 gone.2, List.length_cons]
      simp only [Nat.add_lt_add_iff_right]

theorem uinetPdXlistFree_eq (chain : Chain queue.next start (passed ++ rest))
    (distinct : (passed ++ rest).Nodup) :
    uinetPdXlistFree fuel start rest.head? queue = if passed.length < fuel then
      some (rest.head?, { queue with returned := passed.reverse ++ queue.returned }) else none := by
  induction passed generalizing start fuel queue with
  | nil =>
    cases fuel with
    | zero => rfl
    | succ fuel =>
      cases rest with
      | nil =>
        cases chain
        rfl
      | cons node rest =>
        cases chain.1
        exact if_pos rfl
  | cons node passed ih =>
    cases fuel with
    | zero => rfl
    | succ fuel =>
      obtain ⟨absent, distinct⟩ := List.nodup_cons.mp distinct
      have different : ¬some node = rest.head? := fun same =>
        absent (List.mem_append_right _ (List.mem_of_mem_head? same.symm))
      have later : Chain (queue.poolFree node).next (queue.next node) (passed ++ rest) := chain.2
      cases chain.1
      rw [uinetPdXlistFree, if_neg different, ih later distinct, List.length_cons]
      simp only [Nat.add_lt_add_iff_right, List.reverse_cons, List.append_assoc]
      rfl

def freed (queue : CopyQueue) (passed rest : List Nat) : CopyQueue :=
  { queue with
    copyq := rest.head?
    copyqTail := rest.head?
    returned := passed.reverse ++ queue.returned }

theorem freeUntil_eq (holds : queue.Holds (passed ++ rest)) :
    queue.freeUntil fuel rest.head? =
      if passed.length < fuel then some (queue.freed passed rest) else none := by
  rw [freeUntil, uinetPdXlistFree_eq holds.chain holds.nodup]
  split <;> rfl

theorem Chain.suffix (chain : Chain next start (passed ++ rest)) : Chain next rest.head? rest := by
  induction passed generalizing start with
  | nil =>
    cases rest with
    | nil => rfl
    | cons node rest => exact ⟨rfl, chain.2⟩
  | cons node passed ih => exact ih chain.2

theorem Holds.free (holds : queue.Holds (passed ++ rest)) (short : rest.tail = []) :
    (queue.freed passed rest).Holds rest := by
  obtain ⟨chain, -, -, last, nodup, ledger⟩ := holds
  refine ⟨chain.suffix, ?_, ?_, fun node final => ?_, (List.nodup_append.mp nodup).2.1,
    fun node => ?_⟩
  · rcases rest with - | ⟨node, - | ⟨other, more⟩⟩
    · rfl
    · rfl
    · cases short
  · rcases rest with - | ⟨node, - | ⟨other, more⟩⟩
    · rintro node ⟨⟩
    · rintro node ⟨⟩
    · cases short
  · refine last node ?_
    rw [List.getLast?_append, Option.mem_def.mp final]
    rfl
  · have total := ledger node
    rw [List.count_append] at total
    show queue.obtained.count node =
      (passed.reverse ++ queue.returned).count node + rest.count node
    rw [List.count_append, List.count_reverse]
    omega

theorem Holds.flush (holds : queue.Holds nodes) (finished : Bool) :
    ∃ passed rest, nodes = passed ++ rest ∧ rest.tail = [] ∧
      ∀ fuel, queue.inCopyFlush fuel finished =
        if passed.length < fuel then some (queue.freed passed rest) else none := by
  obtain ⟨gone, stays⟩ : (∀ node ∈ nodes.takeWhile (queue.flushes finished),
      queue.flushes finished node = true) ∧
      ∀ node ∈ (nodes.dropWhile (queue.flushes finished)).head?,
        queue.flushes finished node = false := by
    refine ⟨List.all_eq_true.mp List.all_takeWhile, fun node head => ?_⟩
    have stays := List.head?_dropWhile_not (queue.flushes finished) nodes
    rw [Option.mem_def.mp head] at stays
    exact stays
  have parts : nodes = nodes.takeWhile (queue.flushes finished) ++
    nodes.dropWhile (queue.flushes finished) := List.takeWhile_append_dropWhile.symm
  generalize nodes.takeWhile (queue.flushes finished) = passed at gone parts
  generalize nodes.dropWhile (queue.flushes finished) = rest at stays parts
  subst parts
  refine ⟨passed, rest, rfl, ?_, fun fuel => ?_⟩
  · rcases rest with - | ⟨node, - | ⟨other, more⟩⟩
    · rfl
    · rfl
    · have full := holds.full node (by
        rw [List.dropLast_append_of_ne_nil (by simp)]
        simp)
      simpa [flushes, full] using stays node rfl
  · rw [inCopyFlush, flushLoop_eq holds.chain gone stays]
    split
    next enough => exact (freeUntil_eq holds).trans (if_pos enough)
    · rfl

theorem Holds.dispose (holds : queue.Holds nodes) (fuel : Nat) :
    queue.inCopyDispose fuel =
      if nodes.length < fuel then some (queue.freed nodes []) else none := by
  rw [← List.append_nil nodes] at holds
  rw [inCopyDispose,
    flushLoop_eq holds.chain (fun node _ => Bool.or_true _) (by rintro node ⟨⟩)]
  split
  next enough => exact (freeUntil_eq holds).trans (if_pos enough)
  · rfl

theorem Holds.grow (holds : queue.Holds nodes) (idle : queue.Idle cur)
    (full : ∀ node ∈ nodes.getLast?, queue.numDescs node = pdXlistMaxDescs) :
    Holds (((queue.poolAlloc cur).link cur).addDesc cur) (nodes ++ [cur]) := by
  obtain ⟨chain, tail, others, last, nodup, ledger⟩ := holds
  have absent : cur ∉ nodes := by
    have total := ledger cur
    rw [idle] at total
    exact List.count_eq_zero.mp (by omega)
  have counts : ∀ node, node ≠ cur → (((queue.poolAlloc cur).link cur).addDesc cur).numDescs node =
      queue.numDescs node := by
    intro node different
    simp [addDesc, link, poolAlloc, update_of_ne different]
  have every : ∀ node ∈ nodes, queue.numDescs node = pdXlistMaxDescs := by
    rcases List.eq_nil_or_concat' nodes with rfl | ⟨init, tail, rfl⟩
    · rintro node ⟨⟩
    · intro node member
      rcases List.mem_append.mp member with early | late
      · exact others node (by simpa using early)
      · exact full node (by simpa using (List.mem_singleton.mp late).symm)
  refine ⟨?_, by simp [addDesc, link], ?_, ?_, ?_, fun node => ?_⟩
  · rcases List.eq_nil_or_concat' nodes with rfl | ⟨init, final, rfl⟩
    · have empty : queue.copyq = none := chain
      simp [addDesc, link, poolAlloc, Chain, empty, tail]
    · have last : queue.copyqTail = some final := by simpa using tail
      have some_ : queue.copyq ≠ none := by
        cases init with
        | nil => rw [chain.1]; rintro ⟨⟩
        | cons node rest => rw [chain.1]; rintro ⟨⟩
      have fresh : final ∉ init := fun member =>
        (List.nodup_append.mp nodup).2.2 _ member _ (List.mem_singleton.mpr rfl) rfl
      simpa [addDesc, link, poolAlloc, last, some_] using chain.snoc fresh absent
  · rw [List.dropLast_concat]
    intro node member
    rw [counts node (ne_of_mem_of_not_mem member absent)]
    exact every node member
  · simp [addDesc, link, poolAlloc, pdXlistMaxDescs]
  · refine List.nodup_append.mpr ⟨nodup, List.nodup_singleton cur, fun node member other last => ?_⟩
    rw [List.mem_singleton.mp last]
    exact ne_of_mem_of_not_mem member absent
  · have total := ledger node
    show (cur :: queue.obtained).count node = queue.returned.count node + (nodes ++ [cur]).count node
    rw [List.count_cons, List.count_append, List.count_singleton]
    omega

theorem Holds.fill (holds : queue.Holds nodes) (tail : queue.copyqTail = some cur)
    (room : queue.numDescs cur ≠ pdXlistMaxDescs) : Holds (queue.addDesc cur) nodes := by
  obtain ⟨chain, same, others, last, nodup, ledger⟩ := holds
  have final : cur ∈ nodes.getLast? := same ▸ tail
  refine ⟨chain, same, fun node member => ?_, fun node final' => ?_, nodup, ledger⟩
  · have different : node ≠ cur := by
      rintro rfl
      exact room (others node member)
    simp only [addDesc, update_of_ne different]
    exact others node member
  · obtain rfl := Option.mem_unique final final'
    obtain ⟨lower, upper⟩ := last cur final
    simp only [addDesc, update_self]
    omega

theorem Holds.add (holds : queue.Holds nodes) {alloc : Option Nat}
    (idle : ∀ node, alloc = some node → queue.Idle node) :
    ∃ nodes, Holds (queue.uinetPdXlistAddMbuf alloc).1 nodes := by
  unfold uinetPdXlistAddMbuf
  split
  next cur _ room =>
    obtain ⟨tail, room⟩ := Option.filter_eq_some_iff.mp room
    exact ⟨nodes, holds.fill tail (by simpa using room)⟩
  next cur none_ =>
    refine ⟨nodes ++ [cur], holds.grow (idle cur rfl) fun node last => ?_⟩
    rw [← holds.tail] at last
    by_contra room
    simp [Option.mem_def.mp last, room] at none_
  · exact ⟨nodes, holds⟩

theorem Holds.write (holds : queue.Holds nodes) (idle : queue.Idle cur) (link : Option Nat)
    (count : Nat) : Holds { queue with
      next := update queue.next cur link, numDescs := update queue.numDescs cur count } nodes := by
  obtain ⟨chain, tail, others, last, nodup, ledger⟩ := holds
  have apart : ∀ node ∈ nodes, node ≠ cur := by
    rintro node member rfl
    have total := ledger node
    have positive := List.count_pos_iff.mpr member
    rw [idle] at total
    omega
  refine ⟨chain.congr fun node member => update_of_ne (apart node member) .., tail,
    fun node member => ?_, fun node final => ?_, nodup, ledger⟩
  · exact (update_of_ne (apart node (List.dropLast_subset nodes member)) ..).trans (others node member)
  · simp only [update_of_ne (apart node (List.mem_of_mem_getLast? final))]
    exact last node final

theorem Holds.move {step : Step} (holds : queue.Holds nodes) (moved : queue.move step after) :
    ∃ nodes, after.Holds nodes := by
  cases step with
  | add alloc =>
    obtain ⟨idle, rfl⟩ := moved
    exact holds.add idle
  | flush finished =>
    obtain ⟨fuel, flushed⟩ := moved
    obtain ⟨passed, rest, rfl, short, eq⟩ := holds.flush finished
    obtain ⟨-, ⟨⟩⟩ := Option.ite_none_right_eq_some.mp ((eq fuel).symm.trans flushed)
    exact ⟨rest, holds.free short⟩
  | dispose =>
    obtain ⟨fuel, disposed⟩ := moved
    obtain ⟨-, ⟨⟩⟩ := Option.ite_none_right_eq_some.mp ((holds.dispose fuel).symm.trans disposed)
    rw [← List.append_nil nodes] at holds
    exact ⟨[], holds.free rfl⟩
  | other node link count =>
    obtain ⟨idle, rfl⟩ := moved
    exact ⟨nodes, holds.write idle link count⟩

/-- The queue between any two operations, and the operations end. -/
theorem copyQueue_holds {start queue : CopyQueue} {steps : List Step}
    (empty : start.copyq = none ∧ start.copyqTail = none)
    (unused : start.obtained = [] ∧ start.returned = []) (run : Run move start steps queue) :
    (∃ nodes, queue.Holds nodes) ∧
      (∀ finished, ∃ fuel after, queue.inCopyFlush fuel finished = some after) ∧
      ∃ fuel after, queue.inCopyDispose fuel = some after := by
  have initial : start.Holds [] := by
    refine ⟨empty.1, empty.2, ?_, ?_, List.nodup_nil, fun node => ?_⟩
    · rintro node ⟨⟩
    · rintro node ⟨⟩
    · rw [unused.1, unused.2]
      rfl
  obtain ⟨nodes, holds⟩ := run.invariant (fun queue => ∃ nodes, queue.Holds nodes) ⟨[], initial⟩
    fun _ _ _ ⟨nodes, holds⟩ moved => holds.move moved
  refine ⟨⟨nodes, holds⟩, fun finished => ?_, ?_⟩
  · obtain ⟨passed, rest, -, -, eq⟩ := holds.flush finished
    exact ⟨passed.length + 1, _, (eq _).trans (if_pos (Nat.lt_succ_self _))⟩
  · exact ⟨nodes.length + 1, _, (holds.dispose _).trans (if_pos (Nat.lt_succ_self _))⟩

def unusedQueue : CopyQueue := ⟨fun _ => none, fun _ => 0, none, none, [], []⟩

def addAll (queue : CopyQueue) (allocs : List (Option Nat)) : CopyQueue :=
  allocs.foldl (fun queue alloc => (queue.uinetPdXlistAddMbuf alloc).1) queue

theorem run_adds (queue : CopyQueue) (count : Nat) :
    Run move queue (List.replicate count (.add none)) (queue.addAll (List.replicate count none)) := by
  induction count with
  | zero => exact .nil
  | succ count ih =>
    rw [List.replicate_succ', List.replicate_succ', addAll, List.foldl_append]
    refine .snoc ih ⟨?_, rfl⟩
    rintro node ⟨⟩

def filledQueue : CopyQueue := (unusedQueue.addAll [some 5]).addAll (List.replicate 15 none)

theorem copyQueue_filled_holds :
    ∃ queue, Run move unusedQueue ([.add (some 5)] ++ List.replicate 15 (.add none) ++
        [.add (some 6)] ++ [.flush false]) queue ∧
      queue.copyq = some 6 ∧ queue.returned = [5] ∧ (∃ nodes, queue.Holds nodes) ∧
      (∀ finished, ∃ fuel after, queue.inCopyFlush fuel finished = some after) ∧
      ∃ fuel after, queue.inCopyDispose fuel = some after := by
  have first : Run move unusedQueue [.add (some 5)] (unusedQueue.addAll [some 5]) :=
    .snoc .nil ⟨fun _ _ => rfl, rfl⟩
  have second : filledQueue.move (.add (some 6)) (filledQueue.addAll [some 6]) := by
    refine ⟨?_, rfl⟩
    rintro node ⟨⟩
    rfl
  have flushed : ∃ queue, (filledQueue.addAll [some 6]).move (.flush false) queue ∧
      queue.copyq = some 6 ∧ queue.returned = [5] := ⟨_, ⟨2, rfl⟩, rfl, rfl⟩
  obtain ⟨queue, moved, head, returned⟩ := flushed
  have run := Run.snoc (.snoc (first.append (run_adds _ 15)) second) moved
  exact ⟨queue, run, head, returned, copyQueue_holds ⟨rfl, rfl⟩ ⟨rfl, rfl⟩ run⟩

end CopyQueue

end Libunsod.Netinet
