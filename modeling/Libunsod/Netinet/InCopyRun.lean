import Libunsod.Netinet.InCopy
import Libunsod.Udsock.ErrnoCore
import Mathlib.Data.List.TakeWhile

/-!
The copy queue of a connection over its whole life: `in_copy`, changes of `IP_COPY_MODE` and the
drop. Every descriptor that was queued is injected or released once. A reference is taken on the
counter of the mbuf and given back on the counter of the packet's context.
-/

namespace Libunsod.Netinet

open Runs Uinet Udsock

variable {gone : List Pd} {scratch : Pd} {mode : BitVec 32}

variable {sent freed : List Pd}

def ipCopyModeOff : BitVec 32 := 0x00#32
def ipCopyModeMaybe : BitVec 32 := 0x01#32
def ipCopyModeTx : BitVec 32 := 0x08#32
def pdFlushFlow : BitVec 16 := 0x0100

def copyOff : BitVec 32 := ipCopyModeOff
def copyMaybe : BitVec 32 := ipCopyModeMaybe ||| ipCopyModeRx
def copyOn : BitVec 32 := ipCopyModeOn ||| ipCopyModeRx

def ValidMode (mode : BitVec 32) : Prop := mode = copyOff ∨ mode = copyMaybe ∨ mode = copyOn

structure Copying where
  heap : PdHeap
  inp : InpCopy
  released : List Pd
  taken : List Counter
  given : List Counter
  dropped : Bool

variable {next : Copying}

def counterOf (refcnt : Nat → Counter) (pd : Pd) : Option Counter := pd.ctx.map refcnt

def Pd.marked (pd : Pd) : Pd := { pd with flags := pd.flags ||| pdFlushFlow }

def markLast (pds : List Pd) : List Pd :=
  pds.dropLast ++ (pds.getLast?.map Pd.marked).toList

namespace Copying

def injectTx (copying : Copying) (node : List Pd) : Copying :=
  { copying with inp := { copying.inp with injected := copying.inp.injected ++ [node] } }

def xlistRelease (copying : Copying) (node : List Pd) : Copying :=
  { copying with
    heap := uinetPdXlistRelease copying.heap node
    released := copying.released ++ node
    given := copying.given ++
      node.filterMap (counterOf fun index => (copying.heap.ctx index).refcnt) }

def setMode (copying : Copying) (mode : BitVec 32) : Copying :=
  { copying with inp := { copying.inp with copyMode := mode } }

def flushLoop (finished : Bool) :
    List (List Pd) → Copying → Bool → List (List Pd) × Copying × Bool
  | [], copying, injected => ([], copying, injected)
  | node :: rest, copying, injected =>
      if node.length = pdXlistMaxDescs ∨ finished = true then
        if 0 < node.length then
          if copying.inp.copyif then
            flushLoop finished rest
              (copying.injectTx (if finished ∧ rest = [] then markLast node else node)) true
          else flushLoop finished rest (copying.xlistRelease node) injected
        else flushLoop finished rest copying injected
      else (node :: rest, copying, injected)

def flushPd (scratch : Pd) (inp : InpCopy) : Pd :=
  { scratch with
    flags := pdInject ||| pdFlushFlow ||| pdMgmtOnly
    serialno := inp.serialno }

def inCopyFlush (copying : Copying) (finished : Bool) (scratch : Pd) : Copying :=
  let flushed := flushLoop finished copying.inp.copyq copying false
  let next := { flushed.2.1 with inp := { flushed.2.1.inp with copyq := flushed.1 } }
  if finished ∧ flushed.2.2 = false ∧ copying.inp.copyif ∧ 0 < copying.inp.copyTotal then
    next.injectTx [flushPd scratch copying.inp]
  else next

def inCopyDispose (copying : Copying) : Copying :=
  let released := copying.inp.copyq.foldl xlistRelease copying
  { released with inp := { released.inp with copyq := [] } }

def add (copying : Copying) (m : CopyMbuf) : Copying :=
  let added := copying.inp.add copying.heap m
  { copying with
    heap := added.1
    inp := added.2
    taken := if added.2.queued.length = copying.inp.queued.length then copying.taken
      else copying.taken ++ [m.ext.refCnt] }

def copyOne (copying : Copying) (m : CopyMbuf) (scratch : Pd) : Copying :=
  let next := copying.add m
  if next.inp.copyMode &&& ipCopyModeOn ≠ 0 ∧ next.inp.headFull then next.inCopyFlush false scratch
  else next

def inCopyLoop (scratch : Pd) : List CopyMbuf → Copying → Copying
  | [], copying => copying
  | m :: rest, copying =>
      if copying.inp.copyLimit = 0 ∨ copying.inp.copyTotal < copying.inp.copyLimit then
        inCopyLoop scratch rest (copying.copyOne m scratch)
      else copying

def inCopy (copying : Copying) (chain : List CopyMbuf) (scratch : Pd) : Copying :=
  if copying.inp.copyMode &&& ipCopyModeRx ≠ 0 then inCopyLoop scratch chain copying else copying

def changeMode (copying : Copying) (optval : BitVec 32) (scratch : Pd) : Copying :=
  let mode := copying.inp.copyMode
  let changed :=
    if optval &&& ipCopyModeOn ≠ 0 then
      if mode = ipCopyModeOff then copying.setMode optval
      else if mode &&& ipCopyModeMaybe ≠ 0 then
        (copying.setMode ((mode &&& ~~~ipCopyModeMaybe) ||| ipCopyModeOn)).inCopyFlush false scratch
      else copying
    else if optval = ipCopyModeOff then
      if mode &&& ipCopyModeMaybe ≠ 0 then copying.inCopyDispose
      else if mode &&& ipCopyModeOn ≠ 0 then copying.inCopyFlush true scratch
      else copying
    else copying
  changed.setMode optval

def ipCtloutput (copying : Copying) (optval : BitVec 32) (scratch : Pd) : Int × Copying :=
  if optval &&& ipCopyModeTx ≠ 0 then (ErrName.einval.uinet, copying)
  else if (optval &&& (ipCopyModeMaybe ||| ipCopyModeOn) ≠ 0 ∧
        optval &&& (ipCopyModeTx ||| ipCopyModeRx) = 0) ∨
      (optval &&& (ipCopyModeMaybe ||| ipCopyModeOn) = 0 ∧
        optval &&& (ipCopyModeTx ||| ipCopyModeRx) ≠ 0) then
    (ErrName.einval.uinet, copying)
  else
    let optval := if optval &&& ipCopyModeOn ≠ 0 then optval &&& ~~~ipCopyModeMaybe else optval
    (0, copying.changeMode optval scratch)

def inPcbdrop (copying : Copying) (scratch : Pd) : Copying :=
  let ended :=
    if copying.inp.copyMode &&& ipCopyModeOn ≠ 0 then copying.inCopyFlush true scratch
    else copying.inCopyDispose
  { ended with dropped := true }

def start (mode : BitVec 32) (limit : BitVec 64) (copyif : Bool) (serialno : BitVec 64)
    (heap : PdHeap) : Copying :=
  ⟨heap, .fresh mode limit copyif serialno, [], [], [], false⟩

end Copying

inductive CopyStep where
  | copy (heap : PdHeap) (chain : List CopyMbuf) (scratch : Pd)
  | mode (heap : PdHeap) (optval : BitVec 32) (scratch : Pd)
  | drop (heap : PdHeap) (scratch : Pd)

namespace Copying

def Enabled (copying : Copying) : CopyStep → Prop
  | .mode _ optval _ => copying.dropped = false ∧ optval < 16
  | _ => copying.dropped = false

def step (copying : Copying) : CopyStep → Copying
  | .copy heap chain scratch => inCopy { copying with heap := heap } chain scratch
  | .mode heap optval scratch => (ipCtloutput { copying with heap := heap } optval scratch).2
  | .drop heap scratch => inPcbdrop { copying with heap := heap } scratch

end Copying

def copyMove : Copying → CopyStep → Copying → Prop := Guarded Copying.Enabled Copying.step

section Marks

def Plain (pd : Pd) : Prop := pd.flags = ctxMbufUsed ||| pdInject

def Pd.unmarked (pd : Pd) : Pd := { pd with flags := pd.flags &&& ~~~pdFlushFlow }

def packetsOf (pds : List Pd) : List Pd :=
  (pds.filter fun pd => !pd.has pdMgmtOnly).map Pd.unmarked

variable {pd : Pd} {pds left right : List Pd}

theorem Plain.unmarked (plain : Plain pd) : Pd.unmarked pd = pd := by
  unfold Plain at plain
  have same : pd.flags &&& ~~~pdFlushFlow = pd.flags := by
    rw [plain]
    decide
  unfold Pd.unmarked
  rw [same]

theorem Plain.unmarked_marked (plain : Plain pd) : Pd.unmarked (Pd.marked pd) = pd := by
  unfold Plain at plain
  have same : (pd.flags ||| pdFlushFlow) &&& ~~~pdFlushFlow = pd.flags := by
    rw [plain]
    decide
  unfold Pd.unmarked Pd.marked
  simp only [same]

theorem Plain.has (plain : Plain pd) : pd.has pdMgmtOnly = false ∧ pd.has pdFlushFlow = false := by
  unfold Plain at plain
  simp only [Pd.has, plain]
  decide

theorem Plain.marked_has (plain : Plain pd) :
    (Pd.marked pd).has pdMgmtOnly = false ∧ (Pd.marked pd).has pdFlushFlow = true := by
  unfold Plain at plain
  simp only [Pd.has, Pd.marked, plain]
  decide

theorem flushPd_has (scratch : Pd) (inp : InpCopy) :
    (Copying.flushPd scratch inp).has pdMgmtOnly = true ∧
      (Copying.flushPd scratch inp).has pdFlushFlow = true := by
  have flags : (pdInject ||| pdFlushFlow ||| pdMgmtOnly) &&& pdMgmtOnly ≠ 0 ∧
      (pdInject ||| pdFlushFlow ||| pdMgmtOnly) &&& pdFlushFlow ≠ 0 := by decide
  exact ⟨decide_eq_true flags.1, decide_eq_true flags.2⟩

@[simp] theorem packetsOf_append : packetsOf (left ++ right) = packetsOf left ++ packetsOf right := by
  simp [packetsOf]

theorem packetsOf_plain (plain : ∀ pd ∈ pds, Plain pd) : packetsOf pds = pds := by
  induction pds with
  | nil => rfl
  | cons first rest ih =>
    have own := plain first List.mem_cons_self
    have others := ih fun pd member => plain pd (List.mem_cons_of_mem first member)
    unfold packetsOf at others ⊢
    rw [List.filter_cons_of_pos (by simp [own.has]), List.map_cons, own.unmarked, others]

theorem packetsOf_flushPd (scratch : Pd) (inp : InpCopy) :
    packetsOf [Copying.flushPd scratch inp] = [] := by
  simp [packetsOf, flushPd_has]

theorem markLast_concat : markLast (pds ++ [pd]) = pds ++ [Pd.marked pd] := by
  simp [markLast]

theorem markLast_append (some_ : right ≠ []) : markLast (left ++ right) = left ++ markLast right := by
  obtain ⟨front, last, rfl⟩ := (List.eq_nil_or_concat right).resolve_left some_
  rw [List.concat_eq_append, ← List.append_assoc, markLast_concat, markLast_concat,
    List.append_assoc]

theorem packetsOf_markLast (plain : ∀ pd ∈ pds, Plain pd) : packetsOf (markLast pds) = pds := by
  rcases List.eq_nil_or_concat pds with rfl | ⟨front, last, rfl⟩
  · rfl
  · rw [List.concat_eq_append] at plain ⊢
    have own := plain last (List.mem_append_right _ List.mem_cons_self)
    rw [markLast_concat, packetsOf_append,
      packetsOf_plain fun pd member => plain pd (List.mem_append_left _ member)]
    simp [packetsOf, own.marked_has, own.unmarked_marked]

end Marks

namespace Copying

variable {copying : Copying} {nodes : List (List Pd)} {flag : Bool}

def full (node : List Pd) : Bool := node.length = pdXlistMaxDescs

theorem released_nodes (nodes : List (List Pd)) (copying : Copying) :
    (nodes.foldl xlistRelease copying).inp = copying.inp ∧
      (nodes.foldl xlistRelease copying).released = copying.released ++ nodes.flatten ∧
      (nodes.foldl xlistRelease copying).dropped = copying.dropped := by
  induction nodes generalizing copying with
  | nil => exact ⟨rfl, (List.append_nil _).symm, rfl⟩
  | cons node rest ih =>
    obtain ⟨inp, released, dropped⟩ := ih (copying.xlistRelease node)
    refine ⟨inp, ?_, dropped⟩
    rw [List.foldl_cons, released, List.flatten_cons, ← List.append_assoc]
    rfl

def injectAll (copying : Copying) (nodes : List (List Pd)) : Copying :=
  { copying with inp := { copying.inp with injected := copying.inp.injected ++ nodes } }

def markNodes : List (List Pd) → List (List Pd)
  | [] => []
  | node :: rest => (if rest = [] then markLast node else node) :: markNodes rest

theorem markNodes_flatten (filled : ∀ node ∈ nodes, node ≠ []) :
    (markNodes nodes).flatten = markLast nodes.flatten := by
  induction nodes with
  | nil => rfl
  | cons node rest ih =>
    have others := ih fun other member => filled other (List.mem_cons_of_mem node member)
    rw [markNodes, List.flatten_cons, List.flatten_cons, others]
    cases rest with
    | nil => simp [markLast]
    | cons next rest =>
      have more : (next :: rest).flatten ≠ [] := by
        have some_ := filled next (List.mem_cons_of_mem node List.mem_cons_self)
        simp [some_]
      rw [if_neg (List.cons_ne_nil _ _), markLast_append more]

theorem flushLoop_eq (finished : Bool) {gone rest : List (List Pd)} (copying : Copying) (flag : Bool)
    (passes : ∀ node ∈ gone, 0 < node.length ∧
      (node.length = pdXlistMaxDescs ∨ finished = true))
    (stops : ∀ node others, rest = node :: others →
      ¬(node.length = pdXlistMaxDescs ∨ finished = true)) :
    flushLoop finished (gone ++ rest) copying flag =
      if copying.inp.copyif then
        (rest, copying.injectAll (if finished then markNodes gone else gone),
          flag || !gone.isEmpty)
      else (rest, gone.foldl xlistRelease copying, flag) := by
  induction gone generalizing copying flag with
  | nil =>
    have same : flushLoop finished rest copying flag = (rest, copying, flag) := by
      cases rest with
      | nil => rfl
      | cons node others => rw [flushLoop, if_neg (stops node others rfl)]
    simp [same, injectAll, markNodes]
  | cons node more ih =>
    obtain ⟨some_, pass⟩ := passes node List.mem_cons_self
    have others := fun copying flag =>
      ih copying flag fun other member => passes other (List.mem_cons_of_mem node member)
    rw [List.cons_append, flushLoop, if_pos pass, if_pos some_]
    split
    · rename_i copies
      have same : ∀ pds, (copying.injectTx pds).inp.copyif = true := fun _ => copies
      rw [others, if_pos (same _)]
      cases finished with
      | false => simp [injectAll, injectTx]
      | true =>
        cases rest with
        | nil => simp [markNodes, injectAll, injectTx]
        | cons last tail => exact absurd (.inr rfl) (stops last tail rfl)
    · rename_i none
      have same : ¬(copying.xlistRelease node).inp.copyif = true := none
      rw [others, if_neg same]
      rfl

structure Moves (before after : Copying) (gone sent freed : List Pd) : Prop where
  queue : before.inp.copyq.flatten = gone ++ after.inp.copyq.flatten
  nodes : after.inp.copyq <:+ before.inp.copyq
  sent : after.inp.injected.flatten = before.inp.injected.flatten ++ sent
  freed : after.released = before.released ++ freed
  queued : after.inp.queued = before.inp.queued
  copyif : after.inp.copyif = before.inp.copyif
  mode : after.inp.copyMode = before.inp.copyMode
  dropped : after.dropped = before.dropped

theorem inCopyDispose_moves (copying : Copying) :
    Moves copying copying.inCopyDispose copying.inp.copyq.flatten []
      copying.inp.copyq.flatten ∧ copying.inCopyDispose.inp.copyq = [] := by
  obtain ⟨inp, released, dropped⟩ := released_nodes copying.inp.copyq copying
  refine ⟨⟨?_, List.nil_suffix, ?_, released, ?_, ?_, ?_, dropped⟩, rfl⟩
  · simp [inCopyDispose]
  · simp [inCopyDispose, inp]
  · simp [inCopyDispose, inp]
  · simp [inCopyDispose, inp]
  · simp [inCopyDispose, inp]

def closing (copying : Copying) (scratch : Pd) : List Pd :=
  if copying.inp.copyq = [] then
    if 0 < copying.inp.copyTotal then [flushPd scratch copying.inp] else []
  else markLast copying.inp.copyq.flatten

theorem flush_split (finished : Bool) (filled : ∀ node ∈ nodes, node ≠ []) :
    ∃ gone, nodes = gone ++ (if finished then [] else nodes.dropWhile full) ∧
      (∀ node ∈ gone, 0 < node.length ∧ (node.length = pdXlistMaxDescs ∨ finished = true)) ∧
      ∀ node others, (if finished then [] else nodes.dropWhile full) = node :: others →
        ¬(node.length = pdXlistMaxDescs ∨ finished = true) := by
  cases finished with
  | true =>
    exact ⟨nodes, (List.append_nil _).symm, fun node member =>
      ⟨List.length_pos_iff.mpr (filled node member), .inr rfl⟩, by rintro _ _ ⟨⟩⟩
  | false =>
    refine ⟨nodes.takeWhile full, List.takeWhile_append_dropWhile.symm, fun node member => ?_, ?_⟩
    · have isFull : full node = true := List.mem_takeWhile_imp member
      exact ⟨List.length_pos_iff.mpr (filled node (List.takeWhile_subset _ member)),
        .inl (of_decide_eq_true isFull)⟩
    · rintro node others stop (isFull | ⟨⟨⟩⟩)
      have first := List.head?_dropWhile_not full nodes
      rw [show nodes.dropWhile full = node :: others from stop] at first
      simp [full, isFull] at first

theorem inCopyFlush_moves (finished : Bool) (scratch : Pd)
    (filled : ∀ node ∈ copying.inp.copyq, node ≠ []) :
    ∃ gone, Moves copying (copying.inCopyFlush finished scratch) gone
        (if copying.inp.copyif then if finished then copying.closing scratch else gone else [])
        (if copying.inp.copyif then [] else gone) ∧
      (copying.inCopyFlush finished scratch).inp.copyq =
        (if finished then [] else copying.inp.copyq.dropWhile full) ∧
      (finished = true → gone = copying.inp.copyq.flatten) := by
  obtain ⟨gone, split, passes, stops⟩ := flush_split finished filled
  have flushed := flushLoop_eq finished copying false passes stops
  rw [← split] at flushed
  have queue := congrArg List.flatten split
  rw [List.flatten_append] at queue
  have suffix : (if finished then [] else copying.inp.copyq.dropWhile full) <:+ copying.inp.copyq :=
    ⟨gone, split.symm⟩
  refine ⟨gone.flatten, ?_⟩
  have whole : finished = true → gone = copying.inp.copyq := by
    rintro rfl
    exact (List.append_nil gone).symm.trans split.symm
  have flat : finished = true → gone.flatten = copying.inp.copyq.flatten :=
    fun ends => by rw [whole ends]
  unfold inCopyFlush
  simp only [flushed]
  cases copyif : copying.inp.copyif with
  | false =>
    obtain ⟨inp, released, dropped⟩ := released_nodes gone copying
    simp only [Bool.false_eq_true, if_false, false_and, and_false]
    exact ⟨⟨queue, suffix, by simp [inp], released, by simp [inp], by simp [inp],
      by simp [inp], dropped⟩, trivial, flat⟩
  | true =>
    simp only [if_true, true_and, Bool.false_or, Bool.not_eq_false', List.isEmpty_iff]
    split
    · rename_i marks
      obtain ⟨rfl, none, counted⟩ := marks
      rw [whole rfl] at none
      have sent : copying.closing scratch = [flushPd scratch copying.inp] := by
        rw [closing, if_pos none, if_pos counted]
      simp only [if_true, sent]
      refine ⟨⟨queue, suffix, ?_, ?_, rfl, rfl, rfl, rfl⟩, rfl, fun _ => flat rfl⟩
      · simp [injectTx, injectAll, whole rfl, none, markNodes]
      · simp [injectTx, injectAll]
    · rename_i plain
      refine ⟨⟨queue, suffix, ?_, ?_, rfl, rfl, rfl, rfl⟩, rfl, flat⟩
      · cases finished with
        | false => simp [injectAll]
        | true =>
          rw [whole rfl] at plain ⊢
          have all := markNodes_flatten filled
          by_cases none : copying.inp.copyq = []
          · have zero : ¬0 < copying.inp.copyTotal := fun counted => plain ⟨rfl, none, counted⟩
            rw [closing, if_pos none, if_neg zero]
            simp [injectAll, none, markNodes]
          · simp [injectAll, closing, none, all]
      · simp [injectAll]

structure Accounted (copying : Copying) : Prop where
  order : (packetsOf copying.inp.injected.flatten).Sublist copying.inp.queued
  once : (packetsOf copying.inp.injected.flatten ++ copying.released ++
    copying.inp.copyq.flatten).Perm copying.inp.queued

structure Kept (copying : Copying) : Prop where
  plain : ∀ pd ∈ copying.inp.queued, Plain pd
  filled : ∀ node ∈ copying.inp.copyq, node ≠ []
  packed : InpCopy.Packed copying.inp.copyq
  past : ∃ past, copying.inp.queued = past ++ copying.inp.copyq.flatten ∧
    (packetsOf copying.inp.injected.flatten).Sublist past ∧
    (packetsOf copying.inp.injected.flatten ++ copying.released).Perm past

theorem Kept.accounted (kept : copying.Kept) : copying.Accounted := by
  obtain ⟨past, split, order, once⟩ := kept.past
  refine ⟨?_, ?_⟩
  · rw [split]
    exact order.trans (List.sublist_append_left ..)
  · rw [split]
    exact once.append_right _

theorem Kept.waiting (kept : copying.Kept) : ∀ pd ∈ copying.inp.copyq.flatten, Plain pd := by
  obtain ⟨past, split, _⟩ := kept.past
  intro pd member
  apply kept.plain
  rw [split]
  exact List.mem_append_right _ member

theorem packed_of_length {copyq : List (List Pd)} (single : copyq.length ≤ 1) :
    InpCopy.Packed copyq := by
  intro node member
  have length := List.length_pos_of_mem member
  rw [List.length_dropLast] at length
  omega

theorem Kept.moves (kept : copying.Kept) (moves : Moves copying next gone sent freed)
    (single : next.inp.copyq.length ≤ 1)
    (fate : packetsOf sent = gone ∧ freed = [] ∨ packetsOf sent = [] ∧ freed = gone) :
    next.Kept := by
  obtain ⟨past, split, order, once⟩ := kept.past
  refine ⟨?_, ?_, packed_of_length single, past ++ gone, ?_, ?_, ?_⟩
  · rw [moves.queued]
    exact kept.plain
  · intro node member
    exact kept.filled node (moves.nodes.subset member)
  · rw [moves.queued, split, moves.queue, List.append_assoc]
  · rw [moves.sent, packetsOf_append]
    rcases fate with ⟨packets, _⟩ | ⟨none, _⟩
    · rw [packets]
      exact order.append (List.Sublist.refl _)
    · rw [none, List.append_nil]
      exact order.trans (List.sublist_append_left ..)
  · rw [moves.sent, packetsOf_append, moves.freed]
    rcases fate with ⟨packets, rfl⟩ | ⟨none, rfl⟩
    · rw [packets, List.append_nil, List.append_assoc]
      refine (List.Perm.append_left _ List.perm_append_comm).trans ?_
      rw [← List.append_assoc]
      exact once.append_right _
    · rw [none, List.append_nil, ← List.append_assoc]
      exact once.append_right _

theorem Kept.dispose (kept : copying.Kept) : copying.inCopyDispose.Kept := by
  obtain ⟨moves, empty⟩ := copying.inCopyDispose_moves
  refine kept.moves moves ?_ (.inr ⟨rfl, rfl⟩)
  rw [empty]
  exact Nat.zero_le _

theorem inCopyDispose_injected (copying : Copying) :
    copying.inCopyDispose.inp.injected.flatten = copying.inp.injected.flatten := by
  rw [copying.inCopyDispose_moves.1.sent, List.append_nil]

theorem Kept.flush (kept : copying.Kept) (finished : Bool) (scratch : Pd) :
    (copying.inCopyFlush finished scratch).Kept := by
  obtain ⟨gone, moves, left, whole⟩ := inCopyFlush_moves finished scratch kept.filled
  refine kept.moves moves ?_ ?_
  · rw [left]
    split
    · exact Nat.zero_le _
    · exact kept.packed.dropWhile_full
  cases copying.inp.copyif with
  | false => exact .inr ⟨rfl, rfl⟩
  | true =>
    refine .inl ⟨?_, rfl⟩
    cases finished with
    | false =>
      refine packetsOf_plain fun pd member => kept.waiting pd ?_
      rw [moves.queue]
      exact List.mem_append_left _ member
    | true =>
      rw [whole rfl]
      show packetsOf (copying.closing scratch) = _
      unfold closing
      split
      · rename_i none
        rw [none]
        split
        · exact packetsOf_flushPd ..
        · rfl
      · exact packetsOf_markLast kept.waiting

theorem Kept.add (kept : copying.Kept) (m : CopyMbuf) : (copying.add m).Kept := by
  dsimp only [Copying.add]
  have packed : InpCopy.Packed (copying.inp.add copying.heap m).2.copyq := kept.packed.add
  obtain ⟨past, split, order, once⟩ := kept.past
  rcases copying.inp.refused_or_granted m with ⟨grows, refused⟩ | granted
  · rw [InpCopy.add_failed grows refused]
    exact ⟨kept.plain, kept.filled, kept.packed, past, split, order, once⟩
  · obtain ⟨_, added⟩ := InpCopy.add_queued copying.heap granted
    refine ⟨?_, ?_, packed, past, ?_, ?_, ?_⟩
    · rw [added]
      intro pd member
      rcases List.mem_append.mp member with old | new
      · exact kept.plain pd old
      · rw [List.mem_singleton.mp new]
        rfl
    · rw [added]
      intro node member
      simp only at member
      split at member
      · rcases List.mem_append.mp member with old | new
        · exact kept.filled node old
        · rw [List.mem_singleton.mp new]
          exact List.cons_ne_nil _ _
      · rcases List.mem_append.mp member with old | new
        · exact kept.filled node (List.dropLast_subset _ old)
        · rw [List.mem_singleton.mp new]
          exact List.append_ne_nil_of_right_ne_nil _ (List.cons_ne_nil _ _)
    · rw [added]
      simp only
      rw [split, List.append_assoc]
      congr 1
      split
      · simp
      · rename_i fits
        have some_ : copying.inp.copyq ≠ [] := fun none => fits (.inl none)
        obtain ⟨front, last, nodes⟩ := (List.eq_nil_or_concat _).resolve_left some_
        rw [nodes]
        simp
    · rw [added]
      exact order
    · rw [added]
      exact once

theorem copyOne_keeps {holds : Copying → Prop} {m : CopyMbuf}
    (added : ∀ copying : Copying, holds copying → holds (copying.add m))
    (flushed : ∀ copying : Copying, holds copying → copying.inp.copyMode &&& ipCopyModeOn ≠ 0 →
      holds (copying.inCopyFlush false scratch)) (held : holds copying) :
    holds (copying.copyOne m scratch) := by
  unfold copyOne
  simp only
  split
  · rename_i fills
    exact flushed _ (added copying held) fills.1
  · exact added copying held

theorem inCopy_keeps (holds : Copying → Prop) (chain : List CopyMbuf)
    (added : ∀ m ∈ chain, ∀ copying : Copying, holds copying → holds (copying.add m))
    (flushed : ∀ copying : Copying, holds copying → copying.inp.copyMode &&& ipCopyModeOn ≠ 0 →
      holds (copying.inCopyFlush false scratch)) (held : holds copying) :
    holds (copying.inCopy chain scratch) := by
  have loop : ∀ copying, holds copying → holds (inCopyLoop scratch chain copying) := by
    induction chain with
    | nil => exact fun _ held => held
    | cons m rest ih =>
      intro copying held
      rw [inCopyLoop]
      split
      · exact ih (fun m member => added m (List.mem_cons_of_mem _ member)) _
          (copyOne_keeps (added m List.mem_cons_self) flushed held)
      · exact held
  unfold inCopy
  split
  · exact loop copying held
  · exact held

theorem add_fields (copying : Copying) (m : CopyMbuf) :
    (copying.add m).inp.copyMode = copying.inp.copyMode ∧
      (copying.add m).inp.injected = copying.inp.injected ∧
      (copying.add m).inp.copyif = copying.inp.copyif := by
  dsimp only [Copying.add, InpCopy.add]
  split
  · exact ⟨rfl, rfl, rfl⟩
  · exact ⟨rfl, rfl, rfl⟩

theorem ipCtloutput_accepts (copying : Copying) {optval : BitVec 32} (scratch : Pd)
    (small : optval < 16) :
    (copying.ipCtloutput optval scratch).2 = copying ∨
      ∃ mode, ValidMode mode ∧ (mode = copyOn ↔ optval &&& ipCopyModeOn ≠ 0) ∧
        (mode = copyOff ↔ optval = ipCopyModeOff) ∧ (copying.ipCtloutput optval scratch).1 = 0 ∧
        (copying.ipCtloutput optval scratch).2 = copying.changeMode mode scratch := by
  have values : optval = 0 ∨ optval = 1 ∨ optval = 2 ∨ optval = 3 ∨ optval = 4 ∨ optval = 5 ∨
      optval = 6 ∨ optval = 7 ∨ optval = 8 ∨ optval = 9 ∨ optval = 10 ∨ optval = 11 ∨
      optval = 12 ∨ optval = 13 ∨ optval = 14 ∨ optval = 15 := by bv_omega
  rcases values with rfl | rfl | rfl | rfl | rfl | rfl | rfl | rfl | rfl | rfl | rfl | rfl | rfl |
    rfl | rfl | rfl
  · exact .inr ⟨copyOff, .inl rfl, by decide, by decide, rfl, rfl⟩
  · exact .inl rfl
  · exact .inl rfl
  · exact .inl rfl
  · exact .inl rfl
  · exact .inr ⟨copyMaybe, .inr (.inl rfl), by decide, by decide, rfl, rfl⟩
  · exact .inr ⟨copyOn, .inr (.inr rfl), by decide, by decide, rfl, rfl⟩
  · exact .inr ⟨copyOn, .inr (.inr rfl), by decide, by decide, rfl, rfl⟩
  all_goals exact .inl rfl

theorem changeMode_cases (valid : ValidMode copying.inp.copyMode) (accepted : ValidMode mode)
    (scratch : Pd) :
    ∃ moved, copying.changeMode mode scratch = moved.setMode mode ∧
      (moved = copying ∧ (mode = copyOff → copying.inp.copyMode = copyOff) ∨
        (mode = copyOn ∧ moved = (copying.setMode copyOn).inCopyFlush false scratch) ∨
        (mode = copyOff ∧ copying.inp.copyMode = copyMaybe ∧ moved = copying.inCopyDispose) ∨
        (mode = copyOff ∧ copying.inp.copyMode = copyOn ∧
          moved = copying.inCopyFlush true scratch)) := by
  unfold changeMode
  rcases accepted with rfl | rfl | rfl
  · rcases valid with was | was | was
    · rw [was]
      exact ⟨copying, rfl, .inl ⟨rfl, fun _ => rfl⟩⟩
    · rw [was]
      exact ⟨_, rfl, .inr (.inr (.inl ⟨rfl, rfl, rfl⟩))⟩
    · rw [was]
      exact ⟨_, rfl, .inr (.inr (.inr ⟨rfl, rfl, rfl⟩))⟩
  · have other : copyMaybe ≠ copyOff := by decide
    exact ⟨copying, rfl, .inl ⟨rfl, fun same => absurd same other⟩⟩
  · have other : copyOn ≠ copyOff := by decide
    rcases valid with was | was | was
    · rw [was]
      exact ⟨copying, rfl, .inl ⟨rfl, fun same => absurd same other⟩⟩
    · rw [was]
      exact ⟨_, rfl, .inr (.inl ⟨rfl, rfl⟩)⟩
    · rw [was]
      exact ⟨copying, rfl, .inl ⟨rfl, fun same => absurd same other⟩⟩

structure Lives (copying : Copying) : Prop where
  kept : copying.Kept
  valid : ValidMode copying.inp.copyMode
  idle : copying.inp.copyMode = copyOff ∨ copying.dropped = true → copying.inp.copyq = []
  unsent : copying.inp.copyif = false → copying.inp.injected.flatten = []

theorem Kept.withHeap (kept : copying.Kept) (heap : PdHeap) :
    Kept { copying with heap := heap } :=
  ⟨kept.plain, kept.filled, kept.packed, kept.past⟩

theorem Kept.setMode (kept : copying.Kept) (mode : BitVec 32) : (copying.setMode mode).Kept :=
  ⟨kept.plain, kept.filled, kept.packed, kept.past⟩

theorem Lives.withHeap (lives : copying.Lives) (heap : PdHeap) :
    Lives { copying with heap := heap } :=
  ⟨lives.kept.withHeap heap, lives.valid, lives.idle, lives.unsent⟩

theorem Moves.unsent (moves : Moves copying next gone sent freed)
    (none : copying.inp.copyif = false → sent = [])
    (unsent : copying.inp.copyif = false → copying.inp.injected.flatten = []) :
    next.inp.copyif = false → next.inp.injected.flatten = [] := by
  intro without
  rw [moves.copyif] at without
  rw [moves.sent, unsent without, none without]
  rfl

theorem Kept.flush_fields (kept : copying.Kept) (finished : Bool) (scratch : Pd) :
    (copying.inCopyFlush finished scratch).inp.copyMode = copying.inp.copyMode ∧
      (copying.inCopyFlush finished scratch).dropped = copying.dropped ∧
      ((copying.inp.copyif = false → copying.inp.injected.flatten = []) →
        (copying.inCopyFlush finished scratch).inp.copyif = false →
        (copying.inCopyFlush finished scratch).inp.injected.flatten = []) := by
  obtain ⟨gone, moves, -⟩ := inCopyFlush_moves finished scratch kept.filled
  refine ⟨moves.mode, moves.dropped, moves.unsent fun without => ?_⟩
  rw [without]
  rfl

theorem Lives.inCopy (lives : copying.Lives) (alive : copying.dropped = false)
    (chain : List CopyMbuf) (scratch : Pd) : (copying.inCopy chain scratch).Lives := by
  have kept : (copying.inCopy chain scratch).Kept ∧
      (copying.inCopy chain scratch).inp.copyMode = copying.inp.copyMode ∧
      (copying.inCopy chain scratch).dropped = copying.dropped ∧
      ((copying.inCopy chain scratch).inp.copyif = false →
        (copying.inCopy chain scratch).inp.injected.flatten = []) := by
    apply inCopy_keeps (fun next => next.Kept ∧ next.inp.copyMode = copying.inp.copyMode ∧
      next.dropped = copying.dropped ∧ (next.inp.copyif = false → next.inp.injected.flatten = []))
    · intro m _ next ⟨kept, mode, dropped, unsent⟩
      obtain ⟨sameMode, sameInjected, sameCopyif⟩ := next.add_fields m
      refine ⟨kept.add m, sameMode.trans mode, dropped, ?_⟩
      rw [sameInjected, sameCopyif]
      exact unsent
    · intro next ⟨kept, mode, dropped, unsent⟩ _
      obtain ⟨sameMode, sameDropped, sent⟩ := kept.flush_fields false scratch
      exact ⟨kept.flush false scratch, sameMode.trans mode, sameDropped.trans dropped,
        sent unsent⟩
    · exact ⟨lives.kept, rfl, rfl, lives.unsent⟩
  obtain ⟨kept, mode, dropped, unsent⟩ := kept
  refine ⟨kept, ?_, ?_, unsent⟩
  · rw [mode]
    exact lives.valid
  · rw [mode, dropped]
    rintro (off | gone)
    · have none : ¬copying.inp.copyMode &&& ipCopyModeRx ≠ 0 := by
        rw [off]
        decide
      rw [Copying.inCopy, if_neg none]
      exact lives.idle (.inl off)
    · rw [alive] at gone
      contradiction

theorem Lives.changeMode (lives : copying.Lives) (alive : copying.dropped = false)
    (accepted : ValidMode mode) (scratch : Pd) : (copying.changeMode mode scratch).Lives := by
  obtain ⟨moved, changed, cases_⟩ := changeMode_cases lives.valid accepted scratch
  rw [changed]
  rcases cases_ with ⟨rfl, off⟩ | ⟨rfl, rfl⟩ | ⟨rfl, _, rfl⟩ | ⟨rfl, _, rfl⟩
  · refine ⟨lives.kept.setMode mode, accepted, ?_, lives.unsent⟩
    rintro (isOff | gone)
    · exact lives.idle (.inl (off isOff))
    · exact lives.idle (.inr gone)
  · have kept := lives.kept.setMode copyOn
    obtain ⟨-, same, sent⟩ := kept.flush_fields false scratch
    refine ⟨(kept.flush false scratch).setMode copyOn, accepted, ?_, sent lives.unsent⟩
    rintro (isOff | gone)
    · have other : copyOn ≠ copyOff := by decide
      exact absurd isOff other
    · exact absurd (same.symm.trans gone) (by simp [Copying.setMode, alive])
  · obtain ⟨moves, empty⟩ := copying.inCopyDispose_moves
    exact ⟨lives.kept.dispose.setMode _, accepted, fun _ => empty,
      moves.unsent (fun _ => rfl) lives.unsent⟩
  · obtain ⟨_, -, empty, -⟩ := inCopyFlush_moves true scratch lives.kept.filled
    exact ⟨(lives.kept.flush true scratch).setMode _, accepted, fun _ => empty,
      (lives.kept.flush_fields true scratch).2.2 lives.unsent⟩

theorem Lives.inPcbdrop (lives : copying.Lives) (scratch : Pd) :
    (copying.inPcbdrop scratch).Lives := by
  unfold Copying.inPcbdrop
  simp only
  split
  · obtain ⟨_, -, empty, -⟩ := inCopyFlush_moves true scratch lives.kept.filled
    obtain ⟨mode, -, sent⟩ := lives.kept.flush_fields true scratch
    refine ⟨{ lives.kept.flush true scratch with }, ?_, fun _ => empty, sent lives.unsent⟩
    simp only [mode]
    exact lives.valid
  · obtain ⟨moves, empty⟩ := copying.inCopyDispose_moves
    refine ⟨{ lives.kept.dispose with }, ?_, fun _ => empty,
      moves.unsent (fun _ => rfl) lives.unsent⟩
    simp only [moves.mode]
    exact lives.valid

theorem Lives.start (valid : ValidMode mode) (limit : BitVec 64) (copyif : Bool)
    (serialno : BitVec 64) (heap : PdHeap) : (start mode limit copyif serialno heap).Lives := by
  refine ⟨⟨?_, ?_, ?_, [], rfl, List.Sublist.refl _, List.Perm.refl _⟩, valid, fun _ => rfl,
    fun _ => rfl⟩
  · simp [Copying.start, InpCopy.fresh]
  · simp [Copying.start, InpCopy.fresh]
  · exact packed_of_length (Nat.zero_le _)

theorem Lives.step (lives : copying.Lives) {label : CopyStep} (enabled : copying.Enabled label) :
    (copying.step label).Lives := by
  cases label with
  | copy heap chain scratch =>
    exact (lives.withHeap heap).inCopy enabled chain scratch
  | mode heap optval scratch =>
    obtain ⟨alive, small⟩ := enabled
    rcases ipCtloutput_accepts { copying with heap := heap } scratch small with
      refused | ⟨mode, accepted, _, _, _, changed⟩
    · rw [Copying.step, refused]
      exact lives.withHeap heap
    · rw [Copying.step, changed]
      exact (lives.withHeap heap).changeMode alive accepted scratch
  | drop heap scratch =>
    exact (lives.withHeap heap).inPcbdrop scratch

theorem lives_of_run (valid : ValidMode mode) {limit : BitVec 64} {copyif : Bool}
    {serialno : BitVec 64} {heap : PdHeap} {labels : List CopyStep}
    (run : Run copyMove (Copying.start mode limit copyif serialno heap) labels copying) :
    copying.Lives := by
  refine run.invariant Lives (Lives.start valid limit copyif serialno heap) ?_
  rintro before label after lives ⟨enabled, rfl⟩
  exact lives.step enabled

section Counters

variable {refcnt : Nat → Counter}

def Steady (refcnt : Nat → Counter) (heap : PdHeap) : Prop :=
  ∀ index, (heap.ctx index).refcnt = refcnt index

/-- A context keeps its counter, and the mbufs of a packet have the counter of its context. -/
def Shared (refcnt : Nat → Counter) : CopyStep → Prop
  | .copy heap chain _ => Steady refcnt heap ∧ ∀ m ∈ chain, m.ext.refCnt = refcnt m.ctx
  | .mode heap .. | .drop heap _ => Steady refcnt heap

structure Counted (refcnt : Nat → Counter) (copying : Copying) : Prop where
  taken : copying.taken = copying.inp.queued.filterMap (counterOf refcnt)
  given : copying.given = copying.released.filterMap (counterOf refcnt)

def Matched (refcnt : Nat → Counter) (copying : Copying) : Prop :=
  Steady refcnt copying.heap ∧ copying.Counted refcnt

theorem Matched.release (matched : copying.Matched refcnt) (node : List Pd) :
    (copying.xlistRelease node).Matched refcnt := by
  obtain ⟨steady, taken, given⟩ := matched
  have same : (fun index => (copying.heap.ctx index).refcnt) = refcnt := funext steady
  refine ⟨fun index => ?_, taken, ?_⟩
  · show ((uinetPdXlistRelease copying.heap node).ctx index).refcnt = _
    rw [uinetPdXlistRelease_ctx]
    exact steady index
  · simp only [xlistRelease, same, given, List.filterMap_append]

theorem Matched.flush (matched : copying.Matched refcnt) (finished : Bool) (scratch : Pd) :
    (copying.inCopyFlush finished scratch).Matched refcnt := by
  have loop : ∀ (nodes : List (List Pd)) (copying : Copying) (flag : Bool),
      copying.Matched refcnt → (flushLoop finished nodes copying flag).2.1.Matched refcnt := by
    intro nodes
    induction nodes with
    | nil => exact fun _ _ matched => matched
    | cons node rest ih =>
      intro copying flag matched
      rw [flushLoop]
      split
      · split
        · split
          · exact ih _ _ ⟨matched.1, matched.2.taken, matched.2.given⟩
          · exact ih _ _ (matched.release node)
        · exact ih _ _ matched
      · exact matched
  obtain ⟨steady, taken, given⟩ := loop copying.inp.copyq copying false matched
  unfold inCopyFlush
  dsimp only
  split <;> exact ⟨steady, taken, given⟩

theorem Matched.dispose (matched : copying.Matched refcnt) :
    copying.inCopyDispose.Matched refcnt := by
  have released : (copying.inp.copyq.foldl xlistRelease copying).Matched refcnt :=
    List.foldlRecOn _ _ matched fun _ matched node _ => matched.release node
  exact ⟨released.1, released.2.taken, released.2.given⟩

theorem Matched.add (matched : copying.Matched refcnt) {m : CopyMbuf}
    (shared : m.ext.refCnt = refcnt m.ctx) : (copying.add m).Matched refcnt := by
  obtain ⟨steady, taken, given⟩ := matched
  dsimp only [Matched, Copying.add]
  rcases copying.inp.refused_or_granted m with ⟨grows, refused⟩ | granted
  · rw [InpCopy.add_failed grows refused]
    exact ⟨steady, by rw [if_pos rfl]; exact taken, given⟩
  · obtain ⟨ctx, added⟩ := InpCopy.add_queued copying.heap granted
    refine ⟨fun index => by rw [ctx]; exact steady index, ?_, given⟩
    rw [added]
    simp [taken, counterOf, InpCopy.queuedPd, shared]

theorem Matched.changeMode (matched : copying.Matched refcnt) (optval : BitVec 32) (scratch : Pd) :
    (copying.changeMode optval scratch).Matched refcnt := by
  have moded : ∀ {next : Copying} mode, next.Matched refcnt → (next.setMode mode).Matched refcnt :=
    fun _ matched => ⟨matched.1, matched.2.taken, matched.2.given⟩
  unfold Copying.changeMode
  dsimp only
  refine moded optval ?_
  split
  · split
    · exact moded _ matched
    · split
      · exact (moded _ matched).flush false scratch
      · exact matched
  · split
    · split
      · exact matched.dispose
      · split
        · exact matched.flush true scratch
        · exact matched
    · exact matched

theorem Counted.step (counted : copying.Counted refcnt) {label : CopyStep}
    (shared : Shared refcnt label) : (copying.step label).Counted refcnt := by
  cases label with
  | copy heap chain scratch =>
    have start : Matched refcnt { copying with heap := heap } :=
      ⟨shared.1, counted.taken, counted.given⟩
    exact (inCopy_keeps (Matched refcnt) chain (fun m member _ matched =>
      matched.add (shared.2 m member)) (fun _ matched _ => matched.flush false scratch) start).2
  | mode heap optval scratch =>
    have start : Matched refcnt { copying with heap := heap } :=
      ⟨shared, counted.taken, counted.given⟩
    show (ipCtloutput _ optval scratch).2.Counted refcnt
    unfold ipCtloutput
    split
    · exact start.2
    · split
      · exact start.2
      · exact (start.changeMode _ scratch).2
  | drop heap scratch =>
    have start : Matched refcnt { copying with heap := heap } :=
      ⟨shared, counted.taken, counted.given⟩
    have ended : Matched refcnt (inPcbdrop { copying with heap := heap } scratch) := by
      unfold inPcbdrop
      dsimp only
      split
      · obtain ⟨steady, taken, given⟩ := start.flush true scratch
        exact ⟨steady, taken, given⟩
      · obtain ⟨steady, taken, given⟩ := start.dispose
        exact ⟨steady, taken, given⟩
    exact ended.2

def sharedMove (refcnt : Nat → Counter) (before : Copying) (label : CopyStep) (after : Copying) :
    Prop :=
  copyMove before label after ∧ Shared refcnt label

/-- The counters on which references were taken are those of the packets that were injected or
wait, and those on which references were given back. -/
def Settled (refcnt : Nat → Counter) (copying : Copying) : Prop :=
  copying.taken.Perm ((packetsOf copying.inp.injected.flatten ++
    copying.inp.copyq.flatten).filterMap (counterOf refcnt) ++ copying.given)

theorem settled_of_run {limit : BitVec 64} {copyif : Bool} {serialno : BitVec 64} {heap : PdHeap}
    {labels : List CopyStep} (accounted : copying.Accounted)
    (run : Run (sharedMove refcnt) (Copying.start mode limit copyif serialno heap) labels copying) :
    copying.Settled refcnt := by
  have counted : copying.Counted refcnt := by
    refine run.invariant (Counted refcnt) ⟨rfl, rfl⟩ ?_
    rintro before label after counted ⟨⟨_, rfl⟩, shared⟩
    exact counted.step shared
  rw [Settled, counted.taken, counted.given, ← List.filterMap_append]
  refine (accounted.once.symm.trans ?_).filterMap _
  rw [List.append_assoc, List.append_assoc]
  exact List.Perm.append_left _ List.perm_append_comm

end Counters

end Copying

end Libunsod.Netinet
