import Libunsod.Uinet.PdRelease

/-!
Copying the received packets of a connection, `in_copy.c`. The call that queues a packet returns
an error code and not a number of bytes, and `in_copy` adds that code to `inp_copy_total`: the
total counts the packets that could not be queued.
-/

namespace Libunsod.Netinet

open Uinet

variable {copyq : List (List Pd)}

def ipCopyModeOn : BitVec 32 := 0x02#32
def ipCopyModeRx : BitVec 32 := 0x04#32

structure CopyMbuf where
  ext : MExt
  ctx : Nat
  owned : ext.extFree.extArg2 = some ctx
  allocated : Bool

structure InpCopy where
  copyMode : BitVec 32
  copyLimit : BitVec 64
  copyTotal : BitVec 64
  copyq : List (List Pd)
  copyif : Bool
  serialno : BitVec 64
  injected : List (List Pd)
  queued : List Pd

namespace InpCopy

def fresh (mode : BitVec 32) (limit : BitVec 64) (copyif : Bool) (serialno : BitVec 64) :
    InpCopy :=
  ⟨mode, limit, 0, [], copyif, serialno, [], []⟩

end InpCopy

def uinetPdXlistRelease (heap : PdHeap) (node : List Pd) : PdHeap :=
  uinetPdRefRelease heap (node.filterMap (·.ctx))

def inCopyFlushLoop (copyif : Bool) :
    List (List Pd) → PdHeap → List (List Pd) → PdHeap × List (List Pd) × List (List Pd)
  | [], heap, injected => (heap, [], injected)
  | node :: rest, heap, injected =>
      if node.length = pdXlistMaxDescs then
        if copyif then inCopyFlushLoop copyif rest heap (injected ++ [node])
        else inCopyFlushLoop copyif rest (uinetPdXlistRelease heap node) injected
      else (heap, node :: rest, injected)

namespace InpCopy

def inCopyFlush (heap : PdHeap) (inp : InpCopy) : PdHeap × InpCopy :=
  let flushed := inCopyFlushLoop inp.copyif inp.copyq heap inp.injected
  (flushed.1, { inp with copyq := flushed.2.1, injected := flushed.2.2 })

def headFull (inp : InpCopy) : Bool :=
  inp.copyq.head?.any fun node => node.length = pdXlistMaxDescs

def add (heap : PdHeap) (inp : InpCopy) (m : CopyMbuf) : PdHeap × InpCopy :=
  match uinetPdXlistAddMbuf heap inp.copyq m.allocated m.ext pdInject inp.serialno with
  | none => (heap, inp)
  | some (result, xlist, added) =>
      (added, { inp with
        copyTotal := inp.copyTotal + BitVec.ofNat 64 result
        copyq := xlist
        queued := if result = 0 then inp.queued ++ (xlist.getLast?.getD []).getLast?.toList
          else inp.queued })

def copyOne (heap : PdHeap) (inp : InpCopy) (m : CopyMbuf) : PdHeap × InpCopy :=
  let added := inp.add heap m
  if added.2.copyMode &&& ipCopyModeOn ≠ 0 ∧ added.2.headFull then
    added.2.inCopyFlush added.1
  else added

def inCopyLoop : List CopyMbuf → PdHeap → InpCopy → PdHeap × InpCopy
  | [], heap, inp => (heap, inp)
  | m :: rest, heap, inp =>
      if inp.copyLimit = 0 ∨ inp.copyTotal < inp.copyLimit then
        inCopyLoop rest (inp.copyOne heap m).1 (inp.copyOne heap m).2
      else (heap, inp)

def inCopy (heap : PdHeap) (inp : InpCopy) (chain : List CopyMbuf) : PdHeap × InpCopy :=
  if inp.copyMode &&& ipCopyModeRx ≠ 0 then inCopyLoop chain heap inp else (heap, inp)

def inCopyCalls (inp : InpCopy) (calls : List (PdHeap × List CopyMbuf)) : InpCopy :=
  calls.foldl (fun inp call => (inp.inCopy call.1 call.2).2) inp

end InpCopy

def pdBytes (pds : List Pd) : Nat :=
  (pds.map fun pd => pd.length.toNat).sum

theorem pdBytes_append (before after : List Pd) :
    pdBytes (before ++ after) = pdBytes before + pdBytes after := by
  simp [pdBytes]

theorem pdBytes_eq_zero {pds : List Pd} (empty : ∀ pd ∈ pds, pd.length = 0) : pdBytes pds = 0 := by
  induction pds with
  | nil => rfl
  | cons pd rest ih =>
    have none := ih fun other member => empty other (List.mem_cons_of_mem pd member)
    have first : pd.length.toNat = 0 := by
      rw [empty pd List.mem_cons_self]
      rfl
    unfold pdBytes at none ⊢
    rw [List.map_cons, List.sum_cons, first, none]

namespace InpCopy

structure Accurate (inp : InpCopy) : Prop where
  total : inp.copyTotal.toNat = pdBytes inp.queued
  limited : inp.copyLimit ≠ 0 → ∀ before pd after, inp.queued = before ++ pd :: after →
    pdBytes before < inp.copyLimit.toNat

end InpCopy

theorem refReleaseLoop_ctx (ctxs : List Nat) (heap : PdHeap) (group : FreeGroup) :
    (refReleaseLoop ctxs heap group).1.ctx = heap.ctx := by
  induction ctxs generalizing heap group with
  | nil => rfl
  | cons index rest ih =>
    have tested : (releaseTest heap index).1.ctx = heap.ctx := by
      unfold releaseTest
      simp only
      split
      · rfl
      · split <;> rfl
    simp only [refReleaseLoop]
    split
    · rw [ih, (addToGroup_fields _ group index).1, tested]
    · rw [ih, tested]

theorem uinetPdXlistRelease_ctx (heap : PdHeap) (node : List Pd) :
    (uinetPdXlistRelease heap node).ctx = heap.ctx := by
  unfold uinetPdXlistRelease uinetPdRefRelease
  rw [(flushGroup_fields _ _).1, refReleaseLoop_ctx]

theorem inCopyFlushLoop_spec (copyif : Bool) (nodes : List (List Pd)) (heap : PdHeap)
    (injected : List (List Pd)) :
    (inCopyFlushLoop copyif nodes heap injected).1.ctx = heap.ctx ∧
      (inCopyFlushLoop copyif nodes heap injected).2.1 =
        nodes.dropWhile fun node => node.length = pdXlistMaxDescs := by
  induction nodes generalizing heap injected with
  | nil => exact ⟨rfl, rfl⟩
  | cons node rest ih =>
    by_cases full : node.length = pdXlistMaxDescs
    · simp only [inCopyFlushLoop, List.dropWhile_cons, full, decide_true, if_true]
      split
      · exact ih heap _
      · obtain ⟨ctx, left⟩ := ih (uinetPdXlistRelease heap node) injected
        exact ⟨ctx.trans (uinetPdXlistRelease_ctx heap node), left⟩
    · simp [inCopyFlushLoop, full]

namespace InpCopy

variable {heap : PdHeap} {inp : InpCopy} {m : CopyMbuf}

def Extends (inp : InpCopy) : Prop :=
  inp.copyq = [] ∨ (inp.copyq.getLast?.getD []).length = pdXlistMaxDescs

instance (inp : InpCopy) : Decidable inp.Extends :=
  inferInstanceAs (Decidable (_ ∨ _))

theorem refused_or_granted (inp : InpCopy) (m : CopyMbuf) :
    inp.Extends ∧ m.allocated = false ∨ (inp.Extends → m.allocated = true) := by
  cases answer : m.allocated with
  | true => exact .inr fun _ => rfl
  | false =>
    by_cases grows : inp.Extends
    · exact .inl ⟨grows, rfl⟩
    · exact .inr fun asks => absurd asks grows

theorem add_failed (grows : inp.Extends) (failed : m.allocated = false) :
    inp.add heap m = (heap, { inp with copyTotal := inp.copyTotal + 1 }) := by
  have asks : decide (inp.copyq = [] ∨ (inp.copyq.getLast?.getD []).length = pdXlistMaxDescs) =
      true := decide_eq_true grows
  simp only [add, uinetPdXlistAddMbuf, asks, failed, Bool.not_false, Bool.and_self, if_true]
  rfl

def queuedPd (heap : PdHeap) (inp : InpCopy) (m : CopyMbuf) : Pd :=
  ⟨ctxMbufUsed ||| pdInject, (heap.ctx m.ctx).mOrigLen, (heap.ctx m.ctx).poolId,
    (heap.ctx m.ctx).ref, m.ext.extBuf, some m.ctx, inp.serialno⟩

theorem add_queued (heap : PdHeap) (granted : inp.Extends → m.allocated = true) :
    (inp.add heap m).1.ctx = heap.ctx ∧
    (inp.add heap m).2 = { inp with
      copyq := if inp.Extends then inp.copyq ++ [[inp.queuedPd heap m]]
        else inp.copyq.dropLast ++ [inp.copyq.getLast?.getD [] ++ [inp.queuedPd heap m]]
      queued := inp.queued ++ [inp.queuedPd heap m] } := by
  by_cases grows : inp.Extends
  · have asks : decide (inp.copyq = [] ∨
        (inp.copyq.getLast?.getD []).length = pdXlistMaxDescs) = true := decide_eq_true grows
    simp only [add, uinetPdXlistAddMbuf, asks, granted grows, Bool.not_true, Bool.and_false,
      m.owned, Option.map_some, if_true, if_pos grows]
    refine ⟨rfl, ?_⟩
    simp [queuedPd]
  · have fits : decide (inp.copyq = [] ∨
        (inp.copyq.getLast?.getD []).length = pdXlistMaxDescs) = false := decide_eq_false grows
    simp only [add, uinetPdXlistAddMbuf, fits, Bool.false_and, m.owned, Option.map_some,
      if_neg grows]
    refine ⟨rfl, ?_⟩
    simp [queuedPd]

theorem copyOne_add (heap : PdHeap) (inp : InpCopy) (m : CopyMbuf) :
    (inp.copyOne heap m).1.ctx = (inp.add heap m).1.ctx ∧
    (inp.copyOne heap m).2.copyTotal = (inp.add heap m).2.copyTotal ∧
    (inp.copyOne heap m).2.queued = (inp.add heap m).2.queued ∧
    (inp.copyOne heap m).2.copyMode = inp.copyMode ∧
    ((inp.copyOne heap m).2.copyq = (inp.add heap m).2.copyq ∨
      (inp.copyOne heap m).2.copyq =
        (inp.add heap m).2.copyq.dropWhile fun node => node.length = pdXlistMaxDescs) := by
  have mode : (inp.add heap m).2.copyMode = inp.copyMode := by
    unfold add
    split <;> rfl
  unfold copyOne
  simp only
  split
  · obtain ⟨ctx, left⟩ := inCopyFlushLoop_spec (inp.add heap m).2.copyif (inp.add heap m).2.copyq
      (inp.add heap m).1 (inp.add heap m).2.injected
    exact ⟨ctx, rfl, rfl, mode, .inr left⟩
  · exact ⟨rfl, rfl, rfl, mode, .inl rfl⟩

def Packed (copyq : List (List Pd)) : Prop :=
  ∀ node ∈ copyq.dropLast, node.length = pdXlistMaxDescs

theorem Packed.dropWhile_full (packed : Packed copyq) :
    (copyq.dropWhile fun node => node.length = pdXlistMaxDescs).length ≤ 1 := by
  induction copyq with
  | nil => exact Nat.zero_le _
  | cons node rest ih =>
    cases rest with
    | nil =>
      rw [List.dropWhile_cons]
      split
      · exact Nat.zero_le _
      · exact Nat.le_refl _
    | cons next rest =>
      have full := packed node (by simp)
      rw [List.dropWhile_cons, if_pos (decide_eq_true full)]
      exact ih fun other member => packed other (List.mem_cons_of_mem node member)

theorem Packed.add (packed : Packed inp.copyq) : Packed (inp.add heap m).2.copyq := by
  rcases inp.refused_or_granted m with ⟨grows, refused⟩ | granted
  · rw [add_failed grows refused]
    exact packed
  · rw [(add_queued heap granted).2]
    split
    · rename_i grows
      intro node member
      rw [List.dropLast_concat] at member
      rcases List.eq_nil_or_concat inp.copyq with none | ⟨front, last, nodes⟩
      · rw [none] at member
        cases member
      · rcases grows with none | full
        · rw [none] at member
          cases member
        · unfold Packed at packed
          rw [List.concat_eq_append] at nodes
          rw [nodes, List.dropLast_concat] at packed
          rw [nodes] at member full
          rcases List.mem_append.mp member with before | isLast
          · exact packed node before
          · rw [List.mem_singleton.mp isLast]
            simpa using full
    · intro node member
      rw [List.dropLast_concat] at member
      exact packed node member

def Filled (copyq : List (List Pd)) (count : Nat) : Prop :=
  copyq = [] ∧ count % pdXlistMaxDescs = 0 ∨
    ∃ front node, copyq = front ++ [node] ∧ 0 < node.length ∧ node.length ≤ pdXlistMaxDescs ∧
      node.length % pdXlistMaxDescs = count % pdXlistMaxDescs

structure Quiet (inp : InpCopy) (count : Nat) : Prop where
  total : inp.copyTotal = 0
  empty : ∀ pd ∈ inp.queued, pd.length = 0
  filled : Filled inp.copyq count

end InpCopy

theorem dropWhile_concat {α : Type} (test : α → Bool) (front : List α) (last : α) :
    ((front ++ [last]).dropWhile test = [] ∧ test last = true) ∨
      ∃ left, (front ++ [last]).dropWhile test = left ++ [last] := by
  induction front with
  | nil =>
    by_cases passes : test last = true
    · exact .inl ⟨by simp [passes], passes⟩
    · exact .inr ⟨[], by simp [passes]⟩
  | cons first rest ih =>
    by_cases passes : test first = true
    · simpa [passes] using ih
    · exact .inr ⟨first :: rest, by simp [passes]⟩

namespace InpCopy

variable {heap : PdHeap} {inp : InpCopy} {m : CopyMbuf} {count : Nat}

theorem Filled.dropWhile (filled : Filled copyq count) :
    Filled (copyq.dropWhile fun node => node.length = pdXlistMaxDescs) count := by
  rcases filled with ⟨rfl, whole⟩ | ⟨front, node, rfl, some, fits, count⟩
  · exact .inl ⟨rfl, whole⟩
  · rcases dropWhile_concat (fun node : List Pd => decide (node.length = pdXlistMaxDescs)) front
      node with ⟨gone, full⟩ | ⟨left, kept⟩
    · rw [decide_eq_true_iff] at full
      rw [gone]
      rw [full, Nat.mod_self] at count
      exact .inl ⟨rfl, count.symm⟩
    · rw [kept]
      exact .inr ⟨left, node, rfl, some, fits, count⟩

theorem Quiet.extends_iff (quiet : inp.Quiet count) :
    inp.Extends ↔ count % pdXlistMaxDescs = 0 := by
  unfold Extends
  rcases quiet.filled with ⟨none, whole⟩ | ⟨front, node, nodes, some, fits, same⟩
  · exact ⟨fun _ => whole, fun _ => .inl none⟩
  · rw [nodes]
    simp only [List.append_eq_nil_iff, List.cons_ne_nil, and_false, false_or,
      List.getLast?_concat, Option.getD_some]
    unfold pdXlistMaxDescs at *
    omega

theorem Quiet.accurate (quiet : inp.Quiet count) : inp.Accurate := by
  have none := pdBytes_eq_zero quiet.empty
  refine ⟨?_, fun limit before pd after split => ?_⟩
  · rw [quiet.total, none]
    rfl
  · rw [split, pdBytes_append] at none
    rw [Nat.eq_zero_of_add_eq_zero_right none]
    exact Nat.pos_of_ne_zero fun zero => limit (BitVec.eq_of_toNat_eq zero)

def Harmless (heap : PdHeap) (m : CopyMbuf) (count : Nat) : Prop :=
  (heap.ctx m.ctx).mOrigLen = 0 ∧ (count % pdXlistMaxDescs = 0 → m.allocated = true)

theorem Quiet.copyOne (quiet : inp.Quiet count) (harmless : Harmless heap m count) :
    (inp.copyOne heap m).2.Quiet (count + 1) := by
  obtain ⟨_, total, queued, _, copyq⟩ := copyOne_add heap inp m
  obtain ⟨_, added⟩ := add_queued heap fun grows =>
    harmless.2 (quiet.extends_iff.mp grows)
  have filled : Filled (inp.add heap m).2.copyq (count + 1) := by
    rw [added]
    simp only
    by_cases grows : inp.Extends
    · rw [if_pos grows]
      have whole := quiet.extends_iff.mp grows
      refine .inr ⟨inp.copyq, _, rfl, by simp, by simp [pdXlistMaxDescs], ?_⟩
      unfold pdXlistMaxDescs at *
      simp only [List.length_singleton]
      omega
    · rw [if_neg grows]
      rcases quiet.filled with ⟨none, _⟩ | ⟨front, node, nodes, some, fits, same⟩
      · exact absurd (.inl none) grows
      · have room : node.length ≠ pdXlistMaxDescs := by
          intro full
          exact grows (.inr (by rw [nodes]; simpa using full))
        refine .inr ⟨_, _, rfl, by simp, ?_, ?_⟩
        · rw [nodes]
          simp only [List.getLast?_concat, Option.getD_some, List.length_append,
            List.length_singleton]
          omega
        · rw [nodes]
          simp only [List.getLast?_concat, Option.getD_some, List.length_append,
            List.length_singleton]
          unfold pdXlistMaxDescs at *
          omega
  refine ⟨?_, ?_, ?_⟩
  · rw [total, added]
    exact quiet.total
  · rw [queued, added]
    intro pd member
    rcases List.mem_append.mp member with old | new
    · exact quiet.empty pd old
    · rw [List.mem_singleton.mp new]
      exact harmless.1
  · rcases copyq with same | dropped
    · rw [same]
      exact filled
    · rw [dropped]
      exact filled.dropWhile

theorem Quiet.harmless (quiet : inp.Quiet count) (accurate : (inp.copyOne heap m).2.Accurate) :
    Harmless heap m count := by
  obtain ⟨_, total, queued, _, _⟩ := copyOne_add heap inp m
  have before := quiet.accurate.total
  have after := accurate.total
  rw [total, queued] at after
  rcases inp.refused_or_granted m with ⟨grows, refused⟩ | granted
  · rw [add_failed grows refused, quiet.total] at after
    rw [quiet.total] at before
    rw [← before] at after
    have wrong : (0#64 + 1).toNat = (0#64).toNat := after
    exact absurd wrong (by decide)
  · refine ⟨?_, fun whole => granted (quiet.extends_iff.mpr whole)⟩
    rw [(add_queued heap granted).2, pdBytes_append, ← before] at after
    have none : pdBytes [inp.queuedPd heap m] = 0 := by
      simp only at after
      omega
    refine BitVec.eq_of_toNat_eq ?_
    simpa [pdBytes, queuedPd] using none

section Calls

variable {chain : List CopyMbuf} {calls : List (PdHeap × List CopyMbuf)}

theorem Quiet.guard (quiet : inp.Quiet count) :
    inp.copyLimit = 0 ∨ inp.copyTotal < inp.copyLimit := by
  by_cases unlimited : inp.copyLimit = 0
  · exact .inl unlimited
  · refine .inr (BitVec.lt_def.mpr ?_)
    rw [quiet.total]
    exact Nat.pos_of_ne_zero fun zero => unlimited (BitVec.eq_of_toNat_eq zero)

def HarmlessChain (heap : PdHeap) (chain : List CopyMbuf) (count : Nat) : Prop :=
  ∀ index m, chain[index]? = some m → Harmless heap m (count + index)

theorem harmlessChain_cons {rest : List CopyMbuf} :
    HarmlessChain heap (m :: rest) count ↔
      Harmless heap m count ∧ HarmlessChain heap rest (count + 1) := by
  constructor
  · intro chain
    refine ⟨chain 0 m rfl, fun index other member => ?_⟩
    rw [Nat.add_assoc, Nat.add_comm 1]
    exact chain (index + 1) other member
  · rintro ⟨first, others⟩ index other member
    cases index with
    | zero =>
      cases member
      exact first
    | succ index =>
      rw [Nat.add_comm index, ← Nat.add_assoc]
      exact others index other member

theorem HarmlessChain.of_ctx {other : PdHeap} (same : other.ctx = heap.ctx)
    (harmless : HarmlessChain heap chain count) : HarmlessChain other chain count := by
  intro index m member
  unfold Harmless
  rw [same]
  exact harmless index m member

theorem Quiet.ctx_of_harmless (quiet : inp.Quiet count) (harmless : Harmless heap m count) :
    (inp.copyOne heap m).1.ctx = heap.ctx := by
  rw [(copyOne_add heap inp m).1]
  exact (add_queued heap fun grows => harmless.2 (quiet.extends_iff.mp grows)).1

theorem Quiet.inCopyLoop (quiet : inp.Quiet count) (harmless : HarmlessChain heap chain count) :
    (inCopyLoop chain heap inp).2.Quiet (count + chain.length) := by
  induction chain generalizing heap inp count with
  | nil => exact quiet
  | cons m rest ih =>
    obtain ⟨first, others⟩ := harmlessChain_cons.mp harmless
    rw [InpCopy.inCopyLoop, if_pos quiet.guard, List.length_cons, Nat.add_comm rest.length,
      ← Nat.add_assoc]
    exact ih (quiet.copyOne first) (others.of_ctx (quiet.ctx_of_harmless first))

theorem Quiet.harmlessChain (quiet : inp.Quiet count)
    (accurate : ∀ mbufs more, chain = mbufs ++ more →
      (InpCopy.inCopyLoop mbufs heap inp).2.Accurate) :
    HarmlessChain heap chain count := by
  induction chain generalizing heap inp count with
  | nil =>
    intro index m member
    cases member
  | cons m rest ih =>
    have one := accurate [m] rest rfl
    rw [InpCopy.inCopyLoop, if_pos quiet.guard] at one
    have first := quiet.harmless one
    refine harmlessChain_cons.mpr ⟨first, ?_⟩
    refine HarmlessChain.of_ctx (quiet.ctx_of_harmless first).symm ?_
    refine ih (quiet.copyOne first) fun mbufs more split => ?_
    have next := accurate (m :: mbufs) more (by rw [split, List.cons_append])
    rw [InpCopy.inCopyLoop, if_pos quiet.guard] at next
    exact next

theorem inCopyLoop_mode (chain : List CopyMbuf) (heap : PdHeap) (inp : InpCopy) :
    (inCopyLoop chain heap inp).2.copyMode = inp.copyMode := by
  induction chain generalizing heap inp with
  | nil => rfl
  | cons m rest ih =>
    rw [inCopyLoop]
    split
    · rw [ih, (copyOne_add heap inp m).2.2.2.1]
    · rfl

theorem inCopyCalls_off (off : inp.copyMode &&& ipCopyModeRx = 0) : inp.inCopyCalls calls = inp := by
  induction calls with
  | nil => rfl
  | cons call rest ih =>
    rw [inCopyCalls, List.foldl_cons, inCopy, if_neg (not_not.mpr off)]
    exact ih

def HarmlessCalls : List (PdHeap × List CopyMbuf) → Nat → Prop
  | [], _ => True
  | call :: rest, count =>
      HarmlessChain call.1 call.2 count ∧ HarmlessCalls rest (count + call.2.length)

theorem Quiet.accurate_iff (quiet : inp.Quiet count) (on : inp.copyMode &&& ipCopyModeRx ≠ 0) :
    (∀ before heap mbufs more after, calls = before ++ (heap, mbufs ++ more) :: after →
      ((inp.inCopyCalls before).inCopy heap mbufs).2.Accurate) ↔ HarmlessCalls calls count := by
  induction calls generalizing inp count with
  | nil =>
    refine ⟨fun _ => trivial, fun _ before heap mbufs more after split => ?_⟩
    exact absurd split.symm (by simp)
  | cons call rest ih =>
    have next : (inp.inCopy call.1 call.2).2 = (InpCopy.inCopyLoop call.2 call.1 inp).2 := by
      rw [inCopy, if_pos on]
    have stays : (inp.inCopy call.1 call.2).2.copyMode &&& ipCopyModeRx ≠ 0 := by
      rw [next, inCopyLoop_mode]
      exact on
    constructor
    · intro accurate
      have first : HarmlessChain call.1 call.2 count := by
        refine quiet.harmlessChain fun mbufs more split => ?_
        have one := accurate [] call.1 mbufs more rest (by rw [← split]; rfl)
        rwa [inCopyCalls, List.foldl_nil, inCopy, if_pos on] at one
      refine ⟨first, (ih (next ▸ quiet.inCopyLoop first) stays).mp ?_⟩
      intro before heap mbufs more after split
      exact accurate (call :: before) heap mbufs more after (by rw [split]; rfl)
    · rintro ⟨first, others⟩ before heap mbufs more after split
      cases before with
      | nil =>
        obtain ⟨rfl, rfl⟩ := List.cons.inj split
        have part : HarmlessChain heap mbufs count := by
          intro index m member
          exact first index m (List.getElem?_append_left
            (List.getElem?_eq_some_iff.mp member).1 ▸ member)
        rw [inCopyCalls, List.foldl_nil, inCopy, if_pos on]
        exact (quiet.inCopyLoop part).accurate
      | cons head before =>
        obtain ⟨rfl, tail⟩ := List.cons.inj split
        exact (ih (next ▸ quiet.inCopyLoop first) stays).mpr others before heap mbufs more after
          tail

theorem harmlessCalls_iff : HarmlessCalls calls count ↔
    (∀ call ∈ calls, ∀ m ∈ call.2, (call.1.ctx m.ctx).mOrigLen = 0) ∧
    ∀ index m, (calls.flatMap (·.2))[index]? = some m →
      (count + index) % pdXlistMaxDescs = 0 → m.allocated = true := by
  induction calls generalizing count with
  | nil => simp [HarmlessCalls]
  | cons call rest ih =>
    rw [HarmlessCalls, ih, List.flatMap_cons]
    constructor
    · rintro ⟨chain, lengths, grants⟩
      refine ⟨?_, fun index m member whole => ?_⟩
      · rintro other (_ | ⟨_, inside⟩) m mem
        · obtain ⟨index, found⟩ := List.mem_iff_getElem?.mp mem
          exact (chain index m found).1
        · exact lengths other inside m mem
      · rcases Nat.lt_or_ge index call.2.length with inFirst | later
        · rw [List.getElem?_append_left inFirst] at member
          exact (chain index m member).2 whole
        · rw [List.getElem?_append_right later] at member
          refine grants _ m member ?_
          rwa [Nat.add_assoc, Nat.add_sub_cancel' later]
    · rintro ⟨lengths, grants⟩
      refine ⟨fun index m member => ⟨?_, fun whole => ?_⟩, ?_, fun index m member whole => ?_⟩
      · exact lengths call List.mem_cons_self m (List.mem_of_getElem? member)
      · refine grants index m ?_ whole
        rw [List.getElem?_append_left (List.getElem?_eq_some_iff.mp member).1]
        exact member
      · exact fun other inside => lengths other (List.mem_cons_of_mem call inside)
      · refine grants (call.2.length + index) m ?_ (by rwa [← Nat.add_assoc])
        rw [List.getElem?_append_right (Nat.le_add_right _ _), Nat.add_sub_cancel_left]
        exact member

end Calls

theorem fresh_quiet (mode : BitVec 32) (limit : BitVec 64) (copyif : Bool)
    (serialno : BitVec 64) : (fresh mode limit copyif serialno).Quiet 0 :=
  ⟨rfl, by rintro pd ⟨⟩, .inl ⟨rfl, rfl⟩⟩

end InpCopy

/-- The state after any part of any chain is one of those on the left. The total is right exactly
if nothing is copied, or if every packet is empty and gets its place: a list node is taken for
every sixteenth one. -/
theorem inCopy_accurate_iff (mode : BitVec 32) (limit : BitVec 64) (copyif : Bool)
    (serialno : BitVec 64) (calls : List (PdHeap × List CopyMbuf)) :
    (∀ before heap mbufs more after, calls = before ++ (heap, mbufs ++ more) :: after →
      (((InpCopy.fresh mode limit copyif serialno).inCopyCalls before).inCopy heap
        mbufs).2.Accurate) ↔
    mode &&& ipCopyModeRx = 0 ∨
      ((∀ call ∈ calls, ∀ m ∈ call.2, (call.1.ctx m.ctx).mOrigLen = 0) ∧
        ∀ index m, (calls.flatMap (·.2))[index]? = some m → index % pdXlistMaxDescs = 0 →
          m.allocated = true) := by
  have quiet := InpCopy.fresh_quiet mode limit copyif serialno
  by_cases off : mode &&& ipCopyModeRx = 0
  · refine ⟨fun _ => .inl off, fun _ before heap mbufs more after _ => ?_⟩
    have unset : (InpCopy.fresh mode limit copyif serialno).copyMode &&& ipCopyModeRx = 0 := off
    rw [InpCopy.inCopyCalls_off unset, InpCopy.inCopy, if_neg (not_not.mpr unset)]
    exact quiet.accurate
  · rw [quiet.accurate_iff off, InpCopy.harmlessCalls_iff]
    simp only [Nat.zero_add, off, false_or]

def sixtyBytes : PdHeap :=
  ⟨fun index => { uinetPdMbufZinitPdCtx 0 index 4096 with mOrigLen := 60 }, fun _ => 1, [], [], [],
    0⟩

def sixtyMbuf : CopyMbuf :=
  ⟨clusterExt 7 4096, 7, rfl, true⟩

theorem inCopy_past_limit :
    ∃ inp, (InpCopy.fresh (ipCopyModeRx ||| ipCopyModeOn) 100 true 1).inCopyCalls
        (List.replicate 3 (sixtyBytes, [sixtyMbuf])) = inp ∧
      inp.copyTotal = 0 ∧ pdBytes inp.queued = 180 ∧ ¬inp.Accurate := by
  refine ⟨_, rfl, rfl, rfl, fun accurate => ?_⟩
  have wrong : 0 = 180 := accurate.total
  cases wrong

end Libunsod.Netinet
