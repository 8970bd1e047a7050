import Libunsod.Netinet.TcpReassHoles

/-!
Where the entries of the reassembly zone are. The ledger of a connection is the
list of its zone calls; the entries obtained and not yet freed are compared with
the ones linked in `t_segq` through every call.
-/

namespace Libunsod.Netinet

open Runs (Run)

variable {queue rest : List TsegQent} {tp final : Tcpcb} {held : List Entry} {q : TsegQent}
  {state : Presenting} {replace : Bool} {te : Entry} {env : ReassEnv} {seg trimmed : Segment}
  {ticks : Nat} {lead : Bool} {flags : BitVec 8}

def outstanding : List ZoneOp → List Entry
  | [] => []
  | .zalloc entry :: earlier => entry :: outstanding earlier
  | .zfree entry :: earlier => (outstanding earlier).erase entry

def FreedOnce : List ZoneOp → Prop
  | [] => True
  | .zalloc _ :: earlier => FreedOnce earlier
  | .zfree entry :: earlier => entry ∈ outstanding earlier ∧ FreedOnce earlier

def zoneAddrs (queue : List TsegQent) : List Entry :=
  (addrs queue).filter (· ≠ .tqs)

theorem zoneAddrs_cons (q : TsegQent) (rest : List TsegQent) :
    zoneAddrs (q :: rest) = if q.addr = .tqs then zoneAddrs rest else q.addr :: zoneAddrs rest := by
  by_cases stack : q.addr = .tqs <;> simp [zoneAddrs, stack]

@[simp] theorem zoneAddrs_append (first second : List TsegQent) :
    zoneAddrs (first ++ second) = zoneAddrs first ++ zoneAddrs second := by
  simp [zoneAddrs]

theorem zoneAddrs_of_unstacked (zoned : .tqs ∉ addrs queue) : zoneAddrs queue = addrs queue := by
  simp only [zoneAddrs, List.filter_eq_self, decide_eq_true_eq]
  rintro entry member rfl
  exact zoned member

structure Accounted (tp : Tcpcb) (held : List Entry) : Prop where
  counted : tp.tSegqlen = tp.tSegq.length
  distinct : (addrs tp.tSegq).Nodup
  once : FreedOnce tp.zone
  unique : (outstanding tp.zone).Nodup
  balance : (outstanding tp.zone).Perm (held ++ zoneAddrs tp.tSegq)

theorem Accounted.unlink (accounted : Accounted tp held) (queue : tp.tSegq = q :: rest) :
    Accounted { tp with tSegq := rest, tSegqlen := tp.tSegqlen - 1 }
      (if q.addr = .tqs then held else q.addr :: held) := by
  have counted := accounted.counted
  have distinct := accounted.distinct
  have balance := accounted.balance
  rw [queue] at counted distinct balance
  rw [zoneAddrs_cons] at balance
  refine { accounted with
    counted := by simp only [counted, List.length_cons]; omega
    distinct := (List.nodup_cons.mp distinct).2
    balance := ?_ }
  split
  next stack => rwa [if_pos stack] at balance
  next zoned =>
    rw [if_neg zoned] at balance
    exact balance.trans List.perm_middle

theorem Accounted.free {entry : Entry} (accounted : Accounted tp (entry :: held)) :
    Accounted { tp with zone := .zfree entry :: tp.zone } held where
  counted := accounted.counted
  distinct := accounted.distinct
  once := ⟨accounted.balance.mem_iff.mpr List.mem_cons_self, accounted.once⟩
  unique := accounted.unique.erase entry
  balance := by simpa [outstanding] using accounted.balance.erase entry

theorem Accounted.unlink_free (accounted : Accounted tp held) (zoned : q.addr ≠ .tqs)
    (queue : tp.tSegq = q :: rest) :
    Accounted { tp with
      tSegq := rest, tSegqlen := tp.tSegqlen - 1, zone := .zfree q.addr :: tp.zone } held := by
  have unlinked := accounted.unlink queue
  rw [if_neg zoned] at unlinked
  exact { unlinked.free with }

def PresentAccounted (held : List Entry) (state : Presenting) (queue : List TsegQent) : Prop :=
  state.tp.tSegq = queue ∧ Accounted state.tp (state.reclaimedTqe.toList ++ held)

theorem PresentOne.accounted {next : Presenting} (one : PresentOne state q rest next)
    (initial : PresentAccounted held state (q :: rest)) : PresentAccounted held next rest := by
  obtain ⟨queue, accounted⟩ := initial
  have unlinked := accounted.unlink queue
  cases one with
  | stack own =>
    rw [if_pos own] at unlinked
    exact ⟨rfl, { unlinked with }⟩
  | reclaim zoned _ nothing =>
    rw [if_neg zoned, nothing] at unlinked
    exact ⟨rfl, { unlinked with }⟩
  | free zoned => exact ⟨rfl, { accounted.unlink_free zoned queue with }⟩

def Tracks (replace : Bool) (reclaimed : Option Entry) (state : Presenting)
    (queue : List TsegQent) : Prop :=
  state.replaceTqsInList = (replace && decide (.tqs ∈ addrs queue)) ∧
    state.reclaimedTqe = reclaimed

theorem PresentOne.tracks {reclaimed : Option Entry} {next : Presenting}
    (one : PresentOne state q rest next) (found : replace = true → reclaimed ≠ none)
    (distinct : (addrs (q :: rest)).Nodup) (tracks : Tracks replace reclaimed state (q :: rest)) :
    Tracks replace reclaimed next rest := by
  obtain ⟨replacing, kept⟩ := tracks
  have missing := (List.nodup_cons.mp distinct).1
  have same (zoned : q.addr ≠ .tqs) :
      decide (Entry.tqs ∈ addrs (q :: rest)) = decide (Entry.tqs ∈ addrs rest) := by
    simp [Ne.symm zoned]
  cases one with
  | stack own =>
    rw [own] at missing
    have gone : decide (Entry.tqs ∈ addrs rest) = false := decide_eq_false missing
    exact ⟨by simp only [gone, Bool.and_false], kept⟩
  | reclaim zoned replaces nothing =>
    rw [replaces, eq_comm, Bool.and_eq_true] at replacing
    exact absurd (kept.symm.trans nothing) (found replacing.1)
  | free zoned =>
    rw [same zoned] at replacing
    exact ⟨replacing, kept⟩

theorem presentLoop_accounted (accounted : Accounted tp held) (queue : tp.tSegq = q :: rest)
    (replacing : replace = true → q.addr ≠ .tqs ∧ .tqs ∈ addrs rest) :
    PresentAccounted held (presentLoop ⟨tp, replace, none⟩ q rest).1
        (afterRun (tp.rcvNxt + BitVec.ofNat 32 q.tqeLen) rest) ∧
      Tracks replace (if replace then some q.addr else none)
        (presentLoop ⟨tp, replace, none⟩ q rest).1
        (afterRun (tp.rcvNxt + BitVec.ofNat 32 q.tqeLen) rest) := by
  refine presentLoop_invariant (fun state queue => PresentAccounted held state queue ∧
    Tracks replace (if replace then some q.addr else none) state queue) ?_ rest _ q ?_
  · rintro state first others next one ⟨balanced, tracks⟩
    have distinct := balanced.2.distinct
    rw [balanced.1] at distinct
    exact ⟨one.accounted balanced, one.tracks (by intro same; simp [same]) distinct tracks⟩
  · intro next one
    refine ⟨one.accounted ⟨queue, accounted⟩, ?_⟩
    cases replace with
    | false =>
      cases one with
      | stack | free => exact ⟨rfl, rfl⟩
      | reclaim _ replaces => cases replaces
    | true =>
      obtain ⟨zoned, inside⟩ := replacing rfl
      cases one with
      | stack own => exact absurd own zoned
      | reclaim => simp [Tracks, inside]
      | free _ keeps => exact absurd ⟨rfl, rfl⟩ keeps

theorem split_at_tqs (distinct : (addrs queue).Nodup) (member : .tqs ∈ addrs queue) :
    ∃ before after, addrs queue = before ++ .tqs :: after ∧ .tqs ∉ before ∧ .tqs ∉ after := by
  obtain ⟨before, after, split⟩ := List.append_of_mem member
  rw [split, List.nodup_append, List.nodup_cons] at distinct
  refine ⟨before, after, split, ?_, distinct.2.1.1⟩
  exact fun inside => distinct.2.2 _ inside _ List.mem_cons_self rfl

theorem replaced_addrs (queue : List TsegQent) (reclaimed : Entry) :
    addrs (queue.map fun q => if q.addr = .tqs then { q with addr := reclaimed } else q) =
      (addrs queue).map fun entry => if entry = .tqs then reclaimed else entry := by
  simp only [addrs, List.map_map]
  apply List.map_congr_left
  intro q _
  simp only [Function.comp]
  split <;> rfl

theorem map_replaced {before after : List Entry} (reclaimed : Entry) (early : .tqs ∉ before)
    (late : .tqs ∉ after) :
    ((before ++ .tqs :: after).map fun entry => if entry = .tqs then reclaimed else entry) =
      before ++ reclaimed :: after := by
  have same (entries : List Entry) (missing : .tqs ∉ entries) :
      (entries.map fun entry => if entry = .tqs then reclaimed else entry) = entries := by
    nth_rewrite 2 [← List.map_id entries]
    apply List.map_congr_left
    intro entry member
    have different : entry ≠ .tqs := by
      rintro rfl
      exact missing member
    simp [different]
  rw [List.map_append, List.map_cons, same before early, same after late, if_pos rfl]

theorem replaceTqs_accounted {replaced : Tcpcb} {reclaimed : Entry}
    (accounted : Accounted state.tp (reclaimed :: held)) (zoned : reclaimed ≠ .tqs)
    (member : .tqs ∈ addrs state.tp.tSegq) (replacing : state.replaceTqsInList = true)
    (kept : state.reclaimedTqe = some reclaimed) (result : replaceTqs state = some replaced) :
    Accounted replaced held ∧ .tqs ∉ addrs replaced.tSegq := by
  simp only [replaceTqs, replacing, ↓reduceIte, kept, Option.some.injEq] at result
  subst result
  obtain ⟨before, after, split, early, late⟩ :=
    split_at_tqs accounted.distinct member
  have linked := replaced_addrs state.tp.tSegq reclaimed
  rw [split, map_replaced reclaimed early late] at linked
  have zones : zoneAddrs state.tp.tSegq = before ++ after := by
    rw [zoneAddrs, split, List.filter_append, List.filter_cons]
    simp only [ne_eq, not_true_eq_false, decide_false, Bool.false_eq_true, ↓reduceIte]
    congr 1
    · rw [List.filter_eq_self]
      exact fun entry inside => decide_eq_true (fun same => early (same ▸ inside))
    · rw [List.filter_eq_self]
      exact fun entry inside => decide_eq_true (fun same => late (same ▸ inside))
  have balance := accounted.balance
  rw [zones] at balance
  have nodup : (reclaimed :: (held ++ (before ++ after))).Nodup :=
    balance.nodup_iff.mp accounted.unique
  have missing := (List.nodup_cons.mp nodup).1
  simp only [List.mem_append, not_or] at missing
  have distinct := accounted.distinct
  rw [split] at distinct
  have unstacked : Entry.tqs ∉ before ++ reclaimed :: after := by
    simp [early, late, zoned.symm]
  refine ⟨⟨?_, ?_, accounted.once, accounted.unique, ?_⟩, linked ▸ unstacked⟩
  · simp only [List.length_map]
    exact accounted.counted
  · rw [linked]
    rw [List.nodup_append, List.nodup_cons] at distinct ⊢
    obtain ⟨front, ⟨_, back⟩, apart⟩ := distinct
    refine ⟨front, ⟨missing.2.2, back⟩, ?_⟩
    intro entry inside other found
    rcases List.mem_cons.mp found with rfl | later
    · exact fun same => missing.2.1 (same ▸ inside)
    · exact apart entry inside other (List.mem_cons_of_mem _ later)
  · have whole := zoneAddrs_of_unstacked (linked ▸ unstacked)
    rw [whole, linked]
    refine balance.trans (List.perm_iff_count.mpr fun entry => ?_)
    simp only [List.cons_append, List.count_cons, List.count_append]
    omega

def Unstacked (tp : Tcpcb) : Prop :=
  .tqs ∉ addrs tp.tSegq

def FreshEntry (tp : Tcpcb) (te : Entry) : Prop :=
  te ∉ outstanding tp.zone

instance (tp : Tcpcb) (te : Entry) : Decidable (FreshEntry tp te) :=
  inferInstanceAs (Decidable (te ∉ outstanding tp.zone))

theorem Accounted.fresh_not_linked (accounted : Accounted tp held) (zoned : Unstacked tp)
    (fresh : FreshEntry tp te) : te ∉ addrs tp.tSegq := by
  intro member
  rw [← zoneAddrs_of_unstacked zoned] at member
  exact fresh (accounted.balance.mem_iff.mpr (List.mem_append_right held member))

theorem passed_accounted (te : Entry) (accounted : Accounted tp held) :
    Accounted (tp.passed te) held := by
  by_cases stack : te = .tqs
  · simpa [Tcpcb.passed, stack] using accounted
  · simp only [Tcpcb.passed, stack, ↓reduceIte]
    refine { accounted with once := ⟨List.mem_cons_self, accounted.once⟩, unique := ?_, balance := ?_ }
    · simpa [outstanding] using accounted.unique
    · simpa [outstanding] using accounted.balance

theorem freed_ledger (covered : List TsegQent) (others : List Entry) (zone : List ZoneOp)
    (once : FreedOnce zone) (unique : (outstanding zone).Nodup)
    (balance : (outstanding zone).Perm (addrs covered ++ others)) :
    FreedOnce ((covered.map fun q => .zfree q.addr).reverse ++ zone) ∧
      (outstanding ((covered.map fun q => .zfree q.addr).reverse ++ zone)).Nodup ∧
      (outstanding ((covered.map fun q => .zfree q.addr).reverse ++ zone)).Perm others := by
  induction covered generalizing zone with
  | nil => exact ⟨once, unique, balance⟩
  | cons q rest ih =>
    have member : q.addr ∈ outstanding zone :=
      balance.mem_iff.mpr (List.mem_append_left _ List.mem_cons_self)
    have left := balance.erase q.addr
    rw [addrs_cons, List.cons_append, List.erase_cons_head] at left
    simp only [List.map_cons, List.reverse_cons, List.append_assoc, List.singleton_append]
    exact ih (.zfree q.addr :: zone) ⟨member, once⟩ (unique.erase q.addr) left

theorem segq_addrs (tp : Tcpcb) (seg trimmed : Segment) :
    addrs tp.tSegq = addrs (entriesUpTo tp seg) ++
      (addrs (trimFollowing (segmentEnd trimmed) (entriesAfter tp seg)).1 ++
        addrs (trimFollowing (segmentEnd trimmed) (entriesAfter tp seg)).2) := by
  rw [trimFollowing_addrs, ← addrs_append, ← entries_split]

theorem linked_accounted (ticks : Nat) (seg trimmed : Segment) (accounted : Accounted tp held)
    (zoned : Unstacked tp) (notLinked : te ∉ addrs tp.tSegq)
    (fresh : te ≠ .tqs → FreshEntry tp te) : Accounted (tp.linked ticks seg trimmed te) held := by
  have parts := segq_addrs tp seg trimmed
  have balance := accounted.balance
  have distinct := accounted.distinct
  have lengths := congrArg List.length parts
  rw [zoneAddrs_of_unstacked zoned] at balance
  simp only [Unstacked] at zoned
  rw [parts] at balance distinct notLinked zoned
  simp only [List.mem_append, not_or] at notLinked zoned
  obtain ⟨once, nodup, perm⟩ := freed_ledger
    (trimFollowing (segmentEnd trimmed) (entriesAfter tp seg)).1
    ((if te = .tqs then [] else [te]) ++ held ++ (addrs (entriesUpTo tp seg) ++
      addrs (trimFollowing (segmentEnd trimmed) (entriesAfter tp seg)).2))
    (if te = .tqs then tp.zone else .zalloc te :: tp.zone)
    (by split <;> exact accounted.once)
    (by
      split
      · exact accounted.unique
      next zoned => exact List.nodup_cons.mpr ⟨fresh zoned, accounted.unique⟩)
    (by
      refine List.perm_iff_count.mpr fun entry => ?_
      have count := balance.count_eq entry
      simp only [List.count_append] at count ⊢
      split
      · simp only [List.count_nil]
        omega
      · simp only [outstanding, List.count_cons, List.count_nil]
        omega)
  refine ⟨?_, ?_, once, nodup, ?_⟩
  · simp only [Tcpcb.linked, accounted.counted, List.length_append, List.length_cons]
    simp only [addrs, List.length_map, List.length_append] at lengths
    omega
  · simp only [Tcpcb.linked, addrs_append, addrs_cons]
    rw [List.nodup_append] at distinct ⊢
    obtain ⟨front, back, apart⟩ := distinct
    refine ⟨front, List.nodup_cons.mpr ⟨notLinked.2.2, (List.nodup_append.mp back).2.1⟩, ?_⟩
    intro entry member other inside
    rcases List.mem_cons.mp inside with rfl | later
    · exact fun same => notLinked.1 (same ▸ member)
    · exact apart entry member other (List.mem_append_right _ later)
  · simp only [Tcpcb.linked, zoneAddrs_append, zoneAddrs_cons, zoneAddrs_of_unstacked zoned.1,
      zoneAddrs_of_unstacked zoned.2.2]
    refine perm.trans (List.perm_iff_count.mpr fun entry => ?_)
    split
    · simp only [List.count_append, List.count_nil]
      omega
    · simp only [List.count_append, List.count_cons, List.count_nil]
      omega

theorem presents_accounted {replaced : Tcpcb} (accounted : Accounted tp held)
    (queue : tp.tSegq = q :: rest) (replacing : replace = true → q.addr ≠ .tqs ∧ .tqs ∈ addrs rest)
    (found : replaceTqs (presentLoop ⟨tp.led q lead, replace, none⟩ q rest).1 = some replaced) :
    replace = true ∧ .tqs ∈ addrs (afterRun (entryEnd q) rest) ∧ Accounted replaced held ∧
        .tqs ∉ addrs replaced.tSegq ∨
      (replace = false ∨ .tqs ∉ addrs (afterRun (entryEnd q) rest)) ∧
        Accounted replaced ((if replace then [q.addr] else []) ++ held) ∧
        replaced.tSegq = afterRun (entryEnd q) rest := by
  have led : Accounted (tp.led q lead) held := { accounted with }
  obtain ⟨⟨listed, balanced⟩, tracked, reclaimed⟩ := presentLoop_accounted led queue replacing
  have next : (tp.led q lead).rcvNxt + BitVec.ofNat 32 q.tqeLen = entryEnd q := rfl
  rw [next] at listed tracked
  rw [reclaimed] at balanced
  cases replace with
  | false =>
    right
    simp only [replaceTqs, tracked, Bool.false_and, Bool.false_eq_true, ↓reduceIte,
      Option.some.injEq] at found
    subst found
    exact ⟨.inl rfl, balanced, listed⟩
  | true =>
    by_cases waiting : .tqs ∈ addrs (afterRun (entryEnd q) rest)
    · left
      rw [Bool.true_and, decide_eq_true waiting] at tracked
      exact ⟨rfl, waiting, replaceTqs_accounted balanced (replacing rfl).1 (listed ▸ waiting) tracked
        reclaimed found⟩
    · right
      rw [Bool.true_and, decide_eq_false waiting] at tracked
      simp only [replaceTqs, tracked, Bool.false_eq_true, ↓reduceIte, Option.some.injEq] at found
      subst found
      exact ⟨.inr waiting, balanced, listed⟩

def StackEntryUsed (tp : Tcpcb) (env : ReassEnv) (seg : Segment) : Prop :=
  env.zalloc = none ∧ (tp.passive = true ∨ notNext tp seg = false)

def QueueAtEdge (tp : Tcpcb) (seg : Segment) : Prop :=
  ∀ q, (entriesUpTo tp seg).head? = some q → q.tqeSeq = tp.rcvNxt

def StackEntryResolved (tp : Tcpcb) (seg : Segment) : Prop :=
  tcpsHaveEstablished tp.tState = true ∧
    (entriesUpTo tp seg = [] ∨
      tp.passive = true ∧ (seg.thSeq ≠ tp.rcvNxt ∨ QueueAtEdge tp seg) ∨
      tp.passive = false ∧ QueueAtEdge tp seg ∧ RunsInto tp seg)

theorem chooseEntry_tqs {lead : Bool} (chosen : chooseEntry tp env seg = some (.tqs, lead)) :
    StackEntryUsed tp env seg ∧ lead = notNext tp seg := by
  simp only [chooseEntry] at chosen
  split at chosen
  · simp at chosen
  next below =>
    cases alloc : env.zalloc with
    | some index => simp [alloc] at chosen
    | none =>
      simp only [alloc] at chosen
      split at chosen
      · simp at chosen
      next kept =>
        simp only [Option.some.injEq, Prod.mk.injEq, true_and] at chosen
        refine ⟨⟨alloc, ?_⟩, ?_⟩
        · cases passive : tp.passive with
          | true => exact .inl rfl
          | false => exact .inr (by simpa [passive] using kept)
        · rw [← chosen, queueLimitReached]
          cases notNext tp seg <;> simp

theorem chooseEntry_zone {index : Nat} {lead : Bool}
    (chosen : chooseEntry tp env seg = some (.zone index, lead)) : env.zalloc = some index := by
  simp only [chooseEntry] at chosen
  split at chosen
  · simp at chosen
  · cases alloc : env.zalloc with
    | some other =>
      simp only [alloc, Option.some.injEq, Prod.mk.injEq, Entry.zone.injEq] at chosen
      rw [chosen.1]
    | none =>
      simp only [alloc] at chosen
      split at chosen <;> simp at chosen

theorem Accounted.chosen_fresh {lead : Bool} (accounted : Accounted tp held)
    (unstacked : Unstacked tp)
    (fresh : ∀ index, env.zalloc = some index → FreshEntry tp (.zone index))
    (chosen : chooseEntry tp env seg = some (te, lead)) :
    te ∉ addrs tp.tSegq ∧ (te ≠ .tqs → FreshEntry tp te) := by
  cases te with
  | tqs => exact ⟨unstacked, fun different => absurd rfl different⟩
  | zone index =>
    have new := fresh index (chooseEntry_zone chosen)
    exact ⟨accounted.fresh_not_linked unstacked new, fun _ => new⟩

theorem afterRun_unstacked (next : Seq) (unstacked : .tqs ∉ addrs queue) :
    .tqs ∉ addrs (afterRun next queue) := by
  obtain ⟨taken, split⟩ := afterRun_suffix next queue
  rw [split, addrs_append, List.mem_append, not_or] at unstacked
  exact unstacked.2

theorem present_plain (accounted : Accounted tp held) (unstacked : Unstacked tp)
    (result : present tp ticks lead false = some (final, flags)) :
    Accounted final held ∧ Unstacked final := by
  cases present_cases result with
  | quiet => exact ⟨{ accounted with }, unstacked⟩
  | presents q rest replaced _ queue _ found =>
    rcases presents_accounted accounted queue (by rintro ⟨⟩) found with
      ⟨replace, _⟩ | ⟨_, kept, listed⟩
    · cases replace
    · refine ⟨{ kept with }, ?_⟩
      simp only [Unstacked, listed]
      apply afterRun_unstacked
      simp only [Unstacked, queue, addrs_cons, List.mem_cons, not_or] at unstacked
      exact unstacked.2

theorem segq_unstacked (seg trimmed : Segment) (unstacked : Unstacked tp) :
    .tqs ∉ addrs (entriesUpTo tp seg) ∧
      .tqs ∉ addrs (trimFollowing (segmentEnd trimmed) (entriesAfter tp seg)).2 := by
  rw [Unstacked, segq_addrs tp seg trimmed] at unstacked
  simp only [List.mem_append, not_or] at unstacked
  exact ⟨unstacked.1, unstacked.2.2⟩

theorem present_advances (accounted : Accounted tp held)
    (established : tcpsHaveEstablished tp.tState = true) (queue : tp.tSegq = q :: rest)
    (edge : lead = false → q.tqeSeq = tp.rcvNxt)
    (replacing : replace = true → q.addr ≠ .tqs ∧ .tqs ∈ addrs rest)
    (result : present tp ticks lead replace = some (final, flags)) :
    replace = true ∧ .tqs ∈ addrs (afterRun (entryEnd q) rest) ∧ Accounted final held ∧
        .tqs ∉ addrs final.tSegq ∨
      (replace = false ∨ .tqs ∉ addrs (afterRun (entryEnd q) rest)) ∧
        Accounted final ((if replace then [q.addr] else []) ++ held) ∧
        final.tSegq = afterRun (entryEnd q) rest := by
  cases present_cases result with
  | quiet _ waits =>
    obtain ⟨quiet, apart⟩ := waits established q rest queue
    exact absurd (edge quiet) apart
  | presents first others replaced _ listed _ found =>
    rw [queue] at listed
    cases listed
    rcases presents_accounted accounted queue replacing found with
      ⟨set, waiting, kept, clean⟩ | ⟨gone, kept, left⟩
    · exact .inl ⟨set, waiting, { kept with }, clean⟩
    · exact .inr ⟨gone, { kept with }, left⟩

theorem present_stacked (accounted : Accounted tp held) (unstacked : Unstacked tp)
    (waiting : lead = notNext tp seg)
    (left : trimSegment (entriesUpTo tp seg).getLast? seg = some trimmed)
    (resolved : StackEntryResolved tp seg)
    (result : present (tp.linked ticks seg trimmed .tqs) ticks lead
      (!(entriesUpTo tp seg).isEmpty && tp.passive && decide (Entry.tqs = .tqs)) =
        some (final, flags)) :
    ∃ leaked, Accounted final (leaked ++ held) ∧ Unstacked final ∧
      (leaked ≠ [] → tp.passive = true ∧ RunsInto tp seg) := by
  have linked := linked_accounted ticks seg trimmed accounted unstacked unstacked
    (fun different => absurd rfl different)
  obtain ⟨frontClean, keptClean⟩ := segq_unstacked seg trimmed unstacked
  obtain ⟨established, shape⟩ := resolved
  have queue : (tp.linked ticks seg trimmed .tqs).tSegq = entriesUpTo tp seg ++
      ⟨.tqs, trimmed.thSeq, trimmed.tlen, trimmed.thFlags, trimmed.m⟩ ::
        (trimFollowing (segmentEnd trimmed) (entriesAfter tp seg)).2 := rfl
  generalize trimFollowing (segmentEnd trimmed) (entriesAfter tp seg) = following at queue keptClean
  have atEdge (quiet : lead = false) : seg.thSeq = tp.rcvNxt := by
    rw [waiting, notNext, established] at quiet
    simpa using quiet
  cases front : entriesUpTo tp seg with
  | nil =>
    rw [front] at result queue left
    simp only [List.getLast?_nil, trimSegment, Option.some.injEq] at left
    have edge (quiet : lead = false) : trimmed.thSeq = tp.rcvNxt := left ▸ atEdge quiet
    rcases present_advances linked established queue edge (by rintro ⟨⟩) result with
      ⟨replace, _⟩ | ⟨_, kept, remaining⟩
    · cases replace
    · refine ⟨[], kept, ?_, by simp⟩
      simp only [Unstacked, remaining]
      exact afterRun_unstacked _ keptClean
  | cons first others =>
    have edge (quiet : lead = false) : first.tqeSeq = tp.rcvNxt := by
      have reaches : QueueAtEdge tp seg := by
        rcases shape with none | ⟨_, away | edge⟩ | ⟨_, edge, _⟩
        · simp [front] at none
        · exact absurd (atEdge quiet) away
        · exact edge
        · exact edge
      exact reaches first (by simp [front])
    have runs := afterRun_linked
      ⟨.tqs, trimmed.thSeq, trimmed.tlen, trimmed.thFlags, trimmed.m⟩ following.2 front left rfl
    rw [front] at result queue frontClean
    simp only [List.isEmpty_cons, Bool.not_false, Bool.true_and, decide_true, Bool.and_true]
      at result
    rw [List.cons_append] at queue
    simp only [addrs_cons, List.mem_cons, not_or] at frontClean
    have outcome := present_advances linked established queue edge
      (fun _ => ⟨Ne.symm frontClean.1, by simp⟩) result
    rcases runs with ⟨into, remaining⟩ | ⟨apart, waiting, _, remaining⟩
    · rw [remaining] at outcome
      have gone := afterRun_unstacked (entryEnd
        ⟨.tqs, trimmed.thSeq, trimmed.tlen, trimmed.thFlags, trimmed.m⟩) keptClean
      rcases outcome with ⟨_, inside, _⟩ | ⟨_, kept, final⟩
      · exact absurd inside gone
      · refine ⟨if tp.passive then [first.addr] else [], kept, ?_, fun some => ⟨?_, into⟩⟩
        · simp only [Unstacked, final]
          exact gone
        · by_contra active
          simp [active] at some
    · rw [remaining] at outcome
      have observes : tp.passive = true := by
        rcases shape with none | ⟨passive, _⟩ | ⟨_, _, into⟩
        · simp [front] at none
        · exact passive
        · exact absurd into apart
      rcases outcome with ⟨_, _, kept, clean⟩ | ⟨active | gone, _⟩
      · exact ⟨[], kept, clean, by simp⟩
      · rw [observes] at active
        cases active
      · simp at gone

theorem segment_accounted (accounted : Accounted tp held) (unstacked : Unstacked tp)
    (fresh : ∀ index, env.zalloc = some index → FreshEntry tp (.zone index))
    (resolved : StackEntryUsed tp env seg → ¬Duplicate tp seg → StackEntryResolved tp seg)
    (result : SegmentCase tp seg env final flags) :
    ∃ leaked, Accounted final (leaked ++ held) ∧ Unstacked final ∧
      (leaked ≠ [] → StackEntryUsed tp env seg ∧ ¬Duplicate tp seg ∧ tp.passive = true ∧
        RunsInto tp seg) := by
  cases result with
  | refused => exact ⟨[], accounted, unstacked, by simp⟩
  | duplicate te lead _ _ presented =>
    obtain ⟨kept, clean⟩ := present_plain (passed_accounted te accounted) unstacked presented
    exact ⟨[], kept, clean, by simp⟩
  | linked te lead trimmed chosen left presented =>
    have single : ¬Duplicate tp seg := by
      simp [Duplicate, left]
    obtain ⟨notLinked, new⟩ := accounted.chosen_fresh unstacked fresh chosen
    cases te with
    | tqs =>
      obtain ⟨used, waiting⟩ := chooseEntry_tqs chosen
      obtain ⟨leaked, kept, clean, leaks⟩ := present_stacked accounted unstacked waiting left
        (resolved used single) presented
      exact ⟨leaked, kept, clean, fun some => ⟨used, single, leaks some⟩⟩
    | zone index =>
      have linked := linked_accounted env.ticks seg trimmed accounted unstacked notLinked new
      have clean : Unstacked (tp.linked env.ticks seg trimmed (.zone index)) := by
        simp only [Unstacked, Tcpcb.linked, addrs_append, addrs_cons, List.mem_append, List.mem_cons,
          reduceCtorEq, false_or, not_or]
        exact segq_unstacked seg trimmed unstacked
      simp only [reduceCtorEq, decide_false, Bool.and_false] at presented
      obtain ⟨kept, cleanAfter⟩ := present_plain linked clean presented
      exact ⟨[], kept, cleanAfter, by simp⟩

theorem tcpReassFlush_accounted (accounted : Accounted tp held) (unstacked : Unstacked tp) :
    Accounted (tcpReassFlush tp) held ∧ (tcpReassFlush tp).tSegq = [] := by
  obtain ⟨listed, kept, _⟩ := tcpReassFlushLoop_invariant
    (fun tp queue => tp.tSegq = queue ∧ Accounted tp held ∧ Unstacked tp) (by
      rintro tp q rest ⟨queue, balanced, clean⟩
      simp only [Unstacked, queue, addrs_cons, List.mem_cons, not_or] at clean
      exact ⟨rfl, { balanced.unlink_free (Ne.symm clean.1) queue with }, clean.2⟩)
    tp.tSegq tp ⟨rfl, accounted, unstacked⟩
  exact ⟨kept, listed⟩

def ReassCall.Honest (tp : Tcpcb) : ReassCall → Prop
  | .segment _ env => ∀ index, env.zalloc = some index → FreshEntry tp (.zone index)
  | _ => True

def ReassCall.Resolved (tp : Tcpcb) : ReassCall → Prop
  | .segment seg env => StackEntryUsed tp env seg → ¬Duplicate tp seg → StackEntryResolved tp seg
  | _ => True

def ReassCall.Leaks (tp : Tcpcb) : ReassCall → Prop
  | .segment seg env =>
      StackEntryUsed tp env seg ∧ ¬Duplicate tp seg ∧ tp.passive = true ∧ RunsInto tp seg
  | _ => False

theorem call_accounted (tp final : Tcpcb) (held : List Entry) (call : ReassCall)
    (accounted : Accounted tp held) (unstacked : Unstacked tp) (honest : call.Honest tp)
    (resolved : call.Resolved tp) (result : call.perform tp = some final) :
    ∃ leaked, Accounted final (leaked ++ held) ∧ Unstacked final ∧
      (leaked ≠ [] → call.Leaks tp) := by
  cases call with
  | segment seg env =>
    obtain ⟨reassembled, returned, rfl⟩ := Option.map_eq_some_iff.mp result
    exact segment_accounted accounted unstacked honest resolved (tcpReass_cases returned)
  | push env =>
    obtain ⟨reassembled, returned, rfl⟩ := Option.map_eq_some_iff.mp result
    obtain ⟨kept, clean⟩ := present_plain accounted unstacked (tcpReass_push returned)
    exact ⟨[], kept, clean, by simp⟩
  | deliverHoles ticks =>
    obtain ⟨_, _, kept, clean⟩ := tcpReassDeliverHoles_invariant
      (fun tp queue => tp.tSegq = queue ∧ Accounted tp held ∧ Unstacked tp)
      (by
        rintro tp q rest ⟨queue, balanced, clean⟩
        simp only [Unstacked, queue, addrs_cons, List.mem_cons, not_or] at clean
        exact ⟨rfl, { balanced.unlink_free (Ne.symm clean.1) queue with }, clean.2⟩)
      (fun _ _ _ ⟨queue, balanced, clean⟩ => ⟨queue, { balanced with }, clean⟩)
      ⟨rfl, accounted, unstacked⟩ result
    exact ⟨[], kept, clean, by simp⟩
  | flush =>
    cases result
    obtain ⟨kept, nothing⟩ := tcpReassFlush_accounted accounted unstacked
    exact ⟨[], kept, by simp [Unstacked, nothing], by simp⟩
  | connection tState rcvNxt cantrcvmore =>
    cases result
    exact ⟨[], { accounted with }, unstacked, by simp⟩

structure ZoneExact (tp : Tcpcb) : Prop where
  zoned : ∀ q ∈ tp.tSegq, ∃ index, q.addr = .zone index ∧ .zone index ∈ outstanding tp.zone
  once : FreedOnce tp.zone
  linked : tp.tSegqlen = tp.tSegq.length
  unleaked : tp.tSegqlen = (outstanding tp.zone).length

theorem Accounted.zoneExact (accounted : Accounted tp []) (unstacked : Unstacked tp) :
    ZoneExact tp := by
  have balance := accounted.balance
  rw [List.nil_append, zoneAddrs_of_unstacked unstacked] at balance
  refine ⟨?_, accounted.once, accounted.counted, ?_⟩
  · intro q member
    have linked : q.addr ∈ addrs tp.tSegq := List.mem_map_of_mem member
    cases entry : q.addr with
    | tqs => exact absurd (entry ▸ linked) unstacked
    | zone index => exact ⟨index, rfl, balance.mem_iff.mpr (entry ▸ linked)⟩
  · rw [accounted.counted, balance.length_eq, addrs, List.length_map]

structure NoEntries (tp : Tcpcb) : Prop where
  tSegq : tp.tSegq = []
  tSegqlen : tp.tSegqlen = 0
  zone : tp.zone = []

theorem NoEntries.accounted (none : NoEntries tp) : Accounted tp [] where
  counted := by rw [none.tSegqlen, none.tSegq]; rfl
  distinct := by rw [none.tSegq]; exact List.nodup_nil
  once := by rw [none.zone]; trivial
  unique := by rw [none.zone]; exact List.nodup_nil
  balance := by rw [none.zone, none.tSegq]; exact List.Perm.refl []

theorem NoEntries.unstacked (none : NoEntries tp) : Unstacked tp := by
  simp [Unstacked, none.tSegq]

def ReassMove (tp : Tcpcb) (call : ReassCall) (next : Tcpcb) : Prop :=
  call.Honest tp ∧ call.perform tp = some next

theorem call_exact (final : Tcpcb) (call : ReassCall) (accounted : Accounted tp [])
    (unstacked : Unstacked tp) (honest : call.Honest tp) (resolved : call.Resolved tp)
    (keeps : ¬call.Leaks tp) (result : call.perform tp = some final) :
    Accounted final [] ∧ Unstacked final := by
  obtain ⟨leaked, kept, clean, leaks⟩ := call_accounted tp final [] call accounted unstacked
    honest resolved result
  have nothing : leaked = [] := by
    by_contra some
    exact keeps (leaks some)
  rw [nothing] at kept
  exact ⟨kept, clean⟩

/-- In every run whose calls get rid of the stack entry and keep the entry they
reclaim, the zone and the queue agree after every call. -/
theorem zone_exact_of_resolved (start final : Tcpcb) (calls : List ReassCall)
    (fresh : NoEntries start)
    (run : Run (fun tp call next => ReassMove tp call next ∧ call.Resolved tp ∧ ¬call.Leaks tp)
      start calls final) : ZoneExact final := by
  have reached : Accounted final [] ∧ Unstacked final := by
    refine Run.invariant (fun tp => Accounted tp [] ∧ Unstacked tp) ?_ ?_ run
    · exact ⟨fresh.accounted, fresh.unstacked⟩
    · rintro tp call next ⟨accounted, unstacked⟩ ⟨⟨honest, result⟩, resolved, keeps⟩
      exact call_exact next call accounted unstacked honest resolved keeps result
  exact reached.1.zoneExact reached.2

theorem zone_exact_of_reclaimed :
    ∃ final, Run (fun tp call next => ReassMove tp call next ∧ call.Resolved tp ∧ ¬call.Leaks tp)
        (quietTcpcb .established true 0) [.segment ⟨10, 0, 2, [1, 2]⟩ (roomyEnv 3 (some 0)),
          .segment ⟨20, 0, 1, [3]⟩ (roomyEnv 4 none)] final ∧
      addrs final.tSegq = [.zone 0] ∧ ZoneExact final := by
  refine Run.exists_with (fun _ run => zone_exact_of_resolved _ _ _ ⟨rfl, rfl, rfl⟩ run)
    ⟨_, Run.snoc (Run.snoc Run.nil ⟨⟨?_, rfl⟩, ?_, ?_⟩) ⟨⟨nofun, rfl⟩, ?_, ?_⟩, rfl⟩
  · intro index _
    exact nofun
  · rintro ⟨used, _⟩
    simp [roomyEnv] at used
  · rintro ⟨⟨used, _⟩, _⟩
    simp [roomyEnv] at used
  · intro _ _
    exact ⟨rfl, .inr (.inl ⟨rfl, .inl (by decide)⟩)⟩
  · rintro ⟨_, _, _, first, rest, last, front, final, _, reaches⟩
    cases final
    exact absurd reaches (by decide)

theorem zone_stack_entry_left :
    ∃ final, Run ReassMove (quietTcpcb .synReceived true 0)
        [.segment ⟨5, 0, 1, [7]⟩ (roomyEnv 3 none)] final ∧
      addrs final.tSegq = [.tqs] ∧ ¬ZoneExact final := by
  refine ⟨_, Run.snoc Run.nil ⟨nofun, rfl⟩, rfl, ?_⟩
  intro exact_
  obtain ⟨index, stack, _⟩ := exact_.zoned ⟨.tqs, 5, 1, 0, [7]⟩ List.mem_cons_self
  simp at stack

end Libunsod.Netinet
