import Libunsod.Base.Bursts
import Libunsod.Uinet.PdRing
import Libunsod.Uinet.PdRefCore

/-!
One call of `if_dpdk_process_tx_inject_ring`: the frames the NIC is given and what
is counted. The call starts where the wait ends and the ring is read, and no
injection changes the slots it walks over. The NIC gets the address in `serialno`
of every descriptor, while the code that fills the ring puts the number of a
connection there or leaves the field alone.
-/

namespace Libunsod.Uinet

open Bursts

variable {ring : PdRing} {cur : BitVec 32} {pd : Pd} {took fuel : Nat}

variable {locals : Sending} {count : Nat} {after : Softc}

def InRange (sc : Softc) (locals : Sending) : Prop :=
  locals.localCurInjectTake.toNat < sc.txInjectRing.numDescs.toNat ∧
    locals.pkts.length < maxBurstSize ∧
    locals.pdctxToFree.length < sc.txInjectRing.numDescs.toNat

instance (sc : Softc) (locals : Sending) : Decidable (InRange sc locals) :=
  inferInstanceAs (Decidable (_ ∧ _))

def processLoop (answers : Nat → Nat) : Nat → Softc → Option Softc
  | 0, _ => none
  | fuel + 1, sc =>
      match sc.sender with
      | .sending locals =>
          if locals.localCurInjectTake = locals.curInjectPut then
            some (processFinish sc locals (min (answers sc.sent.length) locals.pkts.length))
          else if InRange sc locals then
            (processVisit sc locals (min (answers sc.sent.length) maxBurstSize)).bind
              (processLoop answers fuel)
          else none
      | _ => none

def ifDpdkProcessTxInjectRing (answers : Nat → Nat) (sc : Softc) (done : Bool) (fuel : Nat) :
    Option Softc :=
  if done then some (fetchRing sc true) else processLoop answers fuel (fetchRing sc false)

def PdRing.distance (ring : PdRing) (cur put : BitVec 32) : Nat :=
  if cur.toNat ≤ put.toNat then put.toNat - cur.toNat
  else put.toNat + ring.numDescs.toNat - cur.toNat

def PdRing.walk (ring : PdRing) : BitVec 32 → Nat → List Pd
  | _, 0 => []
  | cur, count + 1 => ring.descs cur.toNat :: ring.walk (uinetPdRingNext ring cur) count

def PdRing.between (ring : PdRing) : List Pd :=
  ring.walk ring.take (ring.distance ring.take ring.put)

def carriers (pds : List Pd) : List Pd := pds.filter fun pd => !pd.has pdMgmtOnly

def serials (pds : List Pd) : List (BitVec 64) := (carriers pds).map Pd.serialno

theorem distance_zero_iff {put : BitVec 32} (curIn : cur.toNat < ring.numDescs.toNat) :
    ring.distance cur put = 0 ↔ cur = put := by
  rw [← BitVec.toNat_inj]
  unfold PdRing.distance
  split <;> omega

theorem distance_next {put : BitVec 32} (curIn : cur.toNat < ring.numDescs.toNat)
    (putIn : put.toNat < ring.numDescs.toNat) (different : cur ≠ put) :
    ring.distance (uinetPdRingNext ring cur) put + 1 = ring.distance cur put := by
  rw [Ne, ← BitVec.toNat_inj] at different
  unfold PdRing.distance
  rw [ringNext_toNat curIn, RingLog.slotAfter]
  split <;> split <;> split <;> omega

theorem distance_lt {put : BitVec 32} (curIn : cur.toNat < ring.numDescs.toNat)
    (putIn : put.toNat < ring.numDescs.toNat) : ring.distance cur put < ring.numDescs.toNat := by
  unfold PdRing.distance
  split <;> omega

theorem next_inside (curIn : cur.toNat < ring.numDescs.toNat) :
    (uinetPdRingNext ring cur).toNat < ring.numDescs.toNat := by
  rw [ringNext_toNat curIn, RingLog.slotAfter]
  split <;> omega

theorem serials_cons_mgmt (rest : List Pd) (mgmt : pd.has pdMgmtOnly = true) :
    serials (pd :: rest) = serials rest := by
  simp [serials, carriers, mgmt]

theorem serials_cons_frame (rest : List Pd) (frame : pd.has pdMgmtOnly = false) :
    serials (pd :: rest) = pd.serialno :: serials rest := by
  simp [serials, carriers, frame]

structure Walking (sc : Softc) (locals : Sending) (count : Nat) : Prop where
  sender : sc.sender = .sending locals
  cur : locals.localCurInjectTake.toNat < sc.txInjectRing.numDescs.toNat
  put : locals.curInjectPut.toNat < sc.txInjectRing.numDescs.toNat
  steps : sc.txInjectRing.distance locals.localCurInjectTake locals.curInjectPut = count
  pkts : locals.pkts.length < maxBurstSize
  pdctx : locals.pdctxToFree.length + count < sc.txInjectRing.numDescs.toNat

def Softc.counted (sc : Softc) : BitVec 64 := sc.ifOpackets + sc.ifOerrors

structure Finished (answers : Nat → Nat) (sc : Softc) (locals : Sending)
    (bursts : List (List (BitVec 64))) (after : Softc) : Prop where
  sent : after.sent = sc.sent ++ bursts
  counted : after.counted = sc.counted +
    (locals.nCopy + BitVec.ofNat 32 (taken answers sc.sent.length bursts)).zeroExtend 64 +
    (locals.injectDrops + BitVec.ofNat 32 (refused answers sc.sent.length bursts)).zeroExtend 64

theorem refused_word {given : Nat} (le : took ≤ given) (small : given ≤ maxBurstSize) :
    BitVec.ofNat 32 given - BitVec.ofNat 32 took = BitVec.ofNat 32 (given - took) := by
  have bound : took < 2 ^ 32 := by
    unfold maxBurstSize at small
    omega
  exact BitVec.ofNat_sub_ofNat_of_le given took bound le

theorem processFinish_counted (sc : Softc) (locals : Sending) (nSnd : Nat) :
    (processFinish sc locals nSnd).counted = sc.counted +
      (if locals.pkts ≠ [] then (sendBurst sc locals nSnd).2 else locals).nCopy.zeroExtend 64 +
      (if locals.pkts ≠ [] then (sendBurst sc locals nSnd).2
        else locals).injectDrops.zeroExtend 64 := by
  have totals : ∀ (base : Softc) (total : Sending), base.ifOpackets = sc.ifOpackets →
      base.ifOerrors = sc.ifOerrors →
      (if total.nCopy ≠ 0 then base.ifOpackets + total.nCopy.zeroExtend 64 else base.ifOpackets) +
        (base.ifOerrors + total.injectDrops.zeroExtend 64) =
      sc.counted + total.nCopy.zeroExtend 64 + total.injectDrops.zeroExtend 64 := by
    intro base total packets errors
    rw [packets, errors, Softc.counted]
    by_cases none_ : total.nCopy = 0
    · rw [if_neg (not_not.mpr none_), none_]
      simp [BitVec.add_assoc]
    · rw [if_pos none_]
      ac_rfl
  unfold processFinish
  by_cases some_ : locals.pkts ≠ []
  · simp only [if_pos some_]
    rw [← totals (sendBurst sc locals nSnd).1 (sendBurst sc locals nSnd).2 rfl rfl]
    unfold Softc.counted
    split <;> split <;> rfl
  · simp only [if_neg some_]
    rw [← totals sc locals rfl rfl]
    unfold Softc.counted
    split <;> split <;> rfl

theorem processFinish_sent (sc : Softc) (locals : Sending) (nSnd : Nat) :
    (processFinish sc locals nSnd).sent =
      sc.sent ++ split maxBurstSize locals.pkts [] := by
  unfold processFinish Bursts.split
  by_cases none_ : locals.pkts = []
  · simp only [none_, ne_eq, not_true_eq_false, if_false, if_true, List.append_nil]
    split <;> split <;> rfl
  · simp only [none_, ne_eq, not_false_eq_true, if_true, if_false]
    split <;> split <;> rfl

theorem processFinish_finished (answers : Nat → Nat) {sc : Softc}
    (room : locals.pkts.length < maxBurstSize) :
    Finished answers sc locals (split maxBurstSize locals.pkts [])
      (processFinish sc locals (min (answers sc.sent.length) locals.pkts.length)) := by
  refine ⟨processFinish_sent sc locals _, ?_⟩
  rw [processFinish_counted]
  unfold Bursts.split
  by_cases none_ : locals.pkts = []
  · simp [none_, taken, refused]
  · simp only [none_, ne_eq, not_false_eq_true, if_true, if_false, taken, refused, Nat.add_zero,
      sendBurst]
    rw [refused_word (Nat.min_le_right ..) (Nat.le_of_lt room)]

theorem Walking.not_done {sc : Softc} (walking : Walking sc locals (count + 1)) :
    locals.localCurInjectTake ≠ locals.curInjectPut := by
  intro same
  have zero := (distance_zero_iff walking.cur).mpr same
  rw [walking.steps] at zero
  cases zero

theorem Walking.visit (answers : Nat → Nat) {sc : Softc} (walking : Walking sc locals (count + 1))
    (context : (sc.txInjectRing.descs locals.localCurInjectTake.toNat).ctx ≠ none) :
    ∃ next moved, processVisit sc locals (min (answers sc.sent.length) maxBurstSize) = some next ∧
      Walking next moved count ∧ next.txInjectRing = sc.txInjectRing ∧
      moved.localCurInjectTake = uinetPdRingNext sc.txInjectRing locals.localCurInjectTake ∧
      ∀ rest after, Finished answers next moved (split maxBurstSize moved.pkts (serials rest))
          after →
        Finished answers sc locals (split maxBurstSize locals.pkts
          (serials (sc.txInjectRing.descs locals.localCurInjectTake.toNat :: rest))) after := by
  obtain ⟨ctx, found⟩ := Option.ne_none_iff_exists'.mp context
  generalize current : sc.txInjectRing.descs locals.localCurInjectTake.toNat = pd at found ⊢
  have steps := distance_next walking.cur walking.put walking.not_done
  rw [walking.steps] at steps
  have inside := next_inside walking.cur
  have room := walking.pkts
  have free := walking.pdctx
  simp only [processVisit, current, found]
  cases mgmt : pd.has pdMgmtOnly with
  | true =>
    simp only [Bool.not_true, Bool.false_eq_true, if_false]
    have left : locals.pdctxToFree.length + count < sc.txInjectRing.numDescs.toNat := by omega
    refine ⟨_, _, rfl, ⟨rfl, inside, walking.put, Nat.succ.inj steps, room, left⟩, rfl, rfl, ?_⟩
    intro rest after finished
    rw [serials_cons_mgmt rest mgmt]
    exact ⟨finished.sent, finished.counted⟩
  | false =>
    by_cases full : (locals.pkts ++ [pd.serialno]).length = maxBurstSize
    · simp only [Bool.not_false, if_true, if_pos full]
      refine ⟨_, _, rfl, ⟨rfl, inside, walking.put, Nat.succ.inj steps,
        show 0 < maxBurstSize by decide, ?_⟩, rfl, rfl, ?_⟩
      · show (locals.pdctxToFree ++ [ctx]).length + count < sc.txInjectRing.numDescs.toNat
        rw [List.length_append, List.length_singleton]
        omega
      · intro rest after finished
        rw [serials_cons_frame rest mgmt, Bursts.split, if_pos full]
        have length : (sc.sent ++ [locals.pkts ++ [pd.serialno]]).length = sc.sent.length + 1 := by
          rw [List.length_append, List.length_singleton]
        refine ⟨?_, ?_⟩
        · rw [finished.sent]
          simp [sendBurst]
        · rw [finished.counted]
          simp only [sendBurst, taken, refused, length, full, BitVec.ofNat_add,
            refused_word (Nat.min_le_right ..) (Nat.le_refl maxBurstSize), BitVec.add_assoc]
          rfl
    · simp only [Bool.not_false, if_true, if_neg full]
      refine ⟨_, _, rfl, ⟨rfl, inside, walking.put, Nat.succ.inj steps, ?_, ?_⟩, rfl, rfl, ?_⟩
      · show (locals.pkts ++ [pd.serialno]).length < maxBurstSize
        rw [List.length_append, List.length_singleton] at full ⊢
        omega
      · show (locals.pdctxToFree ++ [ctx]).length + count < sc.txInjectRing.numDescs.toNat
        rw [List.length_append, List.length_singleton]
        omega
      · intro rest after finished
        rw [serials_cons_frame rest mgmt, Bursts.split, if_neg full]
        exact ⟨finished.sent, finished.counted⟩

theorem Walking.inRange {sc : Softc} (walking : Walking sc locals count) : InRange sc locals := by
  have free := walking.pdctx
  exact ⟨walking.cur, walking.pkts, by omega⟩

theorem Walking.finishes (answers : Nat → Nat) {sc : Softc} (walking : Walking sc locals count)
    (contexts : ∀ pd ∈ sc.txInjectRing.walk locals.localCurInjectTake count, pd.ctx ≠ none) :
    ∃ after, processLoop answers (count + 1) sc = some after ∧
      Finished answers sc locals (split maxBurstSize locals.pkts
        (serials (sc.txInjectRing.walk locals.localCurInjectTake count))) after := by
  induction count generalizing sc locals with
  | zero =>
    have same := (distance_zero_iff walking.cur).mp walking.steps
    refine ⟨_, ?_, processFinish_finished answers walking.pkts⟩
    simp only [processLoop, walking.sender, if_pos same]
  | succ count ih =>
    obtain ⟨next, moved, visited, walkingNext, ring, cur, carries⟩ :=
      walking.visit answers (contexts _ (List.mem_cons_self ..))
    have rest : ∀ pd ∈ next.txInjectRing.walk moved.localCurInjectTake count,
        pd.ctx ≠ none := by
      intro pd member
      rw [ring, cur] at member
      exact contexts pd (List.mem_cons_of_mem _ member)
    obtain ⟨after, finished, effect⟩ := ih walkingNext rest
    rw [ring, cur] at effect
    refine ⟨after, ?_, carries _ after effect⟩
    rw [processLoop, walking.sender]
    simp only [if_neg walking.not_done, if_pos walking.inRange, visited, Option.bind_some]
    exact finished

theorem processVisit_none {sc : Softc} (nSnd : Nat)
    (missing : (sc.txInjectRing.descs locals.localCurInjectTake.toNat).ctx = none) :
    processVisit sc locals nSnd = none := by
  simp only [processVisit, missing]

theorem Walking.contexts {answers : Nat → Nat} {sc : Softc} (walking : Walking sc locals count)
    (ended : processLoop answers fuel sc = some after) :
    ∀ pd ∈ sc.txInjectRing.walk locals.localCurInjectTake count, pd.ctx ≠ none := by
  induction count generalizing sc locals fuel with
  | zero =>
    intro pd member
    cases member
  | succ count ih =>
    cases fuel with
    | zero => cases ended
    | succ fuel =>
      rw [processLoop, walking.sender] at ended
      simp only [if_neg walking.not_done, if_pos walking.inRange] at ended
      by_cases missing : (sc.txInjectRing.descs locals.localCurInjectTake.toNat).ctx = none
      · rw [processVisit_none _ missing] at ended
        cases ended
      · obtain ⟨next, moved, visited, walkingNext, ring, cur, -⟩ :=
          walking.visit answers missing
        rw [visited, Option.bind_some] at ended
        have rest := ih walkingNext ended
        rw [ring, cur] at rest
        intro pd member
        rcases List.mem_cons.mp member with rfl | later
        · exact missing
        · exact rest pd later

theorem processLoop_unique {answers : Nat → Nat} {other : Nat} {sc result : Softc}
    (ended : processLoop answers fuel sc = some after)
    (endedOther : processLoop answers other sc = some result) : after = result := by
  induction fuel generalizing sc other with
  | zero => cases ended
  | succ fuel ih =>
    cases other with
    | zero => cases endedOther
    | succ other =>
      rw [processLoop] at ended endedOther
      cases sender : sc.sender with
      | idle | waiting | stopped =>
        rw [sender] at ended
        cases ended
      | sending locals =>
        rw [sender] at ended endedOther
        by_cases same : locals.localCurInjectTake = locals.curInjectPut
        · simp only [if_pos same, Option.some.injEq] at ended endedOther
          exact ended.symm.trans endedOther
        · by_cases inRange : InRange sc locals
          · simp only [if_neg same, if_pos inRange] at ended endedOther
            obtain ⟨next, visited, rest⟩ := Option.bind_eq_some_iff.mp ended
            rw [visited, Option.bind_some] at endedOther
            exact ih rest endedOther
          · simp only [if_neg same, if_neg inRange] at ended
            cases ended

def payload (memory : Nat → UInt8) (pd : Pd) : List UInt8 :=
  (List.range pd.length.toNat).map fun offset => memory (pd.data + offset)

structure FramesSent (rte : BitVec 64 → Option (List UInt8)) (memory : Nat → UInt8)
    (sc after : Softc) : Prop where
  frames : ∃ bursts, after.sent = sc.sent ++ bursts ∧
    (∀ burst ∈ bursts, 1 ≤ burst.length ∧ burst.length ≤ maxBurstSize) ∧
    bursts.flatten.map rte =
      (carriers sc.txInjectRing.between).map fun pd => some (payload memory pd)
  counted : after.counted = sc.counted +
    BitVec.ofNat 64 ((carriers sc.txInjectRing.between).length + sc.txInjectRing.drops.toNat)

def refusedFrames (answers : Nat → Nat) (sc : Softc) : Nat :=
  refused answers sc.sent.length (split maxBurstSize [] (serials sc.txInjectRing.between))

structure RingReady (answers : Nat → Nat) (rte : BitVec 64 → Option (List UInt8))
    (memory : Nat → UInt8) (sc : Softc) : Prop where
  contexts : ∀ pd ∈ sc.txInjectRing.between, pd.ctx ≠ none
  addresses : ∀ pd ∈ carriers sc.txInjectRing.between,
    rte pd.serialno = some (payload memory pd)
  drops : sc.txInjectRing.drops.toNat + refusedFrames answers sc < 2 ^ 32

section Call

variable {answers : Nat → Nat} {rte : BitVec 64 → Option (List UInt8)} {memory : Nat → UInt8}
variable {sc : Softc}

theorem fetchRing_walking (put : sc.txInjectRing.put.toNat < sc.txInjectRing.numDescs.toNat)
    (take : sc.txInjectRing.take.toNat < sc.txInjectRing.numDescs.toNat) :
    Walking (fetchRing sc false)
      ⟨sc.txInjectRing.take, sc.txInjectRing.put, sc.txInjectRing.drops, 0, 0, [], []⟩
      (sc.txInjectRing.distance sc.txInjectRing.take sc.txInjectRing.put) := by
  refine ⟨rfl, take, put, rfl, show 0 < maxBurstSize by decide, ?_⟩
  show 0 + _ < sc.txInjectRing.numDescs.toNat
  rw [Nat.zero_add]
  exact distance_lt take put

theorem walk_length (ring : PdRing) (cur : BitVec 32) (count : Nat) :
    (ring.walk cur count).length = count := by
  induction count generalizing cur with
  | zero => rfl
  | succ count ih => rw [PdRing.walk, List.length_cons, ih]

theorem walk_drops (ring : PdRing) (drops : BitVec 32) (cur : BitVec 32) (count : Nat) :
    PdRing.walk { ring with drops := drops } cur count = ring.walk cur count := by
  induction count generalizing cur with
  | zero => rfl
  | succ count ih =>
    rw [PdRing.walk, PdRing.walk, ih]
    rfl

theorem carriers_length_lt (put : sc.txInjectRing.put.toNat < sc.txInjectRing.numDescs.toNat)
    (take : sc.txInjectRing.take.toNat < sc.txInjectRing.numDescs.toNat) :
    (carriers sc.txInjectRing.between).length < 2 ^ 32 := by
  have part : (carriers sc.txInjectRing.between).length ≤ sc.txInjectRing.between.length :=
    List.length_filter_le ..
  have whole := walk_length sc.txInjectRing sc.txInjectRing.take
    (sc.txInjectRing.distance sc.txInjectRing.take sc.txInjectRing.put)
  have bound := distance_lt take put
  have size := sc.txInjectRing.numDescs.isLt
  unfold PdRing.between at part ⊢
  omega

theorem counted_iff {missed drops total : Nat} (sum : took + missed = total)
    (small : total < 2 ^ 32) (word : drops < 2 ^ 32) (before : BitVec 64) :
    before + (0#32 + BitVec.ofNat 32 took).zeroExtend 64 +
        (BitVec.ofNat 32 drops + BitVec.ofNat 32 missed).zeroExtend 64 =
      before + BitVec.ofNat 64 (total + drops) ↔ drops + missed < 2 ^ 32 := by
  rw [BitVec.add_assoc, BitVec.add_right_inj, ← BitVec.toNat_inj]
  simp only [BitVec.truncate_eq_setWidth, BitVec.toNat_add, BitVec.toNat_setWidth,
    BitVec.toNat_ofNat, BitVec.zero_add]
  omega

theorem serials_flatten (pds : List Pd) :
    (split maxBurstSize [] (serials pds)).flatten = (carriers pds).map Pd.serialno := by
  rw [flatten_split, List.nil_append, serials]

theorem between_fetched :
    (fetchRing sc false).txInjectRing.walk sc.txInjectRing.take
      (sc.txInjectRing.distance sc.txInjectRing.take sc.txInjectRing.put) =
      sc.txInjectRing.between :=
  walk_drops sc.txInjectRing 0 _ _

theorem Finished.framesSent_iff (put : sc.txInjectRing.put.toNat < sc.txInjectRing.numDescs.toNat)
    (take : sc.txInjectRing.take.toNat < sc.txInjectRing.numDescs.toNat)
    (finished : Finished answers (fetchRing sc false)
      ⟨sc.txInjectRing.take, sc.txInjectRing.put, sc.txInjectRing.drops, 0, 0, [], []⟩
      (split maxBurstSize [] (serials sc.txInjectRing.between)) after) :
    FramesSent rte memory sc after ↔
      (∀ pd ∈ carriers sc.txInjectRing.between, rte pd.serialno = some (payload memory pd)) ∧
        sc.txInjectRing.drops.toNat + refusedFrames answers sc < 2 ^ 32 := by
  have sent : after.sent = sc.sent ++ split maxBurstSize [] (serials sc.txInjectRing.between) :=
    finished.sent
  have total := taken_add_refused answers sc.sent.length
    (split maxBurstSize [] (serials sc.txInjectRing.between))
  rw [serials_flatten, List.length_map] at total
  have counted : after.counted = sc.counted + BitVec.ofNat 64
      ((carriers sc.txInjectRing.between).length + sc.txInjectRing.drops.toNat) ↔
      sc.txInjectRing.drops.toNat + refusedFrames answers sc < 2 ^ 32 := by
    rw [refusedFrames, ← counted_iff total (carriers_length_lt put take)
      sc.txInjectRing.drops.isLt sc.counted, BitVec.ofNat_toNat, BitVec.setWidth_eq,
      finished.counted]
    rfl
  constructor
  · rintro ⟨⟨bursts, appended, -, frames⟩, count⟩
    refine ⟨?_, counted.mp count⟩
    have same := List.append_cancel_left (appended.symm.trans sent)
    rw [same, serials_flatten, List.map_map, List.map_inj_left] at frames
    exact frames
  · rintro ⟨addresses, few⟩
    refine ⟨⟨_, sent, split_bounds [] _ (by decide), ?_⟩, counted.mpr few⟩
    rw [serials_flatten, List.map_map, List.map_inj_left]
    exact addresses

theorem stopped_framesSent_iff
    (put : sc.txInjectRing.put.toNat < sc.txInjectRing.numDescs.toNat)
    (take : sc.txInjectRing.take.toNat < sc.txInjectRing.numDescs.toNat) :
    FramesSent rte memory sc (fetchRing sc true) ↔
      carriers sc.txInjectRing.between = [] ∧ sc.txInjectRing.drops = 0 := by
  have few := carriers_length_lt put take
  have word := sc.txInjectRing.drops.isLt
  constructor
  · rintro ⟨⟨bursts, appended, -, frames⟩, count⟩
    have none_ : bursts = [] := by
      have same : sc.sent ++ [] = sc.sent ++ bursts := by
        rw [List.append_nil]
        exact appended
      exact (List.append_cancel_left same).symm
    rw [none_, List.flatten_nil, List.map_nil] at frames
    refine ⟨List.map_eq_nil_iff.mp frames.symm, ?_⟩
    have zero : sc.counted + 0#64 = sc.counted + BitVec.ofNat 64
        ((carriers sc.txInjectRing.between).length + sc.txInjectRing.drops.toNat) := by
      rw [BitVec.add_zero]
      exact count
    rw [BitVec.add_right_inj, ← BitVec.toNat_inj, BitVec.toNat_ofNat, BitVec.toNat_ofNat] at zero
    refine BitVec.eq_of_toNat_eq ?_
    show sc.txInjectRing.drops.toNat = 0
    omega
  · rintro ⟨none_, zero⟩
    refine ⟨⟨[], (List.append_nil _).symm, by simp, ?_⟩, ?_⟩
    · rw [none_]
      rfl
    · rw [none_, zero]
      show sc.counted = sc.counted + 0#64
      rw [BitVec.add_zero]

theorem processLoop_framesSent_iff
    (put : sc.txInjectRing.put.toNat < sc.txInjectRing.numDescs.toNat)
    (take : sc.txInjectRing.take.toNat < sc.txInjectRing.numDescs.toNat) :
    (∃ fuel after, processLoop answers fuel (fetchRing sc false) = some after ∧
      FramesSent rte memory sc after) ↔ RingReady answers rte memory sc := by
  have walking := fetchRing_walking put take
  constructor
  · rintro ⟨fuel, after, ended, sent⟩
    have contexts := walking.contexts ended
    obtain ⟨result, finishes, finished⟩ := walking.finishes answers contexts
    have same := processLoop_unique ended finishes
    subst same
    rw [between_fetched] at contexts finished
    obtain ⟨addresses, few⟩ := (finished.framesSent_iff put take).mp sent
    exact ⟨contexts, addresses, few⟩
  · intro ready
    have contexts := ready.contexts
    rw [← between_fetched] at contexts
    obtain ⟨result, finishes, finished⟩ := walking.finishes answers contexts
    rw [between_fetched] at finished
    exact ⟨_, result, finishes,
      (finished.framesSent_iff put take).mpr ⟨ready.addresses, ready.drops⟩⟩

/-- One call gives the NIC the bytes of its descriptors and counts them exactly when
the ring is ready for it, or when it is stopped with nothing to do. -/
theorem processTxInjectRing_framesSent_iff (answers : Nat → Nat)
    (rte : BitVec 64 → Option (List UInt8)) (memory : Nat → UInt8) (sc : Softc) (done : Bool)
    (put : sc.txInjectRing.put.toNat < sc.txInjectRing.numDescs.toNat)
    (take : sc.txInjectRing.take.toNat < sc.txInjectRing.numDescs.toNat) :
    (∃ fuel after, ifDpdkProcessTxInjectRing answers sc done fuel = some after ∧
      FramesSent rte memory sc after) ↔
    if done then carriers sc.txInjectRing.between = [] ∧ sc.txInjectRing.drops = 0
    else RingReady answers rte memory sc := by
  cases done with
  | true =>
    have stopped : FramesSent rte memory sc (fetchRing sc true) ↔ _ :=
      stopped_framesSent_iff put take
    simp only [ifDpdkProcessTxInjectRing, if_true]
    rw [← stopped]
    constructor
    · rintro ⟨-, after, ended, sent⟩
      cases ended
      exact sent
    · intro sent
      exact ⟨0, _, rfl, sent⟩
  | false =>
    simp only [ifDpdkProcessTxInjectRing, Bool.false_eq_true, if_false]
    exact processLoop_framesSent_iff put take

end Call

def injectedRing (pkts : List Pd) : Softc := (ifDpdkInjectTxPkts (attached false 4).sc pkts).1

def addressed (serialno : BitVec 64) : Pd := ⟨pdInject, 2, 0, 0, 4096, some 7, serialno⟩

def oneMbuf (address : BitVec 64) : Option (List UInt8) :=
  if address = 0x7000 then some [9, 9] else none

theorem processTxInjectRing_sends_addressed :
    ∃ fuel after, ifDpdkProcessTxInjectRing (fun _ => 1) (injectedRing [addressed 0x7000]) false
        fuel = some after ∧
      FramesSent oneMbuf (fun _ => 9) (injectedRing [addressed 0x7000]) after := by
  refine (processTxInjectRing_framesSent_iff (fun _ => 1) oneMbuf (fun _ => 9)
    (injectedRing [addressed 0x7000]) false (by decide) (by decide)).mpr ⟨?_, ?_, ?_⟩
  · decide
  · decide
  · decide

theorem processTxInjectRing_sends_serialno :
    ∃ pd heap, uinetPdXlistAddMbuf
        ⟨fun index => { uinetPdMbufZinitPdCtx 0 index 4096 with mOrigLen := 2 }, fun _ => 1, [], [],
          [], 0⟩ [] true
        (clusterExt 7 4096) pdInject 1 = some (0, [[pd]], heap) ∧
      (∃ fuel after, ifDpdkProcessTxInjectRing (fun _ => 1) (injectedRing [pd]) false fuel =
        some after ∧ after.sent = [[1#64]]) ∧
      ¬ ∃ fuel after, ifDpdkProcessTxInjectRing (fun _ => 1) (injectedRing [pd]) false fuel =
        some after ∧ FramesSent oneMbuf (fun _ => 9) (injectedRing [pd]) after := by
  refine ⟨_, _, rfl, ⟨2, _, rfl, rfl⟩, ?_⟩
  intro sent
  have ready := (processLoop_framesSent_iff (by decide) (by decide)).mp sent
  exact absurd ready.addresses (by decide)

end Libunsod.Uinet
