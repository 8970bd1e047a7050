import Libunsod.Base.SerialNumber
import Libunsod.Netinet.SynEntryCore

/-!
The options, the retained SYN|ACK and the first timeout of a passive syncache entry. `tcp_input`
parses a SYN|ACK with `TH_SYN` where `tcp_dooptions` expects `TO_SYN`, the timer leaves the
retained SYN|ACK to an entry that it makes active, and `_syncache_add` looks for the request to go
active in the connection it was called with and not in the one the filter changed.
-/

namespace Libunsod.Netinet

variable {globals : SynGlobals} {synfilter : Option (SynfCbarg → SynfVerdict × SynfCbarg)}
  {inc : ConnInfo} {opts left right : TcpOpt} {th : Tcphdr} {m : Nat} {timeout : Int}
  {sc next : SynEntry}

structure SameStamp (left right : TcpOpt) : Prop where
  tsFlag : left.tsFlag = right.tsFlag
  tsval : left.tsval = right.tsval

theorem dooption_stamp (sack : Bool) (flags : BitVec 32) (optlen : Nat) (cp : List (BitVec 8))
    (opts : TcpOpt) :
    (dooption sack flags optlen cp opts).tsFlag =
        (if ntoh cp 0 1 = 8 ∧ optlen = 10 then true else opts.tsFlag) ∧
      (dooption sack flags optlen cp opts).tsval =
        if ntoh cp 0 1 = 8 ∧ optlen = 10 then .ofNat 32 (ntoh cp 2 4) else opts.tsval := by
  unfold dooption
  dsimp only
  split
  next kind => rw [kind]; split <;> exact ⟨rfl, rfl⟩
  next kind => rw [kind]; split <;> exact ⟨rfl, rfl⟩
  next kind => rw [kind]; split <;> simp [*]
  next kind => rw [kind]; split <;> exact ⟨rfl, rfl⟩
  next kind => rw [kind]; split <;> exact ⟨rfl, rfl⟩
  next other _ _ =>
    rw [if_neg fun found => other found.1, if_neg fun found => other found.1]
    exact ⟨rfl, rfl⟩

theorem SameStamp.dooption (same : SameStamp left right) (sack others : Bool)
    (flags flags' : BitVec 32) (optlen : Nat) (cp : List (BitVec 8)) :
    SameStamp (dooption sack flags optlen cp left)
      (Netinet.dooption others flags' optlen cp right) := by
  obtain ⟨flag, value⟩ := dooption_stamp sack flags optlen cp left
  obtain ⟨flag', value'⟩ := dooption_stamp others flags' optlen cp right
  exact ⟨by rw [flag, flag', same.tsFlag], by rw [value, value', same.tsval]⟩

theorem dooptionsLoop_related (related : TcpOpt → TcpOpt → Prop) {sack others : Bool}
    {flags flags' : BitVec 32}
    (each : ∀ optlen cp left right, related left right →
      related (dooption sack flags optlen cp left) (dooption others flags' optlen cp right))
    (start : related left right) (skip : Nat) (cp : List (BitVec 8)) :
    related (dooptionsLoop sack flags skip cp left)
      (dooptionsLoop others flags' skip cp right) := by
  induction cp generalizing skip left right with
  | nil => simpa only [dooptionsLoop] using start
  | cons opt cp ih =>
    cases skip with
    | succ skip => exact ih start skip
    | zero =>
      rw [dooptionsLoop.eq_def, dooptionsLoop.eq_def]
      dsimp only
      split
      · exact start
      · split
        · exact ih start 0
        · cases cp with
          | nil => exact start
          | cons optlen cp =>
            dsimp only
            split
            · exact start
            · exact ih (each _ _ _ _ start) _

theorem tcpDooptions_stamp (sack others : Bool) (flags flags' : BitVec 32)
    (cp : List (BitVec 8)) :
    SameStamp (tcpDooptions sack cp flags) (tcpDooptions others cp flags') :=
  dooptionsLoop_related SameStamp (fun optlen cp _ _ same => same.dooption _ _ _ _ optlen cp)
    ⟨rfl, rfl⟩ 0 cp

structure NoSynOption (opts : TcpOpt) : Prop where
  scaleFlag : opts.scaleFlag = false
  sackperm : opts.sackperm = false

theorem NoSynOption.dooption (none_ : NoSynOption opts) (sack : Bool) (optlen : Nat)
    (cp : List (BitVec 8)) : NoSynOption (dooption sack thSyn optlen cp opts) := by
  have unset : thSyn &&& toSyn = 0 := rfl
  unfold Netinet.dooption
  simp only [unset, ne_eq, not_true_eq_false, and_false, false_and, ↓reduceIte, or_false]
  split
  · exact none_
  · exact none_
  · split <;> exact ⟨none_.scaleFlag, none_.sackperm⟩
  · exact none_
  · split <;> exact ⟨none_.scaleFlag, none_.sackperm⟩
  · exact none_

theorem tcpDooptions_thSyn (sack others : Bool) (flags : BitVec 32) (cp : List (BitVec 8)) :
    SameStamp (tcpDooptions sack cp flags) (tcpDooptions others cp thSyn) ∧
      NoSynOption (tcpDooptions others cp thSyn) :=
  dooptionsLoop_related (fun left right => SameStamp left right ∧ NoSynOption right)
    (fun optlen cp _ _ kept => ⟨kept.1.dooption _ _ _ _ optlen cp, kept.2.dooption _ optlen cp⟩)
    ⟨⟨rfl, rfl⟩, ⟨rfl, rfl⟩⟩ 0 cp

theorem syncacheAdd_some
    (created : syncacheAdd globals synfilter inc opts th m timeout = some sc) :
    ∃ passive initialTimeout, sc = (SynEntry.fill globals inc passive initialTimeout opts th
      m).syncacheTimeout globals.hz globals.ticks initialTimeout := by
  simp only [syncacheAdd] at created
  split at created
  · split at created
    · exact ⟨_, _, (Option.some.inj created).symm⟩
    · exact ⟨_, _, (Option.some.inj created).symm⟩
    · cases created
  · exact ⟨_, _, (Option.some.inj created).symm⟩

structure Negotiated (tsTicks : BitVec 32) (offered answered : TcpOpt) (sc : SynEntry) :
    Prop where
  winscale : sc.winscale = (offered.scaleFlag && answered.scaleFlag)
  sack : sc.sack = (offered.sackperm && answered.sackperm)
  timestamp : sc.timestamp = (offered.tsFlag && answered.tsFlag)
  rScale : sc.winscale = true → sc.requestedRScale = answered.wscale.setWidth 4
  tsoff : sc.timestamp = true → sc.tsoff = answered.tsval - tsTicks

structure SameOptions (before after : SynEntry) : Prop where
  winscale : after.winscale = before.winscale
  sack : after.sack = before.sack
  timestamp : after.timestamp = before.timestamp
  rScale : after.requestedRScale = before.requestedRScale
  tsoff : after.tsoff = before.tsoff

structure StampLeft (stamp : TcpOpt) (sc : SynEntry) : Prop where
  passive : sc.passive = true
  winscale : sc.winscale = false
  sack : sc.sack = false
  rScale : sc.requestedRScale = 0
  ts : sc.timestamp = true → stamp.tsFlag = true ∧ sc.ts = stamp.tsval

theorem synack_stampLeft {stamp : TcpOpt} (same : SameStamp stamp opts) (none_ : NoSynOption opts)
    (passive : sc.passive = true) (reply : Tcphdr) (m : Nat) :
    StampLeft stamp (sc.syncachePassiveSynack opts reply m) ∧
      (sc.syncachePassiveSynack opts reply m).timestamp = (sc.timestamp && stamp.tsFlag) ∧
      (sc.syncachePassiveSynack opts reply m).tsoff =
        if sc.timestamp && stamp.tsFlag then stamp.tsval - sc.ts else sc.tsoff := by
  simp only [SynEntry.syncachePassiveSynack, passive, ↓reduceIte, ← same.tsFlag, ← same.tsval]
  refine ⟨⟨rfl, by simp [none_.scaleFlag], by simp [none_.sackperm], by simp [none_.scaleFlag],
    ?_⟩, trivial, by rw [Bool.and_comm]⟩
  intro kept
  simp only [Bool.and_eq_true] at kept
  simp [kept.1, kept.2]

theorem copies_stampLeft {stamp : TcpOpt} (same : SameStamp stamp opts) (none_ : NoSynOption opts)
    (reply : Tcphdr) (copies : List Nat) (stampLeft : StampLeft stamp sc) :
    StampLeft stamp (copies.foldl (fun sc m => sc.syncachePassiveSynack opts reply m) sc) ∧
      (copies.foldl (fun sc m => sc.syncachePassiveSynack opts reply m) sc).timestamp =
        sc.timestamp ∧
      (copies.foldl (fun sc m => sc.syncachePassiveSynack opts reply m) sc).tsoff =
        if sc.timestamp = true ∧ copies ≠ [] then 0 else sc.tsoff := by
  induction copies generalizing sc with
  | nil => exact ⟨stampLeft, rfl, by simp⟩
  | cons copy copies ih =>
    obtain ⟨after, timestamp, tsoff⟩ := synack_stampLeft same none_ stampLeft.passive reply copy
    have kept : (sc.timestamp && stamp.tsFlag) = sc.timestamp := by
      cases stamped : sc.timestamp with
      | true => rw [(stampLeft.ts stamped).1, Bool.and_self]
      | false => rfl
    rw [kept] at timestamp tsoff
    obtain ⟨final, timestamp', tsoff'⟩ := ih after
    refine ⟨final, timestamp'.trans timestamp, ?_⟩
    rw [List.foldl_cons, tsoff', timestamp, tsoff]
    cases stamped : sc.timestamp with
    | true => simp [(stampLeft.ts stamped).2]
    | false => simp

/-- The options are negotiated and stay so under copies of the SYN|ACK exactly when neither window
scaling nor SACK is on both sides, and a timestamp on both sides is not switched off and not
followed by a copy, or repeats the local one. -/
theorem passive_options_negotiated_iff (globals : SynGlobals)
    (synfilter : Option (SynfCbarg → SynfVerdict × SynfCbarg)) (inc : ConnInfo)
    (offer answer : List (BitVec 8)) (th reply : Tcphdr) (m first : Nat) (copies : List Nat)
    (timeout : Int) (sc : SynEntry)
    (created : syncacheAdd globals synfilter inc (tcpDooptions globals.tcpDoSack offer toSyn) th m
      timeout = some sc) (passive : sc.passive = true) :
    let offered := tcpDooptions true offer toSyn
    let answered := tcpDooptions true answer toSyn
    let after := sc.tcpInputSynack globals answer reply first
    (Negotiated globals.tsTicks offered answered after ∧ SameOptions after
      (copies.foldl (fun sc m => sc.tcpInputSynack globals answer reply m) after)) ↔
    ¬(offered.scaleFlag = true ∧ answered.scaleFlag = true) ∧
      ¬(offered.sackperm = true ∧ answered.sackperm = true) ∧
      (offered.tsFlag = true ∧ answered.tsFlag = true → globals.tcpDoRfc1323 = true ∧
        (copies = [] ∨ answered.tsval = globals.tsTicks)) := by
  intro offered answered after
  obtain ⟨stamp, plain⟩ := tcpDooptions_thSyn true globals.tcpDoSack toSyn answer
  obtain ⟨first, timestamp, tsoff⟩ := synack_stampLeft stamp plain passive reply first
  obtain ⟨final, timestamp', tsoff'⟩ := copies_stampLeft stamp plain reply copies first
  have unscaled : after.winscale = false := first.winscale
  have unsacked : after.sack = false := first.sack
  have begun : sc.timestamp = (globals.tcpDoRfc1323 && offered.tsFlag) ∧
      (sc.timestamp = true → sc.ts = globals.tsTicks) := by
    obtain ⟨_, _, rfl⟩ := syncacheAdd_some created
    have same := tcpDooptions_stamp globals.tcpDoSack true toSyn toSyn offer
    simp only [SynEntry.syncacheTimeout, SynEntry.fill, same.tsFlag]
    exact ⟨rfl, fun stamped => by rw [stamped, if_pos rfl]⟩
  have stamped : after.timestamp =
      ((globals.tcpDoRfc1323 && offered.tsFlag) && answered.tsFlag) := by
    rw [← begun.1]
    exact timestamp
  have offset : after.timestamp = true → after.tsoff = answered.tsval - globals.tsTicks := by
    intro on
    have both : (sc.timestamp && answered.tsFlag) = true := timestamp ▸ on
    refine tsoff.trans ?_
    rw [if_pos both, begun.2 (Bool.and_eq_true_iff.mp both).1]
  constructor
  · rintro ⟨negotiated, same⟩
    refine ⟨fun both => ?_, fun both => ?_, fun both => ?_⟩
    · have on := unscaled.symm.trans negotiated.winscale
      rw [both.1, both.2] at on
      cases on
    · have on := unsacked.symm.trans negotiated.sack
      rw [both.1, both.2] at on
      cases on
    · have on := negotiated.timestamp
      rw [both.1, both.2, Bool.and_self] at on
      refine ⟨?_, ?_⟩
      · rw [stamped, both.1, both.2, Bool.and_true, Bool.and_true] at on
        exact on
      · by_cases none_ : copies = []
        · exact .inl none_
        · refine .inr ?_
          have unchanged : after.tsoff = 0 := same.tsoff.symm.trans
            (tsoff'.trans (if_pos ⟨on, none_⟩))
          rw [offset on] at unchanged
          exact sub_eq_zero.mp unchanged
  · rintro ⟨noScale, noSack, stamps⟩
    have agreed : after.timestamp = (offered.tsFlag && answered.tsFlag) := by
      cases both : offered.tsFlag && answered.tsFlag with
      | true =>
        rw [Bool.and_eq_true] at both
        rw [stamped, both.1, both.2, (stamps both).1]
        rfl
      | false => rw [stamped, Bool.and_assoc, both, Bool.and_false]
    refine ⟨⟨?_, ?_, agreed, ?_, offset⟩, ⟨?_, ?_, timestamp', ?_, ?_⟩⟩
    · exact unscaled.trans (by simpa using noScale)
    · exact unsacked.trans (by simpa using noSack)
    · simp [unscaled]
    · exact final.winscale.trans unscaled.symm
    · exact final.sack.trans unsacked.symm
    · exact final.rScale.trans first.rScale.symm
    · refine tsoff'.trans ?_
      split
      next copied =>
        have on : after.timestamp = true := copied.1
        have both := agreed ▸ on
        rw [Bool.and_eq_true] at both
        have local_ := (stamps both).2.resolve_left copied.2
        refine Eq.symm ((offset on).trans ?_)
        rw [local_]
        exact BitVec.sub_self _
      · rfl

def plainGlobals : SynGlobals where
  hz := 100
  hz_pos := by decide
  hz_int := by decide
  ticks := 0
  tcpDoRfc1323 := true
  tcpDoSack := true
  tcpDoEcn := false
  sbMax := 262144
  rexmtLimit := 3
  tsTicks := 4
  win := 65535
  random := 1000

def passiveInc : ConnInfo := ⟨true, false, false⟩

def header (seq ack : Seq) : Tcphdr := ⟨seq, ack, 512, false, false⟩

def stampOption (value : BitVec 8) : List (BitVec 8) := [8, 10, 0, 0, 0, value, 0, 0, 0, 0]

theorem passive_options_negotiated_once :
    ∃ sc, syncacheAdd plainGlobals none passiveInc
        (tcpDooptions true (stampOption 2) toSyn) (header 1 0) 0 (-1) = some sc ∧
      Negotiated 4 (tcpDooptions true (stampOption 2) toSyn) (tcpDooptions true (stampOption 9) toSyn)
        (sc.tcpInputSynack plainGlobals (stampOption 9) (header 7 2) 1) := by
  refine ⟨_, rfl, ((passive_options_negotiated_iff plainGlobals none passiveInc (stampOption 2)
    (stampOption 9) (header 1 0) (header 7 2) 0 1 [] (-1) _ rfl rfl).mpr ?_).1⟩
  exact ⟨by decide, by decide, fun _ => ⟨rfl, .inl rfl⟩⟩

theorem passive_options_lost :
    ∃ sc, syncacheAdd plainGlobals none passiveInc
        (tcpDooptions true ([3, 3, 7, 1] ++ stampOption 2) toSyn) (header 1 0) 0 (-1) = some sc ∧
      sc.winscale = true ∧ (tcpDooptions true ([3, 3, 5, 1] ++ stampOption 9) toSyn).scaleFlag ∧
      (sc.tcpInputSynack plainGlobals ([3, 3, 5, 1] ++ stampOption 9) (header 7 2) 1).winscale =
        false ∧
      (sc.tcpInputSynack plainGlobals ([3, 3, 5, 1] ++ stampOption 9) (header 7 2) 1).tsoff = 5 ∧
      ((sc.tcpInputSynack plainGlobals ([3, 3, 5, 1] ++ stampOption 9) (header 7 2)
        1).tcpInputSynack plainGlobals ([3, 3, 5, 1] ++ stampOption 9) (header 7 2) 2).tsoff = 0 :=
  ⟨_, rfl, by decide, by decide, by decide, by decide, by decide⟩

inductive EntryEvent where
  | synack (opts : TcpOpt) (th : Tcphdr) (m : Nat)
  | timer (tick ticks : BitVec 32)

def SynEntry.step (globals : SynGlobals) (sc : SynEntry) : EntryEvent → Option SynEntry
  | .synack opts th m => some (sc.syncachePassiveSynack opts th m)
  | .timer tick ticks => sc.syncacheTimer globals tick ticks

def SynEntry.history (globals : SynGlobals) : SynEntry → List EntryEvent → Option SynEntry
  | sc, [] => some sc
  | sc, event :: events => (sc.step globals event).bind fun next => next.history globals events

def SynEntry.Stray (sc : SynEntry) : Prop :=
  sc.passive = false ∧ sc.synack ≠ none

def SynEntry.StraysAt (globals : SynGlobals) (sc : SynEntry) (event : EntryEvent) : Prop :=
  sc.synack ≠ none ∧ ∃ tick ticks, event = .timer tick ticks ∧ sc.converts globals tick = true

def SynEntry.StraysIn (globals : SynGlobals) (sc : SynEntry) (events : List EntryEvent) : Prop :=
  ∃ early event late before, events = early ++ event :: late ∧
    sc.history globals early = some before ∧ before.StraysAt globals event

theorem SynEntry.syncacheTimer_some {tick ticks : BitVec 32}
    (fired : sc.syncacheTimer globals tick ticks = some next) :
    (sc.converts globals tick = false ∧ next.passive = sc.passive ∧
        next.passiveSynack = sc.passiveSynack ∧ next.synack = sc.synack) ∨
      (sc.converts globals tick = true ∧ sc.passive = true ∧ next.passive = false ∧
        next.passiveSynack = false ∧ next.synack = sc.synack) := by
  simp only [syncacheTimer] at fired
  simp only [converts]
  split at fired
  next waiting =>
    cases fired
    exact .inl ⟨by simp [waiting], rfl, rfl, rfl⟩
  next due =>
    split at fired
    · cases fired
    next few =>
      rw [Option.some.injEq] at fired
      subst fired
      split
      next both =>
        rw [Bool.and_eq_true] at both
        exact .inr ⟨by simp [due, both, Nat.not_lt.mp few], both.1, rfl, rfl, rfl⟩
      next stays =>
        refine .inl ⟨?_, rfl, rfl, rfl⟩
        rw [Bool.and_assoc, eq_false_of_ne_true stays, Bool.and_false]

theorem SynEntry.Stray.step_iff {event : EntryEvent} (stepped : sc.step globals event = some next)
    (flagged : sc.passiveSynack = true → sc.passive = true) :
    (next.Stray ↔ sc.Stray ∨ sc.StraysAt globals event) ∧
      (next.passiveSynack = true → next.passive = true) := by
  cases event with
  | synack opts th m =>
    simp only [step, Option.some.injEq, syncachePassiveSynack] at stepped
    subst stepped
    cases passive : sc.passive with
    | true => simp [Stray, StraysAt, passive]
    | false => simp [Stray, StraysAt, passive] at flagged ⊢; exact flagged
  | timer tick ticks =>
    rcases syncacheTimer_some stepped with ⟨stays, passive, synackFlag, synack⟩ |
      ⟨converts, was, passive, synackFlag, synack⟩
    · simp [Stray, StraysAt, passive, synack, stays, synackFlag]
      exact flagged
    · simp [Stray, StraysAt, was, passive, synack, synackFlag, converts]

theorem SynEntry.straysIn_cons {event : EntryEvent} {events : List EntryEvent}
    (stepped : sc.step globals event = some next) :
    sc.StraysIn globals (event :: events) ↔
      sc.StraysAt globals event ∨ next.StraysIn globals events := by
  constructor
  · rintro ⟨early, other, late, before, split, reached, strays⟩
    cases early with
    | nil =>
      obtain ⟨rfl, rfl⟩ := List.cons.inj split
      cases reached
      exact .inl strays
    | cons first early =>
      obtain ⟨rfl, rfl⟩ := List.cons.inj split
      rw [history, stepped, Option.bind_some] at reached
      exact .inr ⟨early, other, late, before, rfl, reached, strays⟩
  · rintro (strays | ⟨early, other, late, before, rfl, reached, strays⟩)
    · exact ⟨[], event, events, sc, rfl, rfl, strays⟩
    · refine ⟨event :: early, other, late, before, rfl, ?_, strays⟩
      rw [history, stepped, Option.bind_some, reached]

theorem SynEntry.Stray.history_iff {events : List EntryEvent}
    (reached : sc.history globals events = some next)
    (flagged : sc.passiveSynack = true → sc.passive = true) :
    (next.Stray ↔ sc.Stray ∨ sc.StraysIn globals events) ∧
      (next.passiveSynack = true → next.passive = true) := by
  induction events generalizing sc with
  | nil =>
    cases reached
    refine ⟨⟨.inl, fun strays => strays.resolve_right ?_⟩, flagged⟩
    rintro ⟨early, event, late, before, split, _⟩
    simp at split
  | cons event events ih =>
    rw [SynEntry.history, Option.bind_eq_some_iff] at reached
    obtain ⟨middle, stepped, rest⟩ := reached
    obtain ⟨here, kept⟩ := step_iff stepped flagged
    obtain ⟨there, final⟩ := ih rest kept
    refine ⟨?_, final⟩
    rw [there, here, straysIn_cons stepped, or_assoc]

theorem SynEntry.syncacheSocket_null_iff {clientMade made : Bool} :
    (∃ call ∈ sc.syncacheSocket clientMade made, call.1 = none) ↔ sc.Stray ∧ made = true := by
  cases passive : sc.passive with
  | true => cases clientMade <;> cases made <;> simp [syncacheSocket, Stray, passive]
  | false =>
    cases made with
    | false => simp [syncacheSocket, passive]
    | true => cases synack : sc.synack <;> simp [syncacheSocket, Stray, passive, synack]

theorem window_open (base : Seq) (wnd : BitVec 16) (open_ : wnd ≠ 0) :
    seqGt (base + 1) base = true ∧ seqGt (base + 1) (base + wnd.zeroExtend 32) = false := by
  have bound := wnd.isLt
  have positive : wnd.toNat ≠ 0 := fun zero => open_ (BitVec.eq_of_toNat_eq zero)
  have above := SerialNumber.sub_toInt_of_le (by decide) base
    (show 1 < wnd.toNat + 2 ^ (32 - 1) by omega) (by omega)
  have below := SerialNumber.sub_toInt_of_le (by decide) base
    (show 1 < 0 + 2 ^ (32 - 1) by omega) (by omega)
  have wide : wnd.zeroExtend 32 = BitVec.ofNat 32 wnd.toNat := by
    apply BitVec.eq_of_toNat_eq
    simp
  rw [BitVec.add_zero] at below
  refine ⟨?_, ?_⟩
  · exact decide_eq_true (below ▸ by omega)
  · rw [wide]
    exact decide_eq_false (above ▸ by omega)

theorem SynEntry.syncacheExpand_null_iff :
    (∃ opts th clientMade made, ∃ call ∈ sc.syncacheExpand opts th clientMade made,
      call.1 = none) ↔ sc.Stray ∧ sc.wnd ≠ 0 := by
  constructor
  · rintro ⟨opts, th, clientMade, made, call, member, null⟩
    have same : (sc.acked opts th).passive = sc.passive ∧ (sc.acked opts th).synack = sc.synack ∧
        (sc.acked opts th).wnd = sc.wnd := by
      unfold acked
      split <;> exact ⟨rfl, rfl, rfl⟩
    simp only [syncacheExpand] at member
    split_ifs at member with _ outside
    iterate 4 simp at member
    obtain ⟨passive, kept⟩ := (syncacheSocket_null_iff.mp ⟨call, member, null⟩).1
    refine ⟨⟨same.1 ▸ passive, same.2.1 ▸ kept⟩, fun closed => outside ?_⟩
    rw [same.2.2, closed, show (0 : BitVec 16).zeroExtend 32 = 0 from rfl, add_zero,
      Bool.not_or_self]
  · rintro ⟨stray, wide⟩
    obtain ⟨above, below⟩ := window_open sc.irs sc.wnd wide
    refine ⟨{}, header (sc.irs + 1) (sc.iss + 1), true, true, ?_⟩
    have passed : sc.syncacheExpand {} (header (sc.irs + 1) (sc.iss + 1)) true true =
        sc.syncacheSocket true true := by
      simp only [syncacheExpand, acked, stray.1, header, above, below, Bool.false_and, Bool.not_true,
        Bool.or_false, Bool.and_false, Bool.false_eq_true, ↓reduceIte, ne_eq, not_true_eq_false]
    rw [passed]
    exact syncacheSocket_null_iff.mpr ⟨stray, rfl⟩

/-- The flag is right in every history. A retained SYN|ACK is copied to no connection exactly when
the timer made the entry active after it was retained and the window is open. -/
theorem synack_copied_to_client_iff (globals : SynGlobals)
    (synfilter : Option (SynfCbarg → SynfVerdict × SynfCbarg)) (inc : ConnInfo) (opts : TcpOpt)
    (th : Tcphdr) (m : Nat) (timeout : Int) (events : List EntryEvent) (sc final : SynEntry)
    (created : syncacheAdd globals synfilter inc opts th m timeout = some sc)
    (reached : sc.history globals events = some final) :
    (final.passiveSynack = true → final.passive = true) ∧
      ((∀ opts th clientMade made, ∀ call ∈ final.syncacheExpand opts th clientMade made,
          call.1 ≠ none) ↔
        ¬(sc.StraysIn globals events ∧ final.wnd ≠ 0)) := by
  have fresh : sc.passiveSynack = false ∧ sc.synack = none := by
    obtain ⟨_, _, rfl⟩ := syncacheAdd_some created
    exact ⟨rfl, rfl⟩
  obtain ⟨strays, flagged⟩ := SynEntry.Stray.history_iff reached (by simp [fresh.1])
  have begun : ¬sc.Stray := fun stray => stray.2 fresh.2
  refine ⟨flagged, ?_⟩
  rw [← or_iff_right (b := sc.StraysIn globals events) begun, ← strays,
    ← SynEntry.syncacheExpand_null_iff]
  push Not
  rfl

theorem synack_copied_to_client_passive :
    ∃ sc final, syncacheAdd plainGlobals none passiveInc {} (header 1 0) 0 (-1) = some sc ∧
      sc.history plainGlobals [.synack {} (header 7 2) 1] = some final ∧
      ∀ opts th clientMade made, ∀ call ∈ final.syncacheExpand opts th clientMade made,
        call.1 ≠ none := by
  refine ⟨_, _, rfl, rfl, (synack_copied_to_client_iff plainGlobals none passiveInc {} (header 1 0) 0
    (-1) [.synack {} (header 7 2) 1] _ _ rfl rfl).2.mpr ?_⟩
  rintro ⟨⟨early, event, late, before, split, _, _, tick, ticks, rfl, _⟩, _⟩
  have listed : EntryEvent.timer tick ticks ∈ [EntryEvent.synack {} (header 7 2) 1] := by
    rw [split]
    simp
  simp at listed

theorem synack_copied_to_null :
    ∃ sc final, syncacheAdd plainGlobals none ⟨true, true, true⟩ {} (header 1 0) 0 1 = some sc ∧
      sc.history plainGlobals [.synack {} (header 7 2) 1, .timer 1 1] = some final ∧
      (none, 1) ∈ final.syncacheExpand {} (header 2 8) true true :=
  ⟨_, _, rfl, rfl, by decide⟩

def filteredSyn (globals : SynGlobals) (ms : BitVec 32) (deferred : Bool) (decision : SynfVerdict)
    (inc : ConnInfo) (opts : TcpOpt) (th : Tcphdr) (m : Nat) : Option SynEntry :=
  if deferred then
    deferralDeliver globals (some fun cbarg => (.defer, cbarg))
      (goActiveOnTimeout globals.hz ms (synfCbarg inc opts th m)) decision
  else
    syncacheAdd globals (some fun cbarg => (decision, goActiveOnTimeout globals.hz ms cbarg)) inc opts
      th m (-1)

def goActiveTicks (hz : Nat) (ms : BitVec 32) : Nat :=
  min (ms.toNat * hz / 1000) (cIntMax / 1000)

structure GoesActive (globals : SynGlobals) (ms : BitVec 32) (sc : SynEntry) : Prop where
  convert : sc.convertOnTimeout = true
  rxttime : sc.rxttime = globals.ticks + .ofNat 32 (max 1 (goActiveTicks globals.hz ms))

theorem goActiveOnTimeout_ticks (globals : SynGlobals) (ms : BitVec 32) (cbarg : SynfCbarg) :
    (goActiveOnTimeout globals.hz ms cbarg).initialTimeout = goActiveTicks globals.hz ms := by
  have positive := globals.hz_pos
  have bound := globals.hz_int
  have limit : cIntMax = 2 ^ 31 - 1 := rfl
  simp only [goActiveOnTimeout, goActiveTicks]
  split
  next large =>
    rw [Nat.div_lt_iff_lt_mul positive] at large
    rw [min_eq_right (Nat.div_le_div_right large.le)]
  next small =>
    rw [Nat.div_lt_iff_lt_mul positive, Nat.not_lt] at small
    rw [min_eq_left (Nat.div_le_div_right small), BitVec.toNat_mul, BitVec.toNat_ofNat,
      Nat.mod_eq_of_lt (show globals.hz < 2 ^ 32 by omega), Nat.mod_eq_of_lt (by omega)]

theorem retransmit_ne_tick {hz : Nat} (bound : hz < 2 ^ 31) :
    BitVec.ofNat 32 (tcptvRtobase hz * tcpBackoff.getD 0 0) ≠ BitVec.ofNat 32 (max 1 0) := by
  refine mt (congrArg BitVec.toNat) ?_
  simp only [BitVec.toNat_ofNat, tcptvRtobase, tcpBackoff, List.getD_cons_zero, Nat.mul_one]
  have three := Nat.mul_mod_right 3 hz
  rcases Nat.lt_or_ge (3 * hz) (2 ^ 32) with small | large
  · rw [Nat.mod_eq_of_lt small]
    intro one
    rw [one] at three
    cases three
  · rw [Nat.mod_eq_sub_mod large, Nat.mod_eq_of_lt (by omega)]
    intro one
    rw [Nat.sub_eq_iff_eq_add large] at one
    rw [one] at three
    cases three

/-- The request is carried out only by way of a deferral, and only if it comes to a tick. -/
theorem go_active_on_timeout_iff (globals : SynGlobals) (ms : BitVec 32) (deferred : Bool)
    (decision : SynfVerdict) (inc : ConnInfo) (opts : TcpOpt) (th : Tcphdr) (m : Nat)
    (accepts : decision = .accept ∨ decision = .acceptPassive) (passive : inc.passive = true)
    (unasked : inc.convontmo = false) :
    (∃ sc, filteredSyn globals ms deferred decision inc opts th m = some sc ∧
      GoesActive globals ms sc) ↔
    deferred = true ∧ decision = .accept ∧ 1000 ≤ ms.toNat * globals.hz := by
  have positive := globals.hz_pos
  have bound := globals.hz_int
  cases deferred with
  | false =>
    have unmarked (sc : SynEntry) (made : filteredSyn globals ms false decision inc opts th m =
        some sc) : sc.convertOnTimeout = false := by
      obtain ⟨_, _, rfl⟩ := syncacheAdd_some made
      simp [SynEntry.syncacheTimeout, SynEntry.fill, unasked]
    refine ⟨fun ⟨sc, made, active⟩ => ?_, nofun⟩
    have marked := active.convert
    rw [unmarked sc made] at marked
    cases marked
  | true =>
    rcases accepts with rfl | rfl
    · have made : filteredSyn globals ms true .accept inc opts th m = some
          ((SynEntry.fill globals { inc with synfiltered := true, convontmo := true } inc.passive
            (goActiveTicks globals.hz ms) opts th m).syncacheTimeout globals.hz globals.ticks
            (goActiveTicks globals.hz ms)) := by
        rw [← goActiveOnTimeout_ticks globals ms (synfCbarg inc opts th m)]
        rfl
      have enough : 0 < goActiveTicks globals.hz ms ↔ 1000 ≤ ms.toNat * globals.hz := by
        have limit : cIntMax / 1000 = 2147483 := rfl
        rw [goActiveTicks, limit]
        omega
      simp only [made, Option.some.injEq, exists_eq_left', true_and, ← enough]
      constructor
      · rintro ⟨_, time⟩
        refine Nat.pos_of_ne_zero fun none_ => ?_
        simp only [SynEntry.syncacheTimeout, none_, Nat.cast_zero, lt_irrefl, ↓reduceIte] at time
        exact retransmit_ne_tick bound (add_left_cancel time)
      · intro ticking
        refine ⟨by simp [SynEntry.syncacheTimeout, SynEntry.fill, passive], ?_⟩
        simp only [SynEntry.syncacheTimeout]
        rw [if_pos (by exact_mod_cast ticking), max_eq_right ticking, BitVec.ofInt_natCast]
    · simp [filteredSyn, deferralDeliver]

theorem go_active_on_timeout_deferred :
    ∃ sc, filteredSyn plainGlobals 250 true .accept passiveInc {} (header 1 0) 0 = some sc ∧
      GoesActive plainGlobals 250 sc :=
  (go_active_on_timeout_iff plainGlobals 250 true .accept passiveInc {} (header 1 0) 0 (.inl rfl) rfl
    rfl).mpr ⟨rfl, rfl, by decide⟩

theorem go_active_lost :
    (∃ sc, filteredSyn plainGlobals 250 false .accept passiveInc {} (header 1 0) 0 = some sc ∧
      sc.convertOnTimeout = false) ∧
    ∃ sc, filteredSyn plainGlobals 9 true .accept passiveInc {} (header 1 0) 0 = some sc ∧
      sc.convertOnTimeout = true ∧ sc.rxttime = 300 :=
  ⟨⟨_, rfl, rfl⟩, ⟨_, rfl, rfl, by decide⟩⟩

end Libunsod.Netinet
