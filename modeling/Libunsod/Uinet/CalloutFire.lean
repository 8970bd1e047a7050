import Libunsod.Uinet.CalloutDrain

/-!
When a callout fires. One arming is followed through a run that neither stops nor
resets its callout: it is pending in its bucket, then taken by `softclock`, then
its handler has been called. On the wheel of the timer thread's CPU the handler is
called once, in the call of `uinet_hardclock` that takes `ticks` one past the
callout's time. The wheels of the other CPUs are never looked at by `callout_tick`,
so a callout armed on one of them is not called at all. A drain that finds its
callout running faults and ends the run, whatever is still pending.
-/

namespace Libunsod.Uinet

open Cursor Runs
open Function (update update_of_ne update_self)

variable {callouts : CalloutId → Callout} {self : Cpu} {before next : CalloutState}
  {label : CalloutLabel} {labels : List CalloutLabel}

variable {after : CalloutState} {target : CalloutId} {call : ResetCall}

structure Numbered (start : BitVec 32) (state : CalloutState) : Prop where
  clock : state.ticks = start + BitVec.ofNat 32 state.hardclocks
  callouts : ∀ callout, (state.callouts callout).arming ≤ state.armings
  log : ∀ invocation ∈ state.log, invocation.arming ≤ state.armings
  taken : ∀ curticks taken, state.timer = .taken curticks taken → taken.arming ≤ state.armings

theorem calloutBoot_numbered (ticks : BitVec 32)
    (initialised : ∀ callout, (callouts callout).Initialised) :
    Numbered ticks (calloutBoot ticks callouts) := by
  refine ⟨(BitVec.add_zero ticks).symm, fun callout => ?_, ?_, ?_⟩
  · exact (initialised callout).resting.2.1.le
  · rintro invocation ⟨⟩
  · rintro curticks taken ⟨⟩

theorem ofNat_succ (start : BitVec 32) (count : Nat) :
    start + BitVec.ofNat 32 (count + 1) = start + BitVec.ofNat 32 count + 1 := by
  rw [BitVec.ofNat_add, BitVec.add_assoc]
  rfl

theorem taken_arming {state : CalloutState} (callout other : CalloutId) :
    (update state.callouts callout
      { state.callouts callout with pending := false } other).arming =
        (state.callouts other).arming := by
  by_cases same : other = callout
  · subst same
    rw [update_self]
  · rw [update_of_ne same]

theorem TimerEffect.numbered {start : BitVec 32} (effect : TimerEffect self before after)
    (numbered : Numbered start before) : Numbered start after := by
  obtain ⟨clock, callouts, log, takenBound⟩ := numbered
  cases effect with
  | tick idle =>
    refine ⟨?_, callouts, log, by rintro _ _ ⟨⟩⟩
    dsimp only
    rw [clock, ofNat_succ]
  | quiet cpus timer busy still =>
    exact ⟨clock, callouts, log,
      fun curticks taken same => absurd same (TimerPc.not_taken still curticks taken)⟩
  | take callout curticks cpus busy current on due curr cancel =>
    refine ⟨clock, fun other => ?_, log, ?_⟩
    · rw [taken_arming]
      exact callouts other
    · rintro _ _ ⟨⟩
      exact callouts callout
  | invoke curticks taken cpus pc =>
    refine ⟨clock, callouts, fun invocation member => ?_, by rintro _ _ ⟨⟩⟩
    rcases List.mem_append.mp member with old | new
    · exact log invocation old
    · rw [List.mem_singleton.mp new]
      exact takenBound curticks taken pc
  | skipped curticks taken pc cancel => exact ⟨clock, callouts, log, by rintro _ _ ⟨⟩⟩

theorem CallEffect.numbered {start : BitVec 32} (effect : CallEffect target before after)
    (numbered : Numbered start before) : Numbered start after := by
  obtain ⟨clock, callouts, log, takenBound⟩ := numbered
  have grows := effect.armings
  refine ⟨by rw [effect.ticks, effect.hardclocks, clock], fun other => ?_, ?_, ?_⟩
  · by_cases same : other = target
    · subst same
      rcases effect.number with kept | ⟨_, bound⟩
      · rw [kept]
        exact (callouts other).trans grows
      · exact bound
    · rw [effect.others other same]
      exact (callouts other).trans grows
  · rw [effect.log]
    intro invocation member
    exact (log invocation member).trans grows
  · rw [effect.timer]
    intro curticks taken same
    exact (takenBound curticks taken same).trans grows

theorem calloutMove_numbered {bits : Nat} {start : BitVec 32} {state : CalloutState}
    (wheeled : Wheeled bits self state) (numbered : Numbered start state)
    (moved : calloutMove bits self state label next) : Numbered start next := by
  obtain ⟨callout, elsewhere⟩ := label.exists_elsewhere
  rcases calloutMove_effect wheeled elsewhere moved with effect | ⟨target, _, effect⟩
  · exact effect.numbered numbered
  · exact effect.numbered numbered

theorem calloutRun_numbered {bits : Nat} {ticks : BitVec 32} {state : CalloutState}
    (initialised : ∀ callout, (callouts callout).Initialised)
    (run : Run (calloutMove bits self) (calloutBoot ticks callouts) labels state) :
    Wheeled bits self state ∧ Numbered ticks state ∧ Unlockable state := by
  refine run.invariant (fun state => Wheeled bits self state ∧ Numbered ticks state ∧
    Unlockable state) ⟨calloutBoot_wheeled bits self ticks initialised,
      calloutBoot_numbered ticks initialised,
      calloutBoot_unlockable ticks initialised⟩ ?_
  rintro state label next ⟨wheeled, numbered, unlockable⟩ moved
  exact ⟨calloutMove_wheeled wheeled moved, calloutMove_numbered wheeled numbered moved,
    calloutMove_unlockable wheeled unlockable moved⟩

structure Arming where
  number : Nat
  callout : CalloutId
  func : Nat
  arg : Nat
  cpu : Cpu
  due : Nat

def CalloutState.callsOf (state : CalloutState) (number : Nat) : List Invocation :=
  state.log.filter fun invocation => decide (invocation.arming = number)

def Arming.invocation (start : BitVec 32) (arming : Arming) : Invocation :=
  ⟨arming.number, arming.callout, arming.func, arming.arg, arming.due + 1,
    start + BitVec.ofNat 32 (arming.due + 1)⟩

inductive Stage (self : Cpu) (start : BitVec 32) (arming : Arming) (state : CalloutState) : Prop
  | pending (armed : (state.callouts arming.callout).pending = true)
      (time : (state.callouts arming.callout).time = start + BitVec.ofNat 32 arming.due)
      (func : (state.callouts arming.callout).func = arming.func)
      (arg : (state.callouts arming.callout).arg = arming.arg)
      (cpu : (state.callouts arming.callout).cpu = arming.cpu)
      (uncalled : state.callsOf arming.number = [])
      (free : ∀ curticks taken, state.timer = .taken curticks taken →
        taken.arming ≠ arming.number)
      (early : arming.cpu = self → state.hardclocks ≤ arming.due + 1)
      (near : arming.due < state.hardclocks + 2 ^ 31)
  | taken (curticks : BitVec 32) (taken : Taken) (pc : state.timer = .taken curticks taken)
      (number : taken.arming = arming.number) (callout : taken.callout = arming.callout)
      (func : taken.func = arming.func) (arg : taken.arg = arming.arg)
      (resting : (state.callouts arming.callout).pending = false)
      (uncalled : state.callsOf arming.number = [])
      (curr : (state.cpus self).curr = some arming.callout)
      (cancel : (state.cpus self).cancel = false)
      (now : state.hardclocks = arming.due + 1) (home : arming.cpu = self)
  | called (resting : (state.callouts arming.callout).pending = false)
      (called : state.callsOf arming.number = [arming.invocation start])
      (free : ∀ curticks taken, state.timer = .taken curticks taken →
        taken.arming ≠ arming.number)
      (home : arming.cpu = self)

structure Track (timerCpu : Cpu) (start : BitVec 32) (arming : Arming)
    (state : CalloutState) : Prop where
  known : arming.number ≤ state.armings
  mine : (state.callouts arming.callout).arming = arming.number
  apart : ∀ other, other ≠ arming.callout → (state.callouts other).arming ≠ arming.number
  stage : Stage timerCpu start arming state

theorem CallEffect.callsOf (effect : CallEffect target before after) (number : Nat) :
    after.callsOf number = before.callsOf number := by
  unfold CalloutState.callsOf
  rw [effect.log]

theorem CallEffect.track {start : BitVec 32} {arming : Arming}
    (effect : CallEffect target before after) (elsewhere : target ≠ arming.callout)
    (track : Track self start arming before) : Track self start arming after := by
  obtain ⟨known, mine, apart, stage⟩ := track
  have same := effect.others arming.callout (Ne.symm elsewhere)
  refine ⟨known.trans effect.armings, by rw [same]; exact mine, fun other different => ?_, ?_⟩
  · by_cases targeted : other = target
    · subst targeted
      rcases effect.number with kept | ⟨fresh, _⟩
      · rw [kept]
        exact apart other different
      · omega
    · rw [effect.others other targeted]
      exact apart other different
  · cases stage with
    | pending armed time func arg cpu uncalled free early near =>
      refine .pending (by rw [same]; exact armed) (by rw [same]; exact time)
        (by rw [same]; exact func) (by rw [same]; exact arg) (by rw [same]; exact cpu)
        (by rw [effect.callsOf]; exact uncalled) (by rw [effect.timer]; exact free)
        (by rw [effect.hardclocks]; exact early) (by rw [effect.hardclocks]; exact near)
    | taken curticks taken pc number callout func arg resting uncalled curr cancel now home =>
      have untargeted : (before.cpus self).curr ≠ some target := by
        rw [curr]
        exact fun clash => elsewhere (Option.some.inj clash).symm
      exact .taken curticks taken (by rw [effect.timer]; exact pc) number callout func arg
        (by rw [same]; exact resting) (by rw [effect.callsOf]; exact uncalled)
        (by rw [effect.curr]; exact curr) (by rw [effect.cancel self untargeted]; exact cancel)
        (by rw [effect.hardclocks]; exact now) home
    | called resting called free home =>
      exact .called (by rw [same]; exact resting) (by rw [effect.callsOf]; exact called)
        (by rw [effect.timer]; exact free) home

theorem not_ahead_of_passed (start : BitVec 32) (due : Nat) :
    ¬Ahead (start + BitVec.ofNat 32 (due + 1)) (start + BitVec.ofNat 32 due) := by
  rw [ofNat_succ]
  unfold Ahead
  generalize start + BitVec.ofNat 32 due = time
  bv_omega

theorem count_eq_of_ticks_eq {start : BitVec 32} {first second : Nat}
    (same : start + BitVec.ofNat 32 first = start + BitVec.ofNat 32 second)
    (lower : first ≤ second) (upper : second < first + 2 ^ 32) : first = second := by
  have words : BitVec.ofNat 32 first = BitVec.ofNat 32 second := add_left_cancel same
  have mods := congrArg BitVec.toNat words
  simp only [BitVec.toNat_ofNat] at mods
  omega

theorem callsOf_append {log : List Invocation} {invocation : Invocation} {number : Nat} :
    (log ++ [invocation]).filter (fun invocation => decide (invocation.arming = number)) =
      log.filter (fun invocation => decide (invocation.arming = number)) ++
        if invocation.arming = number then [invocation] else [] := by
  rw [List.filter_append]
  by_cases mine : invocation.arming = number <;> simp [mine]

theorem due_now {start : BitVec 32} {state : CalloutState}
    {arming : Arming} (numbered : Numbered start state)
    (time : (state.callouts arming.callout).time = start + BitVec.ofNat 32 arming.due)
    (due : (state.callouts arming.callout).time + 1 = state.ticks)
    (early : state.hardclocks ≤ arming.due + 1)
    (near : arming.due < state.hardclocks + 2 ^ 31) : state.hardclocks = arming.due + 1 := by
  rw [time, ← ofNat_succ, numbered.clock] at due
  exact count_eq_of_ticks_eq due.symm early (by omega)

theorem Stage.kept {start : BitVec 32} {arming : Arming} {cpus : Cpu → CalloutCpu}
    {timer : TimerPc} (stage : Stage self start arming before)
    (free : ∀ curticks taken, timer = .taken curticks taken → taken.arming ≠ arming.number)
    (cancelled : ∀ curticks taken, before.timer = .taken curticks taken →
      (before.cpus self).cancel = true) :
    Stage self start arming { before with cpus := cpus, timer := timer } := by
  cases stage with
  | pending armed time func arg cpu uncalled _ early near =>
    exact .pending armed time func arg cpu uncalled free early near
  | taken curticks taken pc number callout func arg resting uncalled curr cancel now home =>
    have set := cancelled curticks taken pc
    rw [cancel] at set
    cases set
  | called resting called _ home => exact .called resting called free home

theorem TimerEffect.track {bits : Nat} {start : BitVec 32} {arming : Arming}
    (effect : TimerEffect self before after) (wheeled : Wheeled bits self before)
    (numbered : Numbered start before) (track : Track self start arming before) :
    Track self start arming after := by
  obtain ⟨known, mine, apart, stage⟩ := track
  cases effect with
  | tick idle =>
    refine ⟨known, mine, apart, ?_⟩
    cases stage with
    | pending armed time func arg cpu uncalled _ early near =>
      refine .pending armed time func arg cpu uncalled (by rintro _ _ ⟨⟩) (fun home => ?_)
        (by dsimp only; omega)
      have bound := early home
      have clocked := wheeled.clocked
      rw [idle] at clocked
      have ahead := (clocked.2.2 arming.callout _
        (Callout.place_eq_some.mpr ⟨⟨armed, cpu.trans home⟩, time⟩)).resolve_right id
      rw [numbered.clock] at ahead
      have different : before.hardclocks ≠ arming.due + 1 := by
        intro passed
        rw [passed] at ahead
        exact not_ahead_of_passed start arming.due ahead
      dsimp only
      omega
    | taken curticks taken pc =>
      rw [idle] at pc
      cases pc
    | called resting called _ home => exact .called resting called (by rintro _ _ ⟨⟩) home
  | quiet cpus timer busy still =>
    exact ⟨known, mine, apart, stage.kept
      (fun curticks taken same => absurd same (TimerPc.not_taken still curticks taken))
      (fun curticks taken pc => absurd pc (busy curticks taken))⟩
  | take callout curticks cpus busy current on due curr cancel =>
    refine ⟨known, by rw [taken_arming]; exact mine,
      fun other different => by rw [taken_arming]; exact apart other different, ?_⟩
    cases stage with
    | pending armed time func arg cpu uncalled _ early near =>
      by_cases mineTaken : callout = arming.callout
      · subst mineTaken
        have home : arming.cpu = self := cpu.symm.trans on.2
        have now := due_now numbered time (by rw [due]; exact current) (early home) near
        refine .taken curticks _ rfl mine rfl func arg ?_ uncalled curr cancel now home
        dsimp only
        rw [update_self]
      · have same : update before.callouts callout
            { before.callouts callout with pending := false } arming.callout =
              before.callouts arming.callout := update_of_ne (Ne.symm mineTaken) _ _
        rw [← same] at armed time func arg cpu
        refine .pending armed time func arg cpu uncalled ?_ early near
        rintro _ _ ⟨⟩
        exact apart callout mineTaken
    | taken curticks taken pc => exact absurd pc (busy curticks taken)
    | called resting called _ home =>
      have different : callout ≠ arming.callout := by
        rintro rfl
        exact Callout.not_on resting self on
      refine .called ?_ called ?_ home
      · dsimp only
        rw [update_of_ne (Ne.symm different)]
        exact resting
      · rintro _ _ ⟨⟩
        exact apart callout different
  | invoke curticks taken cpus pc =>
    refine ⟨known, mine, apart, ?_⟩
    cases stage with
    | pending armed time func arg cpu uncalled other early near =>
      refine .pending armed time func arg cpu ?_ (by rintro _ _ ⟨⟩) early near
      refine callsOf_append.trans ?_
      rw [if_neg (other curticks taken pc), List.append_nil]
      exact uncalled
    | taken curticks' taken' pc' number callout func arg resting uncalled curr cancel now home =>
      rw [pc] at pc'
      cases pc'
      refine .called resting ?_ (by rintro _ _ ⟨⟩) home
      refine callsOf_append.trans ?_
      rw [if_pos number, Arming.invocation, number, callout, func, arg, numbered.clock, now]
      exact congrArg (· ++ _) uncalled
    | called resting called other home =>
      refine .called resting ?_ (by rintro _ _ ⟨⟩) home
      refine callsOf_append.trans ?_
      rw [if_neg (other curticks taken pc), List.append_nil]
      exact called
  | skipped curticks taken pc cancelled =>
    exact ⟨known, mine, apart, stage.kept (by rintro _ _ ⟨⟩) (fun _ _ _ => cancelled)⟩

def untouchedMove (bits : Nat) (self : Cpu) (callout : CalloutId) (state : CalloutState)
    (label : CalloutLabel) (next : CalloutState) : Prop :=
  label.target ≠ some callout ∧ calloutMove bits self state label next

def arms (bits : Nat) (state : CalloutState) (call : ResetCall) : CalloutLabel → Prop
  | .reset made =>
      made = call ∧ ∃ cancelled, (calloutResetOn bits state call).2 = .armed cancelled
  | .retry before made after =>
      made = call ∧ ∃ cancelled,
        (calloutResetOn bits { state with retrying := before ++ after } call).2 = .armed cancelled
  | _ => False

def ResetCall.delay (call : ResetCall) : Nat := (max 1 call.toTicks.toInt).toNat

theorem ResetCall.ticks_toNat (call : ResetCall) : call.ticks.toNat = call.delay := by
  unfold ResetCall.ticks ResetCall.delay
  split
  next small =>
    rw [max_eq_left (by omega)]
    rfl
  next large =>
    have bound := call.toTicks.isLt
    have unsigned : call.toTicks.toInt = call.toTicks.toNat := by
      rw [BitVec.toInt_eq_toNat_cond] at large ⊢
      split at large
      next half => rw [if_pos half]
      · omega
    rw [max_eq_right (by omega), unsigned, Int.toNat_natCast]

section Arming

variable {bits : Nat} {state : CalloutState}

theorem cancelRunning_armings (callout : CalloutId) :
    (state.cancelRunning callout).armings = state.armings := by
  unfold CalloutState.cancelRunning
  split <;> rfl

theorem disarmPending_armings (callout : CalloutId) :
    (state.disarmPending bits callout).armings = state.armings := by
  unfold CalloutState.disarmPending
  split <;> rfl

theorem disarmPending_cpu (callout : CalloutId) :
    ((state.disarmPending bits callout).callouts callout).cpu = (state.callouts callout).cpu := by
  unfold CalloutState.disarmPending
  split
  · simp [CalloutState.disarm, CalloutState.setCallout]
  · rfl

def ResetCall.arming (call : ResetCall) (state : CalloutState) : Arming :=
  ⟨state.armings + 1, call.callout, call.func, call.arg, call.cpu,
    state.hardclocks + call.delay⟩

theorem arm_track {start : BitVec 32} (numbered : Numbered start state)
    (home : (state.callouts call.callout).cpu = call.cpu) :
    Track self start (call.arming state) (state.arm bits call) := by
  have bound := call.ticks_lt
  rw [call.ticks_toNat] at bound
  refine ⟨Nat.le_refl _, by rw [ResetCall.arming, arm_callout], fun other different => ?_, ?_⟩
  · rw [arm_other different]
    have old := numbered.callouts other
    show (state.callouts other).arming ≠ state.armings + 1
    omega
  · refine .pending (by rw [ResetCall.arming, arm_callout]) ?_
      (by rw [ResetCall.arming, arm_callout]) (by rw [ResetCall.arming, arm_callout])
      (by rw [ResetCall.arming, arm_callout]; exact home) ?_ ?_ (fun _ => ?_) ?_
    · rw [ResetCall.arming, arm_callout]
      show state.ticks + call.ticks = start + BitVec.ofNat 32 (state.hardclocks + call.delay)
      rw [numbered.clock, BitVec.ofNat_add, BitVec.add_assoc, ← call.ticks_toNat,
        BitVec.ofNat_toNat, BitVec.setWidth_eq]
    · refine List.filter_eq_nil_iff.mpr fun invocation member => ?_
      have old := numbered.log invocation member
      show ¬decide (invocation.arming = state.armings + 1) = true
      rw [decide_eq_true_eq]
      omega
    · intro curticks taken pc
      have old := numbered.taken curticks taken pc
      show taken.arming ≠ state.armings + 1
      omega
    · show state.hardclocks ≤ state.hardclocks + call.delay + 1
      omega
    · show state.hardclocks + call.delay < state.hardclocks + 2 ^ 31
      omega

theorem calloutResetOn_track {start : BitVec 32} (numbered : Numbered start state)
    {cancelled : Bool} (armed : (calloutResetOn bits state call).2 = .armed cancelled) :
    Track self start (call.arming state) (calloutResetOn bits state call).1 := by
  have effect : CallEffect call.callout state
      ((state.cancelRunning call.callout).disarmPending bits call.callout) :=
    touches_effect (stopped_touches bits state call.callout)
  generalize reset : calloutResetOn bits state call = result at armed ⊢
  have ended := calloutResetOn_cases bits state call
  rw [reset] at ended
  cases ended with
  | refused running drained cancelled | migrated moving cancelled => cases armed
  | armed undrained staying cancelled =>
    have home : ((((state.cancelRunning call.callout).disarmPending bits
        call.callout).callouts call.callout).cpu) = call.cpu := by
      rw [disarmPending_cpu, cancelRunning_callouts]
      exact staying
    have same : call.arming ((state.cancelRunning call.callout).disarmPending bits
        call.callout) = call.arming state := by
      unfold ResetCall.arming
      rw [disarmPending_armings, cancelRunning_armings, effect.hardclocks]
    rw [← same]
    exact arm_track (effect.numbered numbered) home

theorem arms_track {start : BitVec 32} (numbered : Numbered start state)
    (arming : arms bits state call label) (moved : calloutMove bits self state label next) :
    Track self start (call.arming state) next := by
  cases label with
  | timer | stop callout safe => cases arming
  | reset made =>
    obtain ⟨rfl, cancelled, armed⟩ := arming
    obtain ⟨_, rfl⟩ := moved
    rw [armed]
    exact calloutResetOn_track numbered armed
  | retry before made after =>
    obtain ⟨rfl, cancelled, armed⟩ := arming
    obtain ⟨_, rfl⟩ := moved
    rw [armed]
    have listed : Numbered start { state with retrying := before ++ after } :=
      ⟨numbered.clock, numbered.callouts, numbered.log, numbered.taken⟩
    exact calloutResetOn_track listed armed

end Arming

def HardclockOver (count : Nat) (state : CalloutState) : Prop :=
  count < state.hardclocks ∨ (count = state.hardclocks ∧ state.timer = .idle)

def WalkSound (bits : Nat) (self : Cpu) (state : CalloutState) : Prop :=
  ∀ curticks, state.timer.phase = .sweeping curticks →
    ∃ rest, entriesFrom ((state.cpus self).callwheel (bucketOf bits curticks))
        (state.cpus self).next = some rest ∧
      (∀ callout ∈ rest, (state.callouts callout).On self) ∧
      ∀ callout, (state.callouts callout).On self →
        (state.callouts callout).time = curticks → callout ∈ rest

theorem Wheeled.walkSound {bits : Nat} {state : CalloutState} (wheeled : Wheeled bits self state) :
    WalkSound bits self state := by
  obtain ⟨linked, clocked⟩ := wheeled
  intro curticks sweeping
  rw [sweeping] at clocked
  obtain ⟨_, current, rest, cursor, ahead⟩ := clocked
  refine ⟨rest, entriesFrom_at (linked.nodup ..) cursor, fun callout member => ?_, fun callout on due => ?_⟩
  · obtain ⟨_, place, _⟩ := (linked.mem self _ callout).mp (cursor.mem_list member)
    exact (Callout.place_eq_some.mp place).1
  · rcases ahead callout _ (Callout.place_eq_some.mpr ⟨on, due⟩) with later | ⟨_, member⟩
    · rw [← current] at later
      unfold Ahead at later
      bv_omega
    · exact member

theorem Track.calls {start : BitVec 32} {arming : Arming} {state : CalloutState}
    (track : Track self start arming state) :
    state.callsOf arming.number = [] ∨
      (arming.cpu = self ∧ state.callsOf arming.number = [arming.invocation start]) := by
  cases track.stage with
  | pending armed time func arg cpu uncalled free early near
  | taken curticks taken pc number callout func arg resting uncalled => exact .inl uncalled
  | called resting called free home => exact .inr ⟨home, called⟩

theorem Track.called {bits : Nat} {start : BitVec 32} {arming : Arming} {state : CalloutState}
    (track : Track self start arming state) (wheeled : Wheeled bits self state)
    (numbered : Numbered start state) (home : arming.cpu = self)
    (past : HardclockOver (arming.due + 1) state) :
    state.callsOf arming.number = [arming.invocation start] := by
  cases track.stage with
  | pending armed time func arg cpu uncalled free early near =>
    have bound := early home
    rcases past with later | ⟨now, idle⟩
    · omega
    · have clocked := wheeled.clocked
      rw [idle] at clocked
      have ahead := (clocked.2.2 arming.callout _
        (Callout.place_eq_some.mpr ⟨⟨armed, cpu.trans home⟩, time⟩)).resolve_right id
      rw [numbered.clock, ← now] at ahead
      exact absurd ahead (not_ahead_of_passed start arming.due)
  | taken curticks taken pc number callout func arg resting uncalled curr cancel now =>
    rcases past with later | ⟨_, idle⟩
    · omega
    · rw [pc] at idle
      cases idle
  | called resting called free home => exact called

theorem untouchedRun_track {bits : Nat} {start : BitVec 32} {arming : Arming}
    {armed final : CalloutState} (wheeled : Wheeled bits self armed)
    (numbered : Numbered start armed) (unlockable : Unlockable armed)
    (track : Track self start arming armed)
    (rest : Run (untouchedMove bits self arming.callout) armed labels final) :
    Wheeled bits self final ∧ Numbered start final ∧ Unlockable final ∧
      Track self start arming final := by
  refine rest.invariant (fun state => Wheeled bits self state ∧ Numbered start state ∧
    Unlockable state ∧ Track self start arming state) ⟨wheeled, numbered, unlockable, track⟩ ?_
  rintro state label next ⟨wheeled, numbered, unlockable, track⟩ ⟨elsewhere, moved⟩
  refine ⟨calloutMove_wheeled wheeled moved, calloutMove_numbered wheeled numbered moved,
    calloutMove_unlockable wheeled unlockable moved, ?_⟩
  rcases calloutMove_effect wheeled elsewhere moved with effect | ⟨target, different, effect⟩
  · exact effect.track wheeled numbered track
  · exact effect.track different track

def FiresOnTime (bits : Nat) (self : Cpu) (before : CalloutState) (call : ResetCall)
    (armed : CalloutState) : Prop :=
  let hardclock := before.hardclocks + call.delay + 1
  let invocation : Invocation := ⟨before.armings + 1, call.callout, call.func, call.arg,
    hardclock, before.ticks + BitVec.ofNat 32 (call.delay + 1)⟩
  ∀ labels final, Run (untouchedMove bits self call.callout) armed labels final →
    (final.callsOf (before.armings + 1) = [] ∨
      final.callsOf (before.armings + 1) = [invocation]) ∧
    (HardclockOver hardclock final → final.callsOf (before.armings + 1) = [invocation]) ∧
    WalkSound bits self final ∧
    ∃ more later, Run (timerMove bits self) final more later ∧ HardclockOver hardclock later

theorem arming_invocation {start : BitVec 32} {state : CalloutState}
    (numbered : Numbered start state) (call : ResetCall) :
    (call.arming state).invocation start = ⟨state.armings + 1, call.callout, call.func,
      call.arg, state.hardclocks + call.delay + 1,
      state.ticks + BitVec.ofNat 32 (call.delay + 1)⟩ := by
  unfold ResetCall.arming Arming.invocation
  rw [numbered.clock, BitVec.add_assoc, ← BitVec.ofNat_add, Nat.add_assoc]

theorem timer_reaches_over {bits : Nat} {state : CalloutState} (wheeled : Wheeled bits self state)
    (unlockable : Unlockable state) (hardclock : Nat) :
    ∃ more later, Run (timerMove bits self) state more later ∧ HardclockOver hardclock later := by
  obtain ⟨more, later, run, idle, count, _⟩ :=
    timer_reaches wheeled unlockable (hardclock - state.hardclocks)
  refine ⟨more, later, run, ?_⟩
  by_cases exact_ : hardclock = later.hardclocks
  · exact .inr ⟨exact_, idle⟩
  · exact .inl (by omega)

/-- Only the timer thread's own wheel is swept, and nothing is called after a drain that finds
its callout running. -/
theorem calloutResetOn_firesOnTime_iff {bits : Nat} {self : Cpu} {ticks : BitVec 32}
    {callouts : CalloutId → Callout} {labels : List CalloutLabel} {label : CalloutLabel}
    {before armed : CalloutState} {call : ResetCall}
    (initialised : ∀ callout, (callouts callout).Initialised)
    (run : Run (calloutMove bits self) (calloutBoot ticks callouts) labels before)
    (arming : arms bits before call label) (moved : calloutMove bits self before label armed) :
    (FiresOnTime bits self before call armed ↔ call.cpu = self) ∧
    ∀ others final callout, Run (untouchedMove bits self call.callout) armed others final →
      drainsRunning final callout →
        ∀ next, ¬calloutMove bits self final (.stop callout true) next := by
  obtain ⟨wheeled, numbered, unlockable⟩ := calloutRun_numbered initialised run
  have track := arms_track numbered arming moved
  have invocation := arming_invocation numbered call
  have armedWheeled := calloutMove_wheeled wheeled moved
  have armedNumbered := calloutMove_numbered wheeled numbered moved
  have armedUnlockable := calloutMove_unlockable wheeled unlockable moved
  refine ⟨⟨?_, ?_⟩, fun others final callout _ drains next => calloutMove_drain_ends drains next⟩
  · intro fires
    obtain ⟨more, later, timerRun, past⟩ := timer_reaches_over armedWheeled armedUnlockable
      (before.hardclocks + call.delay + 1)
    have untouched : Run (untouchedMove bits self call.callout) armed more later := by
      refine timerRun.mono ?_
      rintro state label next ⟨rfl, stepped⟩
      exact ⟨by rintro ⟨⟩, stepped⟩
    obtain ⟨_, called, _⟩ := fires more later untouched
    obtain ⟨_, _, _, laterTrack⟩ :=
      untouchedRun_track armedWheeled armedNumbered armedUnlockable track untouched
    have once := called past
    rcases laterTrack.calls with uncalled | ⟨home, _⟩
    · change later.callsOf (before.armings + 1) = [] at uncalled
      rw [uncalled] at once
      cases once
    · exact home
  · intro home others final rest
    obtain ⟨finalWheeled, finalNumbered, finalUnlockable, finalTrack⟩ :=
      untouchedRun_track armedWheeled armedNumbered armedUnlockable track rest
    refine ⟨?_, fun past => ?_, finalWheeled.walkSound,
      timer_reaches_over finalWheeled finalUnlockable _⟩
    · rw [← invocation]
      rcases finalTrack.calls with uncalled | ⟨_, called⟩
      · exact .inl uncalled
      · exact .inr called
    · rw [← invocation]
      exact finalTrack.called finalWheeled finalNumbered home past

theorem calloutResetOn_firesOnTime_home :
    FiresOnTime 0 0 (calloutBoot (-1) mpsafeCallouts) ⟨5, 3, 7, 9, 0, false⟩
      (calloutResetOn 0 (calloutBoot (-1) mpsafeCallouts) ⟨5, 3, 7, 9, 0, false⟩).1 := by
  have arming : arms 0 (calloutBoot (-1) mpsafeCallouts) ⟨5, 3, 7, 9, 0, false⟩
      (.reset ⟨5, 3, 7, 9, 0, false⟩) := ⟨rfl, false, rfl⟩
  exact (calloutResetOn_firesOnTime_iff mpsafeCallouts_initialised Run.nil arming
    ⟨rfl, rfl⟩).1.mpr rfl

def strandedCall : ResetCall := ⟨5, 1, 7, 9, 1, false⟩

def strandedMigrated : CalloutState :=
  (calloutResetOn 0 (calloutBoot 0 mpsafeCallouts) strandedCall).1.afterReset strandedCall
    (.migrated false)

def strandedArmed : CalloutState :=
  (calloutResetOn 0 { strandedMigrated with retrying := [] } strandedCall).1

theorem calloutResetOn_other_cpu_never_fires :
    arms 0 strandedMigrated strandedCall (.retry [] strandedCall []) ∧
      ∃ final, Run (calloutMove 0 0) (calloutBoot 0 mpsafeCallouts)
        ([.reset strandedCall, .retry [] strandedCall []] ++ List.replicate 4 .timer) final ∧
        HardclockOver 2 final ∧ final.ticks = 2 ∧ final.log = [] := by
  have armed : Run (calloutMove 0 0) (calloutBoot 0 mpsafeCallouts)
      [.reset strandedCall, .retry [] strandedCall []] strandedArmed :=
    Run.snoc (Run.snoc Run.nil ⟨rfl, rfl⟩) ⟨rfl, rfl⟩
  have steps : ∃ final, timerSteps 0 0 4 strandedArmed = some final ∧ HardclockOver 2 final ∧
      final.ticks = 2 ∧ final.log = [] := ⟨_, rfl, .inr ⟨rfl, rfl⟩, rfl, rfl⟩
  obtain ⟨final, stepped, past, ticks, uncalled⟩ := steps
  exact ⟨⟨rfl, false, rfl⟩, final,
    armed.append ((timerSteps_run stepped).mono timerMove_move), past, ticks, uncalled⟩

/-- The buckets hold the pending callouts, each once and where its time hashes to; between two
ticks none of the timer's own is overdue. -/
theorem calloutWheel_exact {bits : Nat} {self : Cpu} {ticks : BitVec 32}
    {callouts : CalloutId → Callout} {labels : List CalloutLabel} {state : CalloutState}
    (initialised : ∀ callout, (callouts callout).Initialised)
    (run : Run (calloutMove bits self) (calloutBoot ticks callouts) labels state) :
    (∀ cpu bucket, ((state.cpus cpu).callwheel bucket).Nodup ∧
      ∀ callout, callout ∈ (state.cpus cpu).callwheel bucket ↔
        (state.callouts callout).On cpu ∧
          bucketOf bits (state.callouts callout).time = bucket) ∧
    (state.timer = .idle → ∀ callout, (state.callouts callout).On self →
      Ahead state.ticks (state.callouts callout).time) := by
  obtain ⟨⟨⟨nodup, mem⟩, clocked⟩, _⟩ := calloutRun_numbered initialised run
  refine ⟨fun cpu bucket => ⟨nodup cpu bucket, fun callout => ?_⟩, fun idle callout on => ?_⟩
  · refine (mem cpu bucket callout).trans ⟨?_, ?_⟩
    · rintro ⟨time, place, hashed⟩
      obtain ⟨on, rfl⟩ := Callout.place_eq_some.mp place
      exact ⟨on, hashed⟩
    · rintro ⟨on, hashed⟩
      exact ⟨_, Callout.place_eq_some.mpr ⟨on, rfl⟩, hashed⟩
  · rw [idle] at clocked
    exact (clocked.2.2 callout _ (Callout.place_eq_some.mpr ⟨on, rfl⟩)).resolve_right id

theorem calloutWheel_exact_armed :
    ∃ state, Run (calloutMove 0 0) (calloutBoot (-1) mpsafeCallouts)
        [.reset ⟨5, 3, 7, 9, 0, false⟩] state ∧ (state.callouts 5).On 0 ∧
      ((state.cpus 0).callwheel 0).Nodup :=
  Run.exists_with (fun _ run => ((calloutWheel_exact mpsafeCallouts_initialised run).1 0 0).1)
    ⟨_, .snoc .nil ⟨rfl, rfl⟩, rfl, rfl⟩

end Libunsod.Uinet
