import Libunsod.Base.Runs
import Libunsod.Base.Timespec
import Mathlib.Data.List.Iterate
import Mathlib.Tactic.Linarith
import Mathlib.Tactic.Ring

/-!
The clock thread `timer_intr` in `uinet_kern_timeout.c`. Each block of `calibrationPeriod` ticks is
measured; a block that was too long is made up for by extra ticks, one that was too short by an
extra sleep, and the length of a sleep is corrected.
-/

namespace Libunsod.Uinet

open Runs (Run)

def calibrationPeriod : Nat := 5

structure ClockRate where
  hz : Nat
  two_le : 2 ≤ hz
  le_billion : hz ≤ 1000000000

namespace ClockRate

def period (rate : ClockRate) : Nat := 1000000000 / rate.hz

theorem period_pos (rate : ClockRate) : 0 < rate.period :=
  Nat.div_pos rate.le_billion (by have := rate.two_le; omega)

theorem period_small (rate : ClockRate) : rate.period < 1000000000 :=
  Nat.div_lt_self (by decide) rate.two_le

def baseTickPeriod (rate : ClockRate) : Timespec :=
  ⟨0, rate.period, Int.natCast_nonneg _, by exact_mod_cast rate.period_small⟩

def targetPeriod (rate : ClockRate) : Timespec :=
  Nat.iterate (·.add rate.baseTickPeriod) calibrationPeriod .zero

end ClockRate

structure TimerThread where
  ticks : Nat
  hardclocks : Nat
  tickPeriod : Timespec
  start : Timespec
  delta : Timespec
  time : Int

def TimerThread.begin (rate : ClockRate) (now : Timespec) : TimerThread :=
  ⟨0, 0, rate.baseTickPeriod, now, .zero, now.nanos⟩

def correction (delta : Timespec) : Timespec :=
  ⟨delta.sec, delta.nsec / (calibrationPeriod * 2), Int.ediv_nonneg delta.nonneg (by decide),
    by have := delta.small
       have := Int.ediv_le_self (calibrationPeriod * 2) delta.nonneg
       omega⟩

def catchUp (base : Timespec) : Nat → Nat → Timespec → Nat × Timespec
  | 0, ticks, delta => (ticks, delta)
  | fuel + 1, ticks, delta =>
      if delta.atLeast base then catchUp base fuel (ticks + 1) (delta.sub base) else (ticks, delta)

def measured (timer : TimerThread) (now : Timespec) : Timespec :=
  (now.sub timer.start).add timer.delta

def calibrate (rate : ClockRate) (timer : TimerThread) (now : Timespec) : TimerThread :=
  let elapsed := measured timer now
  if elapsed.atLeast rate.targetPeriod then
    let delta := elapsed.sub rate.targetPeriod
    let tickPeriod := if timer.tickPeriod.atLeast (correction delta) then
      timer.tickPeriod.sub (correction delta) else timer.tickPeriod
    let caught := catchUp rate.baseTickPeriod (delta.nanos.toNat + 1) timer.ticks delta
    { timer with ticks := caught.1, tickPeriod := tickPeriod, start := now, delta := caught.2 }
  else
    let delta := rate.targetPeriod.sub elapsed
    { timer with
      tickPeriod := timer.tickPeriod.add (correction delta)
      start := now.add delta
      delta := .zero }

structure TimerRound where
  woke : Int
  now : Timespec
  resumed : Int

def TimerThread.tick (timer : TimerThread) (woke : Int) : TimerThread :=
  { timer with ticks := timer.ticks + 1, hardclocks := timer.hardclocks + 1, time := woke }

inductive TimerMove (rate : ClockRate) (timer : TimerThread) (round : TimerRound) :
    TimerThread → Prop
  | tick : timer.time + timer.tickPeriod.nanos ≤ round.woke →
      timer.hardclocks + 1 ≠ calibrationPeriod → TimerMove rate timer round (timer.tick round.woke)
  | block : timer.time + timer.tickPeriod.nanos ≤ round.woke →
      timer.hardclocks + 1 = calibrationPeriod → round.woke ≤ round.now.nanos →
      round.now.nanos ≤ round.resumed →
      (calibrate rate (timer.tick round.woke) round.now).start.nanos ≤ round.resumed →
      TimerMove rate timer round { calibrate rate (timer.tick round.woke) round.now with
        hardclocks := 0, time := round.resumed }

structure Calibrated (rate : ClockRate) (begun : Int) (timer : TimerThread) : Prop where
  count : ((timer.ticks : Int) - timer.hardclocks) * rate.period + timer.delta.nanos =
    timer.start.nanos - begun
  residue : 0 ≤ timer.delta.nanos ∧ timer.delta.nanos < rate.period
  tickPeriod : 0 ≤ timer.tickPeriod.nanos
  hardclocks : timer.hardclocks < calibrationPeriod
  started : timer.start.nanos ≤ timer.time

variable {rate : ClockRate} {begun : Int} {timer next : TimerThread} {round : TimerRound}

theorem baseTickPeriod_nanos (rate : ClockRate) : rate.baseTickPeriod.nanos = rate.period := by
  simp [ClockRate.baseTickPeriod, Timespec.nanos]

theorem targetPeriod_nanos (rate : ClockRate) :
    rate.targetPeriod.nanos = calibrationPeriod * rate.period := by
  simp [ClockRate.targetPeriod, calibrationPeriod, Nat.iterate, baseTickPeriod_nanos]
  ring

theorem correction_nonneg {delta : Timespec} (positive : 0 ≤ delta.nanos) :
    0 ≤ (correction delta).nanos := by
  have small := delta.small
  have fraction := (correction delta).nonneg
  have seconds : (correction delta).sec = delta.sec := rfl
  rw [Timespec.nanos] at positive ⊢
  omega

theorem catchUp_spec (rate : ClockRate) (fuel ticks : Nat) (delta : Timespec)
    (positive : 0 ≤ delta.nanos) (enough : delta.nanos < fuel) :
    let caught := catchUp rate.baseTickPeriod fuel ticks delta
    (caught.1 : Int) * rate.period + caught.2.nanos = ticks * rate.period + delta.nanos ∧
      0 ≤ caught.2.nanos ∧ caught.2.nanos < rate.period := by
  induction fuel generalizing ticks delta with
  | zero => omega
  | succ fuel ih =>
    have period := rate.period_pos
    rw [catchUp]
    split
    next long =>
      rw [Timespec.atLeast_iff, baseTickPeriod_nanos] at long
      have less : (delta.sub rate.baseTickPeriod).nanos = delta.nanos - rate.period := by
        rw [Timespec.sub_nanos, baseTickPeriod_nanos]
      obtain ⟨total, rest⟩ := ih (ticks + 1) (delta.sub rate.baseTickPeriod)
        (by omega) (by omega)
      refine ⟨?_, rest⟩
      rw [total, less]
      push_cast
      ring
    next short =>
      rw [Timespec.atLeast_iff, baseTickPeriod_nanos] at short
      exact ⟨rfl, positive, Int.not_le.mp short⟩

theorem calibrate_spec (timer : TimerThread) (now : Timespec)
    (tickPeriod : 0 ≤ timer.tickPeriod.nanos)
    (count : ((timer.ticks : Int) - calibrationPeriod) * rate.period + timer.delta.nanos =
      timer.start.nanos - begun) :
    let next := calibrate rate timer now
    (next.ticks : Int) * rate.period + next.delta.nanos = next.start.nanos - begun ∧
      (0 ≤ next.delta.nanos ∧ next.delta.nanos < rate.period) ∧ 0 ≤ next.tickPeriod.nanos := by
  have period := rate.period_pos
  have elapsed : (measured timer now).nanos =
      now.nanos - timer.start.nanos + timer.delta.nanos := by
    rw [measured, Timespec.add_nanos, Timespec.sub_nanos]
  have target := targetPeriod_nanos rate
  rw [Int.sub_mul, ← target] at count
  simp only [calibrate, Timespec.atLeast_iff]
  split
  next long =>
    have value : ((measured timer now).sub rate.targetPeriod).nanos =
        (measured timer now).nanos - rate.targetPeriod.nanos := Timespec.sub_nanos _ _
    generalize (measured timer now).sub rate.targetPeriod = delta at *
    obtain ⟨total, residue⟩ := catchUp_spec rate (delta.nanos.toNat + 1) timer.ticks delta
      (by omega) (by omega)
    dsimp only at total ⊢
    refine ⟨by omega, residue, ?_⟩
    split
    next enough =>
      rw [Timespec.sub_nanos]
      omega
    · exact tickPeriod
  next short =>
    have value : (rate.targetPeriod.sub (measured timer now)).nanos =
        rate.targetPeriod.nanos - (measured timer now).nanos := Timespec.sub_nanos _ _
    generalize rate.targetPeriod.sub (measured timer now) = delta at *
    have added := correction_nonneg (show 0 ≤ delta.nanos by omega)
    simp only [Timespec.add_nanos, Timespec.zero_nanos]
    omega

theorem Calibrated.step (calibrated : Calibrated rate begun timer)
    (move : TimerMove rate timer round next) : Calibrated rate begun next := by
  obtain ⟨count, residue, tickPeriod, hardclocks, started⟩ := calibrated
  have ticked : (((timer.tick round.woke).ticks : Int) - (timer.tick round.woke).hardclocks) *
      rate.period + timer.delta.nanos = timer.start.nanos - begun := by
    rw [← count]
    simp [TimerThread.tick]
  cases move with
  | tick slept more =>
    refine ⟨ticked, residue, tickPeriod, ?_, show timer.start.nanos ≤ round.woke by omega⟩
    exact Nat.lt_of_le_of_ne hardclocks more
  | block slept last read resumed until_ =>
    rw [show (timer.tick round.woke).hardclocks = calibrationPeriod from last] at ticked
    obtain ⟨total, left, sleep⟩ := calibrate_spec (timer.tick round.woke) round.now tickPeriod ticked
    exact ⟨by simpa using total, left, sleep, show 0 < calibrationPeriod by decide, until_⟩

/-- What has been ticked is the time up to `start`, to within one period; after `start`, the time
since then and the ticks of the block are not accounted for yet. -/
theorem ticks_follow_clock (rate : ClockRate) (now : Timespec) (rounds : List TimerRound)
    (timer : TimerThread) (run : Run (TimerMove rate) (.begin rate now) rounds timer) :
    Calibrated rate now.nanos timer ∧
      -(calibrationPeriod * rate.period : Int) <
        timer.time - now.nanos - timer.ticks * rate.period ∧
      timer.time - now.nanos - timer.ticks * rate.period <
        rate.period + (timer.time - timer.start.nanos) := by
  have calibrated : Calibrated rate now.nanos timer := by
    refine run.invariant _ ⟨by simp [TimerThread.begin], ?_, ?_,
      show 0 < calibrationPeriod by decide, le_refl _⟩
      fun timer round next => Calibrated.step
    · exact ⟨le_refl _, show (0 : Int) < _ by exact_mod_cast rate.period_pos⟩
    · simp [TimerThread.begin, baseTickPeriod_nanos]
  have block : (timer.hardclocks : Int) * rate.period < calibrationPeriod * rate.period :=
    Int.mul_lt_mul_of_pos_right (by exact_mod_cast calibrated.hardclocks)
      (by exact_mod_cast rate.period_pos)
  have done := Int.mul_nonneg (Int.natCast_nonneg timer.hardclocks) (Int.natCast_nonneg rate.period)
  have count := calibrated.count
  have residue := calibrated.residue
  have started := calibrated.started
  rw [Int.sub_mul] at count
  refine ⟨calibrated, ?_, ?_⟩ <;> omega

theorem ticks_follow_clock_overrun :
    let rate : ClockRate := ⟨1000, by decide, by decide⟩
    let late : Timespec := ⟨0, 7500000, by decide, by decide⟩
    ∃ timer, Run (TimerMove rate) (.begin rate .zero)
        [⟨1000000, late, 0⟩, ⟨2000000, late, 0⟩, ⟨3000000, late, 0⟩, ⟨4000000, late, 0⟩,
          ⟨7500000, late, 7500000⟩] timer ∧
      timer.ticks = 7 ∧ timer.delta.nanos = 500000 ∧ Calibrated rate 0 timer := by
  intro rate late
  exact Run.exists_with_two (fun _ run => (ticks_follow_clock rate .zero _ _ run).1)
    ⟨_, .snoc (.snoc (.snoc (.snoc (.snoc .nil (.tick (by decide) (by decide)))
      (.tick (by decide) (by decide))) (.tick (by decide) (by decide)))
      (.tick (by decide) (by decide)))
      (.block (by decide) rfl (by decide) (by decide) (by decide)), by decide, by decide⟩

end Libunsod.Uinet
