import Mathlib.Data.Finset.Lattice.Basic
import Mathlib.Data.Finset.Insert
import Libunsod.Udsock.UdSelectCore

/-!
What `ud_select` leaves in the sets of its caller. The results of the last pass
are right; the copy back is made only when something is ready, and then into
both sets, and the third set is never touched.
-/

namespace Libunsod.Udsock

variable {Sock : Type}

def readyAt (fds : Fds Sock) (ready : Sock → Int) (index : Nat) : Bool :=
  match udFdGetSock fds index with
  | some so => decide (0 < ready so)
  | none => false

def readyBelow (fds : Fds Sock) (ready : Sock → Int) (bound : Nat) (set : FdSet) : FdSet :=
  set.filter fun fd => fd.val < bound ∧ readyAt fds ready fd.val = true

def Requested (args : SelectArgs) (fd : Fin fdSetsize) : Prop :=
  fd ∈ args.readfds.getD ∅ ∨ fd ∈ args.writefds.getD ∅

def BadDescriptor (args : SelectArgs) (scan : Scan Sock) (bound : Nat) : Prop :=
  ∃ fd, Requested args fd ∧ fd.val < bound ∧ scan.fds fd.val = none

def InBounds (args : SelectArgs) (bound : Nat) : Prop :=
  bound ≤ fdSetsize ∨ args.readfds = none ∧ args.writefds = none

def progressAt (args : SelectArgs) (scan : Scan Sock) (bound : Nat) : Progress where
  resRead := readyBelow scan.fds scan.soreadable bound (args.readfds.getD ∅)
  resWrite := readyBelow scan.fds scan.sowritable bound (args.writefds.getD ∅)
  retval := (readyBelow scan.fds scan.soreadable bound (args.readfds.getD ∅)).card +
    (readyBelow scan.fds scan.sowritable bound (args.writefds.getD ∅)).card

theorem readyBelow_zero (fds : Fds Sock) (ready : Sock → Int) (set : FdSet) :
    readyBelow fds ready 0 set = ∅ := by
  simp [readyBelow]

theorem readyBelow_succ_insert (fds : Fds Sock) (ready : Sock → Int) {set : FdSet}
    {fd : Fin fdSetsize} (member : fd ∈ set) (isReady : readyAt fds ready fd.val = true) :
    readyBelow fds ready (fd.val + 1) set = insert fd (readyBelow fds ready fd.val set) := by
  ext other
  simp only [readyBelow, Finset.mem_filter, Finset.mem_insert]
  constructor
  · rintro ⟨inside, below, otherReady⟩
    by_cases same : other = fd
    · exact .inl same
    · have different : other.val ≠ fd.val := fun equal => same (Fin.ext equal)
      exact .inr ⟨inside, by omega, otherReady⟩
  · rintro (same | ⟨inside, below, otherReady⟩)
    · subst other
      exact ⟨member, by omega, isReady⟩
    · exact ⟨inside, by omega, otherReady⟩

theorem readyBelow_succ_same (fds : Fds Sock) (ready : Sock → Int) (set : FdSet) (index : Nat)
    (skipped : ∀ fd ∈ set, fd.val = index → readyAt fds ready index = false) :
    readyBelow fds ready (index + 1) set = readyBelow fds ready index set := by
  ext other
  simp only [readyBelow, Finset.mem_filter]
  constructor
  · rintro ⟨inside, below, otherReady⟩
    have different : other.val ≠ index := by
      intro equal
      rw [equal, skipped other inside equal] at otherReady
      cases otherReady
    exact ⟨inside, by omega, otherReady⟩
  · rintro ⟨inside, below, otherReady⟩
    exact ⟨inside, by omega, otherReady⟩

theorem readyBelow_fresh (fds : Fds Sock) (ready : Sock → Int) (set : FdSet)
    (fd : Fin fdSetsize) : fd ∉ readyBelow fds ready fd.val set := by
  simp [readyBelow]

theorem checkSet_cases (fds : Fds Sock) (ready : Sock → Int) (set : Option FdSet)
    (index count : Nat) :
    (checkSet fds ready set index (readyBelow fds ready index (set.getD ∅))
        ((readyBelow fds ready index (set.getD ∅)).card + count) = .error .outside ∧
      fdSetsize ≤ index ∧ set ≠ none) ∨
    (checkSet fds ready set index (readyBelow fds ready index (set.getD ∅))
        ((readyBelow fds ready index (set.getD ∅)).card + count) = .error .badf ∧
      ∃ fd ∈ set.getD ∅, fd.val = index ∧ fds index = none) ∨
    (checkSet fds ready set index (readyBelow fds ready index (set.getD ∅))
        ((readyBelow fds ready index (set.getD ∅)).card + count) =
        .ok (readyBelow fds ready (index + 1) (set.getD ∅),
          (readyBelow fds ready (index + 1) (set.getD ∅)).card + count) ∧
      (index < fdSetsize ∨ set = none) ∧
      ∀ fd ∈ set.getD ∅, fd.val = index → fds index ≠ none) := by
  cases set with
  | none => right; right; simp [checkSet, readyBelow]
  | some set =>
    simp only [checkSet, Option.getD_some]
    by_cases bound : index < fdSetsize
    · right
      simp only [bound, ↓reduceDIte]
      by_cases member : ⟨index, bound⟩ ∈ set
      · simp only [member, ↓reduceIte]
        cases found : udFdGetSock fds index with
        | none => exact .inl ⟨rfl, ⟨index, bound⟩, member, rfl, found⟩
        | some so =>
          right
          have isOpen : fds index = some so := found
          refine ⟨?_, .inl trivial, fun _ _ _ => by simp [isOpen]⟩
          by_cases isReady : 0 < ready so
          · have next := readyBelow_succ_insert fds ready member (by simp [readyAt, found, isReady])
            have fresh := readyBelow_fresh fds ready set ⟨index, bound⟩
            simp only at next fresh
            simp only [isReady, ↓reduceIte, next, Finset.card_insert_of_notMem fresh]
            congr 2
            omega
          · have next := readyBelow_succ_same fds ready set index
              (fun _ _ _ => by simp [readyAt, found, isReady])
            simp [isReady, next]
      · right
        have skipped : ∀ fd ∈ set, fd.val ≠ index := by
          intro fd inside equal
          exact member (by simpa [← equal] using inside)
        have next := readyBelow_succ_same fds ready set index
          (fun fd inside equal => absurd equal (skipped fd inside))
        simp only [member, ↓reduceIte, next, true_and]
        exact ⟨.inl trivial, fun fd inside equal => absurd equal (skipped fd inside)⟩
    · left
      simp only [bound, ↓reduceDIte, true_and]
      exact ⟨by omega, by simp⟩

theorem udSelectScan_cases (args : SelectArgs) (scan : Scan Sock) (fuel index : Nat)
    (opened : ¬BadDescriptor args scan index) (inside : InBounds args index) :
    (udSelectScan args scan fuel index (progressAt args scan index) = .error .outside ∧
      ¬InBounds args (index + fuel) ∧ ¬BadDescriptor args scan (index + fuel)) ∨
    (udSelectScan args scan fuel index (progressAt args scan index) = .error .badf ∧
      BadDescriptor args scan (index + fuel)) ∨
    (udSelectScan args scan fuel index (progressAt args scan index) =
        .ok (progressAt args scan (index + fuel)) ∧
      InBounds args (index + fuel) ∧ ¬BadDescriptor args scan (index + fuel)) := by
  induction fuel generalizing index with
  | zero => exact .inr (.inr ⟨rfl, inside, opened⟩)
  | succ fuel ih =>
    have leaves (past : fdSetsize ≤ index) (some : ¬(args.readfds = none ∧ args.writefds = none)) :
        ¬InBounds args (index + (fuel + 1)) ∧ ¬BadDescriptor args scan (index + (fuel + 1)) := by
      constructor
      · rintro (bound | none)
        · omega
        · exact some none
      · rintro ⟨fd, requested, _, free⟩
        exact opened ⟨fd, requested, Nat.lt_of_lt_of_le fd.isLt past, free⟩
    have finds (fd : Fin fdSetsize) (requested : Requested args fd) (same : fd.val = index)
        (free : scan.fds index = none) : BadDescriptor args scan (index + (fuel + 1)) :=
      ⟨fd, requested, by omega, by rw [same]; exact free⟩
    rw [udSelectScan]
    rcases checkSet_cases scan.fds scan.soreadable args.readfds index
        (readyBelow scan.fds scan.sowritable index (args.writefds.getD ∅)).card with
      ⟨read, past, given⟩ | ⟨read, fd, member, same, free⟩ | ⟨read, readIn, readOpen⟩
    · left
      simp only [progressAt, read, true_and]
      exact leaves past (fun none => given none.1)
    · right; left
      simp only [progressAt, read, true_and]
      exact finds fd (.inl member) same free
    · simp only [progressAt, read]
      rw [Nat.add_comm (readyBelow scan.fds scan.soreadable (index + 1) _).card]
      rcases checkSet_cases scan.fds scan.sowritable args.writefds index
          (readyBelow scan.fds scan.soreadable (index + 1) (args.readfds.getD ∅)).card with
        ⟨write, past, given⟩ | ⟨write, fd, member, same, free⟩ | ⟨write, writeIn, writeOpen⟩
      · left
        simp only [write, true_and]
        exact leaves past (fun none => given none.2)
      · right; left
        simp only [write, true_and]
        exact finds fd (.inr member) same free
      · simp only [write]
        rw [Nat.add_comm (readyBelow scan.fds scan.sowritable (index + 1) _).card]
        have nextOpened : ¬BadDescriptor args scan (index + 1) := by
          rintro ⟨fd, requested, below, free⟩
          by_cases same : fd.val = index
          · rw [same] at free
            rcases requested with member | member
            · exact readOpen fd member same free
            · exact writeOpen fd member same free
          · exact opened ⟨fd, requested, by omega, free⟩
        have nextInside : InBounds args (index + 1) := by
          rcases readIn with below | noRead
          · exact .inl (by omega)
          · rcases writeIn with below | noWrite
            · exact .inl (by omega)
            · exact .inr ⟨noRead, noWrite⟩
        have rest := ih (index + 1) nextOpened nextInside
        rw [show index + 1 + fuel = index + (fuel + 1) by omega] at rest
        exact rest

def setSize (set : Option FdSet) : Nat :=
  (set.getD ∅).card

def SelectCorrect (args : SelectArgs) (scan : Scan Sock) : SelectOutcome → Prop
  | .returned ret sets =>
      sets.readfds = args.readfds.map (readyBelow scan.fds scan.soreadable args.nfds.toNat) ∧
      sets.writefds = args.writefds.map (readyBelow scan.fds scan.sowritable args.nfds.toNat) ∧
      sets.exceptfds = args.exceptfds.map (fun _ => ∅) ∧
      ret = setSize sets.readfds + setSize sets.writefds + setSize sets.exceptfds
  | .failed errno sets => errno = some .ebadf → sets = args.toFdSets
  | .fault => False

def AnyReady (args : SelectArgs) (scan : Scan Sock) : Prop :=
  0 < (progressAt args scan args.nfds.toNat).retval

def TimedWait (args : SelectArgs) : Prop :=
  ∃ sec usec, args.timeout = some (sec, usec) ∧ (sec ≠ 0 ∨ usec ≠ 0)

def Selectable (args : SelectArgs) (sleep : Int) (scan : Scan Sock) : Prop :=
  BadDescriptor args scan args.nfds.toNat ∨ InBounds args args.nfds.toNat ∧
    (AnyReady args scan ∧ args.readfds ≠ none ∧ args.writefds ≠ none ∧
        args.exceptfds.getD ∅ = ∅ ∨
      ¬AnyReady args scan ∧ (TimedWait args ∧ sleep ≠ 0 ∨
        args.readfds.getD ∅ = ∅ ∧ args.writefds.getD ∅ = ∅ ∧ args.exceptfds.getD ∅ = ∅))

theorem map_eq_self_iff_empty (set : Option FdSet) (change : FdSet → FdSet)
    (clears : change (set.getD ∅) = ∅) : set = set.map change ↔ set.getD ∅ = ∅ := by
  cases set with
  | none => simp
  | some set =>
    simp only [Option.getD_some] at clears
    simp [clears]

theorem progressAt_zero (args : SelectArgs) (scan : Scan Sock) :
    progressAt args scan 0 = ⟨0, ∅, ∅⟩ := by
  simp [progressAt, readyBelow_zero]

theorem not_anyReady {args : SelectArgs} {scan : Scan Sock} (idle : ¬AnyReady args scan) :
    progressAt args scan args.nfds.toNat = ⟨0, ∅, ∅⟩ := by
  simp only [AnyReady, progressAt, Nat.not_lt, Nat.le_zero, Nat.add_eq_zero_iff,
    Finset.card_eq_zero] at idle
  simp [progressAt, idle.1, idle.2]

theorem udSelectFinish_idle {args : SelectArgs} {scan : Scan Sock} (idle : ¬AnyReady args scan) :
    SelectCorrect args scan (udSelectFinish args (progressAt args scan args.nfds.toNat)) ↔
      args.readfds.getD ∅ = ∅ ∧ args.writefds.getD ∅ = ∅ ∧ args.exceptfds.getD ∅ = ∅ := by
  have nothing := not_anyReady idle
  have noRead := congrArg Progress.resRead nothing
  have noWrite := congrArg Progress.resWrite nothing
  simp only [progressAt] at noRead noWrite
  rw [nothing]
  simp only [udSelectFinish, Nat.lt_irrefl, ↓reduceIte, SelectCorrect,
    map_eq_self_iff_empty args.readfds _ noRead, map_eq_self_iff_empty args.writefds _ noWrite,
    map_eq_self_iff_empty args.exceptfds (fun _ => ∅) rfl]
  constructor
  · rintro ⟨read, write, except, _⟩
    exact ⟨read, write, except⟩
  · rintro ⟨read, write, except⟩
    exact ⟨read, write, except, by simp [setSize, read, write, except]⟩

theorem udSelectFinish_ready {args : SelectArgs} {scan : Scan Sock} (ready : AnyReady args scan) :
    SelectCorrect args scan (udSelectFinish args (progressAt args scan args.nfds.toNat)) ↔
      args.readfds ≠ none ∧ args.writefds ≠ none ∧ args.exceptfds.getD ∅ = ∅ := by
  have positive : 0 < (progressAt args scan args.nfds.toNat).retval := ready
  simp only [udSelectFinish, positive, ↓reduceIte]
  cases read : args.readfds with
  | none => simp [SelectCorrect]
  | some readSet =>
    cases write : args.writefds with
    | none => simp [SelectCorrect]
    | some writeSet =>
      simp only [SelectCorrect, progressAt, read, write, Option.map_some, Option.getD_some,
        map_eq_self_iff_empty args.exceptfds (fun _ => ∅) rfl, true_and, ne_eq, reduceCtorEq,
        not_false_eq_true]
      constructor
      · exact fun correct => correct.1
      · intro except
        exact ⟨except, by simp [setSize, except]⟩

theorem udSelectFrom_correct_iff {args : SelectArgs} {sleep : Int} {scans : Nat → Scan Sock}
    {fuel : Nat} (pass : Nat) (restarted : Bool) {outcome : SelectOutcome} {last : Nat}
    (slept : restarted = true → sleep = 0)
    (ended : udSelectFrom args sleep scans fuel pass restarted ⟨0, ∅, ∅⟩ =
      some (outcome, last)) :
    SelectCorrect args (scans last) outcome ↔ Selectable args sleep (scans last) := by
  induction fuel generalizing pass restarted with
  | zero => simp [udSelectFrom] at ended
  | succ fuel ih =>
    rw [udSelectFrom, ← progressAt_zero args (scans pass)] at ended
    rcases udSelectScan_cases args (scans pass) args.nfds.toNat 0
        (by rintro ⟨fd, _, below, _⟩; omega) (.inl (Nat.zero_le _)) with
      ⟨scanned, outside, opened⟩ | ⟨scanned, bad⟩ | ⟨scanned, inside, opened⟩
    · simp only [Nat.zero_add] at outside opened
      simp only [scanned, Option.some.injEq, Prod.mk.injEq] at ended
      obtain ⟨rfl, rfl⟩ := ended
      simp [SelectCorrect, Selectable, outside, opened]
    · simp only [Nat.zero_add] at bad
      simp only [scanned, Option.some.injEq, Prod.mk.injEq] at ended
      obtain ⟨rfl, rfl⟩ := ended
      simp [SelectCorrect, Selectable, bad]
    · simp only [Nat.zero_add] at scanned inside opened
      simp only [scanned] at ended
      by_cases ready : AnyReady args (scans pass)
      · have positive : (progressAt args (scans pass) args.nfds.toNat).retval ≠ 0 :=
          Nat.pos_iff_ne_zero.mp ready
        have finished : some (udSelectFinish args (progressAt args (scans pass)
            args.nfds.toNat), pass) = some (outcome, last) := by
          cases timeout : args.timeout with
          | none | some pair => simpa [timeout, positive] using ended
        simp only [Option.some.injEq, Prod.mk.injEq] at finished
        obtain ⟨rfl, rfl⟩ := finished
        rw [udSelectFinish_ready ready]
        simp [Selectable, inside, opened, ready]
      · have nothing := not_anyReady ready
        rw [nothing] at ended
        cases timeout : args.timeout with
        | none =>
          simp only [timeout, ↓reduceIte] at ended
          exact ih (pass + 1) restarted slept ended
        | some pair =>
          obtain ⟨sec, usec⟩ := pair
          simp only [timeout, true_and] at ended
          split at ended
          next waits =>
            split at ended
            next interrupted =>
              simp only [Option.some.injEq, Prod.mk.injEq] at ended
              obtain ⟨rfl, rfl⟩ := ended
              have timed : TimedWait args := ⟨sec, usec, timeout, waits.2⟩
              simp [SelectCorrect, Selectable, inside, ready, timed, interrupted]
            next woken =>
              exact ih (pass + 1) true (fun _ => by omega) ended
          next past =>
            simp only [Option.some.injEq, Prod.mk.injEq] at ended
            obtain ⟨rfl, rfl⟩ := ended
            have notWaiting : ¬(TimedWait args ∧ sleep ≠ 0) := by
              rintro ⟨⟨otherSec, otherUsec, same, nonzero⟩, interrupted⟩
              rw [timeout] at same
              simp only [Option.some.injEq, Prod.mk.injEq] at same
              obtain ⟨rfl, rfl⟩ := same
              cases restarted with
              | false => exact past ⟨rfl, nonzero⟩
              | true => exact interrupted (slept rfl)
            rw [← nothing, udSelectFinish_idle ready]
            simp [Selectable, inside, opened, ready, notWaiting]

/-- Whenever the call ends, the sets it leaves are right exactly when
`Selectable` holds of its arguments and of what the last pass saw. -/
theorem udSelect_correct_iff (args : SelectArgs) (sleep : Int) (scans : Nat → Scan Sock)
    (fuel last : Nat) (outcome : SelectOutcome)
    (ended : udSelect args sleep scans fuel = some (outcome, last)) :
    SelectCorrect args (scans last) outcome ↔ Selectable args sleep (scans last) :=
  udSelectFrom_correct_iff 0 false (by simp) ended

def fdThree : Fin fdSetsize :=
  ⟨3, by decide⟩

def oneSocket (readable : Int) : Scan Nat where
  fds fd := if fd = 3 then some 7 else none
  soreadable _ := readable
  sowritable _ := 0

def pollThree (writefds : Option FdSet) : SelectArgs where
  readfds := some {fdThree}
  writefds := writefds
  exceptfds := none
  nfds := 4
  timeout := some (0, 0)

theorem udSelect_correct_three :
    udSelect (pollThree (some ∅)) 0 (fun _ => oneSocket 1) 1 =
        some (.returned 1 ⟨some (insert fdThree ∅), some ∅, none⟩, 0) ∧
      SelectCorrect (pollThree (some ∅)) (oneSocket 1)
        (.returned 1 ⟨some (insert fdThree ∅), some ∅, none⟩) := by
  have ended : udSelect (pollThree (some ∅)) 0 (fun _ => oneSocket 1) 1 =
      some (.returned 1 ⟨some (insert fdThree ∅), some ∅, none⟩, 0) := rfl
  have ready : AnyReady (pollThree (some ∅)) (oneSocket 1) := by
    refine Nat.add_pos_left (Finset.card_pos.mpr ⟨fdThree, ?_⟩) _
    exact Finset.mem_filter.mpr ⟨Finset.mem_singleton_self _, by decide, rfl⟩
  refine ⟨ended, (udSelect_correct_iff _ _ _ _ _ _ ended).mpr ?_⟩
  exact .inr ⟨.inl (by decide), .inl ⟨ready, by simp [pollThree], by simp [pollThree], rfl⟩⟩

theorem udSelect_timeout_keeps_sets :
    udSelect (pollThree none) 0 (fun _ => oneSocket 0) 1 =
        some (.returned 0 ⟨some {fdThree}, none, none⟩, 0) ∧
      ¬SelectCorrect (pollThree none) (oneSocket 0) (.returned 0 ⟨some {fdThree}, none, none⟩) := by
  refine ⟨rfl, ?_⟩
  rintro ⟨read, _⟩
  have member : fdThree ∈ readyBelow (oneSocket 0).fds (oneSocket 0).soreadable
      (pollThree none).nfds.toNat {fdThree} := by
    rw [← Option.some.inj read]
    simp
  simp only [readyBelow, Finset.mem_filter] at member
  exact absurd member.2.2 (by decide)

end Libunsod.Udsock
