import Libunsod.Base.Runs
import Libunsod.Udsock.UdSocketCore

/-!
The descriptor table over whole histories of `ud_socket`, `ud_accept` and
`ud_close`. The search for a free slot answers `UD_SOCKET_DESC_MAX` when there
is none, which `ud_fd_set_sock` takes for an index.
-/

namespace Libunsod.Udsock

open Runs

variable {Sock : Type}

variable {fds : Fds Sock} {so : Sock} {state : UdState Sock} {count : Nat}

def Slot (fd : Int) : Prop :=
  1 ≤ fd ∧ fd < udSocketDescMax

def InTable (fd : Int) : Prop :=
  0 ≤ fd ∧ fd < udSocketDescMax

def HasFreeSlot (fds : Fds Sock) : Prop :=
  ∃ fd, Slot fd ∧ fds fd = none

def LowestFree (fds : Fds Sock) (fd : Int) : Prop :=
  Slot fd ∧ fds fd = none ∧ ∀ lower, 1 ≤ lower → lower < fd → fds lower ≠ none

def LiveInjective (fds : Fds Sock) : Prop :=
  ∀ first second so, InTable first → InTable second →
    fds first = some so → fds second = some so → first = second

theorem LiveInjective.set_fresh (injective : LiveInjective fds) (index : Int)
    (fresh : ∀ fd, InTable fd → fds fd ≠ some so) : LiveInjective (fds.set index (some so)) := by
  intro first second word firstIn secondIn firstLive secondLive
  by_cases firstNew : first = index
  · by_cases secondNew : second = index
    · rw [firstNew, secondNew]
    · rw [Fds.set_other _ _ secondNew] at secondLive
      simp only [firstNew, Fds.set_same, Option.some.injEq] at firstLive
      exact absurd (firstLive ▸ secondLive) (fresh second secondIn)
  · rw [Fds.set_other _ _ firstNew] at firstLive
    by_cases secondNew : second = index
    · simp only [secondNew, Fds.set_same, Option.some.injEq] at secondLive
      exact absurd (secondLive ▸ firstLive) (fresh first firstIn)
    · rw [Fds.set_other _ _ secondNew] at secondLive
      exact injective first second word firstIn secondIn firstLive secondLive

theorem LiveInjective.set_none (injective : LiveInjective fds) (index : Int) :
    LiveInjective (fds.set index none) := by
  have live (fd : Int) (so : Sock) (word : fds.set index none fd = some so) :
      fds fd = some so := by
    by_cases same : fd = index
    · simp [same] at word
    · rwa [Fds.set_other _ _ same] at word
  intro first second so firstIn secondIn firstLive secondLive
  exact injective first second so firstIn secondIn (live first so firstLive)
    (live second so secondLive)

theorem udFdGetFreeFrom_spec (fds : Fds Sock) (fuel start : Nat) :
    start ≤ udFdGetFreeFrom fds fuel start ∧ udFdGetFreeFrom fds fuel start ≤ start + fuel ∧
      (∀ index : Nat, start ≤ index → index < udFdGetFreeFrom fds fuel start →
        fds index ≠ none) ∧
      (udFdGetFreeFrom fds fuel start < start + fuel →
        fds (udFdGetFreeFrom fds fuel start) = none) := by
  induction fuel generalizing start with
  | zero =>
    refine ⟨Nat.le_refl _, Nat.le_refl _, ?_, ?_⟩
    · intro index lower upper
      simp only [udFdGetFreeFrom] at upper
      omega
    · intro below
      simp [udFdGetFreeFrom] at below
  | succ fuel ih =>
    rw [udFdGetFreeFrom]
    split
    next free =>
      refine ⟨Nat.le_refl _, by omega, ?_, ?_⟩
      · intro index lower upper
        omega
      · intro _
        simpa using free
    next taken =>
      obtain ⟨lower, upper, live, found⟩ := ih (start + 1)
      refine ⟨by omega, by omega, ?_, ?_⟩
      · intro index above below
        by_cases first : index = start
        · subst index
          simpa using taken
        · exact live index (by omega) below
      · intro below
        exact found (by omega)

theorem udFdGetFree_cases (fds : Fds Sock) :
    LowestFree fds (udFdGetFree fds) ∨
      udFdGetFree fds = udSocketDescMax ∧ ¬HasFreeSlot fds := by
  obtain ⟨lower, upper, live, found⟩ := udFdGetFreeFrom_spec fds (udSocketDescMax - 1) 1
  have size : 1 + (udSocketDescMax - 1) = udSocketDescMax := by decide
  have liveBelow : ∀ fd : Int, 1 ≤ fd →
      fd < udFdGetFreeFrom fds (udSocketDescMax - 1) 1 → fds fd ≠ none := by
    intro fd positive below
    have word := live fd.toNat (by omega) (by omega)
    rwa [Int.toNat_of_nonneg (by omega)] at word
  rw [size] at upper found
  rcases Nat.lt_or_eq_of_le upper with below | same
  · left
    refine ⟨⟨?_, ?_⟩, found below, liveBelow⟩
    · unfold udFdGetFree
      omega
    · unfold udFdGetFree
      omega
  · right
    refine ⟨by simp [udFdGetFree, same], ?_⟩
    rintro ⟨fd, slot, free⟩
    exact liveBelow fd slot.1 (by have := slot.2; omega) free

theorem udFdGetFree_lowest (free : HasFreeSlot fds) : LowestFree fds (udFdGetFree fds) :=
  (udFdGetFree_cases fds).resolve_right (fun full => full.2 free)

theorem udFdGetFree_full (full : ¬HasFreeSlot fds) : udFdGetFree fds = udSocketDescMax :=
  ((udFdGetFree_cases fds).resolve_left
    (fun lowest => full ⟨_, lowest.1, lowest.2.1⟩)).1

theorem udFdSetSock_eq (fds : Fds Sock) (sock : Option Sock) :
    udFdSetSock fds sock = (fds.set (udFdGetFree fds) sock, udFdGetFree fds) := by
  have nonneg : udFdGetFree fds ≠ -1 := by
    unfold udFdGetFree
    omega
  simp [udFdSetSock, nonneg]

inductive TableOp
  | socket (domain type protocol : Int)
  | accept (sockfd : Int)
  | close (sockfd : Int)

structure TableCall (Sock : Type) where
  stack : Stack Sock
  op : TableOp

variable {call : TableCall Sock}

def TableCall.exec (call : TableCall Sock) (state : UdState Sock) : UdState Sock × Int :=
  match call.op with
  | .socket domain type protocol => udSocket call.stack domain type protocol state
  | .accept sockfd => udAccept call.stack sockfd state
  | .close sockfd => udClose call.stack sockfd state

def TableCall.step (state : UdState Sock) (call : TableCall Sock) : UdState Sock :=
  (call.exec state).1

def TableCall.answer (call : TableCall Sock) (state : UdState Sock) :
    Option (Int × Option Sock) :=
  match call.op with
  | .socket domain type _ => some (call.stack.socreate domain type 0)
  | .accept sockfd => (udFdGetSock state.fds sockfd).map call.stack.soaccept
  | .close _ => none

def TableCall.opens (call : TableCall Sock) : Prop :=
  ∀ sockfd, call.op ≠ .close sockfd

def NewAnswer (state : UdState Sock) (call : TableCall Sock) : Prop :=
  ∀ error word, call.answer state = some (error, word) → error = 0 →
    ∃ so, word = some so ∧ ∀ fd, InTable fd → state.fds fd ≠ some so

structure CallCorrect (state : UdState Sock) (call : TableCall Sock)
    (next : UdState Sock) (ret : Int) : Prop where
  opened : ∀ so, call.answer state = some (0, some so) → HasFreeSlot state.fds →
    LowestFree state.fds ret ∧ next.fds ret = some so
  kept : ∀ fd so, InTable fd → state.fds fd = some so → call.op ≠ .close fd →
    next.fds fd = some so
  closed : ∀ fd, call.op = .close fd → next.fds fd = none
  full : call.opens → ¬HasFreeSlot state.fds → ret = -1 ∧ next.fds = state.fds
  injective : LiveInjective next.fds

def Room (state : UdState Sock) (call : TableCall Sock) : Prop :=
  (call.answer state).isSome → HasFreeSlot state.fds

theorem install_correct (opens : call.opens) (free : HasFreeSlot state.fds)
    (injective : LiveInjective state.fds) (answered : call.answer state = some (0, some so))
    (fresh : ∀ fd, InTable fd → state.fds fd ≠ some so) :
    CallCorrect state call { state with fds := state.fds.set (udFdGetFree state.fds) (some so) }
      (udFdGetFree state.fds) := by
  have lowest := udFdGetFree_lowest free
  have others (fd : Int) (word : Sock) (live : state.fds fd = some word) :
      fd ≠ udFdGetFree state.fds := by
    intro same
    rw [same, lowest.2.1] at live
    cases live
  refine ⟨?_, ?_, ?_, ?_, ?_⟩
  · intro other same _
    have equal : other = so := by
      rw [answered] at same
      simpa using same.symm
    exact ⟨lowest, by simp [equal]⟩
  · intro fd word _ live _
    simp only [Fds.set_other _ _ (others fd word live), live]
  · intro fd close
    exact absurd close (opens fd)
  · intro _ full
    exact absurd free full
  · exact injective.set_fresh _ fresh

theorem unchanged_correct (ret : Int) (opens : call.opens) (injective : LiveInjective state.fds)
    (failed : ∀ so, call.answer state ≠ some (0, some so))
    (full : ¬HasFreeSlot state.fds → ret = -1) : CallCorrect state call state ret where
  opened so answered := absurd answered (failed so)
  kept _ _ _ live _ := live
  closed fd close := absurd close (opens fd)
  full _ none := ⟨full none, rfl⟩
  injective := injective

theorem close_correct (stack : Stack Sock) (sockfd : Int) (injective : LiveInjective state.fds) :
    CallCorrect state ⟨stack, .close sockfd⟩ (udClose stack sockfd state).1
      (udClose stack sockfd state).2 := by
  refine ⟨?_, ?_, ?_, ?_, ?_⟩
  · intro so answered
    simp [TableCall.answer] at answered
  · intro fd so _ live other
    have different : fd ≠ sockfd := fun same => other (by rw [same])
    simpa [udClose, udFdFree, Fds.set_other _ _ different] using live
  · intro fd close
    simp only [TableOp.close.injEq] at close
    simp [udClose, udFdFree, close]
  · intro opens
    exact absurd rfl (opens sockfd)
  · exact injective.set_none sockfd

theorem answered_correct (error : Int) (word : Option Sock) (opens : call.opens)
    (answered : call.answer state = some (error, word))
    (result : call.exec state = if error = 0 then
      ({ state with fds := (udFdSetSock state.fds word).1 }, (udFdSetSock state.fds word).2)
      else (state, error)) (injective : LiveInjective state.fds) (new : NewAnswer state call)
    (room : Room state call) : CallCorrect state call (call.exec state).1 (call.exec state).2 := by
  have free : HasFreeSlot state.fds := room (by simp [answered])
  rw [result]
  by_cases success : error = 0
  · obtain ⟨so, stored, fresh⟩ := new error word answered success
    subst success stored
    simp only [↓reduceIte, udFdSetSock_eq]
    exact install_correct opens free injective answered fresh
  · simp only [success, ↓reduceIte]
    apply unchanged_correct error opens injective
    · intro so same
      rw [answered] at same
      simp only [Option.some.injEq, Prod.mk.injEq] at same
      exact success same.1
    · exact fun none => absurd free none

theorem call_correct (injective : LiveInjective state.fds) (new : NewAnswer state call)
    (room : Room state call) : CallCorrect state call (call.exec state).1 (call.exec state).2 := by
  obtain ⟨stack, op⟩ := call
  cases op with
  | socket domain type protocol =>
    exact answered_correct (stack.socreate domain type 0).1
      (stack.socreate domain type 0).2 (by intro fd; simp) rfl
      (by simp only [TableCall.exec, udSocket]) injective new room
  | accept sockfd =>
    cases found : udFdGetSock state.fds sockfd with
    | none =>
      have result : TableCall.exec ⟨stack, .accept sockfd⟩ state = (state, -1) := by
        simp [TableCall.exec, udAccept, found]
      rw [result]
      exact unchanged_correct (-1) (by intro fd; simp) injective
        (by intro so; simp [TableCall.answer, found]) (fun _ => rfl)
    | some so =>
      exact answered_correct (stack.soaccept so).1 (stack.soaccept so).2
        (by intro fd; simp) (by simp [TableCall.answer, found])
        (by simp only [TableCall.exec, udAccept, found]) injective new room
  | close sockfd => exact close_correct stack sockfd injective

theorem emptyTable_injective {start : UdState Sock}
    (empty : ∀ fd, InTable fd → start.fds fd = none) : LiveInjective start.fds := by
  intro first second so firstIn _ firstLive _
  rw [empty first firstIn] at firstLive
  cases firstLive

/-- In every history from an empty table in which no socket is asked for while
every slot is taken, each call does to the table what its result says. -/
theorem table_history_correct (start state : UdState Sock) (calls : List (TableCall Sock))
    (empty : ∀ fd, InTable fd → start.fds fd = none)
    (run : Run (Guarded (fun state call => NewAnswer state call ∧ Room state call)
      TableCall.step) start calls state) :
    LiveInjective state.fds ∧ ∀ call, NewAnswer state call → Room state call →
      CallCorrect state call (call.exec state).1 (call.exec state).2 := by
  have injective : LiveInjective state.fds := by
    apply run.invariant (fun state => LiveInjective state.fds) (emptyTable_injective empty)
    rintro state call next live ⟨⟨new, room⟩, rfl⟩
    exact (call_correct live new room).injective
  exact ⟨injective, fun call new room => call_correct injective new room⟩

theorem LowestFree.unique {first second : Int} (left : LowestFree fds first)
    (right : LowestFree fds second) : first = second := by
  rcases Int.lt_trichotomy first second with below | same | above
  · exact absurd left.2.1 (right.2.2 first left.1.1 below)
  · exact same
  · exact absurd right.2.1 (left.2.2 second right.1.1 above)

def openStack (so : Nat) : Stack Nat where
  socreate _ _ _ := (0, some so)
  soaccept _ := (0, some so)
  sobind _ _ := 0
  soconnect _ _ := 0
  solisten _ _ := 0
  soreceive _ _ _ := (0, [], none)
  sosend _ _ _ _ := (0, 0)
  sosetsockopt _ _ _ _ := 0
  sogetsockopt _ _ _ _ := (0, [])
  soclose _ := 0

def openCall (so : Nat) : TableCall Nat :=
  ⟨openStack so, .socket 2 1 0⟩

def opened (count : Nat) : UdState Nat where
  fds fd := if 1 ≤ fd ∧ fd ≤ count then some (fd.toNat - 1) else none
  errno := 0

theorem opened_newAnswer (count : Nat) : NewAnswer (opened count) (openCall count) := by
  intro error word answered _
  simp only [openCall, TableCall.answer, openStack, Option.some.injEq, Prod.mk.injEq] at answered
  refine ⟨count, answered.2.symm, ?_⟩
  intro fd _ live
  simp only [opened] at live
  split at live
  · simp only [Option.some.injEq] at live
    omega
  · cases live

theorem opened_lowestFree (below : count + 1 < udSocketDescMax) :
    LowestFree (opened count).fds (count + 1) := by
  refine ⟨⟨by omega, by omega⟩, ?_, ?_⟩
  · simp only [opened, ite_eq_right_iff, reduceCtorEq, imp_false, not_and, Int.not_le]
    omega
  · intro lower positive smaller
    have inside : lower ≤ count := by omega
    simp [opened, positive, inside]

theorem opened_step (below : count + 1 < udSocketDescMax) :
    TableCall.step (opened count) (openCall count) = opened (count + 1) := by
  have lowest := opened_lowestFree below
  have found : udFdGetFree (opened count).fds = count + 1 :=
    (udFdGetFree_lowest ⟨_, lowest.1, lowest.2.1⟩).unique lowest
  simp only [TableCall.step, TableCall.exec, openCall, udSocket, openStack, ↓reduceIte,
    udFdSetSock_eq, found]
  simp only [opened, UdState.mk.injEq, and_true]
  funext fd
  by_cases last : fd = count + 1
  · subst fd
    simp only [Fds.set_same]
    rw [if_pos (by omega)]
    simp
  · rw [Fds.set_other _ _ last]
    by_cases inside : 1 ≤ fd ∧ fd ≤ count
    · rw [if_pos inside, if_pos (by omega)]
    · rw [if_neg inside, if_neg (by omega)]

theorem opened_run (below : count < udSocketDescMax) :
    Run (Guarded (fun state call => NewAnswer state call ∧ Room state call) TableCall.step)
      (opened 0) ((List.range count).map openCall) (opened count) := by
  induction count with
  | zero => exact Run.nil
  | succ count ih =>
    have lowest := opened_lowestFree below
    rw [List.range_succ, List.map_append]
    exact Run.snoc (ih (by omega))
      ⟨⟨opened_newAnswer count, fun _ => ⟨_, lowest.1, lowest.2.1⟩⟩, opened_step below⟩

theorem table_history_correct_two :
    LiveInjective (opened 2).fds ∧
      CallCorrect (opened 2) (openCall 2) ((openCall 2).exec (opened 2)).1
        ((openCall 2).exec (opened 2)).2 := by
  have below : 2 + 1 < udSocketDescMax := by decide
  have lowest := opened_lowestFree below
  have empty : ∀ fd, InTable fd → (opened 0).fds fd = none := by
    intro fd _
    simp only [opened, ite_eq_right_iff]
    omega
  have history := table_history_correct (opened 0) (opened 2) _ empty
    (opened_run (by decide))
  exact ⟨history.1, history.2 (openCall 2) (opened_newAnswer 2)
    (fun _ => ⟨_, lowest.1, lowest.2.1⟩)⟩

theorem table_full_stores_outside :
    Run (Guarded NewAnswer TableCall.step) (opened 0) ((List.range 65515).map openCall)
        (opened 65515) ∧
      NewAnswer (opened 65515) (openCall 65515) ∧
      ((openCall 65515).exec (opened 65515)).2 = 65516 ∧
      ((openCall 65515).exec (opened 65515)).1.fds 65516 ≠ (opened 65515).fds 65516 ∧
      ¬CallCorrect (opened 65515) (openCall 65515) ((openCall 65515).exec (opened 65515)).1
        ((openCall 65515).exec (opened 65515)).2 := by
  have full : ¬HasFreeSlot (opened 65515).fds := by
    rintro ⟨fd, ⟨positive, below⟩, free⟩
    simp only [udSocketDescMax] at below
    simp only [opened, ite_eq_right_iff, reduceCtorEq, imp_false, not_and] at free
    omega
  have found := udFdGetFree_full full
  have result : (openCall 65515).exec (opened 65515) =
      ({ opened 65515 with fds := (opened 65515).fds.set 65516 (some 65515) }, 65516) := by
    simp only [TableCall.exec, openCall, udSocket, openStack, ↓reduceIte, udFdSetSock_eq, found]
    rfl
  refine ⟨?_, opened_newAnswer _, ?_, ?_, ?_⟩
  · exact (opened_run (by decide)).mono (fun _ _ _ moved => ⟨moved.1.1, moved.2⟩)
  · rw [result]
  · rw [result]
    simp [opened]
  · intro correct
    have answer := (correct.full (by intro fd; simp [openCall]) full).1
    rw [result] at answer
    revert answer
    decide

end Libunsod.Udsock
