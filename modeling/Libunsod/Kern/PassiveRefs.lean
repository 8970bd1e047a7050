import Libunsod.Base.Runs
import Mathlib.Logic.Function.Basic

/-!
The references of the two sockets of a passive pair. `sonewconn` puts the server socket on the
queue `so_incomp` of its listening socket, where it has none of the four references and is only
waited for; `soisconnected` moves it to `so_comp`. From then on every call that drops a reference
ends in `sofree`, which looks at both sockets and disposes of both or of none.
-/

namespace Libunsod.Kern

open Runs
open Function (update update_of_ne update_self)

inductive PairSide where
  | server
  | client
  deriving DecidableEq

variable {side : PairSide}

def PairSide.peer : PairSide → PairSide
  | server => client
  | client => server

/-- `so_qstate`: on no queue, on `so_incomp` or on `so_comp`. -/
inductive Qstate where
  | off
  | incomp
  | comp
  deriving DecidableEq

structure PairSocket where
  nofdref : Bool
  soCount : Nat
  protoref : Bool
  qstate : Qstate

def PairSocket.sqComp (socket : PairSocket) : Bool := socket.qstate == .comp

def PairSocket.sohasrefs (socket : PairSocket) : Bool :=
  !socket.nofdref || socket.soCount != 0 || socket.protoref || socket.sqComp

inductive Handle where
  | absent
  | accepting
  | opened
  | closing
  | closed
  deriving DecidableEq

def Handle.count : Handle → Nat
  | absent => 0
  | accepting => 1
  | opened => 1
  | closing => 1
  | closed => 0

structure PairState where
  socks : PairSide → PairSocket
  handles : PairSide → Handle
  extra : PairSide → Nat
  disposed : PairSide → Nat
  panicked : Bool

namespace PairState

def start : PairState where
  socks
    | .server => ⟨true, 0, false, .incomp⟩
    | .client => ⟨true, 0, false, .off⟩
  handles _ := .absent
  extra _ := 0
  disposed _ := 0
  panicked := false

def modify (state : PairState) (side : PairSide) (change : PairSocket → PairSocket) : PairState :=
  { state with socks := update state.socks side (change (state.socks side)) }

def setHandle (state : PairState) (side : PairSide) (handle : Handle) : PairState :=
  { state with handles := update state.handles side handle }

def setExtra (state : PairState) (side : PairSide) (extra : Nat) : PairState :=
  { state with extra := update state.extra side extra }

def sofreeDispose (state : PairState) (side : PairSide) : PairState :=
  { state with disposed := update state.disposed side (state.disposed side + 1) }

def sofree (state : PairState) (side : PairSide) : PairState :=
  if (state.socks side).sohasrefs || (state.socks side.peer).sohasrefs then state
  else (state.sofreeDispose side).sofreeDispose side.peer

def soref (state : PairState) (side : PairSide) : PairState :=
  state.modify side fun socket => { socket with soCount := socket.soCount + 1 }

def sorele (state : PairState) (side : PairSide) : PairState :=
  if (state.socks side).soCount = 0 then { state with panicked := true }
  else
    let next := state.modify side fun socket => { socket with soCount := socket.soCount - 1 }
    if (next.socks side).soCount = 0 then next.sofree side else next

def soisconnected (state : PairState) : PairState :=
  state.modify .server fun socket => { socket with qstate := .comp }

def uinetSoaccept (state : PairState) : PairState :=
  (((state.soref .server).modify .server fun socket => { socket with qstate := .off }).soref
    .client).setHandle .server .accepting |>.setHandle .client .accepting

def soaccept (state : PairState) : PairState :=
  (state.modify .server fun socket => { socket with nofdref := false }).setHandle .server .opened
    |>.setHandle .client .opened

def pruClose (state : PairState) (side : PairSide) (kept : Bool) : PairState :=
  if kept then state.modify side fun socket => { socket with protoref := true } else state

def soclose (state : PairState) (side : PairSide) : PairState :=
  ((state.modify side fun socket => { socket with nofdref := true }).setHandle side .closed).sorele
    side

def protoFree (state : PairState) (side : PairSide) : PairState :=
  (state.modify side fun socket => { socket with protoref := false }).sofree side

def soabort (state : PairState) (serverKept clientKept : Bool) : PairState :=
  let dequeued := state.modify .server fun socket => { socket with qstate := .off }
  let aborted := dequeued.pruClose .server serverKept
  let both :=
    if (aborted.socks .client).sohasrefs then aborted else aborted.pruClose .client clientKept
  both.sofree .server

end PairState

inductive PairStep where
  | connected
  | accept
  | accepted
  | close (side : PairSide) (kept : Bool)
  | closed (side : PairSide)
  | soref (side : PairSide)
  | sorele (side : PairSide)
  | protoFree (side : PairSide)
  | soabort (serverKept clientKept : Bool)

variable {label : PairStep}

namespace PairState

def Enabled (state : PairState) : PairStep → Prop
  | .connected => (state.socks .server).qstate = .incomp
  | .accept => (state.socks .server).sqComp = true
  | .accepted => state.handles .server = .accepting
  | .close side _ => state.handles side = .opened
  | .closed side => state.handles side = .closing
  | .soref side => state.handles side = .opened ∨ 0 < state.extra side
  | .sorele side => 0 < state.extra side
  | .protoFree side => (state.socks side).protoref = true
  | .soabort _ _ => (state.socks .server).qstate ≠ .off

instance (state : PairState) (label : PairStep) : Decidable (state.Enabled label) :=
  match label with
  | .connected => inferInstanceAs (Decidable ((state.socks .server).qstate = .incomp))
  | .accept => inferInstanceAs (Decidable ((state.socks .server).sqComp = true))
  | .accepted => inferInstanceAs (Decidable (state.handles .server = .accepting))
  | .close side _ => inferInstanceAs (Decidable (state.handles side = .opened))
  | .closed side => inferInstanceAs (Decidable (state.handles side = .closing))
  | .soref side => inferInstanceAs (Decidable (state.handles side = .opened ∨ 0 < state.extra side))
  | .sorele side => inferInstanceAs (Decidable (0 < state.extra side))
  | .protoFree side => inferInstanceAs (Decidable ((state.socks side).protoref = true))
  | .soabort _ _ => inferInstanceAs (Decidable ((state.socks .server).qstate ≠ .off))

def step (state : PairState) : PairStep → PairState
  | .connected => state.soisconnected
  | .accept => state.uinetSoaccept
  | .accepted => state.soaccept
  | .close side kept => (state.pruClose side kept).setHandle side .closing
  | .closed side => state.soclose side
  | .soref side => (state.soref side).setExtra side (state.extra side + 1)
  | .sorele side => (state.setExtra side (state.extra side - 1)).sorele side
  | .protoFree side => state.protoFree side
  | .soabort serverKept clientKept => state.soabort serverKept clientKept

def HasRefs (state : PairState) : Prop :=
  ∃ side, (state.socks side).sohasrefs = true

end PairState

def pairMove : PairState → PairStep → PairState → Prop :=
  Guarded PairState.Enabled PairState.step

theorem PairSide.eq_or_peer (side other : PairSide) : other = side ∨ other = side.peer := by
  cases side <;> cases other <;> simp [PairSide.peer]

theorem PairSide.peer_ne (side : PairSide) : side.peer ≠ side := by
  cases side <;> rintro ⟨⟩

namespace PairState

variable {state : PairState}

structure Counted (socket : PairSocket) (handle : Handle) (extra owed : Nat) : Prop where
  total : socket.soCount = extra + handle.count + owed
  descriptor : socket.nofdref = false → handle.count = 1

structure Held (state : PairState) (owed : PairSide → Nat) : Prop where
  counted : ∀ side, Counted (state.socks side) (state.handles side) (state.extra side) (owed side)
  settled : (state.socks .server).qstate ≠ .incomp
  queued : (state.socks .server).sqComp = true → ∀ side, state.handles side = .absent
  pending : state.handles .server = .accepting → state.handles .client = .accepting
  running : state.panicked = false

def noneOwed : PairSide → Nat := fun _ => 0

def oneOwed (side : PairSide) : PairSide → Nat := update noneOwed side 1

structure Sound (state : PairState) : Prop where
  held : state.Held noneOwed
  spared : state.HasRefs → ∀ side, state.disposed side = 0
  gone : ¬state.HasRefs → ∀ side, state.disposed side = 1

theorem hasRefs_of_count (side : PairSide) (count : (state.socks side).soCount ≠ 0) :
    state.HasRefs :=
  ⟨side, by simp [PairSocket.sohasrefs, count]⟩

theorem hasRefs_of_protoref (kept : (state.socks side).protoref = true) : state.HasRefs :=
  ⟨side, by simp [PairSocket.sohasrefs, kept]⟩

theorem hasRefs_of_sqComp (side : PairSide) (queued : (state.socks side).sqComp = true) :
    state.HasRefs :=
  ⟨side, by simp [PairSocket.sohasrefs, queued]⟩

section Held

variable {owed : PairSide → Nat}

theorem Held.hasRefs_of_holders (held : state.Held owed) (side : PairSide)
    (holders : 0 < state.extra side + (state.handles side).count) : state.HasRefs := by
  have total := (held.counted side).total
  exact hasRefs_of_count side (by omega)

theorem Held.sqComp_of_queued (held : state.Held owed)
    (queued : (state.socks .server).qstate ≠ .off) : (state.socks .server).sqComp = true := by
  have settled := held.settled
  cases place : (state.socks .server).qstate with
  | off => exact absurd place queued
  | incomp => exact absurd place settled
  | comp => simp [PairSocket.sqComp, place]

theorem Held.enabled_hasRefs (held : state.Held owed) (enabled : state.Enabled label) :
    state.HasRefs := by
  have holds : ∀ side handle, state.handles side = handle → handle.count = 1 →
      state.HasRefs := by
    intro side handle is one
    exact held.hasRefs_of_holders side (by rw [is, one]; omega)
  cases label with
  | connected => exact absurd enabled held.settled
  | accept => exact hasRefs_of_sqComp .server enabled
  | soabort serverKept clientKept => exact hasRefs_of_sqComp .server (held.sqComp_of_queued enabled)
  | accepted => exact holds .server .accepting enabled rfl
  | close side kept => exact holds side .opened enabled rfl
  | closed side => exact holds side .closing enabled rfl
  | soref side =>
    rcases enabled with opened | holders
    · exact holds side .opened opened rfl
    · exact held.hasRefs_of_holders side (by omega)
  | sorele side => exact held.hasRefs_of_holders side (Nat.add_pos_left enabled _)
  | protoFree side => exact hasRefs_of_protoref enabled

theorem Held.modify (held : state.Held owed) {change : PairSocket → PairSocket}
    {left : PairSide → Nat}
    (counted : Counted (change (state.socks side)) (state.handles side) (state.extra side)
      (left side)) (others : ∀ other, other ≠ side → left other = owed other)
    (place : (change (state.socks side)).qstate = .off ∨
      (change (state.socks side)).qstate = (state.socks side).qstate) :
    (state.modify side change).Held left where
  counted other := by
    by_cases same : other = side
    · subst same
      simpa [PairState.modify] using counted
    · rw [others other same]
      simpa [PairState.modify, update_of_ne same] using held.counted other
  settled := by
    by_cases same : PairSide.server = side
    · subst same
      rcases place with off | kept
      · simp [PairState.modify, off]
      · simpa [PairState.modify, kept] using held.settled
    · simpa [PairState.modify, update_of_ne same] using held.settled
  queued waits := by
    by_cases same : PairSide.server = side
    · subst same
      rcases place with off | kept
      · simp [PairState.modify, PairSocket.sqComp, off] at waits
      · exact held.queued (by simpa [PairState.modify, PairSocket.sqComp, kept] using waits)
    · exact held.queued (by simpa [PairState.modify, update_of_ne same] using waits)
  pending := held.pending
  running := held.running

theorem Held.setHandle (held : state.Held owed) {handle : Handle} {left : PairSide → Nat}
    (total : handle.count + left side = (state.handles side).count + owed side)
    (descriptor : (state.socks side).nofdref = false → handle.count = 1)
    (others : ∀ other, other ≠ side → left other = owed other)
    (present : state.handles side ≠ .absent) (settled : state.handles side ≠ .accepting)
    (settles : handle ≠ .accepting) : (state.setHandle side handle).Held left where
  counted other := by
    have counted := held.counted other
    by_cases same : other = side
    · subst same
      refine ⟨?_, by simpa [PairState.setHandle] using descriptor⟩
      have count := counted.total
      simp only [PairState.setHandle, update_self]
      omega
    · rw [others other same]
      simpa [PairState.setHandle, update_of_ne same] using counted
  settled := held.settled
  queued waits := absurd (held.queued waits side) present
  pending := by
    cases side with
    | server => exact fun accepting => absurd accepting settles
    | client => exact fun accepting => absurd (held.pending accepting) settled
  running := held.running

theorem Held.setExtra (held : state.Held owed) {extra : Nat} {left : PairSide → Nat}
    (total : extra + left side = state.extra side + owed side)
    (others : ∀ other, other ≠ side → left other = owed other) :
    (state.setExtra side extra).Held left where
  counted other := by
    have counted := held.counted other
    by_cases same : other = side
    · subst same
      refine ⟨?_, counted.descriptor⟩
      have count := counted.total
      simp only [PairState.setExtra, update_self]
      omega
    · rw [others other same]
      simpa [PairState.setExtra, update_of_ne same] using counted
  settled := held.settled
  queued := held.queued
  pending := held.pending
  running := held.running

theorem Held.pruClose (held : state.Held owed) (side : PairSide) (kept : Bool) :
    (state.pruClose side kept).Held owed := by
  unfold PairState.pruClose
  split
  · have counted := held.counted side
    exact held.modify ⟨counted.total, counted.descriptor⟩ (fun _ _ => rfl) (.inr rfl)
  · exact held

theorem Held.sound_of_refs (held : state.Held noneOwed) (refs : state.HasRefs)
    (spared : ∀ side, state.disposed side = 0) : state.Sound :=
  ⟨held, fun _ => spared, fun none => absurd refs none⟩

theorem Held.sofree (held : state.Held noneOwed) (spared : ∀ side, state.disposed side = 0)
    (side : PairSide) : (state.sofree side).Sound := by
  unfold PairState.sofree
  by_cases refs : ((state.socks side).sohasrefs || (state.socks side.peer).sohasrefs) = true
  · rw [if_pos refs]
    rcases Bool.or_eq_true_iff.mp refs with own | peer
    · exact held.sound_of_refs ⟨side, own⟩ spared
    · exact held.sound_of_refs ⟨side.peer, peer⟩ spared
  · rw [if_neg refs]
    rw [Bool.or_eq_true_iff, not_or] at refs
    refine ⟨⟨held.counted, held.settled, held.queued, held.pending, held.running⟩, ?_, ?_⟩
    · rintro ⟨other, has⟩
      rcases side.eq_or_peer other with rfl | rfl
      · exact absurd has refs.1
      · exact absurd has refs.2
    · intro _ other
      rcases side.eq_or_peer other with rfl | rfl
      · simp [sofreeDispose, update_of_ne (PairSide.peer_ne other).symm, spared]
      · simp [sofreeDispose, update_of_ne side.peer_ne, spared]

theorem oneOwed_self (side : PairSide) : oneOwed side side = 1 := by
  rw [oneOwed, update_self]

theorem oneOwed_of_ne (side other : PairSide) (differs : other ≠ side) :
    oneOwed side other = noneOwed other := by
  rw [oneOwed, update_of_ne differs]

theorem Held.sorele (held : state.Held (oneOwed side)) (spared : ∀ side, state.disposed side = 0) :
    (state.sorele side).Sound := by
  have own := held.counted side
  have total := own.total
  rw [oneOwed_self] at total
  have released : (state.modify side fun socket =>
      { socket with soCount := socket.soCount - 1 }).Held noneOwed := by
    refine held.modify ⟨?_, own.descriptor⟩ (fun other differs => ?_) (.inr rfl)
    · simp only [noneOwed]
      omega
    · exact (oneOwed_of_ne side other differs).symm
  unfold PairState.sorele
  rw [if_neg (by omega)]
  simp only
  by_cases last : ((state.modify side fun socket =>
      { socket with soCount := socket.soCount - 1 }).socks side).soCount = 0
  · rw [if_pos last]
    exact released.sofree spared side
  · rw [if_neg last]
    exact released.sound_of_refs (hasRefs_of_count side last) spared

end Held

section Steps

variable (sound : state.Sound)

include sound

theorem Sound.accept (enabled : state.Enabled .accept) : (state.step .accept).Sound := by
  have refs := sound.held.enabled_hasRefs enabled
  have absent := sound.held.queued enabled
  have fresh : ∀ side, (state.socks side).nofdref = false → False := by
    intro side opened
    have one := (sound.held.counted side).descriptor opened
    rw [absent side] at one
    exact absurd one (by decide)
  refine Held.sound_of_refs ⟨?_, by rintro ⟨⟩, ?_, ?_, sound.held.running⟩ ?_ (sound.spared refs)
  · intro side
    have total := (sound.held.counted side).total
    rw [absent side] at total
    cases side with
    | server => exact ⟨congrArg (· + 1) total, fun opened => (fresh .server opened).elim⟩
    | client => exact ⟨congrArg (· + 1) total, fun opened => (fresh .client opened).elim⟩
  · intro waits
    exact absurd waits (by
      simp [step, uinetSoaccept, PairState.soref, modify, setHandle, PairSocket.sqComp])
  · exact fun _ => rfl
  · exact hasRefs_of_count .server (Nat.succ_ne_zero _)

theorem Sound.accepted (enabled : state.Enabled .accepted) : (state.step .accepted).Sound := by
  have refs := sound.held.enabled_hasRefs enabled
  have client := sound.held.pending enabled
  refine Held.sound_of_refs ⟨?_, sound.held.settled, ?_, ?_, sound.held.running⟩ ?_
    (sound.spared refs)
  · intro side
    have total := (sound.held.counted side).total
    cases side with
    | server =>
      rw [enabled] at total
      exact ⟨total, fun _ => rfl⟩
    | client =>
      rw [client] at total
      exact ⟨total, fun _ => rfl⟩
  · intro waits
    have absent := sound.held.queued waits .server
    rw [enabled] at absent
    cases absent
  · rintro ⟨⟩
  · have total := (sound.held.counted .server).total
    rw [enabled] at total
    exact hasRefs_of_count .server (by
      show (state.socks .server).soCount ≠ 0
      rw [total]
      exact Nat.succ_ne_zero _)

theorem Sound.close {kept : Bool} (enabled : state.Enabled (.close side kept)) :
    (state.step (.close side kept)).Sound := by
  have refs := sound.held.enabled_hasRefs enabled
  have told := sound.held.pruClose side kept
  have handles : (state.pruClose side kept).handles = state.handles := by
    unfold pruClose
    split <;> rfl
  have opened : (state.pruClose side kept).handles side = .opened := by
    rw [handles]
    exact enabled
  have spared : ∀ other, (state.step (.close side kept)).disposed other = 0 := by
    intro other
    rw [← sound.spared refs other]
    simp only [step, pruClose, setHandle]
    split <;> rfl
  have held : (state.step (.close side kept)).Held noneOwed := by
    refine told.setHandle ?_ (fun _ => rfl) (fun _ _ => rfl) ?_ ?_ (by rintro ⟨⟩)
    · rw [opened]
      rfl
    · rw [opened]
      rintro ⟨⟩
    · rw [opened]
      rintro ⟨⟩
  refine held.sound_of_refs (held.hasRefs_of_holders side ?_) spared
  simp [step, setHandle, Handle.count]

theorem Sound.closed (enabled : state.Enabled (.closed side)) :
    (state.step (.closed side)).Sound := by
  have refs := sound.held.enabled_hasRefs enabled
  have closing : state.handles side = .closing := enabled
  have counted := sound.held.counted side
  have flagged : (state.modify side fun socket => { socket with nofdref := true }).Held
      noneOwed := by
    refine sound.held.modify ⟨counted.total, ?_⟩ (fun _ _ => rfl) (.inr rfl)
    rintro ⟨⟩
  refine Held.sorele (flagged.setHandle ?_ ?_ (oneOwed_of_ne side) ?_ ?_ (by rintro ⟨⟩))
    (sound.spared refs)
  · rw [oneOwed_self]
    simp [modify, closing, Handle.count, noneOwed]
  · simp [modify]
  · simp [modify, closing]
  · simp [modify, closing]

theorem Sound.soref (enabled : state.Enabled (.soref side)) : (state.step (.soref side)).Sound := by
  have refs := sound.held.enabled_hasRefs enabled
  have counted := sound.held.counted side
  have taken : (state.soref side).Held (oneOwed side) := by
    refine sound.held.modify ⟨?_, counted.descriptor⟩ (oneOwed_of_ne side) (.inr rfl)
    rw [oneOwed_self]
    exact congrArg (· + 1) counted.total
  have held : (state.step (.soref side)).Held noneOwed := by
    refine taken.setExtra ?_ fun other differs => (oneOwed_of_ne side other differs).symm
    rw [oneOwed_self]
    rfl
  refine held.sound_of_refs (held.hasRefs_of_holders side ?_) (sound.spared refs)
  simp only [step, setExtra, update_self]
  omega

theorem Sound.sorele (enabled : state.Enabled (.sorele side)) :
    (state.step (.sorele side)).Sound := by
  have refs := sound.held.enabled_hasRefs enabled
  have holders : 0 < state.extra side := enabled
  refine Held.sorele (sound.held.setExtra ?_ (oneOwed_of_ne side)) (sound.spared refs)
  rw [oneOwed_self]
  simp only [noneOwed]
  omega

theorem Sound.protoFree (enabled : state.Enabled (.protoFree side)) :
    (state.step (.protoFree side)).Sound := by
  have refs := sound.held.enabled_hasRefs enabled
  have counted := sound.held.counted side
  exact Held.sofree (sound.held.modify ⟨counted.total, counted.descriptor⟩ (fun _ _ => rfl)
    (.inr rfl)) (sound.spared refs) side

end Steps

/-- `soabort` asks of a pair only what its dequeued server socket leaves, so it is the same from
either queue. -/
theorem soabort_sound (serverKept clientKept : Bool)
    (dequeued : (state.modify .server fun socket => { socket with qstate := .off }).Held noneOwed)
    (spared : ∀ side, state.disposed side = 0) :
    (state.step (.soabort serverKept clientKept)).Sound := by
  have server := dequeued.pruClose .server serverKept
  simp only [step, PairState.soabort]
  refine Held.sofree ?_ ?_ .server
  · split
    · exact server
    · exact server.pruClose .client clientKept
  · intro side
    rw [← spared side]
    simp only [PairState.pruClose]
    split <;> split <;> try split
    all_goals rfl

theorem Sound.step (sound : state.Sound) (enabled : state.Enabled label) :
    (state.step label).Sound := by
  cases label with
  | connected => exact absurd enabled sound.held.settled
  | accept => exact sound.accept enabled
  | accepted => exact sound.accepted enabled
  | close side kept => exact sound.close enabled
  | closed side => exact sound.closed enabled
  | soref side => exact sound.soref enabled
  | sorele side => exact sound.sorele enabled
  | protoFree side => exact sound.protoFree enabled
  | soabort serverKept clientKept =>
    have counted := sound.held.counted .server
    exact soabort_sound serverKept clientKept
      (sound.held.modify ⟨counted.total, counted.descriptor⟩ (fun _ _ => rfl) (.inl rfl))
      (sound.spared (sound.held.enabled_hasRefs enabled))

theorem start_noRefs : ¬start.HasRefs := by
  rintro ⟨side, has⟩
  cases side with
  | server | client => cases has

/-- From `so_incomp` the pair can only go to `so_comp` or be aborted. -/
theorem start_step (enabled : start.Enabled label) : (start.step label).Sound := by
  have held (place : Qstate) (settled : place ≠ .incomp) :
      (start.modify .server fun socket => { socket with qstate := place }).Held noneOwed := by
    refine ⟨fun side => ?_, settled, fun _ _ => rfl, by rintro ⟨⟩, rfl⟩
    cases side with
    | server | client => exact ⟨rfl, by rintro ⟨⟩⟩
  cases label with
  | connected =>
    exact (held .comp (by rintro ⟨⟩)).sound_of_refs (hasRefs_of_sqComp .server rfl) fun _ => rfl
  | soabort serverKept clientKept =>
    exact soabort_sound serverKept clientKept (held .off (by rintro ⟨⟩)) fun _ => rfl
  | accept | accepted | close side kept | closed side | sorele side => cases enabled
  | protoFree side =>
    cases side with
    | server | client => cases enabled
  | soref side =>
    rcases enabled with opened | holders
    · cases opened
    · cases holders

theorem sound_of_run {labels : List PairStep} (run : Run pairMove start labels state) :
    state = start ∨ state.Sound := by
  refine run.invariant (fun state => state = start ∨ state.Sound) (.inl rfl) ?_
  rintro state label next (rfl | sound) ⟨enabled, rfl⟩
  · exact .inr (start_step enabled)
  · exact .inr (sound.step enabled)

end PairState

/-- A pair without references is disposed of unless it waits on `so_incomp`. A step raises the
disposal counts exactly when it leaves the pair without references, and then those of both
sockets. -/
theorem passivePair_disposed {labels : List PairStep} {state : PairState}
    (run : Run pairMove PairState.start labels state) :
    state.panicked = false ∧
    (state.HasRefs → ∀ side, state.disposed side = 0) ∧
    (¬state.HasRefs → (state.socks .server).qstate ≠ .incomp → ∀ side, state.disposed side = 1) ∧
    ((state.socks .server).qstate = .incomp → ∀ side, state.disposed side = 0) ∧
    ∀ label next, pairMove state label next →
      (state.HasRefs ∨ (state.socks .server).qstate = .incomp) ∧
      (next.HasRefs → ∀ side, next.disposed side = state.disposed side) ∧
      (¬next.HasRefs → ∀ side, next.disposed side = state.disposed side + 1) := by
  rcases PairState.sound_of_run run with rfl | sound
  · refine ⟨rfl, fun _ _ => rfl, fun _ left => absurd rfl left, fun _ _ => rfl, ?_⟩
    rintro label next ⟨enabled, rfl⟩
    have after := PairState.start_step enabled
    exact ⟨.inr rfl, after.spared, after.gone⟩
  · refine ⟨sound.held.running, sound.spared, fun none _ => sound.gone none,
      fun waits => absurd waits sound.held.settled, ?_⟩
    rintro label next ⟨enabled, rfl⟩
    have after := sound.step enabled
    have refs := sound.held.enabled_hasRefs enabled
    refine ⟨.inl refs, fun kept side => ?_, fun last side => ?_⟩
    · rw [after.spared kept side, sound.spared refs side]
    · rw [after.gone last side, sound.spared refs side]

def closingBoth : List PairStep :=
  [.connected, .accept, .accepted, .soref .client, .close .server true, .closed .server,
    .close .client false, .closed .client, .sorele .client, .protoFree .server]

theorem passivePair_closed_disposed :
    ∃ state, Run pairMove PairState.start closingBoth state ∧ ¬state.HasRefs ∧
      ∀ side, state.disposed side = 1 := by
  have run : Run pairMove PairState.start closingBoth _ :=
    Allowed.run ⟨rfl, rfl, rfl, .inl rfl, rfl, rfl, rfl, rfl, Nat.one_pos, rfl, trivial⟩
  have none : ¬(closingBoth.foldl PairState.step PairState.start).HasRefs := by
    rintro ⟨side, has⟩
    cases side with
    | server | client => cases has
  exact ⟨_, run, none, (passivePair_disposed run).2.2.1 none (by rintro ⟨⟩)⟩

theorem passivePair_waits_undisposed :
    ∃ state, Run pairMove PairState.start [] state ∧ ¬state.HasRefs ∧
      ∀ side, state.disposed side = 0 :=
  ⟨_, .nil, PairState.start_noRefs, fun _ => rfl⟩

end Libunsod.Kern
