import Libunsod.Base.Registry
import Libunsod.Base.Runs
import Libunsod.Udsock.ErrnoCore
import Mathlib.Data.Nat.Digits.Lemmas

/-!
The names of interfaces, `uinet_config.c` and `if_dpdk_attach`. An alias is checked against the
interfaces there are. The driver's name comes later, from a counter, and is checked against
nothing: it can be the alias of another interface.
-/

namespace Libunsod.Uinet

open Runs Registry Udsock

variable {value digit : Nat}

@[ext] structure CString where
  bytes : List UInt8
  noNul : 0 ∉ bytes
  deriving DecidableEq

namespace CString

def empty : CString := ⟨[], List.not_mem_nil⟩

def strlen (string : CString) : Nat := string.bytes.length

end CString

def ifNamesize : Nat := 16

def snprintf (size : Nat) (text : CString) : CString :=
  ⟨text.bytes.take (size - 1), fun nul => text.noNul (List.mem_of_mem_take nul)⟩

section Decimal

def decimal (value : Nat) : List Nat :=
  if value = 0 then [0] else (Nat.digits 10 value).reverse

def asciiDigit (digit : Nat) : UInt8 := UInt8.ofNat (48 + digit)

theorem decimal_lt (member : digit ∈ decimal value) : digit < 10 := by
  unfold decimal at member
  split at member
  · rw [List.mem_singleton.mp member]
    decide
  · exact Nat.digits_lt_base (by decide) (List.mem_reverse.mp member)

theorem decimal_injective : Function.Injective decimal := by
  have value : ∀ n, Nat.ofDigits 10 (decimal n).reverse = n := by
    intro n
    unfold decimal
    split
    · rename_i zero
      rw [zero]
      rfl
    · rw [List.reverse_reverse, Nat.ofDigits_digits]
  intro first second same
  rw [← value first, ← value second, same]

theorem decimal_length (small : value < 2 ^ 32) : (decimal value).length ≤ 10 := by
  unfold decimal
  split
  · decide
  · rw [List.length_reverse]
    rename_i some_
    exact (Nat.digits_length_le_iff (by decide) value).mpr (by omega)

theorem asciiDigit_injective {first second : Nat} (one : first < 10) (other : second < 10)
    (same : asciiDigit first = asciiDigit second) : first = second := by
  have bytes := congrArg UInt8.toNat same
  simp only [asciiDigit, UInt8.toNat_ofNat'] at bytes
  omega

theorem asciiDigit_ne_zero (small : digit < 10) : asciiDigit digit ≠ 0 := by
  intro zero
  have bytes := congrArg UInt8.toNat zero
  simp only [asciiDigit, UInt8.toNat_ofNat', UInt8.toNat_zero] at bytes
  omega

theorem map_asciiDigit_injective {first second : List Nat} (one : ∀ digit ∈ first, digit < 10)
    (other : ∀ digit ∈ second, digit < 10)
    (same : first.map asciiDigit = second.map asciiDigit) : first = second := by
  induction first generalizing second with
  | nil => exact (List.map_eq_nil_iff.mp same.symm).symm
  | cons digit rest ih =>
    cases second with
    | nil => cases same
    | cons digit' rest' =>
      rw [List.map_cons, List.map_cons, List.cons.injEq] at same
      rw [asciiDigit_injective (one digit List.mem_cons_self) (other digit' List.mem_cons_self)
        same.1,
        ih (fun digit member => one digit (List.mem_cons_of_mem _ member))
          (fun digit member => other digit (List.mem_cons_of_mem _ member)) same.2]

end Decimal

def dpdkLetters : List UInt8 := [100, 112, 100, 107]

def dpdkText (count : BitVec 32) : CString :=
  ⟨dpdkLetters ++ (decimal count.toNat).map asciiDigit, by
    intro nul
    rcases List.mem_append.mp nul with letter | digit
    · exact absurd letter (by decide)
    · obtain ⟨digit, member, zero⟩ := List.mem_map.mp digit
      exact asciiDigit_ne_zero (decimal_lt member) zero⟩

def dpdkName (count : BitVec 32) : CString := snprintf ifNamesize (dpdkText count)

theorem dpdkName_eq (count : BitVec 32) : dpdkName count = dpdkText count := by
  apply CString.ext
  refine List.take_of_length_le ?_
  have digits := decimal_length count.isLt
  simp only [dpdkText, List.length_append, List.length_map, dpdkLetters, List.length_cons,
    List.length_nil, ifNamesize]
  omega

theorem dpdkName_injective : Function.Injective dpdkName := by
  intro first second same
  rw [dpdkName_eq, dpdkName_eq] at same
  have bytes := congrArg CString.bytes same
  have digits := List.append_cancel_left bytes
  apply BitVec.eq_of_toNat_eq
  apply decimal_injective
  exact map_asciiDigit_injective (fun _ => decimal_lt) (fun _ => decimal_lt) digits

inductive IfType where
  | dpdk
  | other (type : Int)
  deriving DecidableEq

structure UinetIf where
  addr : Nat
  type : IfType
  configstr : Option CString
  name : CString
  ifAlias : CString
  deriving DecidableEq

variable {uif : UinetIf}

structure UinetIfCfg where
  type : IfType
  configstr : Option CString
  ifAlias : Option CString

structure IfAnswers where
  addr : Option Nat
  sts : Bool
  stsCreated : Bool
  attached : Int

structure IfState where
  live : List UinetIf
  interfaceCount : BitVec 32
  overrun : Bool

namespace UinetIf

def answers (uif : UinetIf) (ifname : CString) : Bool :=
  ifname = uif.name ∨ (uif.ifAlias ≠ CString.empty ∧ ifname = uif.ifAlias)

end UinetIf

namespace IfState

def fresh (count : BitVec 32) : IfState := ⟨[], count, false⟩

def uinetIffindByname (state : IfState) (ifname : CString) : Option UinetIf :=
  state.live.find? (·.answers ifname)

def aliasError (state : IfState) : Option CString → Int
  | none => 0
  | some ifAlias =>
      let aliasLen := (BitVec.ofNat 32 ifAlias.strlen).toInt
      if ifNamesize ≤ aliasLen then ErrName.einval.uinet
      else if 0 < aliasLen ∧ (state.uinetIffindByname ifAlias).isSome then ErrName.eexist.uinet
      else 0

def ifDpdkAttach (state : IfState) (uif : UinetIf) (attached : Int) : Int × UinetIf × IfState :=
  match uif.configstr with
  | none => (ErrName.einval.uinet, uif, state)
  | some _ =>
      (attached, { uif with name := dpdkName state.interfaceCount },
        { state with interfaceCount := state.interfaceCount + 1 })

def attach (state : IfState) (uif : UinetIf) (attached : Int) : Int × UinetIf × IfState :=
  match uif.type with
  | .dpdk => state.ifDpdkAttach uif attached
  | .other _ => (ErrName.enxio.uinet, uif, state)

def uinetIfcreate (state : IfState) (cfg : UinetIfCfg) (world : IfAnswers) :
    Int × Option UinetIf × IfState :=
  let error := state.aliasError cfg.ifAlias
  if error ≠ 0 then (error, none, state)
  else
    match world.addr with
    | none => (ErrName.enomem.uinet, none, state)
    | some addr =>
        let ifAlias := cfg.ifAlias.getD CString.empty
        let copied := { state with overrun := state.overrun || ifNamesize ≤ ifAlias.strlen }
        let uif : UinetIf := ⟨addr, cfg.type, cfg.configstr, CString.empty, ifAlias⟩
        if world.sts ∧ ¬world.stsCreated then (ErrName.enxio.uinet, none, copied)
        else
          let (error, uif, attached) := copied.attach uif world.attached
          if error = 0 then (0, some uif, { attached with live := attached.live ++ [uif] })
          else (error, none, attached)

def uinetIfdestroy (state : IfState) (addr : Nat) : IfState :=
  { state with live := state.live.eraseP fun uif => uif.addr = addr }

def uinetIfdestroyByname (state : IfState) (ifname : CString) : IfState :=
  match state.uinetIffindByname ifname with
  | none => state
  | some uif => state.uinetIfdestroy uif.addr

end IfState

inductive IfStep where
  | create (cfg : UinetIfCfg) (world : IfAnswers)
  | destroy (addr : Nat)
  | destroyByname (ifname : CString)

namespace IfState

def Enabled (state : IfState) : IfStep → Prop
  | .create _ world => ∀ uif ∈ state.live, world.addr ≠ some uif.addr
  | .destroy addr => ∃ uif ∈ state.live, uif.addr = addr
  | .destroyByname _ => True

def step (state : IfState) : IfStep → IfState
  | .create cfg world => (state.uinetIfcreate cfg world).2.2
  | .destroy addr => state.uinetIfdestroy addr
  | .destroyByname ifname => state.uinetIfdestroyByname ifname

end IfState

def ifMove : IfState → IfStep → IfState → Prop := Guarded IfState.Enabled IfState.step

namespace IfState

variable {state : IfState} {cfg : UinetIfCfg}

def ShortAlias (cfg : UinetIfCfg) : Prop :=
  ∀ ifAlias, cfg.ifAlias = some ifAlias → ifAlias.strlen < 2 ^ 31

theorem aliasError_passed (short : ShortAlias cfg) (passed : state.aliasError cfg.ifAlias = 0) :
    (cfg.ifAlias.getD CString.empty).strlen < ifNamesize ∧
      (cfg.ifAlias.getD CString.empty ≠ CString.empty →
        state.uinetIffindByname (cfg.ifAlias.getD CString.empty) = none) := by
  cases given : cfg.ifAlias with
  | none => exact ⟨by decide, fun some_ => absurd rfl some_⟩
  | some ifAlias =>
    have length := short ifAlias given
    have counted : (BitVec.ofNat 32 ifAlias.strlen).toInt = ifAlias.strlen := by
      rw [BitVec.toInt_eq_toNat_of_lt (by rw [BitVec.toNat_ofNat]; omega), BitVec.toNat_ofNat,
        Nat.mod_eq_of_lt (by omega)]
    rw [given, aliasError] at passed
    simp only [counted] at passed
    rw [Option.getD_some]
    split at passed
    · exact absurd passed (by decide)
    · rename_i fits
      split at passed
      · exact absurd passed (by decide)
      · rename_i free
        refine ⟨by omega, fun some_ => ?_⟩
        have positive : 0 < (ifAlias.strlen : Int) := by
          have bytes : ifAlias.bytes ≠ [] := fun none => some_ (CString.ext none)
          have length := List.length_pos_iff.mpr bytes
          unfold CString.strlen
          omega
        cases found : state.uinetIffindByname ifAlias with
        | none => rfl
        | some uif => exact absurd ⟨positive, by rw [found]; rfl⟩ free

theorem uinetIfcreate_cases (short : ShortAlias cfg) (world : IfAnswers) :
    ((state.uinetIfcreate cfg world).1 ≠ 0 ∧
      ∃ count, (count = state.interfaceCount ∨ count = state.interfaceCount + 1) ∧
        (state.uinetIfcreate cfg world).2.2 = { state with interfaceCount := count }) ∨
    ((state.uinetIfcreate cfg world).1 = 0 ∧
      ∃ uif : UinetIf, uif.name = dpdkName state.interfaceCount ∧
        (uif.ifAlias ≠ CString.empty → state.uinetIffindByname uif.ifAlias = none) ∧
        (state.uinetIfcreate cfg world).2.2 =
          ⟨state.live ++ [uif], state.interfaceCount + 1, state.overrun⟩) := by
  unfold uinetIfcreate
  simp only
  by_cases passed : state.aliasError cfg.ifAlias = 0
  · obtain ⟨fits, free⟩ := aliasError_passed short passed
    have whole : (state.overrun || decide (ifNamesize ≤ (cfg.ifAlias.getD CString.empty).strlen)) =
        state.overrun := by
      rw [decide_eq_false (Nat.not_le.mpr fits), Bool.or_false]
    have enomem : ErrName.enomem.uinet ≠ 0 := by decide
    have enxio : ErrName.enxio.uinet ≠ 0 := by decide
    have einval : ErrName.einval.uinet ≠ 0 := by decide
    rw [if_neg (not_not.mpr passed), whole]
    split
    · exact .inl ⟨enomem, _, .inl rfl, rfl⟩
    · split
      · exact .inl ⟨enxio, _, .inl rfl, rfl⟩
      · cases type : cfg.type with
        | other number =>
          simp only [attach, enxio, if_false]
          exact .inl ⟨enxio, _, .inl rfl, rfl⟩
        | dpdk =>
          cases given : cfg.configstr with
          | none =>
            simp only [attach, ifDpdkAttach, einval, if_false]
            exact .inl ⟨einval, _, .inl rfl, rfl⟩
          | some configstr =>
            simp only [attach, ifDpdkAttach]
            by_cases attached : world.attached = 0
            · simp only [attached, if_true]
              exact .inr ⟨trivial, _, rfl, free, rfl⟩
            · simp only [attached, if_false]
              exact .inl ⟨attached, _, .inr rfl, rfl⟩
  · rw [if_pos passed]
    exact .inl ⟨passed, _, .inl rfl, rfl⟩

structure Orderly (count : BitVec 32) (used : Nat) (state : IfState) : Prop where
  counted : state.interfaceCount = count + BitVec.ofNat 32 used
  numbered : ∀ uif ∈ state.live, ∃ index < used, uif.name = dpdkName (count + BitVec.ofNat 32 index)
  distinct : Distinguishes UinetIf.answers state.live
  whole : state.overrun = false

variable {count : BitVec 32} {used : Nat}

theorem Orderly.counts (orderly : state.Orderly count used) {next : BitVec 32}
    (bumped : next = state.interfaceCount ∨ next = state.interfaceCount + 1) :
    ∃ more, more ≤ used + 1 ∧ Orderly count more { state with interfaceCount := next } := by
  rcases bumped with rfl | rfl
  · exact ⟨used, Nat.le_succ used, orderly⟩
  · refine ⟨used + 1, le_refl _, ?_, ?_, orderly.distinct, orderly.whole⟩
    · simp only [orderly.counted]
      bv_omega
    · intro uif member
      obtain ⟨index, below, name⟩ := orderly.numbered uif member
      exact ⟨index, Nat.lt_succ_of_lt below, name⟩

theorem answers_iff {ifname : CString} : uif.answers ifname = true ↔
    ifname = uif.name ∨ (uif.ifAlias ≠ CString.empty ∧ ifname = uif.ifAlias) := by
  exact decide_eq_true_iff

theorem Orderly.create (orderly : state.Orderly count used) (few : used < 2 ^ 32)
    (name : uif.name = dpdkName state.interfaceCount)
    (free : uif.ifAlias ≠ CString.empty → state.uinetIffindByname uif.ifAlias = none)
    (unused : ∀ old ∈ state.live, old.ifAlias ≠ dpdkName state.interfaceCount) :
    Orderly count (used + 1) ⟨state.live ++ [uif], state.interfaceCount + 1, state.overrun⟩ := by
  obtain ⟨_, _, counts⟩ := orderly.counts (.inr rfl)
  have apart : ∀ old ∈ state.live, old.name ≠ uif.name := by
    intro old member same
    obtain ⟨index, below, named⟩ := orderly.numbered old member
    rw [named, name, orderly.counted] at same
    have numbers := dpdkName_injective same
    bv_omega
  refine ⟨?_, ?_, orderly.distinct.snoc ?_, orderly.whole⟩
  · simp only [orderly.counted]
    bv_omega
  · intro other member
    rcases List.mem_append.mp member with old | new
    · obtain ⟨index, below, named⟩ := orderly.numbered other old
      exact ⟨index, Nat.lt_succ_of_lt below, named⟩
    · rw [List.mem_singleton.mp new, name, orderly.counted]
      exact ⟨used, Nat.lt_succ_self used, rfl⟩
  · intro old member key ⟨answered, new⟩
    rw [answers_iff] at new
    rcases new with rfl | ⟨some_, rfl⟩
    · rcases answers_iff.mp answered with same | ⟨_, same⟩
      · exact apart old member same.symm
      · exact unused old member (same.symm.trans name)
    · have silent := List.find?_eq_none.mp (free some_) old member
      exact silent answered

theorem Orderly.fewer (orderly : state.Orderly count used) {live : List UinetIf}
    (fewer : live.Sublist state.live) : Orderly count used { state with live := live } :=
  ⟨orderly.counted, fun uif member => orderly.numbered uif (fewer.subset member),
    orderly.distinct.sublist fewer, orderly.whole⟩

theorem Orderly.destroy (orderly : state.Orderly count used) (addr : Nat) :
    (state.uinetIfdestroy addr).Orderly count used :=
  orderly.fewer List.eraseP_sublist

def Tidy (state : IfState) : IfStep → Prop
  | .create cfg world => ShortAlias cfg ∧ ((state.uinetIfcreate cfg world).1 = 0 →
      ∀ uif ∈ state.live, uif.ifAlias ≠ dpdkName state.interfaceCount)
  | _ => True

def tidyMove (state : IfState) (label : IfStep) (next : IfState) : Prop :=
  ifMove state label next ∧ state.Tidy label

end IfState

def IfStep.isCreate : IfStep → Bool
  | .create .. => true
  | _ => false

def creates (labels : List IfStep) : Nat := labels.countP IfStep.isCreate

namespace IfState

variable {state : IfState} {count : BitVec 32} {used : Nat}

theorem Orderly.step (orderly : state.Orderly count used) {label : IfStep}
    (few : used + creates [label] ≤ 2 ^ 32) (tidy : state.Tidy label) :
    ∃ more, more ≤ used + creates [label] ∧ (state.step label).Orderly count more := by
  cases label with
  | create cfg world =>
    have one : creates [.create cfg world] = 1 := rfl
    obtain ⟨short, unused⟩ := tidy
    rw [one] at few ⊢
    rcases uinetIfcreate_cases short world with ⟨_, next, bumped, same⟩ | ⟨made, uif, name, free, same⟩
    · rw [IfState.step, same]
      exact orderly.counts bumped
    · rw [IfState.step, same]
      exact ⟨used + 1, le_refl _, orderly.create (by omega) name free (unused made)⟩
  | destroy addr =>
    exact ⟨used, Nat.le_add_right .., orderly.destroy addr⟩
  | destroyByname ifname =>
    refine ⟨used, Nat.le_add_right .., ?_⟩
    rw [IfState.step, uinetIfdestroyByname]
    split
    · exact orderly
    · exact orderly.destroy _

end IfState

structure Apart (first second : UinetIf) : Prop where
  names : first.name ≠ second.name
  aliases : first.ifAlias ≠ CString.empty → first.ifAlias ≠ second.ifAlias
  nameAlias : first.name ≠ second.ifAlias
  aliasName : first.ifAlias ≠ second.name

open IfState

end Libunsod.Uinet
