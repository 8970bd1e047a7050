import Libunsod.Udsock.ErrnoCore
import Mathlib.Data.BitVec

/-!
`if_dpdk_transmit`, which copies a chain into an rte mbuf and hands it to the NIC. The exits that
fail after the rte mbuf was allocated keep it, and the length is compared with the whole buffer,
headroom included.
-/

namespace Libunsod.Uinet

open Udsock (ErrName)

structure DhDesc where
  rteMb : Nat
  bufLen : Nat
  dataOff : Nat

structure TransmitCall where
  m : Nat
  len : Nat
  alloc : Option DhDesc
  sent : Nat

structure TransmitState where
  ifOpackets : BitVec 64
  ifOerrors : BitVec 64
  freed : List Nat
  held : List Nat
  nic : List Nat
  overrun : List Nat

def transmitOut (state : TransmitState) (m : Nat) (error : Int) : Int × TransmitState :=
  (error, { state with freed := state.freed ++ [m] })

def transmitFail (state : TransmitState) (m : Nat) : Int × TransmitState :=
  transmitOut { state with ifOerrors := state.ifOerrors + 1 } m ErrName.enobufs.uinet

def ifDpdkTransmit (txDisabled : Bool) (state : TransmitState) (call : TransmitCall) :
    Int × TransmitState :=
  if txDisabled then transmitOut state call.m ErrName.enetunreach.uinet
  else match call.alloc with
    | none => transmitFail state call.m
    | some desc =>
        let allocated := { state with held := desc.rteMb :: state.held }
        if desc.bufLen < call.len then transmitFail allocated call.m
        else
          let copied := if desc.bufLen - desc.dataOff < call.len then
              { allocated with overrun := desc.rteMb :: allocated.overrun }
            else allocated
          if call.sent = 0 then transmitFail copied call.m
          else transmitOut { copied with
            held := copied.held.erase desc.rteMb
            nic := copied.nic ++ [desc.rteMb]
            ifOpackets := copied.ifOpackets + 1 } call.m 0

def transmitAll (txDisabled : Bool) (state : TransmitState) (calls : List TransmitCall) :
    TransmitState :=
  calls.foldl (fun state call => (ifDpdkTransmit txDisabled state call).2) state

variable {txDisabled : Bool}

def TransmitCall.Clean (txDisabled : Bool) (call : TransmitCall) : Prop :=
  txDisabled = true ∨
    ∀ desc, call.alloc = some desc → call.len ≤ desc.bufLen - desc.dataOff ∧ call.sent ≠ 0

structure Transmitted (txDisabled : Bool) (call : TransmitCall) (before : TransmitState)
    (result : Int × TransmitState) : Prop where
  freed : result.2.freed = before.freed ++ [call.m]
  sent : result.1 = 0 → txDisabled = false ∧ result.2.ifOpackets = before.ifOpackets + 1 ∧
    result.2.ifOerrors = before.ifOerrors
  failed : result.1 ≠ 0 → result.2.ifOpackets = before.ifOpackets ∧
    (txDisabled = false → result.2.ifOerrors = before.ifOerrors + 1)
  left : ∃ kept written, result.2.held = kept ++ before.held ∧
    result.2.overrun = written ++ before.overrun ∧
    ((kept = [] ∧ written = []) ↔ call.Clean txDisabled)

theorem transmitFail_transmitted {before state : TransmitState} {call : TransmitCall}
    {kept written : List Nat} (freed : state.freed = before.freed)
    (opackets : state.ifOpackets = before.ifOpackets) (oerrors : state.ifOerrors = before.ifOerrors)
    (held : state.held = kept ++ before.held) (overrun : state.overrun = written ++ before.overrun)
    (clean : (kept = [] ∧ written = []) ↔ call.Clean false) :
    Transmitted false call before (transmitFail state call.m) := by
  have number : ErrName.enobufs.uinet ≠ 0 := by decide
  exact ⟨congrArg (· ++ [call.m]) freed, fun zero => absurd zero number,
    fun _ => ⟨opackets, fun _ => congrArg (· + 1) oerrors⟩, kept, written, held, overrun, clean⟩

theorem ifDpdkTransmit_transmitted (state : TransmitState) (call : TransmitCall) :
    Transmitted txDisabled call state (ifDpdkTransmit txDisabled state call) := by
  cases txDisabled with
  | true =>
    have number : ErrName.enetunreach.uinet ≠ 0 := by decide
    exact ⟨rfl, fun zero => absurd zero number, fun _ => ⟨rfl, nofun⟩, [], [], rfl, rfl,
      by simp [TransmitCall.Clean]⟩
  | false =>
    simp only [ifDpdkTransmit, Bool.false_eq_true, ↓reduceIte]
    cases alloc : call.alloc with
    | none =>
      exact transmitFail_transmitted rfl rfl rfl (List.nil_append _).symm (List.nil_append _).symm
        (by simp [TransmitCall.Clean, alloc])
    | some desc =>
      have clean : call.Clean false ↔
          call.len ≤ desc.bufLen - desc.dataOff ∧ call.sent ≠ 0 := by
        simp [TransmitCall.Clean, alloc]
      dsimp only
      by_cases long : desc.bufLen < call.len
      · rw [if_pos long]
        refine transmitFail_transmitted rfl rfl rfl (show _ = [desc.rteMb] ++ state.held from rfl)
          (List.nil_append _).symm ?_
        rw [clean]
        simp only [List.cons_ne_nil, false_and, false_iff, not_and]
        omega
      · rw [if_neg long]
        by_cases outside : desc.bufLen - desc.dataOff < call.len
        · simp only [if_pos outside]
          have unclean : ¬call.Clean false := fun fits => by
            have := (clean.mp fits).1
            omega
          split
          · exact transmitFail_transmitted rfl rfl rfl
              (show _ = [desc.rteMb] ++ state.held from rfl)
              (show _ = [desc.rteMb] ++ state.overrun from rfl) (by simp [unclean])
          · exact ⟨rfl, fun _ => ⟨rfl, rfl, rfl⟩, fun fails => absurd rfl fails, [], [desc.rteMb],
              List.erase_cons_head _ _, rfl, by simp [unclean]⟩
        · simp only [if_neg outside]
          split
          next none_ =>
            exact transmitFail_transmitted rfl rfl rfl
              (show _ = [desc.rteMb] ++ state.held from rfl) (List.nil_append _).symm
              (by simp [clean, none_])
          next sent =>
            exact ⟨rfl, fun _ => ⟨rfl, rfl, rfl⟩, fun fails => absurd rfl fails, [], [],
              List.erase_cons_head _ _, rfl, by simp [clean, sent, Nat.not_lt.mp outside]⟩

/-- Over any calls every chain is freed once and every result counted. No rte mbuf is lost or
overrun exactly when every call that gets one sends a packet that fits behind its headroom. -/
theorem transmit_balanced_iff (txDisabled : Bool) (state : TransmitState)
    (calls : List TransmitCall) :
    (∀ before call, Transmitted txDisabled call before (ifDpdkTransmit txDisabled before call)) ∧
      (transmitAll txDisabled state calls).freed = state.freed ++ calls.map TransmitCall.m ∧
      ((transmitAll txDisabled state calls).held = state.held ∧
        (transmitAll txDisabled state calls).overrun = state.overrun ↔
          ∀ call ∈ calls, call.Clean txDisabled) := by
  have run : ∃ kept written, (transmitAll txDisabled state calls).held = kept ++ state.held ∧
      (transmitAll txDisabled state calls).overrun = written ++ state.overrun ∧
      (transmitAll txDisabled state calls).freed = state.freed ++ calls.map TransmitCall.m ∧
      ((kept = [] ∧ written = []) ↔ ∀ call ∈ calls, call.Clean txDisabled) := by
    induction calls generalizing state with
    | nil => exact ⟨[], [], rfl, rfl, (List.append_nil _).symm, by simp⟩
    | cons call calls ih =>
      have first : Transmitted txDisabled call state _ := ifDpdkTransmit_transmitted state call
      obtain ⟨kept, written, held, overrun, clean⟩ := first.left
      obtain ⟨kept', written', held', overrun', freed', clean'⟩ :=
        ih (ifDpdkTransmit txDisabled state call).2
      refine ⟨kept' ++ kept, written' ++ written, ?_, ?_, ?_, ?_⟩
      · rw [List.append_assoc, ← held]
        exact held'
      · rw [List.append_assoc, ← overrun]
        exact overrun'
      · refine freed'.trans ?_
        rw [first.freed, List.append_assoc]
        rfl
      · rw [List.forall_mem_cons, ← clean, ← clean', List.append_eq_nil_iff, List.append_eq_nil_iff]
        tauto
  obtain ⟨kept, written, held, overrun, freed, clean⟩ := run
  refine ⟨ifDpdkTransmit_transmitted, freed, ?_⟩
  rw [held, overrun, List.append_left_eq_self, List.append_left_eq_self]
  exact clean

theorem transmit_loses_rte_mbufs :
    let final := transmitAll false ⟨0, 0, [], [], [], []⟩
      [⟨1, 60, some ⟨10, 2176, 128⟩, 0⟩, ⟨2, 2100, some ⟨11, 2176, 128⟩, 1⟩,
        ⟨3, 3000, some ⟨12, 2176, 128⟩, 1⟩]
    final.held = [12, 10] ∧ final.overrun = [11] ∧ final.nic = [11] := by
  decide

end Libunsod.Uinet
