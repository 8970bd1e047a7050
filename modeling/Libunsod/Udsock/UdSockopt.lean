import Libunsod.Udsock.UdSocketCore
import Mathlib.Data.List.GetD

/-!
The numbers of socket options: `ud_maplevelopt` against the names of the options. One
bound guards both tables, the size of the second one in bytes, and the level of a TCP
option is replaced by that of socket options.
-/

namespace Libunsod.Udsock

/-- The options that `ud_soopts` has. -/
inductive SoName where
  | debug | reuseaddr | type | error | dontroute | broadcast | sndbuf | rcvbuf | keepalive
  | oobinline | linger

/-- The number of an option under Linux and in the stack. -/
def SoName.numbers : SoName → Nat × Int
  | .debug => (1, 0x1)
  | .reuseaddr => (2, 0x4)
  | .type => (3, 0x1008)
  | .error => (4, 0x1007)
  | .dontroute => (5, 0x10)
  | .broadcast => (6, 0x20)
  | .sndbuf => (7, 0x1001)
  | .rcvbuf => (8, 0x1002)
  | .keepalive => (9, 0x8)
  | .oobinline => (10, 0x100)
  | .linger => (13, 0x80)

/-- The options that `ud_tcpopts` has. -/
inductive TcpName where
  | nodelay | maxseg | keepidle | keepintvl | keepcnt | info | congestion | md5sig

def TcpName.numbers : TcpName → Nat × Int
  | .nodelay => (1, 0x01)
  | .maxseg => (2, 0x02)
  | .keepidle => (4, 0x100)
  | .keepintvl => (5, 0x200)
  | .keepcnt => (6, 0x400)
  | .info => (11, 0x20)
  | .congestion => (13, 0x40)
  | .md5sig => (14, 0x10)

def uinetIpprotoTcp : Int := 6

theorem levels_differ : uinetSolSocket ≠ uinetIpprotoTcp := by decide

/-- The table that `ud_maplevelopt` reads and the index at which it does. -/
def udMapleveloptRead (level opt : Int) : Option (List Int × Nat) :=
  if belowSize opt (4 * udTcpopts.length + 1) then
    if level = 1 then some (udSoopts, opt.toNat)
    else if level = 6 then some (udTcpopts, opt.toNat)
    else none
  else none

/-- What `ud_maplevelopt` returns for the two levels is the word that it reads. -/
theorem udMaplevelopt_reads {level opt : Int} (beyond : Beyond) (mapped : level = 1 ∨ level = 6) :
    udMaplevelopt beyond level opt = (udMapleveloptRead level opt).bind fun (table, index) =>
      let word := tableWord table (if level = 1 then beyond.soopts else beyond.tcpopts) index
      if word = 0 then none else some (uinetSolSocket, word) := by
  unfold udMaplevelopt udMapleveloptRead
  by_cases below : belowSize opt (4 * udTcpopts.length + 1) = true
  · rcases mapped with rfl | rfl <;> simp [below]
  · rcases mapped with rfl | rfl <;> simp [below]

structure MapsRight (level opt : Int) : Prop where
  inside : ∀ table index, udMapleveloptRead level opt = some (table, index) →
    index < table.length
  socket : level = 1 → ∀ beyond mapped, udMaplevelopt beyond level opt = some mapped ↔
    ∃ name : SoName, opt = name.numbers.1 ∧ mapped = (uinetSolSocket, name.numbers.2)
  tcp : level = 6 → ∀ beyond mapped, udMaplevelopt beyond level opt = some mapped ↔
    ∃ name : TcpName, opt = name.numbers.1 ∧ mapped = (uinetIpprotoTcp, name.numbers.2)

section Table

variable {Name : Type} {numbers : Name → Nat × Int} {table : List Int} {beyond : Nat → Int}
  {level opt : Int} {mapped : Int × Int}

structure Names (numbers : Name → Nat × Int) (table : List Int) : Prop where
  entry : ∀ name, table.getD (numbers name).1 0 = (numbers name).2 ∧ (numbers name).2 ≠ 0
  named : ∀ index < table.length, table.getD index 0 ≠ 0 → ∃ name, (numbers name).1 = index

theorem Names.of_list (all : List Name)
    (entry : ∀ name, table.getD (numbers name).1 0 = (numbers name).2 ∧ (numbers name).2 ≠ 0)
    (named : ∀ index < table.length, table.getD index 0 ≠ 0 →
      ∃ name ∈ all, (numbers name).1 = index) : Names numbers table := by
  refine ⟨entry, fun index below nonzero => ?_⟩
  obtain ⟨name, -, same⟩ := named index below nonzero
  exact ⟨name, same⟩

theorem soNames : Names SoName.numbers udSoopts := by
  refine .of_list [.debug, .reuseaddr, .type, .error, .dontroute, .broadcast, .sndbuf,
    .rcvbuf, .keepalive, .oobinline, .linger] (fun name => ?_) (by decide)
  cases name <;> decide

theorem tcpNames : Names TcpName.numbers udTcpopts := by
  refine .of_list [.nodelay, .maxseg, .keepidle, .keepintvl, .keepcnt, .info,
    .congestion, .md5sig] (fun name => ?_) (by decide)
  cases name <;> decide

theorem Names.inside (names : Names numbers table) (name : Name) :
    (numbers name).1 < table.length := by
  by_contra outside
  obtain ⟨entry, nonzero⟩ := names.entry name
  rw [List.getD_eq_default _ _ (by omega)] at entry
  exact nonzero entry.symm

def tableOption (table : List Int) (beyond : Nat → Int) (level opt : Int) : Option (Int × Int) :=
  if ¬belowSize opt (4 * udTcpopts.length + 1) ∨ tableWord table beyond opt.toNat = 0 then none
  else some (level, tableWord table beyond opt.toNat)

theorem belowSize_iff (opt : Int) : belowSize opt (4 * udTcpopts.length + 1) = true ↔
    0 ≤ opt ∧ opt ≤ 124 := by
  simp only [belowSize, Bool.and_eq_true, decide_eq_true_eq,
    show ((4 * udTcpopts.length + 1 : Nat) : Int) = 125 from rfl]
  omega

theorem tableOption_iff (names : Names numbers table) (short : table.length ≤ 124)
    (read : opt < table.length ∨ 124 < opt) :
    tableOption table beyond level opt = some mapped ↔
      ∃ name, opt = (numbers name).1 ∧ mapped = (level, (numbers name).2) := by
  have word : ∀ index < table.length, tableWord table beyond index = table.getD index 0 := by
    intro index below
    simp [tableWord, below]
  unfold tableOption
  simp only [belowSize_iff]
  constructor
  · intro found
    split at found
    · cases found
    next accepted =>
      rw [not_or, not_not] at accepted
      have below : opt.toNat < table.length := by omega
      rw [word _ below] at accepted found
      obtain ⟨name, same⟩ := names.named _ below accepted.2
      rw [← same, (names.entry name).1] at found
      exact ⟨name, by omega, (Option.some.inj found).symm⟩
  · rintro ⟨name, rfl, rfl⟩
    have below := names.inside name
    rw [Int.toNat_natCast, word _ below, (names.entry name).1, if_neg]
    rintro (outside | zero)
    · omega
    · exact (names.entry name).2 zero

end Table

/-- A socket option is mapped as it should be unless it is read behind the end of its table,
a TCP option if it is one without an entry. -/
theorem maplevelopt_right_iff (level opt : BitVec 32) :
    MapsRight level.toInt opt.toInt ↔
      (level.toInt = 1 → opt.toInt < 30 ∨ 124 < opt.toInt) ∧
      (level.toInt = 6 → 124 < opt.toInt ∨
        opt.toInt < 31 ∧ ∀ name : TcpName, opt.toInt ≠ name.numbers.1) := by
  generalize level.toInt = level, opt.toInt = opt
  have sockets : udSoopts.length = 30 := rfl
  have tcps : udTcpopts.length = 31 := rfl
  have socketMap : ∀ beyond, udMaplevelopt beyond 1 opt =
      tableOption udSoopts beyond.soopts uinetSolSocket opt := fun _ => rfl
  have tcpMap : ∀ beyond, udMaplevelopt beyond 6 opt =
      tableOption udTcpopts beyond.tcpopts uinetSolSocket opt := fun _ => rfl
  have tcpRead : 0 ≤ opt → opt ≤ 124 → udMapleveloptRead 6 opt = some (udTcpopts, opt.toNat) :=
    fun low high => if_pos ((belowSize_iff opt).mpr ⟨low, high⟩)
  constructor
  · intro right
    refine ⟨fun socket => ?_, fun tcp => ?_⟩
    · subst socket
      by_contra between
      have := right.inside udSoopts opt.toNat (if_pos ((belowSize_iff opt).mpr (by omega)))
      omega
    · subst tcp
      by_cases large : 124 < opt
      · exact .inl large
      · have below : opt < 31 := by
          by_contra between
          have := right.inside _ _ (tcpRead (by omega) (by omega))
          omega
        refine .inr ⟨below, fun name same => ?_⟩
        have mapped : udMaplevelopt ⟨fun _ => 0, fun _ => 0, fun _ => 0⟩ 6 opt =
            some (uinetSolSocket, name.numbers.2) := by
          rw [tcpMap]
          exact (tableOption_iff tcpNames (by decide) (.inl below)).mpr ⟨name, same, rfl⟩
        obtain ⟨other, -, wrong⟩ := (right.tcp rfl _ _).mp mapped
        exact levels_differ (congrArg Prod.fst wrong)
  · rintro ⟨socket, tcp⟩
    refine ⟨fun table index read => ?_, fun same beyond mapped => ?_, fun same beyond mapped => ?_⟩
    · unfold udMapleveloptRead at read
      simp only [belowSize_iff] at read
      split at read
      · split at read
        next same =>
          cases read
          have := socket same
          omega
        next =>
          split at read
          next same =>
            cases read
            have := tcp same
            omega
          next => cases read
      · cases read
    · subst same
      rw [socketMap]
      exact tableOption_iff soNames (by decide) (socket rfl)
    · subst same
      have unnamed : ∀ name : TcpName, opt ≠ name.numbers.1 := by
        rintro name rfl
        have := tcpNames.inside name
        rcases tcp rfl with large | ⟨-, unnamed⟩
        · omega
        · exact unnamed name rfl
      have read : opt < udTcpopts.length ∨ 124 < opt := (tcp rfl).symm.imp_left And.left
      rw [tcpMap, tableOption_iff tcpNames (by decide) read]
      constructor
      all_goals
        rintro ⟨name, same, -⟩
        exact absurd same (unnamed name)

theorem maplevelopt_wrong : ¬MapsRight 1 30 ∧ ¬MapsRight 6 1 := by
  refine ⟨fun right => ?_, fun right => ?_⟩
  · exact absurd (right.inside udSoopts 30 rfl) (by decide)
  · obtain ⟨name, -, wrong⟩ := (right.tcp rfl ⟨fun _ => 0, fun _ => 0, fun _ => 0⟩ _).mp rfl
    exact levels_differ (congrArg Prod.fst wrong)

end Libunsod.Udsock
