import Libunsod.Uinet.DpdkConfig

/-!
What a failing `uinet_ifcreate` leaves behind. The driver gives back what it took in every failure
of its own, but the event system is not told that an interface it was told of is not coming.
-/

namespace Libunsod.Uinet

open Udsock (ErrName)

structure CreateWorld where
  addr : Option Nat
  sts : Bool
  stsCreated : Bool
  useFileIoThread : Bool
  attach : AttachWorld

def CreateWorld.attached (world : CreateWorld) (cfg : UinetIfCfg) : Int × IfTrace :=
  ifDpdkAttach world.sts world.useFileIoThread cfg.configstr world.attach

def CreateWorld.answers (world : CreateWorld) (cfg : UinetIfCfg) : IfAnswers :=
  ⟨world.addr, world.sts, world.stsCreated, (world.attached cfg).1⟩

def UinetIfCfg.own (cfg : UinetIfCfg) : List IfResource :=
  .uif :: if cfg.configstr = none then [] else [.configstr]

variable {state : IfState} {cfg : UinetIfCfg} {world : CreateWorld}

end Libunsod.Uinet
