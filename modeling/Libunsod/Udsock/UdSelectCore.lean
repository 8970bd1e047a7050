import Mathlib.Data.Finset.Filter
import Mathlib.Data.Finset.Card
import Libunsod.Udsock.ErrnoCore
import Libunsod.Udsock.UdFileCore

/-!
`ud_select` of `ud_select.c`. Every pass over the descriptors sees the table and
the sockets as they are at that moment, so the call reads a sequence of scans.
-/

namespace Libunsod.Udsock

def fdSetsize : Nat := 1024

abbrev FdSet : Type := Finset (Fin fdSetsize)

structure FdSets where
  readfds : Option FdSet
  writefds : Option FdSet
  exceptfds : Option FdSet

structure SelectArgs extends FdSets where
  nfds : Int
  timeout : Option (Int × Int)

structure Scan (Sock : Type) where
  fds : Fds Sock
  soreadable : Sock → Int
  sowritable : Sock → Int

inductive Stop
  | badf
  | outside
  deriving DecidableEq

structure Progress where
  retval : Nat
  resRead : FdSet
  resWrite : FdSet

def checkSet {Sock : Type} (fds : Fds Sock) (ready : Sock → Int) (set : Option FdSet)
    (index : Nat) (res : FdSet) (retval : Nat) : Except Stop (FdSet × Nat) :=
  match set with
  | none => .ok (res, retval)
  | some set =>
      if bound : index < fdSetsize then
        if ⟨index, bound⟩ ∈ set then
          match udFdGetSock fds index with
          | none => .error .badf
          | some so =>
              if 0 < ready so then .ok (insert ⟨index, bound⟩ res, retval + 1)
              else .ok (res, retval)
        else .ok (res, retval)
      else .error .outside

def udSelectScan {Sock : Type} (args : SelectArgs) (scan : Scan Sock) :
    Nat → Nat → Progress → Except Stop Progress
  | 0, _, progress => .ok progress
  | fuel + 1, index, progress =>
      match checkSet scan.fds scan.soreadable args.readfds index progress.resRead
          progress.retval with
      | .error stop => .error stop
      | .ok (resRead, retval) =>
          match checkSet scan.fds scan.sowritable args.writefds index progress.resWrite
              retval with
          | .error stop => .error stop
          | .ok (resWrite, retval) =>
              udSelectScan args scan fuel (index + 1) ⟨retval, resRead, resWrite⟩

inductive SelectOutcome
  | returned (ret : Nat) (sets : FdSets)
  | failed (errno : Option ErrName) (sets : FdSets)
  | fault

def udSelectFinish (args : SelectArgs) (progress : Progress) : SelectOutcome :=
  if 0 < progress.retval then
    match args.readfds, args.writefds with
    | some _, some _ => .returned progress.retval
        ⟨some progress.resRead, some progress.resWrite, args.exceptfds⟩
    | _, _ => .fault
  else .returned progress.retval args.toFdSets

def udSelectFrom {Sock : Type} (args : SelectArgs) (sleep : Int) (scans : Nat → Scan Sock) :
    Nat → Nat → Bool → Progress → Option (SelectOutcome × Nat)
  | 0, _, _, _ => none
  | fuel + 1, pass, restarted, progress =>
      match udSelectScan args (scans pass) args.nfds.toNat 0 progress with
      | .error .badf => some (.failed (some .ebadf) args.toFdSets, pass)
      | .error .outside => some (.fault, pass)
      | .ok progress =>
          match args.timeout with
          | none =>
              if progress.retval = 0 then
                udSelectFrom args sleep scans fuel (pass + 1) restarted progress
              else some (udSelectFinish args progress, pass)
          | some (sec, usec) =>
              if restarted = false ∧ progress.retval = 0 ∧ (sec ≠ 0 ∨ usec ≠ 0) then
                if sleep ≠ 0 then some (.failed none args.toFdSets, pass)
                else udSelectFrom args sleep scans fuel (pass + 1) true progress
              else some (udSelectFinish args progress, pass)

def udSelect {Sock : Type} (args : SelectArgs) (sleep : Int) (scans : Nat → Scan Sock)
    (fuel : Nat) : Option (SelectOutcome × Nat) :=
  udSelectFrom args sleep scans fuel 0 false ⟨0, ∅, ∅⟩

end Libunsod.Udsock
