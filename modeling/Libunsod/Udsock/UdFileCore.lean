import Mathlib.Tactic.Common

/-!
The descriptor table of `ud_file.c`. The table is read and written through
`fds_table->fds[i]` without a bound check, so the words are indexed by every
integer: those below `UD_SOCKET_DESC_MAX` are the table, the others are the
memory around it.
-/

namespace Libunsod.Udsock

def udSocketDescMax : Nat := 65516

abbrev Fds (Sock : Type) : Type := Int → Option Sock

def Fds.empty (Sock : Type) : Fds Sock := fun _ => none

def Fds.set {Sock : Type} (fds : Fds Sock) (index : Int) (word : Option Sock) : Fds Sock :=
  fun other => if other = index then word else fds other

@[simp] theorem Fds.set_same {Sock : Type} (fds : Fds Sock) (index : Int) (word : Option Sock) :
    fds.set index word index = word := by
  simp [Fds.set]

theorem Fds.set_other {Sock : Type} (fds : Fds Sock) {index other : Int} (word : Option Sock)
    (different : other ≠ index) : fds.set index word other = fds other := by
  simp [Fds.set, different]

def udFdGetFreeFrom {Sock : Type} (fds : Fds Sock) : Nat → Nat → Nat
  | 0, index => index
  | fuel + 1, index =>
      if (fds index).isNone then index else udFdGetFreeFrom fds fuel (index + 1)

def udFdGetFree {Sock : Type} (fds : Fds Sock) : Int :=
  udFdGetFreeFrom fds (udSocketDescMax - 1) 1

def udFdGetSock {Sock : Type} (fds : Fds Sock) (fd : Int) : Option Sock :=
  fds fd

def udFdSetSock {Sock : Type} (fds : Fds Sock) (sock : Option Sock) : Fds Sock × Int :=
  let fd := udFdGetFree fds
  if fd ≠ -1 then (fds.set fd sock, fd) else (fds, fd)

def udFdFree {Sock : Type} (fds : Fds Sock) (fd : Int) : Fds Sock :=
  fds.set fd none

end Libunsod.Udsock
