import Mathlib.Data.BitVec

/-!
`uiofill` and `uiomove` of `uinet_subr_uio.c` on a uio in read mode. `uiofill` keeps the fill
bytes for user space in a buffer of 256 bytes, which it sets and reads for as many bytes as are
asked for. The count of one round is a `size_t` in `uiofill` and a `u_int` in `uiomove`.
-/

namespace Libunsod.Uinet

variable {cnt : Nat} {cp : List UInt8}

inductive SegFlag where
  | userspace
  | sysspace
  | nocopy
  deriving DecidableEq

structure Iovec where
  base : Nat
  len : Nat
  deriving DecidableEq

structure Uio where
  passed : List Iovec
  iov : List Iovec
  segflg : SegFlag
  resid : Int
  offset : Int
  deriving DecidableEq

abbrev Memory := Nat → UInt8

def Memory.store (memory : Memory) (base : Nat) (bytes : List UInt8) : Memory := fun address =>
  if base ≤ address then bytes[address - base]?.getD (memory address) else memory address

abbrev Copyout := Nat → Nat → Nat × Nat

def copyout (outcome : Copyout) (memory : Memory) (base : Nat) (bytes : List UInt8) :
    Memory × Nat :=
  (memory.store base (bytes.take (outcome base bytes.length).1), (outcome base bytes.length).2)

def transfer (outcome : Copyout) (segflg : SegFlag) (memory : Memory) (base : Nat)
    (user sys : List UInt8) : Memory × Nat :=
  match segflg with
  | .userspace => copyout outcome memory base user
  | .sysspace => (memory.store base sys, 0)
  | .nocopy => (memory, 0)

namespace Uio

def skip (uio : Uio) (iov : Iovec) (rest : List Iovec) : Uio :=
  { uio with passed := uio.passed ++ [iov], iov := rest }

def advance (uio : Uio) (iov : Iovec) (rest : List Iovec) (cnt : Nat) : Uio :=
  { uio with
    iov := ⟨iov.base + cnt, iov.len - cnt⟩ :: rest
    resid := uio.resid - cnt
    offset := uio.offset + cnt }

end Uio

structure Moved where
  error : Nat
  uio : Uio
  memory : Memory

def uiomoveLoop (outcome : Copyout) (cp : List UInt8) (n : Nat) (uio : Uio) (memory : Memory) :
    Option Moved :=
  if 0 < n ∧ uio.resid ≠ 0 then
    match nodes : uio.iov with
    | [] => none
    | iov :: rest =>
        if iov.len % 2 ^ 32 = 0 then uiomoveLoop outcome cp n (uio.skip iov rest) memory
        else
          let cnt := min (iov.len % 2 ^ 32) n
          let copied := transfer outcome uio.segflg memory iov.base (cp.take cnt) (cp.take cnt)
          if copied.2 ≠ 0 then some ⟨copied.2, uio, copied.1⟩
          else uiomoveLoop outcome (cp.drop cnt) (n - cnt) (uio.advance iov rest cnt) copied.1
  else some ⟨0, uio, memory⟩
termination_by n + uio.iov.length
decreasing_by
  · simp [Uio.skip, nodes]
  · simp only [Uio.advance, nodes, List.length_cons]
    omega

def uiomove (outcome : Copyout) (cp : List UInt8) (n : Nat) (uio : Uio) (memory : Memory) :
    Option Moved :=
  uiomoveLoop outcome cp n uio memory

def uiofillMaxbuf : Nat := 256

structure Filled where
  moved : Option Moved
  written : Nat
  read : Nat

def uiofillLoop (outcome : Copyout) (val : UInt8) (buf : Memory) (n : Nat) (uio : Uio)
    (memory : Memory) (read : Nat) : Option Moved × Nat :=
  if 0 < n ∧ uio.resid ≠ 0 then
    match _nodes : uio.iov with
    | [] => (none, read)
    | iov :: rest =>
        if iov.len = 0 then uiofillLoop outcome val buf n (uio.skip iov rest) memory read
        else
          let cnt := min iov.len n
          let copied := transfer outcome uio.segflg memory iov.base ((List.range cnt).map buf)
            (List.replicate cnt val)
          let reads := if uio.segflg = .userspace then max read cnt else read
          if copied.2 ≠ 0 then (some ⟨copied.2, uio, copied.1⟩, reads)
          else uiofillLoop outcome val buf (n - cnt) (uio.advance iov rest cnt) copied.1 reads
  else (some ⟨0, uio, memory⟩, read)
termination_by n + uio.iov.length
decreasing_by
  · simp [Uio.skip, _nodes]
  · simp only [Uio.advance, _nodes, List.length_cons]
    omega

def uiofill (outcome : Copyout) (stack : Memory) (val : UInt8) (n : Nat) (uio : Uio)
    (memory : Memory) : Filled :=
  let written := if uio.segflg = .userspace then max uiofillMaxbuf n else 0
  let buf := stack.store 0 (List.replicate written val)
  let filled := uiofillLoop outcome val buf n uio memory 0
  ⟨filled.1, written, filled.2⟩

/-- The length of every iovec that the loop of `uiofill` comes to bounds the round as much as
what `uiomove` keeps of it, its low 32 bits. -/
def Untruncated (outcome : Copyout) (segflg : SegFlag) : Nat → Int → List Iovec → Prop
  | _, _, [] => True
  | n, resid, iov :: rest => 0 < n → resid ≠ 0 →
      min (iov.len % 2 ^ 32) n = min iov.len n ∧
        ((segflg = .userspace → 0 < iov.len → (outcome iov.base (min iov.len n)).2 = 0) →
          Untruncated outcome segflg (n - iov.len) (resid - iov.len) rest)

section Loops

variable {outcome : Copyout} {val : UInt8} {buf : Memory} {n : Nat} {uio : Uio} {memory : Memory}
  {read : Nat}

theorem range_map_eq_replicate (filled : ∀ index, index < cnt → buf index = val) :
    (List.range cnt).map buf = List.replicate cnt val := by
  apply List.eq_replicate_iff.mpr
  constructor
  · simp
  · intro byte member
    obtain ⟨index, inside, rfl⟩ := List.mem_map.mp member
    exact filled index (List.mem_range.mp inside)

theorem transfer_replicate {segflg : SegFlag} {base : Nat} (within : cnt ≤ n)
    (filled : segflg = .userspace → ∀ index, index < n → buf index = val) :
    transfer outcome segflg memory base ((List.replicate n val).take cnt)
        ((List.replicate n val).take cnt) =
      transfer outcome segflg memory base ((List.range cnt).map buf) (List.replicate cnt val) := by
  rw [List.take_replicate, Nat.min_eq_left within]
  cases segflg with
  | userspace =>
    unfold transfer
    rw [range_map_eq_replicate]
    intro index below
    exact filled rfl index (by omega)
  | sysspace | nocopy => rfl

theorem uiomoveLoop_nil (runs : 0 < n ∧ uio.resid ≠ 0) (nodes : uio.iov = []) :
    uiomoveLoop outcome cp n uio memory = none := by
  unfold uiomoveLoop
  rw [if_pos runs]
  split
  · rfl
  · rename_i other
    rw [nodes] at other
    cases other

theorem uiomoveLoop_cons {iov : Iovec} {rest : List Iovec} (runs : 0 < n ∧ uio.resid ≠ 0)
    (nodes : uio.iov = iov :: rest) (whole : min (iov.len % 2 ^ 32) n = min iov.len n) :
    uiomoveLoop outcome cp n uio memory =
      if iov.len = 0 then uiomoveLoop outcome cp n (uio.skip iov rest) memory
      else
        let cnt := min iov.len n
        let copied := transfer outcome uio.segflg memory iov.base (cp.take cnt) (cp.take cnt)
        if copied.2 ≠ 0 then some ⟨copied.2, uio, copied.1⟩
        else uiomoveLoop outcome (cp.drop cnt) (n - cnt) (uio.advance iov rest cnt) copied.1 := by
  rw [uiomoveLoop, if_pos runs]
  split
  · rename_i other
    rw [nodes] at other
    cases other
  · rename_i first others split
    rw [nodes] at split
    obtain ⟨rfl, rfl⟩ := List.cons.inj split
    have empty : iov.len % 2 ^ 32 = 0 ↔ iov.len = 0 := by omega
    simp only [empty, whole]

theorem Untruncated.skip {segflg : SegFlag} {resid : Int} {iov : Iovec} {rest : List Iovec}
    (whole : Untruncated outcome segflg n resid (iov :: rest)) (runs : 0 < n ∧ resid ≠ 0)
    (empty : iov.len = 0) : Untruncated outcome segflg n resid rest := by
  simpa [empty] using (whole runs.1 runs.2).2 (by omega)

theorem Untruncated.advance {segflg : SegFlag} {resid : Int} {iov : Iovec} {rest : List Iovec}
    (whole : Untruncated outcome segflg n resid (iov :: rest)) (runs : 0 < n ∧ resid ≠ 0)
    (copied : segflg = .userspace → (outcome iov.base (min iov.len n)).2 = 0) :
    Untruncated outcome segflg (n - min iov.len n) (resid - (min iov.len n : Nat))
      (⟨iov.base + min iov.len n, iov.len - min iov.len n⟩ :: rest) := by
  intro left _
  have taken : min iov.len n = iov.len := by omega
  rw [taken, Nat.sub_self]
  refine ⟨rfl, fun _ => ?_⟩
  simpa using (whole runs.1 runs.2).2 fun user _ => copied user

theorem uiofillLoop_eq_uiomoveLoop (whole : Untruncated outcome uio.segflg n uio.resid uio.iov)
    (filled : uio.segflg = .userspace → ∀ index, index < n → buf index = val) :
    (uiofillLoop outcome val buf n uio memory read).1 =
      uiomoveLoop outcome (List.replicate n val) n uio memory := by
  fun_induction uiofillLoop outcome val buf n uio memory read with
  | case1 n uio memory read runs nodes => rw [uiomoveLoop_nil runs nodes]
  | case2 n uio memory read runs iov rest nodes empty ih =>
    rw [nodes] at whole
    rw [uiomoveLoop_cons runs nodes (whole runs.1 runs.2).1, if_pos empty]
    exact ih (whole.skip runs empty) filled
  | case3 n uio memory read runs iov rest nodes some_ cnt copied reads fails =>
    rw [nodes] at whole
    rw [uiomoveLoop_cons runs nodes (whole runs.1 runs.2).1, if_neg some_]
    simp only [transfer_replicate (Nat.min_le_right iov.len n) filled]
    exact (if_pos fails).symm
  | case4 n uio memory read runs iov rest nodes some_ cnt copied reads succeeds ih =>
    rw [nodes] at whole
    rw [uiomoveLoop_cons runs nodes (whole runs.1 runs.2).1, if_neg some_]
    simp only [transfer_replicate (Nat.min_le_right iov.len n) filled, List.drop_replicate]
    refine Eq.trans (ih (whole.advance runs fun user => ?_) fun user index below => ?_)
      (if_neg succeeds).symm
    · simpa [copied, transfer, user, copyout] using succeeds
    · exact filled user index (by omega)
  | case5 n uio memory read stops => rw [uiomoveLoop, if_neg stops]

theorem uiofillLoop_read_le :
    (uiofillLoop outcome val buf n uio memory read).2 ≤ max read n := by
  fun_induction uiofillLoop outcome val buf n uio memory read with
  | case1 n uio memory read runs nodes | case5 n uio memory read stops => exact Nat.le_max_left ..
  | case2 n uio memory read runs iov rest nodes empty ih => exact ih
  | case3 n uio memory read runs iov rest nodes some_ cnt copied reads fails =>
    have bound : reads ≤ max read cnt := by
      simp only [reads]
      split <;> omega
    show reads ≤ max read n
    omega
  | case4 n uio memory read runs iov rest nodes some_ cnt copied reads succeeds ih =>
    have bound : reads ≤ max read cnt := by
      simp only [reads]
      split <;> omega
    omega

theorem uiofillLoop_read_eq (elsewhere : uio.segflg ≠ .userspace) :
    (uiofillLoop outcome val buf n uio memory read).2 = read := by
  fun_induction uiofillLoop outcome val buf n uio memory read with
  | case1 n uio memory read runs nodes | case5 n uio memory read stops => rfl
  | case2 n uio memory read runs iov rest nodes empty ih => exact ih elsewhere
  | case3 n uio memory read runs iov rest nodes some_ cnt copied reads fails =>
    exact dif_neg elsewhere
  | case4 n uio memory read runs iov rest nodes some_ cnt copied reads succeeds ih =>
    rw [ih elsewhere]
    exact dif_neg elsewhere

end Loops

structure Filled.Faithful (filled : Filled) (moved : Option Moved) : Prop where
  effect : filled.moved = moved
  written : filled.written ≤ uiofillMaxbuf
  read : filled.read ≤ uiofillMaxbuf

/-- Where `uiomove` truncates no length it comes to, `uiofill` does what it should exactly when it
does not fill more than 256 bytes of user space. -/
theorem uiofill_faithful_iff (outcome : Copyout) (stack : Memory) (val : UInt8) (n : Nat)
    (uio : Uio) (memory : Memory) (whole : Untruncated outcome uio.segflg n uio.resid uio.iov) :
    (uiofill outcome stack val n uio memory).Faithful
        (uiomove outcome (List.replicate n val) n uio memory) ↔
      (uio.segflg = .userspace → n ≤ uiofillMaxbuf) := by
  constructor
  · intro faithful user
    have bound := faithful.written
    simp only [uiofill, if_pos user] at bound
    omega
  · intro small
    refine ⟨?_, ?_, ?_⟩
    · apply uiofillLoop_eq_uiomoveLoop whole
      intro user index below
      have inside : index < max uiofillMaxbuf n := by omega
      simp [Memory.store, user, inside]
    · simp only [uiofill]
      split
      · rename_i user
        have bound := small user
        omega
      · exact Nat.zero_le _
    · by_cases user : uio.segflg = .userspace
      · have bound := small user
        refine Nat.le_trans uiofillLoop_read_le ?_
        omega
      · refine Nat.le_trans (Nat.le_of_eq (uiofillLoop_read_eq user)) (Nat.zero_le _)

def plainCopyout : Copyout := fun _ len => (len, 0)

def oneIovec (segflg : SegFlag) (len : Nat) : Uio :=
  ⟨[], [⟨4096, len⟩], segflg, len, 0⟩

theorem uiofill_faithful_user :
    (uiofill plainCopyout (fun _ => 7) 0 256 (oneIovec .userspace 300) fun _ => 7).Faithful
      (uiomove plainCopyout (List.replicate 256 0) 256 (oneIovec .userspace 300) fun _ => 7) := by
  refine (uiofill_faithful_iff _ _ _ _ _ _ ?_).mpr fun _ => Nat.le_refl _
  exact fun _ _ => ⟨by decide, fun _ => trivial⟩

def longIovec : Uio :=
  ⟨[], [⟨4096, 2 ^ 32⟩, ⟨0, 8⟩], .sysspace, 2 ^ 32 + 8, 0⟩

theorem uiofill_unfaithful :
    (uiofill plainCopyout (fun _ => 7) 0 300 (oneIovec .userspace 300) fun _ => 7).written = 300 ∧
    (uiofill plainCopyout (fun _ => 7) 0 300 (oneIovec .userspace 300) fun _ => 7).read = 300 ∧
    ((uiofill plainCopyout (fun _ => 7) 0 4 longIovec fun _ => 7).moved.map fun moved =>
      (moved.memory 0, moved.memory 4096)) = some (7, 0) ∧
    ((uiomove plainCopyout (List.replicate 4 0) 4 longIovec fun _ => 7).map fun moved =>
      (moved.memory 0, moved.memory 4096)) = some (0, 7) := by
  refine ⟨rfl, ?_, ?_, ?_⟩
  · simp [uiofill, uiofillLoop, oneIovec, transfer, copyout, plainCopyout, Uio.advance]
  · simp [uiofill, uiofillLoop, longIovec, transfer, Uio.advance, Memory.store]
  · simp [uiomove, uiomoveLoop, longIovec, transfer, Uio.advance, Uio.skip, Memory.store]

end Libunsod.Uinet
