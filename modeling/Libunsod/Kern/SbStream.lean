import Libunsod.Kern.Soreceive

/-!
Appending to and dropping from the buffer of a stream socket, `sbcompress`,
`sbappendstream_locked` and `sbdrop_internal` of `uipc_sockbuf.c`, with the fields of the mbufs and
of the buffer that decide where mbufs are merged. The buffer is a list of cells: merging, freeing
and trimming change its layout and not the list. The counter `sb_cc` is a u_int, the length
to drop an int.
-/

namespace Libunsod.Kern

variable {count : Nat}

def intMax : Nat := 2 ^ 31 - 1
def msize : Nat := 256
def mclbytes : Nat := 2048
def mtData : Nat := 1
def mtOobdata : Nat := 15

structure SbMbuf where
  addr : Nat
  body : Mbuf
  type : Nat
  eor : Bool
  writable : Bool
  ext : Option Nat
  room : Int

variable {chain rest : List SbMbuf}

namespace SbMbuf

def len (m : SbMbuf) : Nat := m.body.len

def isControl (m : SbMbuf) : Bool := m.type ≠ mtData ∧ m.type ≠ mtOobdata

def trailingSpace (m : SbMbuf) : Int :=
  if m.ext.isSome then if m.writable then m.room else 0
  else if m.body.isHole then intMax - m.len
  else m.room

end SbMbuf

def Mbuf.absorb : Mbuf → Mbuf → Mbuf
  | .hole len, m => .hole (len + m.len)
  | .data bytes, m => .data (bytes ++ m.bytes)

namespace SbMbuf

def absorb (n m : SbMbuf) : SbMbuf :=
  { n with body := n.body.absorb m.body, room := n.room - m.len }

def trim (m : SbMbuf) (count : Nat) : SbMbuf :=
  { m with
    body := m.body.trim count
    room := if m.body.isHole then m.room + count else m.room }

def joins (nocoalesce : Bool) (n m : SbMbuf) : Bool :=
  !n.eor && n.writable && !nocoalesce && decide (m.len ≤ n.trailingSpace) &&
    decide (n.type = m.type) && (m.body.isHole == n.body.isHole) &&
    (n.body.isHole || decide (m.len ≤ mclbytes / 4))

end SbMbuf

structure StreamBuf where
  mb : List SbMbuf
  mbtail : Option Nat
  lastrecord : Option Nat
  cc : BitVec 32
  ctl : BitVec 32
  mbcnt : BitVec 32
  mcnt : BitVec 32
  ccnt : BitVec 32
  sndptr : Option Nat
  sndptroff : BitVec 32
  nocoalesce : Bool

variable {middle next : StreamBuf}

namespace StreamBuf

def sballoc (sb : StreamBuf) (m : SbMbuf) : StreamBuf :=
  { sb with
    cc := sb.cc + BitVec.ofNat 32 m.len
    ctl := if m.isControl then sb.ctl + BitVec.ofNat 32 m.len else sb.ctl
    mbcnt := sb.mbcnt + BitVec.ofNat 32 (msize + m.ext.getD 0)
    mcnt := sb.mcnt + 1
    ccnt := if m.ext.isSome then sb.ccnt + 1 else sb.ccnt }

def sbfree (sb : StreamBuf) (m : SbMbuf) : StreamBuf :=
  let sndptroff := if sb.sndptr = some m.addr then 0 else sb.sndptroff
  { sb with
    cc := sb.cc - BitVec.ofNat 32 m.len
    ctl := if m.isControl then sb.ctl - BitVec.ofNat 32 m.len else sb.ctl
    mbcnt := sb.mbcnt - BitVec.ofNat 32 (msize + m.ext.getD 0)
    mcnt := sb.mcnt - 1
    ccnt := if m.ext.isSome then sb.ccnt - 1 else sb.ccnt
    sndptr := if sb.sndptr = some m.addr then none else sb.sndptr
    sndptroff := if sndptroff ≠ 0 then sndptroff - BitVec.ofNat 32 m.len else sndptroff }

def merge (sb : StreamBuf) (n m : SbMbuf) : StreamBuf :=
  { sb with
    mb := sb.mb.dropLast ++ [n.absorb m]
    cc := sb.cc + BitVec.ofNat 32 m.len
    ctl := if m.isControl ∧ ¬n.body.isHole then sb.ctl + BitVec.ofNat 32 m.len else sb.ctl }

def link (sb : StreamBuf) (m : SbMbuf) : StreamBuf :=
  { sb.sballoc m with
    mb := sb.mb ++ [{ m with eor := false }]
    mbtail := some m.addr }

def skips (eor : Bool) (m : SbMbuf) (next : Option SbMbuf) : Bool :=
  m.len = 0 ∧ (eor = false ∨ next.any fun other => other.type = m.type)

def skip (sb : StreamBuf) (m : SbMbuf) (rest : List SbMbuf) : StreamBuf :=
  { sb with
    lastrecord := if sb.lastrecord = some m.addr then rest.head?.map SbMbuf.addr
      else sb.lastrecord }

def take (sb : StreamBuf) (m : SbMbuf) : StreamBuf :=
  match sb.mb.getLast? with
  | none => sb.link m
  | some n => if n.joins sb.nocoalesce m then sb.merge n m else sb.link m

def compressLoop : List SbMbuf → StreamBuf → Bool → StreamBuf × Bool
  | [], sb, eor => (sb, eor)
  | m :: rest, sb, eor =>
      let eor := eor || m.eor
      if skips eor m (rest.head?.or sb.mb.getLast?) then compressLoop rest (sb.skip m rest) eor
      else compressLoop rest (sb.take m) eor

def markEor (sb : StreamBuf) : StreamBuf :=
  { sb with
    mb := sb.mb.dropLast ++ (sb.mb.getLast?.map fun n => { n with eor := true }).toList }

def sbcompress (sb : StreamBuf) (chain : List SbMbuf) : StreamBuf :=
  let compressed := compressLoop chain sb false
  if compressed.2 then compressed.1.markEor else compressed.1

def sbappendstreamLocked (sb : StreamBuf) (chain : List SbMbuf) : StreamBuf :=
  let compressed := sb.sbcompress chain
  { compressed with lastrecord := compressed.mb.head?.map SbMbuf.addr }

def dropPart (sb : StreamBuf) (m : SbMbuf) (count : Nat) : StreamBuf :=
  { sb with
    cc := sb.cc - BitVec.ofNat 32 count
    ctl := if m.isControl then sb.ctl - BitVec.ofNat 32 count else sb.ctl
    sndptroff := if sb.sndptroff ≠ 0 then sb.sndptroff - BitVec.ofNat 32 count
      else sb.sndptroff }

def dropLoop : List SbMbuf → Nat → StreamBuf → Option (List SbMbuf × StreamBuf)
  | mbufs, 0, sb => some (mbufs, sb)
  | [], _ + 1, _ => none
  | m :: rest, len + 1, sb =>
      if len + 1 < m.len then some (m.trim (len + 1) :: rest, sb.dropPart m (len + 1))
      else dropLoop rest (len + 1 - m.len) (sb.sbfree m)

def dropEmpty : List SbMbuf → StreamBuf → List SbMbuf × StreamBuf
  | [], sb => ([], sb)
  | m :: rest, sb => if m.len = 0 then dropEmpty rest (sb.sbfree m) else (m :: rest, sb)

def setFront (sb : StreamBuf) : List SbMbuf → StreamBuf
  | [] => { sb with mb := [], mbtail := none, lastrecord := none }
  | m :: rest => { sb with mb := m :: rest, lastrecord := some m.addr }

def sbdropLocked (sb : StreamBuf) (len : BitVec 32) : Option StreamBuf :=
  (dropLoop sb.mb len.toInt.toNat sb).map fun dropped =>
    let emptied := dropEmpty dropped.1 dropped.2
    emptied.2.setFront emptied.1

def bodies (mbufs : List SbMbuf) : List Mbuf := mbufs.map SbMbuf.body

def cells (sb : StreamBuf) : List Cell := cellsOf (bodies sb.mb)

structure Inv (sb : StreamBuf) : Prop where
  count : sb.cc.toNat = sb.cells.length
  tail : sb.mbtail = sb.mb.getLast?.map SbMbuf.addr
  record : sb.lastrecord = sb.mb.head?.map SbMbuf.addr

end StreamBuf

def SbMbuf.Fits (m : SbMbuf) : Prop :=
  m.len ≤ intMax ∧ (0 < m.room → m.len + m.room ≤ intMax)

namespace SbMbuf

variable {n m : SbMbuf} {nocoalesce : Bool}

theorem joins_iff : n.joins nocoalesce m = true ↔
    n.eor = false ∧ n.writable = true ∧ nocoalesce = false ∧ (m.len : Int) ≤ n.trailingSpace ∧
      n.type = m.type ∧ m.body.isHole = n.body.isHole ∧
      (n.body.isHole = true ∨ m.len ≤ mclbytes / 4) := by
  simp only [joins, Bool.and_eq_true, Bool.not_eq_true', decide_eq_true_eq, beq_iff_eq,
    Bool.or_eq_true, and_assoc]

theorem absorb_len (n m : SbMbuf) : (n.absorb m).len = n.len + m.len := by
  unfold len absorb
  cases n.body with
  | data bytes =>
    cases m.body with
    | data others | hole count => simp [Mbuf.absorb, Mbuf.len, Mbuf.bytes]
  | hole count => rfl

theorem absorb_cells (same : m.body.isHole = n.body.isHole) :
    (n.absorb m).body.cells = n.body.cells ++ m.body.cells := by
  unfold absorb
  cases own : n.body with
  | data bytes =>
    cases other : m.body with
    | data others => simp [Mbuf.absorb, Mbuf.cells, Mbuf.bytes]
    | hole count =>
      rw [own, other] at same
      cases same
  | hole count =>
    cases other : m.body with
    | data others =>
      rw [own, other] at same
      cases same
    | hole more => simp [Mbuf.absorb, Mbuf.cells, Mbuf.len]

theorem Fits.absorb (fits : n.Fits) (joins : n.joins nocoalesce m = true) : (n.absorb m).Fits := by
  obtain ⟨_, writable, _, room, _, _, _⟩ := joins_iff.mp joins
  obtain ⟨small, whole⟩ := fits
  have length := n.absorb_len m
  have left : (n.absorb m).room = n.room - m.len := rfl
  unfold Fits
  rw [length, left]
  constructor
  · unfold trailingSpace at room
    rw [writable] at room
    by_cases positive : 0 < n.room
    · have sum := whole positive
      split at room
      · simp only [if_true] at room
        omega
      · split at room
        · omega
        · omega
    · split at room
      · simp only [if_true] at room
        omega
      · split at room
        · omega
        · omega
  · intro positive
    have sum := whole (by omega)
    push_cast
    omega

theorem Fits.trim (fits : m.Fits) (inside : count < m.len) : (m.trim count).Fits := by
  obtain ⟨small, whole⟩ := fits
  have length : (m.trim count).len = m.len - count := by
    unfold len SbMbuf.trim
    simp only
    rw [← Mbuf.cells_length, Mbuf.cells_trim, List.length_drop, Mbuf.cells_length]
  unfold Fits
  rw [length]
  constructor
  · omega
  · intro positive
    simp only [SbMbuf.trim] at positive ⊢
    split at positive
    · rename_i hole
      rw [if_pos hole]
      by_cases room : 0 < m.room
      · have sum := whole room
        omega
      · omega
    · rename_i data
      rw [if_neg data]
      have sum := whole positive
      omega

end SbMbuf

namespace StreamBuf

structure Appended (sb next : StreamBuf) (added : List Cell) : Prop where
  cells : next.cells = sb.cells ++ added
  count : next.cc = sb.cc + BitVec.ofNat 32 added.length
  tail : sb.mbtail = sb.mb.getLast?.map SbMbuf.addr →
    next.mbtail = next.mb.getLast?.map SbMbuf.addr
  fits : (∀ m ∈ sb.mb, m.Fits) → ∀ m ∈ next.mb, m.Fits
  filled : (∀ m ∈ sb.mb, 0 < m.len) → ∀ m ∈ next.mb, 0 < m.len

theorem Appended.trans {sb : StreamBuf} {first second : List Cell} (one : Appended sb middle first)
    (two : Appended middle next second) : Appended sb next (first ++ second) := by
  constructor
  · rw [two.cells, one.cells, List.append_assoc]
  · rw [two.count, one.count, List.length_append, BitVec.ofNat_add, BitVec.add_assoc]
  · exact fun tail => two.tail (one.tail tail)
  · exact fun fits => two.fits (one.fits fits)
  · exact fun filled => two.filled (one.filled filled)

variable {sb : StreamBuf} {n m : SbMbuf}

theorem merge_appended (last : sb.mb.getLast? = some n) (joins : n.joins sb.nocoalesce m = true) :
    Appended sb (sb.merge n m) m.body.cells := by
  obtain ⟨front, chain⟩ := List.getLast?_eq_some_iff.mp last
  obtain ⟨_, _, _, _, _, same, _⟩ := SbMbuf.joins_iff.mp joins
  have whole : (sb.merge n m).mb = front ++ [n.absorb m] := by
    simp only [merge, chain, List.dropLast_concat]
  constructor
  · simp only [cells, whole, chain, bodies, List.map_append, List.map_cons, List.map_nil,
      cellsOf_append, cellsOf_cons, cellsOf_nil, List.append_nil, List.append_assoc,
      SbMbuf.absorb_cells same]
  · rw [Mbuf.cells_length]
    rfl
  · intro tail
    have own : sb.mbtail = some n.addr := by
      rw [tail, last]
      rfl
    rw [whole, List.getLast?_concat]
    exact own
  · intro fits other member
    rw [whole] at member
    rw [chain] at fits
    rcases List.mem_append.mp member with old | new
    · exact fits other (List.mem_append_left _ old)
    · rw [List.mem_singleton.mp new]
      exact (fits n (List.mem_append_right _ List.mem_cons_self)).absorb joins
  · intro filled other member
    rw [whole] at member
    rw [chain] at filled
    rcases List.mem_append.mp member with old | new
    · exact filled other (List.mem_append_left _ old)
    · have positive := filled n (List.mem_append_right _ List.mem_cons_self)
      rw [List.mem_singleton.mp new, SbMbuf.absorb_len]
      omega

theorem link_appended (fits : m.Fits) (some_ : 0 < m.len) :
    Appended sb (sb.link m) m.body.cells := by
  have whole : (sb.link m).mb = sb.mb ++ [{ m with eor := false }] := rfl
  constructor
  · simp [cells, whole, bodies]
  · rw [Mbuf.cells_length]
    rfl
  · intro _
    rw [whole, List.getLast?_concat]
    rfl
  · intro others other member
    rw [whole] at member
    rcases List.mem_append.mp member with old | new
    · exact others other old
    · rw [List.mem_singleton.mp new]
      exact fits
  · intro others other member
    rw [whole] at member
    rcases List.mem_append.mp member with old | new
    · exact others other old
    · rw [List.mem_singleton.mp new]
      exact some_

theorem take_appended (fits : m.Fits) (some_ : 0 < m.len) :
    Appended sb (sb.take m) m.body.cells := by
  unfold take
  split
  · exact link_appended fits some_
  · rename_i n last
    split
    · rename_i joins
      exact merge_appended last joins
    · exact link_appended fits some_

theorem skip_appended (rest : List SbMbuf) (empty : m.len = 0) :
    Appended sb (sb.skip m rest) m.body.cells := by
  have none : m.body.cells = [] := by
    apply List.eq_nil_of_length_eq_zero
    rw [Mbuf.cells_length]
    exact empty
  rw [none]
  constructor
  · exact (List.append_nil _).symm
  · exact (BitVec.add_zero _).symm
  · exact id
  · exact id
  · exact id

theorem compressLoop_appended (noEor : ∀ m ∈ chain, m.eor = false) (fits : ∀ m ∈ chain, m.Fits)
    (sb : StreamBuf) :
    ∃ next, compressLoop chain sb false = (next, false) ∧
      Appended sb next (cellsOf (bodies chain)) := by
  induction chain generalizing sb with
  | nil =>
    refine ⟨sb, rfl, ?_⟩
    constructor
    · exact (List.append_nil _).symm
    · exact (BitVec.add_zero _).symm
    · exact id
    · exact id
    · exact id
  | cons m rest ih =>
    have others := ih (fun other member => noEor other (List.mem_cons_of_mem m member))
      (fun other member => fits other (List.mem_cons_of_mem m member))
    have own := noEor m List.mem_cons_self
    simp only [compressLoop, own, Bool.or_false]
    by_cases empty : m.len = 0
    · have skipped : skips false m (rest.head?.or sb.mb.getLast?) = true := by
        simp [skips, empty]
      rw [if_pos skipped]
      obtain ⟨next, loop, appended⟩ := others (sb.skip m rest)
      exact ⟨next, loop, (skip_appended rest empty).trans appended⟩
    · have kept : ¬skips false m (rest.head?.or sb.mb.getLast?) = true := by
        simp [skips, empty]
      rw [if_neg kept]
      obtain ⟨next, loop, appended⟩ := others (sb.take m)
      have taken : Appended sb (sb.take m) m.body.cells :=
        take_appended (fits m List.mem_cons_self) (Nat.pos_of_ne_zero empty)
      exact ⟨next, loop, taken.trans appended⟩

theorem sbcompress_appended (noEor : ∀ m ∈ chain, m.eor = false) (fits : ∀ m ∈ chain, m.Fits)
    (sb : StreamBuf) : Appended sb (sb.sbcompress chain) (cellsOf (bodies chain)) := by
  obtain ⟨next, loop, appended⟩ := compressLoop_appended noEor fits sb
  unfold sbcompress
  rw [loop]
  exact appended

theorem Inv.append (inv : sb.Inv) (noEor : ∀ m ∈ chain, m.eor = false) (fits : ∀ m ∈ chain, m.Fits)
    (small : sb.cells.length + (cellsOf (bodies chain)).length < 2 ^ 32) :
    (sb.sbappendstreamLocked chain).Inv ∧
      (sb.sbappendstreamLocked chain).cells = sb.cells ++ cellsOf (bodies chain) := by
  have appended := sbcompress_appended noEor fits sb
  have same : (sb.sbappendstreamLocked chain).cells = sb.cells ++ cellsOf (bodies chain) :=
    appended.cells
  refine ⟨⟨?_, appended.tail inv.tail, rfl⟩, same⟩
  have count : (sb.sbappendstreamLocked chain).cc =
      sb.cc + BitVec.ofNat 32 (cellsOf (bodies chain)).length := appended.count
  have before := inv.count
  rw [same, List.length_append, count, BitVec.toNat_add, BitVec.toNat_ofNat, before]
  omega

theorem sbappendstreamLocked_mbufs (noEor : ∀ m ∈ chain, m.eor = false) (fits : ∀ m ∈ chain, m.Fits)
    (sb : StreamBuf) :
    ((∀ m ∈ sb.mb, m.Fits) → ∀ m ∈ (sb.sbappendstreamLocked chain).mb, m.Fits) ∧
      ((∀ m ∈ sb.mb, 0 < m.len) → ∀ m ∈ (sb.sbappendstreamLocked chain).mb, 0 < m.len) := by
  have appended := sbcompress_appended noEor fits sb
  exact ⟨appended.fits, appended.filled⟩

structure Dropped (before : List SbMbuf) (sb : StreamBuf) (count : Nat) (left : List SbMbuf)
    (next : StreamBuf) : Prop where
  cells : cellsOf (bodies left) = (cellsOf (bodies before)).drop count
  count : next.cc = sb.cc - BitVec.ofNat 32 count
  tail : next.mbtail = sb.mbtail
  last : left.getLast?.map SbMbuf.addr = none ∨
    left.getLast?.map SbMbuf.addr = before.getLast?.map SbMbuf.addr
  fits : (∀ m ∈ before, m.Fits) → ∀ m ∈ left, m.Fits
  filled : (∀ m ∈ before, 0 < m.len) → ∀ m ∈ left, 0 < m.len

theorem trim_len (m : SbMbuf) (count : Nat) : (m.trim count).len = m.len - count := by
  unfold SbMbuf.len SbMbuf.trim
  simp only
  rw [← Mbuf.cells_length, Mbuf.cells_trim, List.length_drop, Mbuf.cells_length]

theorem bodies_cons (m : SbMbuf) (rest : List SbMbuf) : bodies (m :: rest) = m.body :: bodies rest :=
  rfl

theorem Dropped.free {left : List SbMbuf} (enough : m.len ≤ count)
    (dropped : Dropped rest (sb.sbfree m) (count - m.len) left next) :
    Dropped (m :: rest) sb count left next := by
  constructor
  · rw [dropped.cells, bodies_cons, cellsOf_cons, List.drop_append, Mbuf.cells_length,
      m.body.drop_cells enough, List.nil_append]
    rfl
  · have freed : (sb.sbfree m).cc = sb.cc - BitVec.ofNat 32 m.len := rfl
    rw [dropped.count, freed]
    bv_omega
  · exact dropped.tail
  · rcases dropped.last with none | same
    · exact .inl none
    · cases rest with
      | nil => exact .inl same
      | cons other rest => exact .inr same
  · exact fun fits => dropped.fits fun other member => fits other (List.mem_cons_of_mem m member)
  · exact fun filled => dropped.filled fun other member =>
      filled other (List.mem_cons_of_mem m member)

theorem Dropped.nothing (mbufs : List SbMbuf) (sb : StreamBuf) : Dropped mbufs sb 0 mbufs sb := by
  constructor
  · rfl
  · exact (BitVec.sub_zero _).symm
  · rfl
  · exact .inr rfl
  · exact id
  · exact id

theorem Dropped.part (inside : count < m.len) :
    Dropped (m :: rest) sb count (m.trim count :: rest) (sb.dropPart m count) := by
  constructor
  · rw [bodies_cons, bodies_cons, cellsOf_cons, cellsOf_cons,
      List.drop_append_of_le_length (by rw [Mbuf.cells_length]; exact Nat.le_of_lt inside)]
    congr 1
    exact Mbuf.cells_trim count m.body
  · rfl
  · rfl
  · right
    cases rest with
    | nil | cons other rest => rfl
  · intro fits other member
    rcases List.mem_cons.mp member with rfl | later
    · exact (fits m List.mem_cons_self).trim inside
    · exact fits other (List.mem_cons_of_mem m later)
  · intro filled other member
    rcases List.mem_cons.mp member with rfl | later
    · rw [trim_len]
      omega
    · exact filled other (List.mem_cons_of_mem m later)

theorem dropLoop_dropped {mbufs : List SbMbuf} (len : Nat) (sb : StreamBuf)
    (enough : len ≤ (cellsOf (bodies mbufs)).length) :
    ∃ left next, dropLoop mbufs len sb = some (left, next) ∧ Dropped mbufs sb len left next := by
  induction mbufs generalizing len sb with
  | nil =>
    have zero : len = 0 := Nat.le_zero.mp enough
    subst zero
    exact ⟨[], sb, rfl, Dropped.nothing [] sb⟩
  | cons m rest ih =>
    cases len with
    | zero => exact ⟨m :: rest, sb, rfl, Dropped.nothing _ sb⟩
    | succ len =>
      rw [dropLoop]
      by_cases inside : len + 1 < m.len
      · rw [if_pos inside]
        exact ⟨_, _, rfl, Dropped.part inside⟩
      · rw [if_neg inside]
        rw [bodies_cons, cellsOf_cons, List.length_append, Mbuf.cells_length] at enough
        have length : m.body.len = m.len := rfl
        obtain ⟨left, next, loop, dropped⟩ := ih (len + 1 - m.len) (sb.sbfree m) (by omega)
        exact ⟨left, next, loop, dropped.free (by omega)⟩

theorem dropEmpty_dropped (mbufs : List SbMbuf) (sb : StreamBuf) :
    Dropped mbufs sb 0 (dropEmpty mbufs sb).1 (dropEmpty mbufs sb).2 := by
  induction mbufs generalizing sb with
  | nil => exact Dropped.nothing [] sb
  | cons m rest ih =>
    rw [dropEmpty]
    by_cases empty : m.len = 0
    · rw [if_pos empty]
      refine Dropped.free (by omega) ?_
      rw [Nat.zero_sub]
      exact ih (sb.sbfree m)
    · rw [if_neg empty]
      exact Dropped.nothing _ sb

theorem Dropped.trans {before left : List SbMbuf} (one : Dropped before sb count left middle)
    (two : Dropped left middle 0 rest next) : Dropped before sb count rest next := by
  constructor
  · rw [two.cells, one.cells, List.drop_zero]
  · rw [two.count, one.count]
    exact BitVec.sub_zero _
  · exact two.tail.trans one.tail
  · rcases two.last with none | same
    · exact .inl none
    · rw [same]
      exact one.last
  · exact fun fits => two.fits (one.fits fits)
  · exact fun filled => two.filled (one.filled filled)

theorem Inv.drop (inv : sb.Inv) {len : BitVec 32} (enough : len.toInt ≤ sb.cc.toNat) :
    ∃ next, sb.sbdropLocked len = some next ∧ next.Inv ∧
      next.cells = sb.cells.drop len.toInt.toNat ∧
      ((∀ m ∈ sb.mb, m.Fits) → ∀ m ∈ next.mb, m.Fits) ∧
      ((∀ m ∈ sb.mb, 0 < m.len) → ∀ m ∈ next.mb, 0 < m.len) := by
  have count := inv.count
  have below : len.toInt.toNat ≤ (cellsOf (bodies sb.mb)).length := by
    rw [count] at enough
    exact Int.toNat_le.mpr enough
  obtain ⟨left, middle, loop, dropped⟩ := dropLoop_dropped len.toInt.toNat sb below
  have emptied := dropped.trans (dropEmpty_dropped left middle)
  unfold sbdropLocked
  rw [loop, Option.map_some]
  simp only
  generalize dropEmpty left middle = result at emptied
  obtain ⟨rest, freed⟩ := result
  have number : freed.cc.toNat = (cellsOf (bodies rest)).length := by
    have size : (cellsOf (bodies sb.mb)).length = sb.cc.toNat := count.symm
    rw [emptied.cells, List.length_drop, size, emptied.count]
    have bound := sb.cc.isLt
    bv_omega
  refine ⟨_, rfl, ?_⟩
  cases rest with
  | nil => exact ⟨⟨number, rfl, rfl⟩, emptied.cells, emptied.fits, emptied.filled⟩
  | cons m rest =>
    refine ⟨⟨number, ?_, rfl⟩, emptied.cells, emptied.fits, emptied.filled⟩
    have last : (m :: rest).getLast?.map SbMbuf.addr = sb.mb.getLast?.map SbMbuf.addr := by
      rcases emptied.last with none | same
      · simp at none
      · exact same
    exact (emptied.tail.trans inv.tail).trans last.symm

end StreamBuf

open StreamBuf

/-- Appending and dropping are what they are for the list of cells, while the counter does not
come round. -/
theorem streamBuf_cells (sb : StreamBuf) (inv : sb.Inv) (fits : ∀ m ∈ sb.mb, m.Fits) :
    (∀ chain : List SbMbuf, (∀ m ∈ chain, m.eor = false) → (∀ m ∈ chain, m.Fits) →
      sb.cells.length + (cellsOf (bodies chain)).length < 2 ^ 32 →
        (sb.sbappendstreamLocked chain).Inv ∧
        (∀ m ∈ (sb.sbappendstreamLocked chain).mb, m.Fits) ∧
        (sb.sbappendstreamLocked chain).cells = sb.cells ++ cellsOf (bodies chain)) ∧
    ∀ len : BitVec 32, len.toInt ≤ sb.cc.toNat → ∃ next, sb.sbdropLocked len = some next ∧
      next.Inv ∧ (∀ m ∈ next.mb, m.Fits) ∧ next.cells = sb.cells.drop len.toInt.toNat := by
  constructor
  · intro chain noEor chainFits small
    obtain ⟨after, cells⟩ := inv.append noEor chainFits small
    have mbufs := (sbappendstreamLocked_mbufs noEor chainFits sb).1 fits
    exact ⟨after, mbufs, cells⟩
  · intro len enough
    obtain ⟨next, dropped, after, cells, mbufs, _⟩ := inv.drop enough
    exact ⟨next, dropped, after, mbufs fits, cells⟩

def plainMbuf (addr : Nat) (body : Mbuf) : SbMbuf :=
  ⟨addr, body, mtData, false, true, none, if body.isHole then 0 else 16⟩

def plainBuf (mbufs : List SbMbuf) (cc : BitVec 32) : StreamBuf :=
  ⟨mbufs, mbufs.getLast?.map SbMbuf.addr, mbufs.head?.map SbMbuf.addr, cc, 0, 0, 0, 0, none, 0,
    false⟩

theorem streamBuf_cells_two :
    (plainBuf [plainMbuf 1 (.data [5, 6])] 2).Inv ∧
      ((plainBuf [plainMbuf 1 (.data [5, 6])] 2).sbappendstreamLocked
        [plainMbuf 2 (.data [7]), plainMbuf 3 (.hole 4)]).cells =
        (plainBuf [plainMbuf 1 (.data [5, 6])] 2).cells ++
          cellsOf (bodies [plainMbuf 2 (.data [7]), plainMbuf 3 (.hole 4)]) := by
  have inv : (plainBuf [plainMbuf 1 (.data [5, 6])] 2).Inv := ⟨rfl, rfl, rfl⟩
  have fits : ∀ m ∈ [plainMbuf 1 (.data [5, 6])], m.Fits := by
    simp [SbMbuf.Fits, plainMbuf, SbMbuf.len, Mbuf.len, Mbuf.isHole, intMax]
  refine ⟨inv, ((streamBuf_cells _ inv fits).1 _ ?_ ?_ ?_).2.2⟩
  · simp [plainMbuf]
  · simp [SbMbuf.Fits, plainMbuf, SbMbuf.len, Mbuf.len, Mbuf.isHole, intMax]
  · decide

theorem streamBuf_wraps :
    ∃ sb : StreamBuf, ∃ chain : List SbMbuf, sb.Inv ∧ (∀ m ∈ sb.mb, m.Fits) ∧
      (∀ m ∈ chain, m.eor = false) ∧ (∀ m ∈ chain, m.Fits) ∧
      (sb.sbappendstreamLocked chain).cells.length = 2 ^ 32 ∧
      (sb.sbappendstreamLocked chain).cc = 0 ∧ ¬(sb.sbappendstreamLocked chain).Inv := by
  have cc : ((plainBuf [plainMbuf 1 (.hole intMax), plainMbuf 2 (.hole intMax)]
      (BitVec.ofNat 32 (2 * intMax))).sbappendstreamLocked [plainMbuf 3 (.hole 2)]).cc = 0 := rfl
  have cells : ((plainBuf [plainMbuf 1 (.hole intMax), plainMbuf 2 (.hole intMax)]
      (BitVec.ofNat 32 (2 * intMax))).sbappendstreamLocked [plainMbuf 3 (.hole 2)]).cells.length =
      2 ^ 32 := by
    rw [StreamBuf.cells, cellsOf_length]
    rfl
  refine ⟨plainBuf [plainMbuf 1 (.hole intMax), plainMbuf 2 (.hole intMax)]
    (BitVec.ofNat 32 (2 * intMax)), [plainMbuf 3 (.hole 2)], ⟨?_, rfl, rfl⟩, ?_, ?_, ?_, cells, cc,
    ?_⟩
  · rw [StreamBuf.cells, cellsOf_length]
    rfl
  · simp [plainBuf, SbMbuf.Fits, plainMbuf, SbMbuf.len, Mbuf.len, Mbuf.isHole, intMax]
  · simp [plainMbuf]
  · simp [SbMbuf.Fits, plainMbuf, SbMbuf.len, Mbuf.len, Mbuf.isHole, intMax]
  · intro inv
    have count := inv.count
    rw [cells, cc] at count
    cases count

inductive SbCall where
  | append (chain : List SbMbuf)
  | drop (len : BitVec 32)

structure SbHistory where
  sb : StreamBuf
  given : List Cell
  taken : List Cell

def sbMove (state : SbHistory) (call : SbCall) (next : SbHistory) : Prop :=
  match call with
  | .append chain => (∀ m ∈ chain, m.eor = false) ∧ (∀ m ∈ chain, m.Fits) ∧
      state.sb.cells.length + (cellsOf (bodies chain)).length < 2 ^ 32 ∧
      next = ⟨state.sb.sbappendstreamLocked chain, state.given ++ cellsOf (bodies chain),
        state.taken⟩
  | .drop len => len.toInt ≤ state.sb.cc.toNat ∧ ∃ sb, state.sb.sbdropLocked len = some sb ∧
      next = ⟨sb, state.given, state.taken ++ state.sb.cells.take len.toInt.toNat⟩

/-- Over any calls the buffer is a queue of cells, and it holds no empty mbuf. -/
theorem streamBuf_fifo {start : StreamBuf} {calls : List SbCall} {final : SbHistory}
    (inv : start.Inv) (filled : ∀ m ∈ start.mb, 0 < m.len)
    (run : Runs.Run sbMove ⟨start, start.cells, []⟩ calls final) :
    final.taken ++ final.sb.cells = final.given ∧ (∀ m ∈ final.sb.mb, 0 < m.len) ∧
      final.sb.Inv ∧ ∀ len : BitVec 32, len.toInt ≤ final.sb.cells.length →
        ∃ sb, final.sb.sbdropLocked len = some sb := by
  have kept := run.invariant (fun state => state.sb.Inv ∧ (∀ m ∈ state.sb.mb, 0 < m.len) ∧
    state.taken ++ state.sb.cells = state.given) ⟨inv, filled, rfl⟩ ?_
  · refine ⟨kept.2.2, kept.2.1, kept.1, fun len enough => ?_⟩
    obtain ⟨sb, dropped, _⟩ := kept.1.drop (kept.1.count ▸ enough)
    exact ⟨sb, dropped⟩
  · rintro state call next ⟨inv, filled, queue⟩ move
    cases call with
    | append chain =>
      obtain ⟨noEor, fits, small, rfl⟩ := move
      obtain ⟨after, cells⟩ := inv.append noEor fits small
      refine ⟨after, (sbappendstreamLocked_mbufs noEor fits state.sb).2 filled, ?_⟩
      rw [cells, ← List.append_assoc, queue]
    | drop len =>
      obtain ⟨enough, sb, dropped, rfl⟩ := move
      obtain ⟨other, same, after, cells, _, full⟩ := inv.drop enough
      cases dropped.symm.trans same
      refine ⟨after, full filled, ?_⟩
      rw [List.append_assoc, cells, List.take_append_drop, queue]

theorem streamBuf_fifo_two :
    ∃ final, Runs.Run sbMove ⟨plainBuf [] 0, [], []⟩
        [.append [plainMbuf 1 (.data [5, 6]), plainMbuf 2 (.hole 1)], .drop 2] final ∧
      final.taken = [.data 5, .data 6] ∧ final.taken ++ final.sb.cells = final.given := by
  refine Runs.Run.exists_with (fun _ run => (streamBuf_fifo ⟨rfl, rfl, rfl⟩ (by rintro _ ⟨⟩) run).1)
    ⟨_, .snoc (.snoc .nil ⟨?_, ?_, by decide, rfl⟩) ⟨by decide, _, rfl, rfl⟩, rfl⟩
  · simp [plainMbuf]
  · simp [SbMbuf.Fits, plainMbuf, SbMbuf.len, Mbuf.len, Mbuf.isHole, intMax]

end Libunsod.Kern
