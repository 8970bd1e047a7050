import Libunsod.Netinet.L2Tags

/-!
The bucket of a syncache entry under `PROMISCUOUS_INET` and `syncache_lookup`. A bucket is
searched with `in_promisc_tagcmp`, so stacks that are equal there have to be hashed alike.
-/

namespace Libunsod.Netinet

structure Endpoints where
  faddr : BitVec 32
  laddr : BitVec 32
  fport : BitVec 16
  lport : BitVec 16
  deriving DecidableEq

def syncacheHash (secret : BitVec 32) (inc : Endpoints) (mask : BitVec 32) : BitVec 32 :=
  (secret ^^^ inc.faddr ^^^ inc.faddr >>> 16 ^^^ inc.fport.setWidth 32 ^^^ inc.lport.setWidth 32) &&&
    mask

/-- The second hash is left out for a stack that is missing or has no tags. -/
def syncacheHashPromisc (secret : BitVec 32) (inc : Endpoints) (l2i : Option L2TagStack)
    (mask : BitVec 32) : BitVec 32 :=
  let hash := inPromiscHash32 [⟨inc.laddr, 0xffffffff⟩] (syncacheHash secret inc mask)
  let hash := if (l2Tags l2i).length ≠ 0 then inPromiscHash32 (l2Tags l2i) hash else hash
  hash &&& mask

def synHashmask (bits : Fin 32) : BitVec 32 := BitVec.twoPow 32 bits - 1

structure CachedSyn where
  inc : Endpoints
  l2i : Option L2TagStack

/-- Every entry is in the bucket of its own endpoints and tags. -/
structure SynTable (secret mask : BitVec 32) where
  bucket : BitVec 32 → List CachedSyn
  placed : ∀ hash, ∀ sc ∈ bucket hash, syncacheHashPromisc secret sc.inc sc.l2i mask = hash

namespace SynTable

variable {secret mask : BitVec 32}

def syncacheLookup (table : SynTable secret mask) (inc : Endpoints) (l2i : Option L2TagStack) :
    Option CachedSyn :=
  (table.bucket (syncacheHashPromisc secret inc l2i mask)).find? fun sc =>
    decide (inPromiscTagcmp l2i sc.l2i = 0) && decide (inc = sc.inc)

def single (secret mask : BitVec 32) (sc : CachedSyn) : SynTable secret mask where
  bucket hash := if syncacheHashPromisc secret sc.inc sc.l2i mask = hash then [sc] else []
  placed hash entry member := by
    split at member
    next same =>
      rw [List.mem_singleton.mp member]
      exact same
    next => cases member

end SynTable

/-- A packet with the stack `l2i` finds an entry where one with the same endpoints and the
stack `other` is cached. -/
def FindsCached (l2i other : Option L2TagStack) : Prop :=
  ∀ secret bits (table : SynTable secret (synHashmask bits)) inc hash,
    ⟨inc, other⟩ ∈ table.bucket hash → inPromiscTagcmp l2i other = 0 →
      ∃ found, table.syncacheLookup inc l2i = some found ∧ found.inc = inc ∧
        inPromiscTagcmp l2i found.l2i = 0

/-- From 10.0.0.2 port 40000 to 10.0.0.1 port 80, in network byte order. -/
def webClient : Endpoints := ⟨0x0200000a, 0x0100000a, 0x409c, 0x5000⟩

section Hash

variable {l2i other : Option L2TagStack} {secret mask : BitVec 32} {inc : Endpoints}

theorem syncacheHashPromisc_congr (equal : effective (l2Tags l2i) = effective (l2Tags other))
    (alike : (l2Tags l2i).length = 0 ↔ (l2Tags other).length = 0) :
    syncacheHashPromisc secret inc l2i mask = syncacheHashPromisc secret inc other mask := by
  have hashed : ∀ seed, inPromiscHash32 (l2Tags l2i) seed = inPromiscHash32 (l2Tags other) seed := by
    intro seed
    rw [hash32_eq, hash32_eq, equal]
  simp only [syncacheHashPromisc, hashed, ne_eq, alike]

theorem effective_of_length {tags : List L2Tag} (empty : tags.length = 0) : effective tags = [] := by
  rw [List.length_eq_zero_iff.mp empty]
  rfl

/-- The tags count although their masks say that they do not. -/
theorem hash_differs (equal : effective (l2Tags l2i) = effective (l2Tags other))
    (empty : (l2Tags l2i).length = 0) (tagged : (l2Tags other).length ≠ 0) :
    syncacheHashPromisc 0 webClient l2i (synHashmask 9) ≠
      syncacheHashPromisc 0 webClient other (synHashmask 9) := by
  have unsaid : effective (l2Tags other) = [] := equal.symm.trans (effective_of_length empty)
  simp only [syncacheHashPromisc, if_pos tagged, if_neg (not_not.mpr empty),
    hash32_of_effective_nil unsaid]
  decide

end Hash

theorem SynTable.mem_single (secret mask : BitVec 32) (sc : CachedSyn) :
    sc ∈ (single secret mask sc).bucket (syncacheHashPromisc secret sc.inc sc.l2i mask) := by
  simp [single]

theorem SynTable.single_lookup {secret mask : BitVec 32} {inc : Endpoints}
    {l2i other : Option L2TagStack} (differs : syncacheHashPromisc secret inc other mask ≠
      syncacheHashPromisc secret inc l2i mask) :
    (SynTable.single secret mask ⟨inc, other⟩).syncacheLookup inc l2i = none := by
  simp [SynTable.syncacheLookup, SynTable.single, differs]

/-- Exactly when both stacks have tags or both have none. -/
theorem syncacheLookup_finds_iff (l2i other : Option L2TagStack) :
    FindsCached l2i other ↔
      (inPromiscTagcmp l2i other = 0 → ((l2Tags l2i).length = 0 ↔ (l2Tags other).length = 0)) := by
  constructor
  · intro finds same
    have equal := (tagcmp_eq_zero_iff l2i other).mp same
    by_contra unlike
    have differs : syncacheHashPromisc 0 webClient other (synHashmask 9) ≠
        syncacheHashPromisc 0 webClient l2i (synHashmask 9) := by
      by_cases empty : (l2Tags l2i).length = 0
      · have tagged : (l2Tags other).length ≠ 0 := fun none => unlike (iff_of_true empty none)
        exact (hash_differs equal empty tagged).symm
      · have none : (l2Tags other).length = 0 := not_not.mp fun tagged =>
          unlike (iff_of_false empty tagged)
        exact hash_differs equal.symm none empty
    obtain ⟨found, some_, -⟩ := finds 0 9 (.single 0 _ ⟨webClient, other⟩) webClient _
      (SynTable.mem_single ..) same
    rw [SynTable.single_lookup differs] at some_
    cases some_
  · intro alike secret bits table inc hash member same
    have equal := (tagcmp_eq_zero_iff l2i other).mp same
    have placed := table.placed hash _ member
    rw [← syncacheHashPromisc_congr equal (alike same)] at placed
    subst placed
    cases lookup : table.syncacheLookup inc l2i with
    | none => simpa [same] using List.find?_eq_none.mp lookup _ member
    | some found =>
      have fits := List.find?_some lookup
      simp only [Bool.and_eq_true, decide_eq_true_eq] at fits
      exact ⟨found, rfl, fits.2.symm, fits.1⟩

/-- A cached entry whose only tag has the mask zero, and a packet without tags. -/
theorem syncacheLookup_misses :
    (SynTable.single 0 (synHashmask 9) ⟨webClient, some ⟨[⟨5, 0⟩], by decide⟩⟩).syncacheLookup
        webClient none = none ∧
      inPromiscTagcmp none (some ⟨[⟨5, 0⟩], by decide⟩) = 0 := by
  refine ⟨SynTable.single_lookup (Ne.symm (hash_differs ?_ ?_ ?_)), (tagcmp_eq_zero_iff ..).mpr rfl⟩
  · rfl
  · rfl
  · exact Nat.one_ne_zero

end Libunsod.Netinet
