import Libunsod.Netinet.SyncacheCore
import Mathlib.Data.List.Nodup

/-!
Where the entries of the syncache are: in the bucket of their connection, or with the one thread
that works on them. No call frees an entry that is somewhere else.
-/

namespace Libunsod.Netinet

open Runs
open Function (update_of_ne update_self)

variable {next : Syncache}

variable {thread : Nat}

namespace Syncache

variable {config : SyncacheConfig} {cache : Syncache} {sc : ScEntry} {bucket entry : Nat}

def work (cache : Syncache) (thread : Nat) : Option Nat :=
  (cache.threads thread).bind ScWork.entry

structure Placed (config : SyncacheConfig) (cache : Syncache) : Prop where
  filed : ∀ bucket entry, entry ∈ cache.buckets bucket →
    ∃ sc, cache.entries entry = some sc ∧ config.hash sc.conn = bucket
  nodup : ∀ bucket, (cache.buckets bucket).Nodup
  busy : ∀ thread entry, cache.work thread = some entry →
    (∃ sc, cache.entries entry = some sc) ∧ ∀ bucket, entry ∉ cache.buckets bucket
  alone : ∀ thread other entry, cache.work thread = some entry → cache.work other = some entry →
    thread = other
  adds : ∀ thread entry bucket passive, cache.threads thread = some (.adding entry bucket passive) →
    ∃ sc, cache.entries entry = some sc ∧ config.hash sc.conn = bucket
  legal : cache.bad = false

structure Loose (cache : Syncache) (entry : Nat) : Prop where
  unfiled : ∀ bucket, entry ∉ cache.buckets bucket
  unworked : ∀ thread, cache.work thread ≠ some entry

theorem start_placed : Placed config start where
  filed := by rintro bucket entry ⟨⟩
  nodup := fun _ => List.nodup_nil
  busy := by rintro thread entry ⟨⟩
  alone := by rintro thread other entry ⟨⟩
  adds := by rintro thread entry bucket passive ⟨⟩
  legal := rfl

theorem mFreeIfSet_eq (cache : Syncache) (chain : Option Nat) :
    cache.mFreeIfSet chain = { cache with freed := (cache.mFreeIfSet chain).freed } := by
  cases chain with
  | none | some chain => rfl

theorem syncacheFree_eq (live : cache.entries entry = some sc) :
    cache.syncacheFree entry = { cache with
      entries := Function.update cache.entries entry none
      freed := ((cache.mFreeIfSet sc.syn).mFreeIfSet sc.synack).freed } := by
  rw [syncacheFree, live]
  simp only
  rw [mFreeIfSet_eq (cache.mFreeIfSet sc.syn), mFreeIfSet_eq cache]

theorem Placed.refile (placed : cache.Placed config) {entries : Nat → Option ScEntry}
    (kept : ∀ entry sc, cache.entries entry = some sc →
      ∃ after, entries entry = some after ∧ after.conn = sc.conn) :
    Placed config { cache with entries := entries } := by
  refine { placed with
    filed := fun bucket entry member => ?_
    busy := fun thread entry works => ?_
    adds := fun thread entry bucket passive adds => ?_ }
  · obtain ⟨sc, live, hash⟩ := placed.filed bucket entry member
    obtain ⟨after, now, conn⟩ := kept entry sc live
    exact ⟨after, now, by rw [conn]; exact hash⟩
  · obtain ⟨⟨sc, live⟩, unfiled⟩ := placed.busy thread entry works
    obtain ⟨after, now, _⟩ := kept entry sc live
    exact ⟨⟨after, now⟩, unfiled⟩
  · obtain ⟨sc, live, hash⟩ := placed.adds thread entry bucket passive adds
    obtain ⟨after, now, conn⟩ := kept entry sc live
    exact ⟨after, now, by rw [conn]; exact hash⟩

theorem Placed.update (placed : cache.Placed config) (live : cache.entries entry = some sc)
    {after : ScEntry} (conn : after.conn = sc.conn) :
    Placed config { cache with entries := Function.update cache.entries entry (some after) } := by
  refine placed.refile fun other before alive => ?_
  by_cases same : other = entry
  · subst same
    rw [live] at alive
    cases alive
    exact ⟨after, update_self _ _ _, conn⟩
  · exact ⟨before, (update_of_ne same _ _).trans alive, rfl⟩

theorem work_of_adding {bucket : Nat} {passive : Bool}
    (adds : cache.threads thread = some (.adding entry bucket passive)) :
    cache.work thread = some entry := by
  rw [work, adds]
  rfl

theorem Placed.free (placed : cache.Placed config) (live : cache.entries entry = some sc)
    (loose : cache.Loose entry) : (cache.syncacheFree entry).Placed config := by
  rw [syncacheFree_eq live]
  have other : ∀ kept, kept ≠ entry → Function.update cache.entries entry none kept =
      cache.entries kept := fun kept differs => update_of_ne differs none cache.entries
  refine ⟨?_, placed.nodup, ?_, placed.alone, ?_, placed.legal⟩
  · intro bucket kept member
    have differs : kept ≠ entry := by
      rintro rfl
      exact loose.unfiled bucket member
    obtain ⟨still, alive, hash⟩ := placed.filed bucket kept member
    exact ⟨still, (other kept differs).trans alive, hash⟩
  · intro thread kept works
    have differs : kept ≠ entry := by
      rintro rfl
      exact loose.unworked thread works
    obtain ⟨⟨still, alive⟩, unfiled⟩ := placed.busy thread kept works
    exact ⟨⟨still, (other kept differs).trans alive⟩, unfiled⟩
  · intro thread kept bucket passive adds
    have differs : kept ≠ entry := by
      rintro rfl
      exact loose.unworked thread (work_of_adding adds)
    obtain ⟨still, alive, hash⟩ := placed.adds thread kept bucket passive adds
    exact ⟨still, (other kept differs).trans alive, hash⟩

theorem Placed.tailqRemove (placed : cache.Placed config) (member : entry ∈ cache.buckets bucket) :
    (cache.tailqRemove bucket entry).Placed config ∧
      (cache.tailqRemove bucket entry).Loose entry := by
  have kept : ∀ place other, other ∈ (cache.tailqRemove bucket entry).buckets place →
      other ∈ cache.buckets place ∧ other ≠ entry := by
    intro place other inside
    by_cases same : place = bucket
    · subst same
      simp only [Syncache.tailqRemove, update_self] at inside
      rw [(placed.nodup place).mem_erase_iff] at inside
      exact ⟨inside.2, inside.1⟩
    · simp only [Syncache.tailqRemove, update_of_ne same] at inside
      refine ⟨inside, ?_⟩
      rintro rfl
      obtain ⟨sc, live, hash⟩ := placed.filed place other inside
      obtain ⟨also, alive, hashed⟩ := placed.filed bucket other member
      rw [live] at alive
      cases alive
      exact same (hash.symm.trans hashed)
  refine ⟨⟨?_, ?_, ?_, placed.alone, placed.adds, placed.legal⟩, ?_, ?_⟩
  · exact fun place other inside => placed.filed place other (kept place other inside).1
  · intro place
    by_cases same : place = bucket
    · subst same
      simp only [Syncache.tailqRemove, update_self]
      exact (placed.nodup place).erase entry
    · simp only [Syncache.tailqRemove, update_of_ne same]
      exact placed.nodup place
  · intro thread other works
    obtain ⟨live, unfiled⟩ := placed.busy thread other works
    exact ⟨live, fun place inside => unfiled place (kept place other inside).1⟩
  · exact fun place inside => (kept place entry inside).2 rfl
  · exact fun thread works => (placed.busy thread entry works).2 bucket member

theorem Placed.drop (placed : cache.Placed config) (member : entry ∈ cache.buckets bucket) :
    (cache.syncacheDrop bucket entry).Placed config := by
  obtain ⟨sc, live, _⟩ := placed.filed bucket entry member
  obtain ⟨removed, loose⟩ := placed.tailqRemove member
  exact removed.free live loose

theorem Placed.dropLast (placed : cache.Placed config) (bucket : Nat) :
    (cache.dropLast bucket).Placed config := by
  unfold Syncache.dropLast
  split
  · rename_i last found
    exact placed.drop (List.mem_of_getLast? found)
  · exact placed

theorem Placed.dropLast_loose (placed : cache.Placed config) (place : Nat)
    (loose : cache.Loose entry) :
    (cache.dropLast place).Loose entry ∧
      (cache.dropLast place).entries entry = cache.entries entry := by
  unfold Syncache.dropLast
  split
  · rename_i last found
    have member := List.mem_of_getLast? found
    obtain ⟨sc, live, _⟩ := placed.filed place last member
    have differs : entry ≠ last := by
      rintro rfl
      exact loose.unfiled place member
    have removed : (cache.tailqRemove place last).entries last = some sc := live
    rw [syncacheDrop, syncacheFree_eq removed]
    refine ⟨⟨fun other inside => ?_, loose.unworked⟩, update_of_ne differs _ _⟩
    by_cases same : other = place
    · subst same
      simp only [Syncache.tailqRemove, update_self] at inside
      exact loose.unfiled other (List.mem_of_mem_erase inside)
    · simp only [Syncache.tailqRemove, update_of_ne same] at inside
      exact loose.unfiled other inside
  · exact ⟨loose, rfl⟩

theorem Placed.insert (placed : cache.Placed config) (live : cache.entries entry = some sc)
    (hash : config.hash sc.conn = bucket) (loose : cache.Loose entry) :
    (cache.syncacheInsert config bucket entry).Placed config := by
  have file : ∀ trimmed : Syncache, trimmed.Placed config → trimmed.Loose entry →
      trimmed.entries entry = some sc → Placed config { trimmed with
        buckets := Function.update trimmed.buckets bucket (entry :: trimmed.buckets bucket) } := by
    intro trimmed placed loose live
    have now : ∀ place other,
        other ∈ Function.update trimmed.buckets bucket (entry :: trimmed.buckets bucket) place →
        other = entry ∧ place = bucket ∨ other ∈ trimmed.buckets place := by
      intro place other inside
      by_cases same : place = bucket
      · subst same
        rw [update_self] at inside
        rcases List.mem_cons.mp inside with first | rest
        · exact .inl ⟨first, rfl⟩
        · exact .inr rest
      · rw [update_of_ne same] at inside
        exact .inr inside
    refine ⟨?_, ?_, ?_, placed.alone, placed.adds, placed.legal⟩
    · intro place other inside
      rcases now place other inside with ⟨rfl, rfl⟩ | before
      · exact ⟨sc, live, hash⟩
      · exact placed.filed place other before
    · intro place
      by_cases same : place = bucket
      · subst same
        simp only [update_self]
        exact List.nodup_cons.mpr ⟨loose.unfiled place, placed.nodup place⟩
      · simp only [update_of_ne same]
        exact placed.nodup place
    · intro thread other works
      obtain ⟨alive, unfiled⟩ := placed.busy thread other works
      refine ⟨alive, fun place inside => ?_⟩
      rcases now place other inside with ⟨rfl, _⟩ | before
      · exact loose.unworked thread works
      · exact unfiled place before
  unfold syncacheInsert
  simp only
  split
  · obtain ⟨still, same⟩ := placed.dropLast_loose bucket loose
    exact file _ (placed.dropLast bucket) still (by rw [same]; exact live)
  · exact file _ placed loose live

theorem lookup_filed {conn : Nat} (found : cache.syncacheLookup config conn = some entry) :
    entry ∈ cache.buckets (config.hash conn) :=
  List.mem_of_find?_eq_some found

theorem Placed.clearThread (placed : cache.Placed config) (works : cache.work thread = some entry) :
    (cache.setThread thread none).Placed config ∧ (cache.setThread thread none).Loose entry := by
  have kept : ∀ other held, (cache.setThread thread none).work other = some held →
      other ≠ thread ∧ cache.work other = some held := by
    intro other held still
    by_cases same : other = thread
    · subst same
      simp [work, setThread] at still
    · simp only [work, setThread, update_of_ne same] at still
      exact ⟨same, still⟩
  refine ⟨⟨placed.filed, placed.nodup, ?_, ?_, ?_, placed.legal⟩, ?_, ?_⟩
  · exact fun other held still => placed.busy other held (kept other held still).2
  · exact fun first second held one two =>
      placed.alone first second held (kept first held one).2 (kept second held two).2
  · intro other held bucket passive adds
    by_cases same : other = thread
    · subst same
      simp [setThread] at adds
    · simp only [setThread, update_of_ne same] at adds
      exact placed.adds other held bucket passive adds
  · exact fun bucket inside => (placed.busy thread entry works).2 bucket inside
  · intro other still
    obtain ⟨differs, also⟩ := kept other entry still
    exact differs (placed.alone other thread entry also works)

theorem Placed.setThread (placed : cache.Placed config) {working : ScWork}
    (works : working.entry = some entry) (live : cache.entries entry = some sc)
    (loose : cache.Loose entry) (adds : ∀ bucket passive, working = .adding entry bucket passive →
      config.hash sc.conn = bucket) : (cache.setThread thread (some working)).Placed config := by
  have now : ∀ other held, (cache.setThread thread (some working)).work other = some held →
      other = thread ∧ held = entry ∨ cache.work other = some held := by
    intro other held still
    by_cases same : other = thread
    · subst same
      simp only [work, Syncache.setThread, update_self, Option.bind_some, works,
        Option.some.injEq] at still
      exact .inl ⟨rfl, still.symm⟩
    · simp only [work, Syncache.setThread, update_of_ne same] at still
      exact .inr still
  refine ⟨placed.filed, placed.nodup, ?_, ?_, ?_, placed.legal⟩
  · intro other held still
    rcases now other held still with ⟨_, rfl⟩ | before
    · exact ⟨⟨sc, live⟩, loose.unfiled⟩
    · exact placed.busy other held before
  · intro first second held one two
    rcases now first held one with ⟨rfl, rfl⟩ | before
    · rcases now second held two with ⟨rfl, _⟩ | also
      · rfl
      · exact absurd also (loose.unworked second)
    · rcases now second held two with ⟨rfl, rfl⟩ | also
      · exact absurd before (loose.unworked first)
      · exact placed.alone first second held before also
  · intro other held bucket passive adding
    by_cases same : other = thread
    · subst same
      simp only [Syncache.setThread, update_self, Option.some.injEq] at adding
      subst adding
      cases works
      exact ⟨sc, live, adds bucket passive rfl⟩
    · simp only [Syncache.setThread, update_of_ne same] at adding
      exact placed.adds other held bucket passive adding

end Syncache

end Libunsod.Netinet
