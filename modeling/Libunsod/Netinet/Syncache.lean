import Libunsod.Netinet.SyncachePlaces

/-!
What becomes of the packet chains of the syncache. `syncache_free` frees the first mbuf of a
chain only, a second SYN|ACK takes the place of the first one, and the entry on the stack of
`_syncache_add` is given a SYN that nobody frees. Runs in which none of this happens account for
every chain.
-/

namespace Libunsod.Netinet

open Runs
open Function (update update_eq_self_iff update_of_ne update_self)

variable {next : Syncache} {slot : ScSlot} {chain : Nat}

variable {thread : Nat} {call : AddCall}

namespace Syncache

variable {config : SyncacheConfig} {cache : Syncache} {sc : ScEntry} {bucket entry : Nat}

structure Owned (config : SyncacheConfig) (cache : Syncache) : Prop where
  balanced : Ledger.Balanced config.mbufs cache.holds cache.handed cache.freed
  single : ∀ slot chain, cache.holds slot = some chain → config.mbufs chain = 1
  noScs : ∀ thread, cache.holds (.scs thread) = none

theorem start_owned : Owned config start := by
  have holds : start.holds = fun _ => none := by
    funext slot
    cases slot <;> rfl
  refine ⟨?_, ?_, fun _ => rfl⟩
  · rw [holds]
    exact Ledger.Balanced.start
  · rw [holds]
    rintro slot chain ⟨⟩

theorem Owned.of_holds (owned : cache.Owned config) (holds : next.holds = cache.holds)
    (handed : next.handed = cache.handed) (freed : next.freed = cache.freed) :
    next.Owned config := by
  obtain ⟨balanced, single, noScs⟩ := owned
  rw [← holds, ← handed, ← freed] at balanced
  rw [← holds] at single noScs
  exact ⟨balanced, single, noScs⟩

theorem Owned.setThread (owned : cache.Owned config) {working : Option ScWork}
    (noScs : working.bind ScWork.scs = none) : (cache.setThread thread working).Owned config := by
  refine owned.of_holds ?_ rfl rfl
  funext slot
  cases slot with
  | syn entry | synack entry => rfl
  | scs other =>
    by_cases same : other = thread
    · subst same
      rw [owned.noScs other]
      simp only [holds, Syncache.setThread, update_self, noScs]
    · simp only [holds, Syncache.setThread, update_of_ne same]

theorem holds_update (cache next : Syncache) (entry : Nat) (content : Option ScEntry)
    (entries : next.entries = update cache.entries entry content)
    (threads : next.threads = cache.threads) :
    next.holds = update (update cache.holds (.syn entry) (content.bind (·.syn)))
      (.synack entry) (content.bind (·.synack)) := by
  funext slot
  cases slot with
  | syn other =>
    rw [update_of_ne (by rintro ⟨⟩), holds, entries]
    by_cases same : other = entry
    · subst same
      rw [update_self, update_self]
    · rw [update_of_ne same, update_of_ne (by simpa using same), holds]
  | synack other =>
    rw [holds, entries]
    by_cases same : other = entry
    · subst same
      rw [update_self, update_self]
    · rw [update_of_ne same, update_of_ne (by simpa using same),
        update_of_ne (by rintro ⟨⟩), holds]
  | scs thread =>
    rw [update_of_ne (by rintro ⟨⟩), update_of_ne (by rintro ⟨⟩), holds, holds,
      threads]

theorem balanced_mFreeIfSet {holds : ScSlot → Option Nat} {content : Option Nat}
    (balanced : Ledger.Balanced config.mbufs holds cache.handed cache.freed)
    (held : holds slot = content)
    (single : ∀ chain, content = some chain → config.mbufs chain = 1) :
    Ledger.Balanced config.mbufs (update holds slot none) cache.handed
      (cache.mFreeIfSet content).freed := by
  cases content with
  | none =>
    rw [update_eq_self_iff.mpr held.symm]
    exact balanced
  | some chain =>
    refine balanced.release held fun part below => ?_
    rw [single chain rfl] at below
    obtain rfl : part = 0 := by omega
    rw [update_self, balanced.intact slot chain held]

theorem Owned.free (owned : cache.Owned config) (live : cache.entries entry = some sc) :
    (cache.syncacheFree entry).Owned config := by
  have syn : cache.holds (.syn entry) = sc.syn := by
    rw [holds, live]
    rfl
  have synack : cache.holds (.synack entry) = sc.synack := by
    rw [holds, live]
    rfl
  have holds : (cache.syncacheFree entry).holds =
      update (update cache.holds (.syn entry) none) (.synack entry) none := by
    rw [syncacheFree_eq live]
    exact holds_update cache _ entry none rfl rfl
  have kept : ∀ slot chain, (cache.syncacheFree entry).holds slot = some chain →
      cache.holds slot = some chain := by
    intro slot chain still
    rw [holds] at still
    by_cases second : slot = .synack entry
    · rw [second, update_self] at still
      cases still
    · rw [update_of_ne second] at still
      by_cases first : slot = .syn entry
      · rw [first, update_self] at still
        cases still
      · rwa [update_of_ne first] at still
  refine ⟨?_, fun slot chain still => owned.single slot chain (kept slot chain still), ?_⟩
  · have first := balanced_mFreeIfSet owned.balanced syn fun chain is =>
      owned.single _ chain (syn.trans is)
    have handed : (cache.mFreeIfSet sc.syn).handed = cache.handed := by rw [mFreeIfSet_eq]
    rw [← handed] at first
    have left : update cache.holds (.syn entry) none (.synack entry) = sc.synack := by
      rw [update_of_ne (by rintro ⟨⟩)]
      exact synack
    have second := balanced_mFreeIfSet first left fun chain is =>
      owned.single _ chain (synack.trans is)
    rw [handed] at second
    rw [holds, syncacheFree_eq live]
    exact second
  · intro thread
    rw [holds, update_of_ne (by rintro ⟨⟩), update_of_ne (by rintro ⟨⟩)]
    exact owned.noScs thread

theorem Owned.drop (owned : cache.Owned config) (placed : cache.Placed config)
    (member : entry ∈ cache.buckets bucket) : (cache.syncacheDrop bucket entry).Owned config := by
  obtain ⟨sc, live, _⟩ := placed.filed bucket entry member
  have removed : (cache.tailqRemove bucket entry).Owned config := { owned with }
  exact removed.free live

theorem Owned.mFreem (owned : cache.Owned config) (new : cache.handed chain = false) :
    ((cache.hand chain).mFreem config chain).Owned config := by
  refine ⟨owned.balanced.spend new fun part below => ?_, owned.single, owned.noScs⟩
  have fresh : (cache.hand chain).freed chain part = 0 := owned.balanced.fresh chain new part
  rw [if_pos below, fresh]

theorem Owned.put (owned : cache.Owned config) (new : cache.handed chain = false)
    (one : config.mbufs chain = 1) (empty : cache.holds slot = none)
    (isEntry : ∀ thread, slot ≠ .scs thread)
    (holds : next.holds = update cache.holds slot (some chain))
    (handed : next.handed = update cache.handed chain true) (freed : next.freed = cache.freed) :
    next.Owned config := by
  refine ⟨?_, ?_, fun thread => ?_⟩
  · rw [holds, handed, freed]
    exact owned.balanced.put new empty
  · rw [holds]
    intro other held now
    by_cases same : other = slot
    · rw [same, update_self] at now
      cases now
      exact one
    · rw [update_of_ne same] at now
      exact owned.single other held now
  · rw [holds, update_of_ne (isEntry thread).symm]
    exact owned.noScs thread

structure Sound (config : SyncacheConfig) (cache : Syncache) : Prop where
  placed : cache.Placed config
  owned : cache.Owned config

theorem start_sound (config : SyncacheConfig) : Sound config start :=
  ⟨start_placed, start_owned⟩

theorem Sound.drop (sound : cache.Sound config) (member : entry ∈ cache.buckets bucket) :
    (cache.syncacheDrop bucket entry).Sound config :=
  ⟨sound.placed.drop member, sound.owned.drop sound.placed member⟩

theorem Sound.dropLast (sound : cache.Sound config) (bucket : Nat) :
    (cache.dropLast bucket).Sound config := by
  unfold Syncache.dropLast
  split
  · rename_i last found
    exact sound.drop (List.mem_of_getLast? found)
  · exact sound

theorem Sound.makeRoom (sound : cache.Sound config) (call : AddCall) :
    (cache.makeRoom config call).Sound config := by
  unfold Syncache.makeRoom
  split
  · exact sound
  · exact sound.dropLast _

theorem Sound.makeRoom_handed (sound : cache.Sound config) (call : AddCall) :
    (cache.makeRoom config call).handed = cache.handed := by
  unfold Syncache.makeRoom Syncache.dropLast
  split
  · rfl
  · split
    · rename_i last found
      obtain ⟨sc, live, _⟩ := sound.placed.filed _ last (List.mem_of_getLast? found)
      have removed : (cache.tailqRemove (config.hash call.conn) last).entries last = some sc := live
      rw [syncacheDrop, syncacheFree_eq removed]
      rfl
    · rfl

theorem Sound.mFreem (sound : cache.Sound config) (new : cache.handed chain = false) :
    ((cache.hand chain).mFreem config chain).Sound config :=
  ⟨{ sound.placed with }, sound.owned.mFreem new⟩

theorem Placed.loose_of_none (placed : cache.Placed config) (free : cache.entries entry = none) :
    cache.Loose entry := by
  refine ⟨fun bucket member => ?_, fun thread works => ?_⟩
  · obtain ⟨sc, live, _⟩ := placed.filed bucket entry member
    rw [free] at live
    cases live
  · obtain ⟨⟨sc, live⟩, _⟩ := placed.busy thread entry works
    rw [free] at live
    cases live

theorem Sound.fill (sound : cache.Sound config) (thread : Nat)
    (free : cache.entries call.entry = none) (new : cache.handed call.syn = false)
    (one : config.mbufs call.syn = 1) :
    ((cache.hand call.syn).fill config thread call).Sound config := by
  have loose := sound.placed.loose_of_none free
  have handed : (cache.hand call.syn).Placed config := { sound.placed with }
  have allocated : ∀ sc : ScEntry, Placed config { cache.hand call.syn with
      entries := update cache.entries call.entry (some sc) } := by
    refine fun sc => handed.refile fun other before (live : cache.entries other = _) => ?_
    have differs : other ≠ call.entry := by
      rintro rfl
      rw [free] at live
      cases live
    exact ⟨before, (update_of_ne differs _ _).trans live, rfl⟩
  constructor
  · refine (allocated _).setThread rfl (update_self _ _ _) ⟨loose.unfiled, loose.unworked⟩ ?_
    rintro bucket passive ⟨⟩
    rfl
  · have owned : Owned config { cache.hand call.syn with
        entries := update cache.entries call.entry (some
          ⟨call.conn, call.isPassive, call.isPassive && call.convertOnTimeout, some call.syn,
            none⟩) } := by
      have empty : cache.holds (.syn call.entry) = none := by
        rw [holds, free]
        rfl
      refine sound.owned.put new one empty (by rintro thread ⟨⟩) ?_ rfl rfl
      refine Eq.trans (holds_update cache _ call.entry (some _) rfl rfl) (update_eq_self_iff.mpr ?_)
      rw [update_of_ne (by rintro ⟨⟩), holds, free]
      rfl
    exact owned.setThread rfl

end Syncache

def Syncache.Sparing (config : SyncacheConfig) (cache : Syncache) : ScStep → Prop
  | .add _ call => config.mbufs call.syn = 1 ∧
      (cache.syncacheLookup config call.conn = none → call.decision ≠ .reject →
        call.syncookies = true → call.isPassive = false →
        call.first = true ∨ call.second = true)
  | .passiveSynack conn synack => ∀ entry sc, cache.syncacheLookup config conn = some entry →
      cache.entries entry = some sc → sc.passive = true →
      config.mbufs synack = 1 ∧ sc.synack = none
  | _ => True

namespace Syncache

variable {config : SyncacheConfig} {cache : Syncache}

theorem Sound.add (sound : cache.Sound config) (enabled : cache.Enabled config (.add thread call))
    (sparing : cache.Sparing config (.add thread call)) :
    (cache.syncacheAdd config thread call).Sound config := by
  obtain ⟨_, new, free⟩ := enabled
  obtain ⟨one, granted⟩ := sparing
  have room := sound.makeRoom call
  have unhanded : (cache.makeRoom config call).handed call.syn = false := by
    rw [sound.makeRoom_handed call]
    exact new
  unfold syncacheAdd
  split
  · exact sound.mFreem new
  · rename_i missing
    split
    · exact sound.mFreem new
    · rename_i taken
      simp only
      split
      · exact room.fill thread free unhanded one
      · rename_i refused
        split
        · rename_i cookies
          rw [Bool.and_eq_true, Bool.not_eq_true'] at cookies
          rcases granted missing taken cookies.1 cookies.2 with first | second
          · exact absurd (by rw [first]; rfl) refused
          · exact absurd (by rw [second, Bool.or_true]) refused
        · exact room.mFreem unhanded

theorem Sound.insert (sound : cache.Sound config) {entry bucket : Nat} {sc : ScEntry}
    (live : cache.entries entry = some sc) (hash : config.hash sc.conn = bucket)
    (loose : cache.Loose entry) : (cache.syncacheInsert config bucket entry).Sound config := by
  refine ⟨sound.placed.insert live hash loose, ?_⟩
  unfold syncacheInsert
  simp only
  split
  · exact { (sound.dropLast bucket).owned with }
  · exact { sound.owned with }

theorem Sound.clearThread (sound : cache.Sound config) {entry : Nat}
    (works : cache.work thread = some entry) :
    (cache.setThread thread none).Sound config ∧ (cache.setThread thread none).Loose entry := by
  obtain ⟨placed, loose⟩ := sound.placed.clearThread works
  exact ⟨⟨placed, sound.owned.setThread rfl⟩, loose⟩

theorem Sound.responded (sound : cache.Sound config) (thread : Nat)
    (sent syncookies syncookiesonly : Bool) :
    (cache.syncacheResponded config thread sent syncookies syncookiesonly).Sound config := by
  unfold syncacheResponded
  split
  · rename_i entry bucket passive adds
    obtain ⟨sc, live, hash⟩ := sound.placed.adds thread entry bucket passive adds
    obtain ⟨cleared, loose⟩ := sound.clearThread (work_of_adding adds)
    have still : (cache.setThread thread none).entries entry = some sc := live
    simp only
    split
    · exact cleared.insert still hash loose
    · exact ⟨cleared.placed.free still loose, cleared.owned.free still⟩
  · rename_i syn adds
    have held : cache.holds (.scs thread) = some syn := by
      rw [holds, adds]
      rfl
    rw [sound.owned.noScs thread] at held
    cases held
  · exact sound

theorem Sound.passiveSynack (sound : cache.Sound config) {conn synack : Nat}
    (new : cache.handed synack = false)
    (sparing : cache.Sparing config (.passiveSynack conn synack)) :
    (cache.syncachePassiveSynack config conn synack).Sound config := by
  unfold syncachePassiveSynack
  split
  · rename_i entry found
    split
    · rename_i sc live
      split
      · rename_i passive
        obtain ⟨one, unset⟩ := sparing entry sc found live passive
        constructor
        · have handed : (cache.hand synack).Placed config := { sound.placed with }
          exact handed.update live rfl
        · have empty : cache.holds (.synack entry) = none := by
            rw [holds, live]
            exact unset
          refine sound.owned.put new one empty (by rintro thread ⟨⟩) ?_ rfl rfl
          have same : update cache.holds (.syn entry) sc.syn = cache.holds :=
            update_eq_self_iff.mpr (by rw [holds, live]; rfl)
          refine Eq.trans (holds_update cache _ entry (some _) rfl rfl) ?_
          rw [Option.bind_some, Option.bind_some, same]
      · exact sound
    · exact sound
  · exact sound

theorem Sound.expand (sound : cache.Sound config) (thread conn : Nat) :
    (cache.syncacheExpand config thread conn).Sound config := by
  unfold syncacheExpand
  split
  · rename_i entry found
    have member := lookup_filed found
    obtain ⟨sc, live, _⟩ := sound.placed.filed _ entry member
    obtain ⟨removed, loose⟩ := sound.placed.tailqRemove member
    have owned : (cache.tailqRemove (config.hash conn) entry).Owned config :=
      { sound.owned with }
    exact ⟨removed.setThread rfl live loose (by rintro bucket passive ⟨⟩), owned.setThread rfl⟩
  · exact sound

theorem Sound.expanded (sound : cache.Sound config) (thread : Nat) :
    (cache.syncacheExpanded thread).Sound config := by
  unfold syncacheExpanded
  split
  · rename_i entry expands
    have works : cache.work thread = some entry := by
      rw [work, expands]
      rfl
    obtain ⟨⟨sc, live⟩, _⟩ := sound.placed.busy thread entry works
    obtain ⟨cleared, loose⟩ := sound.clearThread works
    have still : (cache.setThread thread none).entries entry = some sc := live
    exact ⟨cleared.placed.free still loose, cleared.owned.free still⟩
  · exact sound

theorem Sound.zap (sound : cache.Sound config) (conn : Nat) :
    (cache.syncacheZap config conn).Sound config := by
  unfold syncacheZap
  split
  · rename_i entry found
    exact sound.drop (lookup_filed found)
  · exact sound

theorem Sound.convert (sound : cache.Sound config) (entry : Nat) :
    (cache.convert entry).Sound config := by
  unfold Syncache.convert
  split
  · rename_i sc live
    split
    · constructor
      · exact sound.placed.update live rfl
      · refine sound.owned.of_holds ?_ rfl rfl
        refine Eq.trans (holds_update cache _ entry (some _) rfl rfl) ?_
        have syn : update cache.holds (.syn entry) sc.syn = cache.holds :=
          update_eq_self_iff.mpr (by rw [holds, live]; rfl)
        rw [Option.bind_some, Option.bind_some, syn]
        exact update_eq_self_iff.mpr (by rw [holds, live]; rfl)
    · exact sound
  · exact sound

theorem Sound.timerOne (sound : cache.Sound config) {bucket entry : Nat}
    (verdict : Nat → TimerVerdict) (member : entry ∈ cache.buckets bucket) :
    (cache.timerOne bucket verdict entry).Sound config ∧
      ∀ other, other ≠ entry → other ∈ cache.buckets bucket →
        other ∈ (cache.timerOne bucket verdict entry).buckets bucket := by
  unfold Syncache.timerOne
  cases verdict entry with
  | wait => exact ⟨sound, fun _ _ inside => inside⟩
  | drop =>
    refine ⟨sound.drop member, fun other differs inside => ?_⟩
    obtain ⟨sc, live, _⟩ := sound.placed.filed bucket entry member
    have removed : (cache.tailqRemove bucket entry).entries entry = some sc := live
    rw [syncacheDrop, syncacheFree_eq removed]
    simp only [Syncache.tailqRemove, update_self]
    exact (List.mem_erase_of_ne differs).mpr inside
  | retransmit =>
    refine ⟨sound.convert entry, fun other _ inside => ?_⟩
    unfold Syncache.convert
    simp only
    split
    · split <;> exact inside
    · exact inside

theorem Sound.timer (sound : cache.Sound config) (bucket : Nat) (verdict : Nat → TimerVerdict) :
    (cache.syncacheTimer bucket verdict).Sound config := by
  have walk : ∀ (entries : List Nat) (cache : Syncache), cache.Sound config → entries.Nodup →
      (∀ entry ∈ entries, entry ∈ cache.buckets bucket) →
      (entries.foldl (Syncache.timerOne bucket verdict) cache).Sound config := by
    intro entries
    induction entries with
    | nil => exact fun _ sound _ _ => sound
    | cons entry rest ih =>
      intro cache sound nodup members
      obtain ⟨absent, nodup⟩ := List.nodup_cons.mp nodup
      obtain ⟨next, stays⟩ := sound.timerOne verdict (members entry List.mem_cons_self)
      refine ih _ next nodup fun other inside => stays other ?_ ?_
      · rintro rfl
        exact absent inside
      · exact members other (List.mem_cons_of_mem entry inside)
  exact walk _ cache sound (sound.placed.nodup bucket) fun _ => id

theorem Sound.step (sound : cache.Sound config) {label : ScStep}
    (enabled : cache.Enabled config label) (sparing : cache.Sparing config label) :
    (cache.step config label).Sound config := by
  cases label with
  | add thread call => exact sound.add enabled sparing
  | responded thread sent syncookies syncookiesonly =>
    exact sound.responded thread sent syncookies syncookiesonly
  | passiveSynack conn synack => exact sound.passiveSynack enabled sparing
  | expand thread conn => exact sound.expand thread conn
  | expanded thread => exact sound.expanded thread
  | zap conn => exact sound.zap conn
  | timer bucket verdict => exact sound.timer bucket verdict

end Syncache

def syncacheMove (config : SyncacheConfig) : Syncache → ScStep → Syncache → Prop :=
  Guarded (Syncache.Enabled config) (Syncache.step config)

def sparingMove (config : SyncacheConfig) : Syncache → ScStep → Syncache → Prop :=
  Guarded (fun cache label => cache.Enabled config label ∧ cache.Sparing config label)
    (Syncache.step config)

/-- In sparing runs every chain has one owning entry or has been freed in full, once. -/
theorem syncacheChains_accounted (config : SyncacheConfig) {labels : List ScStep}
    {cache : Syncache} (run : Run (sparingMove config) Syncache.start labels cache) :
    cache.Accounted config := by
  have sound : cache.Sound config := by
    refine run.invariant (Syncache.Sound config) (Syncache.start_sound config) ?_
    rintro cache label next sound ⟨⟨enabled, sparing⟩, rfl⟩
    exact sound.step enabled sparing
  exact ⟨sound.placed.legal, sound.owned.balanced.accounted⟩

def plainSyncache (mbufs : Nat) (positive : 0 < mbufs) : SyncacheConfig :=
  ⟨fun _ => 0, 30, by decide, fun _ => mbufs, fun _ => positive⟩

def firstSyn (passive allocated : Bool) : AddCall :=
  ⟨7, 0, .accept, passive, false, true, allocated, allocated, 0⟩

def passiveHandshake : List ScStep :=
  [.add 0 (firstSyn true true), .responded 0 true true false, .passiveSynack 7 1, .expand 0 7,
    .expanded 0]

theorem syncacheChains_handshake :
    ∃ cache, Run (sparingMove (plainSyncache 1 Nat.one_pos)) Syncache.start passiveHandshake cache ∧
      cache.handed 0 = true ∧ cache.freed 0 0 = 1 ∧ cache.handed 1 = true ∧ cache.freed 1 0 = 1 ∧
      cache.Accounted (plainSyncache 1 Nat.one_pos) := by
  have allowed : Allowed (fun cache label => cache.Enabled (plainSyncache 1 Nat.one_pos) label ∧
      cache.Sparing (plainSyncache 1 Nat.one_pos) label)
      (Syncache.step (plainSyncache 1 Nat.one_pos)) Syncache.start passiveHandshake := by
    refine ⟨⟨⟨rfl, rfl, rfl⟩, rfl, fun _ _ _ _ => .inl rfl⟩, ⟨trivial, trivial⟩, ⟨rfl, ?_⟩,
      ⟨rfl, trivial⟩, ⟨trivial, trivial⟩, trivial⟩
    rintro entry sc ⟨⟩ ⟨⟩ _
    exact ⟨rfl, rfl⟩
  exact ⟨_, allowed.run, rfl, rfl, rfl, rfl, syncacheChains_accounted _ allowed.run⟩

theorem syncacheChains_leaked :
    (∃ cache, Run (syncacheMove (plainSyncache 2 Nat.two_pos)) Syncache.start
        [.add 0 (firstSyn false true), .responded 0 true true false, .expand 0 7, .expanded 0]
        cache ∧ cache.freed 0 1 = 0 ∧ ¬cache.Accounted (plainSyncache 2 Nat.two_pos)) ∧
    (∃ cache, Run (syncacheMove (plainSyncache 1 Nat.one_pos)) Syncache.start
        [.add 0 (firstSyn true true), .responded 0 true true false, .passiveSynack 7 1,
          .passiveSynack 7 2] cache ∧
      cache.freed 1 0 = 0 ∧ ¬cache.Accounted (plainSyncache 1 Nat.one_pos)) ∧
    (∃ cache, Run (syncacheMove (plainSyncache 1 Nat.one_pos)) Syncache.start
        [.add 0 (firstSyn false false), .responded 0 true true false] cache ∧
      cache.freed 0 0 = 0 ∧ ¬cache.Accounted (plainSyncache 1 Nat.one_pos)) := by
  refine ⟨⟨_, Allowed.run ⟨⟨rfl, rfl, rfl⟩, trivial, rfl, trivial, trivial⟩, rfl, ?_⟩,
    ⟨_, Allowed.run ⟨⟨rfl, rfl, rfl⟩, trivial, rfl, rfl, trivial⟩, rfl, ?_⟩,
    ⟨_, Allowed.run ⟨⟨rfl, rfl, rfl⟩, trivial, trivial⟩, rfl, ?_⟩⟩
  · rintro ⟨_, accounted⟩
    have lost := accounted.spent 0 rfl
      (by rintro ((_ | entry) | (_ | entry) | (_ | thread)) ⟨⟩) 1 Nat.one_lt_two
    exact Nat.zero_ne_one lost
  · rintro ⟨_, accounted⟩
    have lost := accounted.spent 1 rfl
      (by rintro ((_ | entry) | (_ | entry) | (_ | thread)) ⟨⟩) 0 Nat.one_pos
    exact Nat.zero_ne_one lost
  · rintro ⟨_, accounted⟩
    have lost := accounted.spent 0 rfl
      (by rintro ((_ | entry) | (_ | entry) | (_ | thread)) ⟨⟩) 0 Nat.one_pos
    exact Nat.zero_ne_one lost

end Libunsod.Netinet
