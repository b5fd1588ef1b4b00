import BkkApi.Server.CacheReference
import BkkApi.Server.Fetching
import BkkApi.Verified.Critical

/-!
# The cache, instruction by instruction

`bkk_cache.cpp` below its critical sections: what a thread does between taking
`cache_mutex` and giving it back, one access to the map or the clock at a time.
`operator[]` puts a default entry into the map before the assignment, and
`remove_stale_entries` walks over the map, in an order that the map chooses, and
erases as it goes.  Threads interleave at every instruction and time passes
between any two.

`isAtomic_cacheSection` says that a section on its own is one of the functions
of `UdsCache`, at one reading of the clock; these are the steps that everything
else about the cache is said of.  With the reduction to whole sections,
`cache_linearizable` compares the interleavings with the store that never evicts.
-/

namespace BkkApi.Server.CacheSections

open BkkApi.Verified.CData
open BkkApi.Verified.KeyStore
open BkkApi.Verified.Run
open BkkApi.Verified.Critical
open BkkApi.Server.Cache
open BkkApi.Server.CacheReference (Reference Tracks)

/-! ## The clock -/

instance : Preorder TimePoint := Preorder.lift TimePoint.count

instance : DecidableLE TimePoint := fun now later =>
  inferInstanceAs (Decidable (now.count ≤ later.count))

/-! ## The code -/

/-- The sections of `cache_mutex`. -/
inductive CacheCall
  /-- `get_element`. -/
  | get (stopId : Bytes)
  /-- The block of `put_element`. -/
  | write (stopId : Bytes) (entry : CacheEntry)
  /-- `remove_stale_entries`. -/
  | sweep
  deriving DecidableEq

/-- Where a section is, with its local variables. -/
inductive Locals
  /-- Before `cache.find`. -/
  | finding (stopId : Bytes)
  /-- Before `steady_clock::now`, at the entry that was found. -/
  | found (entry : CacheEntry)
  | timed (entry : CacheEntry) (now : TimePoint)
  /-- Before `cache[stop_id]`. -/
  | indexing (stopId : Bytes) (entry : CacheEntry)
  /-- Before the assignment to what that refers to. -/
  | assigning (stopId : Bytes) (entry : CacheEntry)
  /-- Before `steady_clock::now` in `remove_stale_entries`. -/
  | sweeping
  | begun (now : TimePoint)
  /-- In the loop, with the keys from the iterator on. -/
  | looping (now : TimePoint) (rest : List Bytes)
  deriving DecidableEq

/-- What a section returns: a lookup its answer, the others nothing. -/
abbrev Answer := Option (CacheState × Option CacheEntry)

/-- A value-initialised `cache_entry_t`. -/
def CacheEntry.zero : CacheEntry where
  arrivals := []
  timestamp := { count := 0, representable := Nat.two_pow_pos 63 }

/-- One instruction.  The choice is the order in which the map is walked
over. -/
def instr (now : TimePoint) (order : List Bytes) (c : UdsCache) :
    Locals → Option (UdsCache × (Locals ⊕ Answer))
  | .finding stopId =>
      match c.cache.lookup stopId with
      | none => some (c, .inr (some (.miss, none)))
      | some entry => some (c, .inl (.found entry))
  | .found entry => some (c, .inl (.timed entry now))
  | .timed entry now =>
      if c.isFresh now entry then
        some (c, .inr (some (.hitFresh, some entry)))
      else if c.isServable now entry then
        some (c, .inr (some (.hitStale, some entry)))
      else some (c, .inr (some (.miss, none)))
  | .indexing stopId entry =>
      some (if stopId ∈ c.cache then c
        else { c with cache := c.cache.insert stopId CacheEntry.zero },
        .inl (.assigning stopId entry))
  | .assigning stopId entry =>
      some ({ c with cache := c.cache.insert stopId entry }, .inr none)
  | .sweeping => some (c, .inl (.begun now))
  | .begun now =>
      if order.Perm c.cache.keys then some (c, .inl (.looping now order))
      else none
  | .looping _ [] => some (c, .inr none)
  | .looping now (stopId :: rest) =>
      (c.cache.lookup stopId).map fun entry =>
        (if c.isStale now entry then { c with cache := c.cache.erase stopId }
          else c, .inl (.looping now rest))

/-- The sections of `bkk_cache.cpp`. -/
def cacheSection :
    Section TimePoint (List Bytes) UdsCache Locals CacheCall Answer where
  enter
    | .get stopId => .finding stopId
    | .write stopId entry => .indexing stopId entry
    | .sweep => .sweeping
  instr := instr
  andThen
    | .write _ _ => some .sweep
    | _ => none
  isEntry
    | .sweep => false
    | _ => true

/-! ## A section on its own -/

/-- The function that a section is, at a reading of the clock. -/
def perform (now : TimePoint) (c : UdsCache) : CacheCall → UdsCache × Answer
  | .get stopId => (c, some (c.getElement stopId now))
  | .write stopId entry => (c.write stopId entry, none)
  | .sweep => (c.removeStaleEntries now, none)

/-- What is still there when these keys are left to look at. -/
def leaves (c : UdsCache) (now : TimePoint) (rest : List Bytes) (stopId : Bytes)
    (entry : CacheEntry) : Bool :=
  decide (stopId ∈ rest) || !c.isStale now entry

/-- The cache with the sweep done but for these keys. -/
def sweptBut (c : UdsCache) (now : TimePoint) (rest : List Bytes) : UdsCache :=
  { c with cache := restrict (leaves c now rest) c.cache }

/-- The cache while a section that was entered at `env` with `c` is under way. -/
inductive During (env : TimePoint) (c : UdsCache) :
    CacheCall → TimePoint → UdsCache → Locals → Prop
  | finding {stopId : Bytes} {env' : TimePoint} :
      During env c (.get stopId) env' c (.finding stopId)
  | found {stopId : Bytes} {entry : CacheEntry} {env' : TimePoint}
      (hlook : c.cache.lookup stopId = some entry) :
      During env c (.get stopId) env' c (.found entry)
  | timed {stopId : Bytes} {entry : CacheEntry} {now env' : TimePoint}
      (hlook : c.cache.lookup stopId = some entry) (hbefore : env ≤ now)
      (hafter : now ≤ env') :
      During env c (.get stopId) env' c (.timed entry now)
  | indexing {stopId : Bytes} {entry : CacheEntry} {env' : TimePoint} :
      During env c (.write stopId entry) env' c (.indexing stopId entry)
  | assigning {stopId : Bytes} {entry : CacheEntry} {env' : TimePoint}
      {cache : Store Bytes CacheEntry}
      (hslot : cache = c.cache ∨ cache = c.cache.insert stopId CacheEntry.zero) :
      During env c (.write stopId entry) env' { c with cache := cache }
        (.assigning stopId entry)
  | sweeping {env' : TimePoint} : During env c .sweep env' c .sweeping
  | begun {now env' : TimePoint} (hbefore : env ≤ now) (hafter : now ≤ env') :
      During env c .sweep env' c (.begun now)
  | looping {now env' : TimePoint} {rest : List Bytes} (hbefore : env ≤ now)
      (hafter : now ≤ env') (hnodup : rest.Nodup)
      (hkeys : ∀ stopId ∈ rest, stopId ∈ c.cache) :
      During env c .sweep env' (sweptBut c now rest) (.looping now rest)

section Alone

variable {env env₁ env₂ : TimePoint} {c c₁ c₂ : UdsCache} {call : CacheCall}
  {locals locals₂ : Locals} {order : List Bytes} {answer : Answer}

theorem During.later (h : During env c call env₁ c₁ locals) (hle : env₁ ≤ env₂) :
    During env c call env₂ c₁ locals := by
  cases h with
  | finding => exact .finding
  | found hlook => exact .found hlook
  | timed hlook hbefore hafter =>
      exact .timed hlook hbefore (le_trans hafter hle)
  | indexing => exact .indexing
  | assigning hslot => exact .assigning hslot
  | sweeping => exact .sweeping
  | begun hbefore hafter => exact .begun hbefore (le_trans hafter hle)
  | looping hbefore hafter hnodup hkeys =>
      exact .looping hbefore (le_trans hafter hle) hnodup hkeys

theorem sweptBut_keys (c : UdsCache) (now : TimePoint) {order : List Bytes}
    (h : order.Perm c.cache.keys) : sweptBut c now order = c := by
  have hkept : restrict (leaves c now order) c.cache = c.cache := by
    refine restrict_eq_self fun stopId entry hlook => ?_
    have hmem : stopId ∈ c.cache := AList.lookup_isSome.1 (by rw [hlook]; rfl)
    simp [leaves, h.mem_iff.2 (AList.mem_keys.1 hmem)]
  unfold sweptBut
  rw [hkept]

theorem sweptBut_nil (c : UdsCache) (now : TimePoint) :
    sweptBut c now [] = c.removeStaleEntries now := by
  unfold sweptBut UdsCache.removeStaleEntries
  have hcache : restrict (leaves c now []) c.cache =
      retain (fun entry => !c.isStale now entry) c.cache := by
    apply AList.ext
    refine List.filter_congr fun e _ => ?_
    simp [leaves]
  rw [hcache]

/-- One round of the loop. -/
theorem sweptBut_cons {now : TimePoint} {stopId : Bytes} {rest : List Bytes}
    (hnodup : (stopId :: rest).Nodup) {entry : CacheEntry}
    (hlook : (sweptBut c now (stopId :: rest)).cache.lookup stopId = some entry) :
    (if (sweptBut c now (stopId :: rest)).isStale now entry then
        { sweptBut c now (stopId :: rest) with
          cache := (sweptBut c now (stopId :: rest)).cache.erase stopId }
      else sweptBut c now (stopId :: rest)) = sweptBut c now rest := by
  have hfresh : stopId ∉ rest := (List.nodup_cons.1 hnodup).1
  have hstored : c.cache.lookup stopId = some entry := by
    rw [← hlook]
    exact (lookup_restrict_of_keep fun v => by simp [leaves]).symm
  have hstale : (sweptBut c now (stopId :: rest)).isStale now entry =
      c.isStale now entry := rfl
  rw [hstale]
  by_cases h : c.isStale now entry = true
  · rw [if_pos h]
    have hcache : (restrict (leaves c now (stopId :: rest)) c.cache).erase stopId =
        restrict (leaves c now rest) c.cache := by
      rw [erase_restrict]
      refine restrict_congr fun k v hk => ?_
      by_cases hsame : k = stopId
      · subst hsame
        rw [hstored] at hk
        cases hk
        simpa [leaves, hfresh] using h
      · simp [leaves, hsame]
    show { c with
      cache := (restrict (leaves c now (stopId :: rest)) c.cache).erase stopId } = _
    rw [hcache]
    rfl
  · rw [if_neg h]
    have hcache : restrict (leaves c now (stopId :: rest)) c.cache =
        restrict (leaves c now rest) c.cache := by
      refine restrict_congr fun k v hk => ?_
      by_cases hsame : k = stopId
      · subst hsame
        rw [hstored] at hk
        cases hk
        have hservable : c.isServable now entry = true := by simpa using h
        simp [leaves, hservable]
      · simp [leaves, hsame]
    unfold sweptBut
    rw [hcache]

/-- An instruction that does not end the section. -/
theorem During.instr (h : During env c call env₁ c₁ locals) (hle : env ≤ env₁)
    (hinstr : CacheSections.instr env₁ order c₁ locals = some (c₂, .inl locals₂)) :
    During env c call env₁ c₂ locals₂ := by
  cases h with
  | @finding stopId =>
      simp only [CacheSections.instr] at hinstr
      cases hlook : c.cache.lookup stopId with
      | none => simp [hlook] at hinstr
      | some entry =>
          rw [hlook] at hinstr
          cases hinstr
          exact .found hlook
  | found hlook =>
      cases hinstr
      exact .timed hlook hle (le_refl _)
  | timed hlook hbefore hafter =>
      simp only [CacheSections.instr] at hinstr
      split at hinstr
      · cases hinstr
      · split at hinstr <;> cases hinstr
  | @indexing stopId entry =>
      cases hinstr
      by_cases hmem : stopId ∈ c.cache
      · rw [if_pos hmem]
        exact .assigning (.inl rfl)
      · rw [if_neg hmem]
        exact .assigning (.inr rfl)
  | assigning hslot => cases hinstr
  | sweeping =>
      cases hinstr
      exact .begun hle (le_refl _)
  | @begun now _ hbefore hafter =>
      simp only [CacheSections.instr, Option.ite_none_right_eq_some] at hinstr
      obtain ⟨hperm, hsame⟩ := hinstr
      cases hsame
      have hnodup := hperm.nodup_iff.2 c.cache.keys_nodup
      have hlooping : During env c .sweep env₁ (sweptBut c now order)
          (.looping now order) :=
        .looping hbefore hafter hnodup fun stopId hmem =>
          AList.mem_keys.2 (hperm.mem_iff.1 hmem)
      rw [sweptBut_keys c now hperm] at hlooping
      exact hlooping
  | @looping now _ rest hbefore hafter hnodup hkeys =>
      cases rest with
      | nil => cases hinstr
      | cons stopId rest =>
          obtain ⟨entry, hlook, hsame⟩ := Option.map_eq_some_iff.1 hinstr
          cases hsame
          rw [sweptBut_cons hnodup hlook]
          exact .looping hbefore hafter (List.nodup_cons.1 hnodup).2
            fun other hmem => hkeys other (List.mem_cons_of_mem stopId hmem)

/-- The instruction that ends the section. -/
theorem During.ends (h : During env c call env₁ c₁ locals) (hle : env ≤ env₁)
    (hinstr : CacheSections.instr env₁ order c₁ locals = some (c₂, .inr answer)) :
    ∃ now, env ≤ now ∧ now ≤ env₁ ∧ perform now c call = (c₂, answer) := by
  cases h with
  | @finding stopId =>
      simp only [CacheSections.instr] at hinstr
      cases hlook : c.cache.lookup stopId with
      | none =>
          rw [hlook] at hinstr
          cases hinstr
          refine ⟨env, le_refl _, hle, ?_⟩
          simp [perform, UdsCache.getElement, hlook]
      | some entry => simp [hlook] at hinstr
  | found hlook => cases hinstr
  | @timed stopId entry now _ hlook hbefore hafter =>
      refine ⟨now, hbefore, hafter, ?_⟩
      simp only [CacheSections.instr] at hinstr
      simp only [perform, UdsCache.getElement, hlook]
      by_cases hfresh : c.isFresh now entry = true
      · rw [if_pos hfresh] at hinstr ⊢
        cases hinstr
        rfl
      · rw [if_neg hfresh] at hinstr ⊢
        by_cases hserv : c.isServable now entry = true
        · rw [if_pos hserv] at hinstr ⊢
          cases hinstr
          rfl
        · rw [if_neg hserv] at hinstr ⊢
          cases hinstr
          rfl
  | indexing => cases hinstr
  | @assigning stopId entry _ cache hslot =>
      refine ⟨env, le_refl _, hle, ?_⟩
      cases hinstr
      rcases hslot with rfl | rfl
      · rfl
      · simp only [perform, UdsCache.write, AList.insert_insert]
  | sweeping => cases hinstr
  | begun hbefore hafter =>
      simp only [CacheSections.instr, Option.ite_none_right_eq_some] at hinstr
      cases hinstr.2
  | @looping now _ rest hbefore hafter hnodup hkeys =>
      refine ⟨now, hbefore, hafter, ?_⟩
      cases rest with
      | nil =>
          cases hinstr
          rw [sweptBut_nil]
          rfl
      | cons stopId rest =>
          obtain ⟨entry, -, hsame⟩ := Option.map_eq_some_iff.1 hinstr
          cases hsame

/-- There is always a next instruction.  The iterator of a sweep stands at an
entry: of what it still has to look at, nothing has been erased. -/
theorem During.moves (h : During env c call env₁ c₁ locals) :
    ∃ order result, CacheSections.instr env₁ order c₁ locals = some result := by
  cases h with
  | @finding stopId =>
      refine ⟨[], ?_⟩
      simp only [CacheSections.instr]
      cases c.cache.lookup stopId with
      | none => exact ⟨_, rfl⟩
      | some entry => exact ⟨_, rfl⟩
  | found hlook => exact ⟨[], _, rfl⟩
  | timed hlook hbefore hafter =>
      refine ⟨[], ?_⟩
      simp only [CacheSections.instr]
      split
      · exact ⟨_, rfl⟩
      · split <;> exact ⟨_, rfl⟩
  | indexing | assigning hslot | sweeping => exact ⟨[], _, rfl⟩
  | begun hbefore hafter => exact ⟨c.cache.keys, _, if_pos (List.Perm.refl _)⟩
  | @looping now _ rest hbefore hafter hnodup hkeys =>
      cases rest with
      | nil => exact ⟨[], _, rfl⟩
      | cons stopId rest =>
          have hlook : (sweptBut c now (stopId :: rest)).cache.lookup stopId =
              c.cache.lookup stopId :=
            lookup_restrict_of_keep fun v => by simp [leaves]
          obtain ⟨entry, hentry⟩ := Option.isSome_iff_exists.1
            (AList.lookup_isSome.2 (hkeys stopId List.mem_cons_self))
          have hstored := hlook.trans hentry
          refine ⟨[], ?_⟩
          simp only [CacheSections.instr, hstored]
          exact ⟨_, rfl⟩

theorem During.of_steps {locals : Locals}
    (h : Steps cacheSection env c (cacheSection.enter call) env₁ c₁ locals) :
    env ≤ env₁ ∧ During env c call env₁ c₁ locals := by
  refine h.invariant
    (I := fun env₁ c₁ locals₁ => env ≤ env₁ ∧ During env c call env₁ c₁ locals₁)
    ⟨le_refl _, ?_⟩ ?_ ?_
  · cases call with
    | get stopId => exact .finding
    | write stopId entry => exact .indexing
    | sweep => exact .sweeping
  · intro env₁ env₂ c₁ locals₁ h hle
    exact ⟨le_trans h.1 hle, h.2.later hle⟩
  · intro env₁ c₁ locals₁ order c₂ locals₂ h hstep
    exact ⟨h.1, h.2.instr h.1 hstep⟩

end Alone

/-- A section on its own is a function of the cache at one reading of the
clock. -/
theorem isAtomic_cacheSection : IsAtomic cacheSection perform := by
  intro env c call env' c' answer hperforms
  obtain ⟨c₁, locals, order, hsteps, hinstr⟩ := hperforms
  have hduring := During.of_steps hsteps
  exact hduring.2.ends hduring.1 hinstr

theorem isLive_cacheSection : IsLive cacheSection :=
  fun _ _ _ _ _ _ hsteps => (During.of_steps hsteps).2.moves

/-! ## The store that never evicts -/

/-- The same sections of the reference: its sweep does nothing. -/
def referencePerform (config : CacheConfig) (now : TimePoint) (r : Reference) :
    CacheCall → Reference × Answer
  | .get stopId => (r, some (r.getElement config stopId now))
  | .write stopId entry => (r.write stopId entry, none)
  | .sweep => (r, none)

/-- The threads, the mutex and the cache, down to the instruction. -/
abbrev Threads (Thread : Type) :=
  State Thread TimePoint UdsCache Locals CacheCall Answer

/-- All interleavings over a cache of the given configuration. -/
abbrev cacheMachine (Thread : Type) [DecidableEq Thread] (config : SoundConfig) :
    Machine (Threads Thread) (Action Thread TimePoint (List Bytes) CacheCall) :=
  machine cacheSection Thread (UdsCache.new (some config.toCacheConfig))

section Linearizable

variable {Thread : Type} [DecidableEq Thread] {config : SoundConfig}
  {s s' : Threads Thread}

theorem tracks_new (config : SoundConfig) (clock : TimePoint) :
    Tracks config.toCacheConfig (UdsCache.new (some config.toCacheConfig))
      (fun _ => none) clock where
  sound := UdsCache.sound_new config
  freshness := rfl
  staleness := rfl
  kept _ _ h := by cases h
  lost _ _ h := by cases h

/-- A section leaves the cache tracking the reference, and answers as it does. -/
theorem tracks_perform {now : TimePoint} {c : UdsCache} {r : Reference}
    (call : CacheCall) (h : Tracks config.toCacheConfig c r now) :
    Tracks config.toCacheConfig (perform now c call).1
        (referencePerform config.toCacheConfig now r call).1 now ∧
      (perform now c call).2 =
        (referencePerform config.toCacheConfig now r call).2 := by
  cases call with
  | get stopId => exact ⟨h, congrArg some (h.getElement (le_refl _) stopId)⟩
  | write stopId entry => exact ⟨h.write stopId entry, rfl⟩
  | sweep => exact ⟨h.sweep (le_refl _), rfl⟩

/-- **The cache is linearizable.**  In every interleaving of the instructions of
any threads, with time passing between them, the completed sections answer as
whole sections of the store that never evicts do, performed one after the other
in the order of the log; every thread has got what is logged for it; and the log
only grows, so that it keeps the order of calls that do not overlap. -/
theorem cache_linearizable (h : (cacheMachine Thread config).Reachable s) :
    (∃ now r, AtomicRun (referencePerform config.toCacheConfig) (fun _ => none)
        s.log now r) ∧
      (∀ t answer, (s.threads t).answer? = some answer →
        lastOf t s.log = some answer) ∧
      ∀ s', (cacheMachine Thread config).LeadsTo (fun _ _ => True) s s' →
        s.log <+: s'.log := by
  obtain ⟨now, c, hrun⟩ := atomic_of_reachable isAtomic_cacheSection h
  obtain ⟨r, hreference, -⟩ :=
    hrun.simulate (R := fun env c r => Tracks config.toCacheConfig c r env)
      (tracks_new config) (fun env now c r hrel hle => hrel.later hle)
      (fun now c r call hrel => tracks_perform call hrel)
  exact ⟨⟨now, r, hreference⟩,
    (reduced_of_reachable isAtomic_cacheSection h).answers,
    fun s' hlead => log_prefix hlead⟩

end Linearizable

/-- One thread has written and has not swept yet when another looks the entry
up. -/
theorem cache_linearizable_overlap :
    ∃ s, (cacheMachine Bool Fetching.sampleConfig).Reachable s ∧
      s.log.map (fun e => e.output) =
        [none, some (.hitFresh, some CacheEntry.zero)] ∧
      s.threads false = .locking .sweep ∧
      ∃ now r, AtomicRun
        (referencePerform Fetching.sampleConfig.toCacheConfig) (fun _ => none)
        s.log now r := by
  let steps : List (Action Bool TimePoint (List Bytes) CacheCall) :=
    [.call false (.write [] CacheEntry.zero), .call true (.get []), .lock false,
      .instr false [], .instr false [], .unlock false, .lock true,
      .instr true [], .instr true [], .instr true []]
  have hinit : (cacheMachine Bool Fetching.sampleConfig).init
      { env := Fetching.sampleStart.now
        data := UdsCache.new (some Fetching.sampleConfig.toCacheConfig)
        mutex := none
        threads := fun _ => .outside
        log := [] } := ⟨rfl, rfl, rfl, rfl⟩
  obtain ⟨s, hreach, hs⟩ := Machine.exists_reachable_of_run hinit
    (l := steps)
    (p := fun s => decide (s.log.map (fun e => e.output) =
        [none, some (.hitFresh, some CacheEntry.zero)] ∧
      s.threads false = .locking .sweep)) (by decide +kernel)
  rw [decide_eq_true_iff] at hs
  exact ⟨s, hreach, hs.1, hs.2, (cache_linearizable hreach).1⟩

end BkkApi.Server.CacheSections
