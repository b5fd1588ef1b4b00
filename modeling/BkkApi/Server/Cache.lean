import BkkApi.Server.Protocol
import BkkApi.Verified.KeyStore

/-!
# The arrivals cache

`UdsCache` of `bkk_cache.cpp`.  The map holds one entry a stop id.  Each public
operation is a sequence of critical sections of `cache_mutex`, and each section
is one function here: the write and the sweep of `put_element` are separate
(`write`, `removeStaleEntries`), since the mutex is released between them.

Ages are computed as `std::chrono` computes them, in 64-bit nanoseconds.
`since_eq_age` and `nanoseconds_eq` say that with clock readings as the steady
clock gives them and a configured number of seconds nothing wraps, so that the
code's comparisons are comparisons of exact ages (`isFresh_iff`, `isStale_iff`).
-/

namespace BkkApi.Server.Cache

open BkkApi.Verified.CData
open BkkApi.Verified.KeyStore
open BkkApi.Server.Protocol

/-! ## Time -/

/-- A reading of `std::chrono::steady_clock`: nanoseconds since its epoch, in
the non-negative half of the 64-bit representation. -/
structure TimePoint where
  count : Nat
  representable : count < 2 ^ 63
  deriving DecidableEq

/-- The exact age at `now` of something stamped `stamp`. -/
def age (now stamp : TimePoint) : Int := (now.count : Int) - stamp.count

/-- `now - stamp`, as 64-bit nanoseconds. -/
def TimePoint.since (now stamp : TimePoint) : Int :=
  int64 ((now.count : Int) - stamp.count)

/-- `std::chrono::seconds(s)` converted to 64-bit nanoseconds. -/
def nanoseconds (s : Int) : Int := int64 (s * 10 ^ 9)

/-- Two readings of the clock subtract without wrapping. -/
theorem since_eq_age (now stamp : TimePoint) : now.since stamp = age now stamp := by
  have h₁ := now.representable
  have h₂ := stamp.representable
  exact int64_of_range (by omega) (by omega)

/-- Any positive `int` number of seconds fits 64-bit nanoseconds. -/
theorem nanoseconds_eq {s : Int} (hpos : 1 ≤ s) (hmax : s ≤ intMax) :
    nanoseconds s = s * 10 ^ 9 := by
  unfold intMax at hmax
  exact int64_of_range (by omega) (by omega)

/-! ## The cache -/

/-- `cache_entry_t`. -/
structure CacheEntry where
  arrivals : List Arrival
  timestamp : TimePoint
  deriving DecidableEq

/-- `cache_state_t`. -/
inductive CacheState
  | hitFresh
  | hitStale
  | miss
  deriving DecidableEq, Repr

/-- `cache_config_t`. -/
structure CacheConfig where
  freshnessSeconds : Int
  stalenessSeconds : Int
  maxCacheSize : Int

/-- A configuration with the bounds that `parse_arguments` checks. -/
structure SoundConfig extends CacheConfig where
  freshness_pos : 1 ≤ freshnessSeconds
  freshness_le_staleness : freshnessSeconds ≤ stalenessSeconds
  staleness_le : stalenessSeconds ≤ intMax

/-- `UdsCache`, without its mutex. -/
structure UdsCache where
  cache : Store Bytes CacheEntry
  cacheFreshnessSeconds : Int
  cacheStalenessSeconds : Int
  maxCacheSize : Int

namespace UdsCache

/-- `UdsCache::UdsCache`: the defaults without a configuration. -/
def new : Option CacheConfig → UdsCache
  | none =>
      { cache := ∅
        cacheFreshnessSeconds := 10
        cacheStalenessSeconds := 20
        maxCacheSize := 100 }
  | some config =>
      { cache := ∅
        cacheFreshnessSeconds := config.freshnessSeconds
        cacheStalenessSeconds := config.stalenessSeconds
        maxCacheSize := config.maxCacheSize }

/-- `now - entry.timestamp < std::chrono::seconds(cache_freshness_seconds)`. -/
def isFresh (c : UdsCache) (now : TimePoint) (entry : CacheEntry) : Bool :=
  decide (now.since entry.timestamp < nanoseconds c.cacheFreshnessSeconds)

/-- `now - entry.timestamp < std::chrono::seconds(cache_staleness_seconds)`. -/
def isServable (c : UdsCache) (now : TimePoint) (entry : CacheEntry) : Bool :=
  decide (now.since entry.timestamp < nanoseconds c.cacheStalenessSeconds)

/-- `now - entry.timestamp >= std::chrono::seconds(cache_staleness_seconds)`. -/
def isStale (c : UdsCache) (now : TimePoint) (entry : CacheEntry) : Bool :=
  decide (now.since entry.timestamp ≥ nanoseconds c.cacheStalenessSeconds)

/-- The first critical section of `put_element`. -/
def write (c : UdsCache) (stopId : Bytes) (entry : CacheEntry) : UdsCache :=
  { c with cache := c.cache.insert stopId entry }

/-- `UdsCache::remove_stale_entries`. -/
def removeStaleEntries (c : UdsCache) (now : TimePoint) : UdsCache :=
  { c with cache := retain (fun entry => !c.isStale now entry) c.cache }

/-- `UdsCache::put_element` with no other caller between its two sections. -/
def putElement (c : UdsCache) (stopId : Bytes) (entry : CacheEntry)
    (now : TimePoint) : UdsCache :=
  (c.write stopId entry).removeStaleEntries now

/-- `UdsCache::get_element`: the state and, on a hit, what `*entry_out` is set
to. -/
def getElement (c : UdsCache) (stopId : Bytes) (now : TimePoint) :
    CacheState × Option CacheEntry :=
  match c.cache.lookup stopId with
  | none => (.miss, none)
  | some entry =>
      if c.isFresh now entry then (.hitFresh, some entry)
      else if c.isServable now entry then (.hitStale, some entry)
      else (.miss, none)

/-! ## What one section does -/

@[simp] theorem isStale_eq_not_isServable (c : UdsCache) (now : TimePoint)
    (entry : CacheEntry) : c.isStale now entry = !c.isServable now entry := by
  unfold isStale isServable
  by_cases h : now.since entry.timestamp < nanoseconds c.cacheStalenessSeconds
  · simp [h]
  · simp [h, Int.not_lt.1 h]

@[simp] theorem lookup_write_self (c : UdsCache) (stopId : Bytes)
    (entry : CacheEntry) : (c.write stopId entry).cache.lookup stopId = some entry :=
  AList.lookup_insert _

theorem lookup_write_ne (c : UdsCache) {stopId other : Bytes}
    (entry : CacheEntry) (h : other ≠ stopId) :
    (c.write stopId entry).cache.lookup other = c.cache.lookup other :=
  AList.lookup_insert_ne h

/-- A write is the only way a sweep-free section changes an entry. -/
theorem lookup_write (c : UdsCache) (stopId other : Bytes) (entry : CacheEntry) :
    (c.write stopId entry).cache.lookup other =
      if other = stopId then some entry else c.cache.lookup other := by
  by_cases h : other = stopId
  · subst h
    simp
  · rw [lookup_write_ne c entry h, if_neg h]

/-- A sweep keeps exactly the servable entries. -/
@[simp] theorem lookup_removeStaleEntries (c : UdsCache) (now : TimePoint)
    (stopId : Bytes) :
    (c.removeStaleEntries now).cache.lookup stopId =
      (c.cache.lookup stopId).filter (c.isServable now) := by
  simp [removeStaleEntries]

theorem lookup_removeStaleEntries_eq_some {c : UdsCache} {now : TimePoint}
    {stopId : Bytes} {entry : CacheEntry}
    (h : (c.removeStaleEntries now).cache.lookup stopId = some entry) :
    c.cache.lookup stopId = some entry := by
  rw [lookup_removeStaleEntries, Option.filter_eq_some_iff] at h
  exact h.1

/-- A lookup that hits returns the stored entry, younger than the staleness
bound, and younger than the freshness bound when it answers fresh. -/
theorem getElement_hit {c : UdsCache} {stopId : Bytes} {now : TimePoint}
    {state : CacheState} {entry : CacheEntry}
    (h : c.getElement stopId now = (state, some entry)) :
    c.cache.lookup stopId = some entry ∧
      (state = .hitFresh ∧ c.isFresh now entry = true ∨
        state = .hitStale ∧ c.isServable now entry = true) := by
  unfold getElement at h
  cases hlook : c.cache.lookup stopId with
  | none => simp [hlook] at h
  | some stored =>
      simp only [hlook] at h
      by_cases hfresh : c.isFresh now stored = true
      · rw [if_pos hfresh] at h
        cases h
        exact ⟨rfl, .inl ⟨rfl, hfresh⟩⟩
      · rw [if_neg hfresh] at h
        by_cases hserv : c.isServable now stored = true
        · rw [if_pos hserv] at h
          cases h
          exact ⟨rfl, .inr ⟨rfl, hserv⟩⟩
        · rw [if_neg hserv] at h
          cases h

/-! ## Exact ages -/

/-- The bounds of a sound configuration, as the cache holds them. -/
structure Sound (c : UdsCache) : Prop where
  freshness_pos : 1 ≤ c.cacheFreshnessSeconds
  freshness_le_staleness : c.cacheFreshnessSeconds ≤ c.cacheStalenessSeconds
  staleness_le : c.cacheStalenessSeconds ≤ intMax

theorem sound_new (config : SoundConfig) :
    (UdsCache.new (some config.toCacheConfig)).Sound where
  freshness_pos := config.freshness_pos
  freshness_le_staleness := config.freshness_le_staleness
  staleness_le := config.staleness_le

theorem Sound.write {c : UdsCache} (h : c.Sound) (stopId : Bytes)
    (entry : CacheEntry) : (c.write stopId entry).Sound :=
  ⟨h.freshness_pos, h.freshness_le_staleness, h.staleness_le⟩

theorem Sound.removeStaleEntries {c : UdsCache} (h : c.Sound)
    (now : TimePoint) : (c.removeStaleEntries now).Sound :=
  ⟨h.freshness_pos, h.freshness_le_staleness, h.staleness_le⟩

theorem Sound.isFresh_iff {c : UdsCache} (h : c.Sound) (now : TimePoint)
    (entry : CacheEntry) :
    c.isFresh now entry = true ↔
      age now entry.timestamp < c.cacheFreshnessSeconds * 10 ^ 9 := by
  have hmax : c.cacheFreshnessSeconds ≤ intMax :=
    Int.le_trans h.freshness_le_staleness h.staleness_le
  rw [isFresh, decide_eq_true_iff, since_eq_age,
    nanoseconds_eq h.freshness_pos hmax]

theorem Sound.isServable_iff {c : UdsCache} (h : c.Sound) (now : TimePoint)
    (entry : CacheEntry) :
    c.isServable now entry = true ↔
      age now entry.timestamp < c.cacheStalenessSeconds * 10 ^ 9 := by
  have hpos : 1 ≤ c.cacheStalenessSeconds :=
    Int.le_trans h.freshness_pos h.freshness_le_staleness
  rw [isServable, decide_eq_true_iff, since_eq_age,
    nanoseconds_eq hpos h.staleness_le]

/-- Whatever is fresh is servable. -/
theorem Sound.isServable_of_isFresh {c : UdsCache} (h : c.Sound)
    {now : TimePoint} {entry : CacheEntry} (hfresh : c.isFresh now entry = true) :
    c.isServable now entry = true := by
  rw [h.isFresh_iff] at hfresh
  rw [h.isServable_iff]
  have := h.freshness_le_staleness
  omega

/-- An entry that has become stale stays stale. -/
theorem Sound.not_isServable_mono {c : UdsCache} (h : c.Sound)
    {now later : TimePoint} (hle : now.count ≤ later.count) {entry : CacheEntry}
    (hstale : c.isServable now entry = false) :
    c.isServable later entry = false := by
  by_contra hserv
  rw [Bool.not_eq_false, h.isServable_iff] at hserv
  have hnow : c.isServable now entry = true := by
    rw [h.isServable_iff]
    unfold age at hserv ⊢
    omega
  rw [hnow] at hstale
  cases hstale

end UdsCache

end BkkApi.Server.Cache
