import BkkApi.Server.Cache
import Mathlib.Data.List.Induction
import Mathlib.Data.List.Infix

/-!
# The configured capacity

`max_cache_size` is read from the command line, documented, stored in the cache
and then never consulted: `put_element` inserts and sweeps by age only.  How
many entries a history of calls leaves is therefore decided by what was put and
when.

`live` reads it off the history: the last entry put under each stop id, as long
as it was younger than the staleness bound at every sweep since.
`entries_afterCalls` says that these are the entries of the cache, and
`respectsCapacity_iff` that the capacity is respected exactly when no put of the
history makes too many stop ids live.
-/

namespace BkkApi.Server.CacheCapacity

open BkkApi.Verified.CData
open BkkApi.Verified.KeyStore
open BkkApi.Server.Cache

/-- One completed call, with the clock reading it makes under the lock. -/
inductive CacheCall
  | putElement (stopId : Bytes) (entry : CacheEntry) (now : TimePoint)
  | getElement (stopId : Bytes) (now : TimePoint)

/-- The cache after one call; a lookup changes nothing. -/
def afterCall (c : UdsCache) : CacheCall → UdsCache
  | .putElement stopId entry now => c.putElement stopId entry now
  | .getElement _ _ => c

/-- The cache of a given configuration after a history of calls. -/
def afterCalls (config : CacheConfig) (calls : List CacheCall) : UdsCache :=
  calls.foldl afterCall (UdsCache.new (some config))

/-- Between any two calls of the history the cache is within its capacity. -/
def RespectsCapacity (config : CacheConfig) (calls : List CacheCall) : Prop :=
  ∀ before after, calls = before ++ after →
    (size (afterCalls config before).cache : Int) ≤ config.maxCacheSize

/-! ## What a history leaves -/

/-- `entry` is younger than the staleness bound at `now`. -/
def isServableAt (config : CacheConfig) (now : TimePoint) (entry : CacheEntry) :
    Bool :=
  decide (now.since entry.timestamp < nanoseconds config.stalenessSeconds)

/-- A later call does without the entry: it is no put of the same stop id, and no
sweep that finds the entry too old. -/
def spares (config : CacheConfig) (stopId : Bytes) (entry : CacheEntry) :
    CacheCall → Bool
  | .putElement other _ now =>
      decide (stopId ≠ other) && isServableAt config now entry
  | .getElement _ _ => true

/-- The entries of a history that are live at its end, oldest put first. -/
def live (config : CacheConfig) :
    List CacheCall → List (Sigma fun _ : Bytes => CacheEntry)
  | [] => []
  | .putElement stopId entry now :: later =>
      if isServableAt config now entry && later.all (spares config stopId entry)
      then ⟨stopId, entry⟩ :: live config later
      else live config later
  | .getElement _ _ :: later => live config later

/-- No put of the history makes more stop ids live than the capacity. -/
def FewLive (config : CacheConfig) (calls : List CacheCall) : Prop :=
  ∀ before stopId entry now after,
    calls = before ++ .putElement stopId entry now :: after →
    ((live config (before ++ [.putElement stopId entry now])).length : Int) ≤
      config.maxCacheSize

section History

variable (config : CacheConfig) (calls : List CacheCall)

/-- A lookup leaves everything live. -/
theorem live_concat_get (stopId : Bytes) (now : TimePoint) :
    live config (calls ++ [.getElement stopId now]) = live config calls := by
  induction calls with
  | nil => rfl
  | cons call calls ih =>
      cases call with
      | putElement other entry past =>
          simp only [List.cons_append, live, List.all_append, List.all_cons,
            spares, List.all_nil, Bool.and_true, ih]
      | getElement other past =>
          simp only [List.cons_append, live, ih]

/-- A put leaves live what it spares, and its own entry if its own sweep does. -/
theorem live_concat_put (stopId : Bytes) (entry : CacheEntry)
    (now : TimePoint) :
    live config (calls ++ [.putElement stopId entry now]) =
      (live config calls).filter
          (fun e => spares config e.1 e.2 (.putElement stopId entry now)) ++
        if isServableAt config now entry then [⟨stopId, entry⟩] else [] := by
  induction calls with
  | nil =>
      simp only [List.nil_append, live, List.all_nil, Bool.and_true,
        List.filter_nil]
  | cons call calls ih =>
      cases call with
      | putElement other old past =>
          simp only [List.cons_append, live, List.all_append, List.all_cons,
            List.all_nil, Bool.and_true, ih]
          cases hold : isServableAt config past old &&
              calls.all (spares config other old) with
          | false =>
              rw [← Bool.and_assoc, hold, Bool.false_and, if_neg Bool.false_ne_true,
                if_neg Bool.false_ne_true]
          | true =>
              rw [← Bool.and_assoc, hold, Bool.true_and, if_pos rfl]
              cases hspares : spares config other old
                  (.putElement stopId entry now) with
              | false =>
                  rw [if_neg Bool.false_ne_true, List.filter_cons, hspares,
                    if_neg Bool.false_ne_true]
              | true =>
                  rw [if_pos rfl, List.filter_cons, hspares, if_pos rfl,
                    List.cons_append]
      | getElement other past =>
          simp only [List.cons_append, live, ih]

end History

/-! ## What the cache holds -/

theorem afterCalls_concat (config : CacheConfig) (calls : List CacheCall)
    (call : CacheCall) :
    afterCalls config (calls ++ [call]) =
      afterCall (afterCalls config calls) call :=
  List.foldl_concat ..

theorem afterCalls_staleness (config : CacheConfig) (calls : List CacheCall) :
    (afterCalls config calls).cacheStalenessSeconds =
      config.stalenessSeconds := by
  induction calls using List.reverseRecOn with
  | nil => rfl
  | append_singleton calls call ih =>
      rw [afterCalls_concat, ← ih]
      cases call with
      | putElement | getElement => rfl

/-- The entries after a put and its sweep: a put replaces the entry of its stop
id, and the sweep goes over all of them. -/
theorem entries_putElement {config : CacheConfig} {c : UdsCache}
    (hconfig : c.cacheStalenessSeconds = config.stalenessSeconds)
    (stopId : Bytes) (entry : CacheEntry) (now : TimePoint) :
    (c.putElement stopId entry now).cache.entries =
      (if isServableAt config now entry then [⟨stopId, entry⟩] else []) ++
        c.cache.entries.filter fun e =>
          spares config e.1 e.2 (.putElement stopId entry now) := by
  have hkeep : ∀ e, (!c.isStale now e) = isServableAt config now e := by
    intro e
    rw [UdsCache.isStale_eq_not_isServable, Bool.not_not, UdsCache.isServable,
      hconfig]
    rfl
  have hentries : (c.putElement stopId entry now).cache.entries =
      (⟨stopId, entry⟩ :: c.cache.entries.kerase stopId).filter
        fun e => !c.isStale now e.2 := rfl
  have hothers : (c.cache.entries.kerase stopId).filter
      (fun e => isServableAt config now e.2) =
      c.cache.entries.filter fun e =>
        spares config e.1 e.2 (.putElement stopId entry now) := by
    rw [kerase_eq_filter stopId _ c.cache.nodupKeys, List.filter_filter]
    refine List.filter_congr fun e _ => ?_
    rw [Bool.and_comm]
    rfl
  simp only [hkeep] at hentries
  rw [hentries, List.filter_cons, hothers]
  split
  · rfl
  · rfl

/-- The cache holds what the history has left live. -/
theorem entries_afterCalls (config : CacheConfig) (calls : List CacheCall) :
    (afterCalls config calls).cache.entries = (live config calls).reverse := by
  induction calls using List.reverseRecOn with
  | nil => rfl
  | append_singleton calls call ih =>
      rw [afterCalls_concat]
      cases call with
      | putElement stopId entry now =>
          have hentries := entries_putElement (afterCalls_staleness config calls)
            stopId entry now
          rw [live_concat_put, List.reverse_append, ← List.filter_reverse, ← ih]
          refine hentries.trans (congrArg (· ++ _) ?_)
          split
          · rfl
          · rfl
      | getElement stopId now =>
          rw [live_concat_get, ← ih]
          rfl

theorem size_afterCalls (config : CacheConfig) (calls : List CacheCall) :
    size (afterCalls config calls).cache = (live config calls).length := by
  rw [size, entries_afterCalls, List.length_reverse]

/-! ## When the capacity is respected -/

/-- The capacity is respected between all calls of a history exactly when none
of its puts makes more stop ids live than it allows. -/
theorem respectsCapacity_iff (config : CacheConfig)
    (hmax : 1 ≤ config.maxCacheSize) (calls : List CacheCall) :
    RespectsCapacity config calls ↔ FewLive config calls := by
  constructor
  · intro h before stopId entry now after hcalls
    have hafter := h (before ++ [.putElement stopId entry now]) after
      (by rw [hcalls, List.append_assoc, List.singleton_append])
    rw [size_afterCalls] at hafter
    exact hafter
  · intro h before
    induction before using List.reverseRecOn with
    | nil =>
        intro after _
        have hzero : size (afterCalls config []).cache = 0 := rfl
        omega
    | append_singleton before call ih =>
        intro after hcalls
        have hsplit : calls = before ++ call :: after := by
          rw [hcalls, List.append_assoc, List.singleton_append]
        cases call with
        | putElement stopId entry now =>
            rw [size_afterCalls]
            exact h before stopId entry now after hsplit
        | getElement stopId now =>
            rw [afterCalls_concat]
            exact ih (.getElement stopId now :: after) hsplit

theorem fewLive_of_inits {config : CacheConfig} {calls : List CacheCall}
    (h : ∀ before ∈ calls.inits,
      ((live config before).length : Int) ≤ config.maxCacheSize) :
    FewLive config calls := by
  intro before stopId entry now after hcalls
  apply h
  rw [List.mem_inits, hcalls]
  exact ⟨after, (List.append_cons before _ after).symm⟩

/-- A put of an entry that is stamped when it is put. -/
def putAt (stopId : Bytes) (now : TimePoint) : CacheCall :=
  .putElement stopId ⟨[], now⟩ now

/-- Four stop ids, the last two after the first two have become stale. -/
def fourStops : List CacheCall :=
  [ putAt (bytesOf "F") ⟨10 ^ 9, by decide⟩
  , putAt (bytesOf "G") ⟨2 * 10 ^ 9, by decide⟩
  , .getElement (bytesOf "F") ⟨6 * 10 ^ 9, by decide⟩
  , putAt (bytesOf "H") ⟨23 * 10 ^ 9, by decide⟩
  , putAt (bytesOf "K") ⟨24 * 10 ^ 9, by decide⟩ ]

/-- No more than two of them are live at a time. -/
theorem respectsCapacity_iff_four_stops :
    RespectsCapacity ⟨10, 20, 2⟩ fourStops ∧
      size (afterCalls ⟨10, 20, 2⟩ fourStops).cache = 2 := by
  have hfew : FewLive ⟨10, 20, 2⟩ fourStops :=
    fewLive_of_inits (by decide +kernel)
  exact ⟨(respectsCapacity_iff ⟨10, 20, 2⟩ (by decide) fourStops).2 hfew,
    by decide +kernel⟩

/-- Two stop ids put at one instant into a cache configured for one entry stay
there together. -/
theorem capacity_exceeded :
    ¬ ∀ (config : CacheConfig) (calls : List CacheCall),
      1 ≤ config.maxCacheSize → RespectsCapacity config calls := by
  intro h
  have hsize := h ⟨10, 20, 1⟩
    [putAt (bytesOf "F") ⟨0, by decide⟩, putAt (bytesOf "G") ⟨0, by decide⟩]
    (by decide) _ [] (List.append_nil _).symm
  exact absurd hsize (by decide)

end BkkApi.Server.CacheCapacity
