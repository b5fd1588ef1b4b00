import BkkApi.Server.Cache
import BkkApi.Verified.Answers

/-!
# Eviction is invisible: the cache against a store that never evicts

Concurrent callers of one `UdsCache` interleave at the boundaries of its
critical sections.  A run is therefore a list of sections: the write of some
`put_element`, the sweep that a started `put_element` still owes, a
`get_element`.  Between them the steady clock only moves forward.

The reference keeps, for every stop id, the last entry written, and classifies
it by its exact age.  `answers_eq_reference` says that the two cannot be told
apart: in every run each lookup answers the same, and each sweep leaves exactly
the reference store restricted to what is still younger than the staleness
bound.  The relation behind it, `Tracks`, allows the cache to have lost only
entries that are already too old to be served, and since the clock does not go
back they stay too old.
-/

namespace BkkApi.Server.CacheReference

open BkkApi.Verified.CData
open BkkApi.Verified.Answers
open BkkApi.Server.Cache

/-! ## The reference store -/

/-- The last entry written under each stop id. -/
abbrev Reference := Bytes → Option CacheEntry

/-- What an entry of a given age is good for. -/
def classify (config : CacheConfig) (entryAge : Int) : CacheState :=
  if entryAge < config.freshnessSeconds * 10 ^ 9 then .hitFresh
  else if entryAge < config.stalenessSeconds * 10 ^ 9 then .hitStale
  else .miss

namespace Reference

def write (r : Reference) (stopId : Bytes) (entry : CacheEntry) : Reference :=
  Function.update r stopId (some entry)

/-- The answer of a lookup: the class of the last entry written, with that
entry unless it is a miss. -/
def getElement (config : CacheConfig) (r : Reference) (stopId : Bytes)
    (now : TimePoint) : CacheState × Option CacheEntry :=
  match r stopId with
  | none => (.miss, none)
  | some entry =>
      match classify config (age now entry.timestamp) with
      | .miss => (.miss, none)
      | state => (state, some entry)

/-- The store restricted to the entries younger than the staleness bound. -/
def servable (config : CacheConfig) (r : Reference) (now : TimePoint) :
    Reference :=
  fun stopId => (r stopId).filter fun entry =>
    decide (age now entry.timestamp < config.stalenessSeconds * 10 ^ 9)

end Reference

/-! ## Runs -/

/-- One critical section.  A clock is read in the sections of `get_element`
and of the sweep. -/
inductive Section
  | write (stopId : Bytes) (entry : CacheEntry)
  | sweep (now : TimePoint)
  | get (stopId : Bytes) (now : TimePoint)

/-- What can be seen of a section: the answer of a lookup, and the whole map
right after a sweep. -/
inductive Seen
  | stored
  | swept (map : Bytes → Option CacheEntry)
  | got (answer : CacheState × Option CacheEntry)

/-- A cache, or a reference, in the middle of a run: the last clock reading
and the number of `put_element` calls between their two sections. -/
structure Running (Kept : Type) where
  kept : Kept
  clock : TimePoint
  pending : Nat

/-- The cache under concurrent callers. -/
def cacheStep (s : Running UdsCache) :
    Section → Option (Running UdsCache × Seen)
  | .write stopId entry =>
      some ({ s with kept := s.kept.write stopId entry
                     pending := s.pending + 1 }, .stored)
  | .sweep now =>
      if s.clock.count ≤ now.count ∧ 0 < s.pending then
        some ({ kept := s.kept.removeStaleEntries now
                clock := now
                pending := s.pending - 1 },
          .swept fun stopId =>
            (s.kept.removeStaleEntries now).cache.lookup stopId)
      else none
  | .get stopId now =>
      if s.clock.count ≤ now.count then
        some ({ s with clock := now }, .got (s.kept.getElement stopId now))
      else none

/-- The reference under the same callers: its sweep erases nothing and shows
the restricted store. -/
def referenceStep (config : CacheConfig) (s : Running Reference) :
    Section → Option (Running Reference × Seen)
  | .write stopId entry =>
      some ({ s with kept := s.kept.write stopId entry
                     pending := s.pending + 1 }, .stored)
  | .sweep now =>
      if s.clock.count ≤ now.count ∧ 0 < s.pending then
        some ({ s with clock := now
                       pending := s.pending - 1 },
          .swept (s.kept.servable config now))
      else none
  | .get stopId now =>
      if s.clock.count ≤ now.count then
        some ({ s with clock := now },
          .got (s.kept.getElement config stopId now))
      else none

def cacheRuns (config : CacheConfig) (clock : TimePoint) :
    Transducer (Running UdsCache) Section Seen where
  start := { kept := UdsCache.new (some config), clock := clock, pending := 0 }
  step := cacheStep

def referenceRuns (config : CacheConfig) (clock : TimePoint) :
    Transducer (Running Reference) Section Seen where
  start := { kept := fun _ => none, clock := clock, pending := 0 }
  step := referenceStep config

/-! ## The relation -/

/-- The cache holds what the reference holds, except for entries too old to be
served at `clock`. -/
structure Tracks (config : CacheConfig) (c : UdsCache) (r : Reference)
    (clock : TimePoint) : Prop where
  sound : c.Sound
  freshness : c.cacheFreshnessSeconds = config.freshnessSeconds
  staleness : c.cacheStalenessSeconds = config.stalenessSeconds
  kept : ∀ stopId entry, c.cache.lookup stopId = some entry →
    r stopId = some entry
  lost : ∀ stopId entry, r stopId = some entry →
    c.cache.lookup stopId = none → c.isServable clock entry = false

namespace Tracks

variable {config : CacheConfig} {c : UdsCache} {r : Reference}
  {clock now : TimePoint}

theorem isServable_eq (h : Tracks config c r clock) (entry : CacheEntry) :
    c.isServable now entry =
      decide (age now entry.timestamp < config.stalenessSeconds * 10 ^ 9) := by
  rw [Bool.eq_iff_iff, h.sound.isServable_iff, decide_eq_true_iff, h.staleness]

/-- Time alone does not break the relation. -/
theorem later (h : Tracks config c r clock) (hle : clock.count ≤ now.count) :
    Tracks config c r now :=
  { h with
    lost := fun stopId entry hr hnone =>
      h.sound.not_isServable_mono hle (h.lost stopId entry hr hnone) }

theorem write (h : Tracks config c r clock) (stopId : Bytes)
    (entry : CacheEntry) :
    Tracks config (c.write stopId entry) (r.write stopId entry) clock := by
  refine
    { sound := h.sound.write stopId entry
      freshness := h.freshness
      staleness := h.staleness
      kept := ?_
      lost := ?_ }
  · intro other stored hlook
    rw [UdsCache.lookup_write] at hlook
    by_cases hother : other = stopId
    · rw [if_pos hother] at hlook
      rw [Reference.write, hother, Function.update_self, hlook]
    · rw [if_neg hother] at hlook
      rw [Reference.write, Function.update_of_ne hother]
      exact h.kept other stored hlook
  · intro other stored hr hnone
    rw [UdsCache.lookup_write] at hnone
    by_cases hother : other = stopId
    · rw [if_pos hother] at hnone
      cases hnone
    · rw [if_neg hother] at hnone
      rw [Reference.write, Function.update_of_ne hother] at hr
      exact h.lost other stored hr hnone

/-- What a sweep leaves is the reference restricted to the servable entries:
nothing is lost and nothing is left over. -/
theorem swept (h : Tracks config c r clock) (hle : clock.count ≤ now.count) :
    (fun stopId => (c.removeStaleEntries now).cache.lookup stopId) =
      r.servable config now := by
  funext stopId
  rw [UdsCache.lookup_removeStaleEntries, Reference.servable]
  have hpred : c.isServable now = fun entry =>
      decide (age now entry.timestamp < config.stalenessSeconds * 10 ^ 9) :=
    funext fun entry => h.isServable_eq entry
  cases hlook : c.cache.lookup stopId with
  | some entry => rw [h.kept stopId entry hlook, hpred]
  | none =>
      cases hr : r stopId with
      | none => rfl
      | some entry =>
          have hold := (h.later hle).lost stopId entry hr hlook
          rw [h.isServable_eq] at hold
          simp only [Option.filter_none, Option.filter_some, hold,
            Bool.false_eq_true, if_false]

theorem sweep (h : Tracks config c r clock) (hle : clock.count ≤ now.count) :
    Tracks config (c.removeStaleEntries now) r now := by
  refine
    { sound := h.sound.removeStaleEntries now
      freshness := h.freshness
      staleness := h.staleness
      kept := fun stopId entry hlook => h.kept stopId entry
        (UdsCache.lookup_removeStaleEntries_eq_some hlook)
      lost := ?_ }
  intro stopId entry hr hnone
  rw [UdsCache.lookup_removeStaleEntries] at hnone
  show c.isServable now entry = false
  cases hlook : c.cache.lookup stopId with
  | none => exact (h.later hle).lost stopId entry hr hlook
  | some stored =>
      have hsame : stored = entry :=
        Option.some.inj ((h.kept stopId stored hlook).symm.trans hr)
      rw [hlook, hsame] at hnone
      simpa using hnone

/-- A lookup answers as the reference does. -/
theorem getElement (h : Tracks config c r clock)
    (hle : clock.count ≤ now.count) (stopId : Bytes) :
    c.getElement stopId now = r.getElement config stopId now := by
  unfold UdsCache.getElement Reference.getElement
  cases hr : r stopId with
  | none =>
      have hnone : c.cache.lookup stopId = none := by
        by_contra hsome
        obtain ⟨entry, hentry⟩ := Option.ne_none_iff_exists'.1 hsome
        rw [h.kept stopId entry hentry] at hr
        cases hr
      rw [hnone]
  | some entry =>
      have hfresh := h.sound.isFresh_iff now entry
      have hserv := h.sound.isServable_iff now entry
      rw [h.freshness] at hfresh
      rw [h.staleness] at hserv
      cases hlook : c.cache.lookup stopId with
      | some stored =>
          have hsame : stored = entry :=
            Option.some.inj ((h.kept stopId stored hlook).symm.trans hr)
          subst hsame
          simp only [hfresh, hserv, classify]
          by_cases h₁ : age now stored.timestamp <
              config.freshnessSeconds * 10 ^ 9
          · simp only [if_pos h₁]
          · by_cases h₂ : age now stored.timestamp <
                config.stalenessSeconds * 10 ^ 9
            · simp only [if_neg h₁, if_pos h₂]
            · simp only [if_neg h₁, if_neg h₂]
      | none =>
          -- the reference still holds an entry the cache has evicted
          have hold := (h.later hle).lost stopId entry hr hlook
          have h₂ : ¬ age now entry.timestamp <
              config.stalenessSeconds * 10 ^ 9 := by
            intro hlt
            rw [hserv.2 hlt] at hold
            cases hold
          have h₁ : ¬ age now entry.timestamp <
              config.freshnessSeconds * 10 ^ 9 := by
            intro hlt
            have := h.sound.freshness_le_staleness
            rw [h.freshness, h.staleness] at this
            omega
          simp only [classify, if_neg h₁, if_neg h₂]

end Tracks

/-! ## Refinement -/

/-- Two runs side by side: the same clock, the same sweeps owed, and a cache
that tracks the reference. -/
structure InStep (config : CacheConfig) (s : Running UdsCache)
    (t : Running Reference) : Prop where
  clock : s.clock = t.clock
  pending : s.pending = t.pending
  tracks : Tracks config s.kept t.kept s.clock

theorem simulation (config : SoundConfig) (clock : TimePoint) :
    Transducer.Simulation (cacheRuns config.toCacheConfig clock)
      (referenceRuns config.toCacheConfig clock)
      (InStep config.toCacheConfig) where
  start :=
    { clock := rfl
      pending := rfl
      tracks :=
        { sound := UdsCache.sound_new config
          freshness := rfl
          staleness := rfl
          kept := fun _ _ h => by cases h
          lost := fun _ _ h => by cases h } }
  disabled := by
    intro s t a h
    cases a with
    | write stopId entry => simp [cacheRuns, referenceRuns, cacheStep, referenceStep]
    | sweep now =>
        simp [cacheRuns, referenceRuns, cacheStep, referenceStep, h.clock,
          h.pending]
    | get stopId now =>
        simp [cacheRuns, referenceRuns, cacheStep, referenceStep, h.clock]
  enabled := by
    intro s t a s' o t' o' h hs ht
    cases a with
    | write stopId entry =>
        cases hs
        cases ht
        exact ⟨⟨h.clock, congrArg (· + 1) h.pending,
          h.tracks.write stopId entry⟩, rfl⟩
    | sweep now =>
        simp only [cacheRuns, cacheStep, Option.ite_none_right_eq_some] at hs
        simp only [referenceRuns, referenceStep,
          Option.ite_none_right_eq_some] at ht
        obtain ⟨⟨hle, _⟩, hs⟩ := hs
        obtain ⟨_, ht⟩ := ht
        cases hs
        cases ht
        exact ⟨⟨rfl, congrArg (· - 1) h.pending, h.tracks.sweep hle⟩,
          congrArg Seen.swept (h.tracks.swept hle)⟩
    | get stopId now =>
        simp only [cacheRuns, cacheStep, Option.ite_none_right_eq_some] at hs
        simp only [referenceRuns, referenceStep,
          Option.ite_none_right_eq_some] at ht
        obtain ⟨hle, hs⟩ := hs
        obtain ⟨_, ht⟩ := ht
        cases hs
        cases ht
        exact ⟨⟨rfl, h.pending, h.tracks.later hle⟩,
          congrArg Seen.got (h.tracks.getElement hle stopId)⟩

/-- **Eviction is exact and invisible.**  In every run of the cache under
concurrent callers, with the clock never going back, every lookup answers as
the store that never evicts, and every sweep leaves that store restricted to
the entries younger than the staleness bound. -/
theorem answers_eq_reference (config : SoundConfig) (clock : TimePoint)
    (sections : List Section) :
    (cacheRuns config.toCacheConfig clock).answers sections =
      (referenceRuns config.toCacheConfig clock).answers sections :=
  Transducer.answers_eq_of_simulation (simulation config clock) sections

end BkkApi.Server.CacheReference
