import BkkApi.Server.CacheReference
import BkkApi.Server.FetchOrder
import BkkApi.Server.Serving

/-!
# Two spellings of one stop

`get_arrivals_for_stop` adds a missing `BKK_` to a stop id, so that two stop ids
can ask upstream for the same stop.  The cache is keyed by the stop id as it was
asked for.  `own_entry_of_reachable` says what follows in every run: the two
spellings make the same request and get the same result, but each has an entry of
its own.  Only a fetch for a spelling changes what a lookup for it finds, and
what such a fetch has written is what lookups for that spelling find, by its
age, until another one writes.
-/

namespace BkkApi.Server.Spellings

open BkkApi.Verified.CData
open BkkApi.Verified.Run
open BkkApi.Server.Api
open BkkApi.Server.Cache
open BkkApi.Server.CacheReference (classify)
open BkkApi.Server.Fetching (Fetches Call Upstream InvisibleTo Configured setPc)
open BkkApi.Server.FetchOrder (now_le_of_step)
open BkkApi.Server.Serving
open BkkApi.Server.ResponseParser (CJson Tm)

/-- Stop ids that ask upstream for the same stop. -/
def SameStop (a b : Bytes) : Prop := formattedStopId a = formattedStopId b

/-- The same stop gives the same fetch. -/
theorem SameStop.fetch_eq {a b : Bytes} (h : SameStop a b)
    (cJsonParse : Bytes → Option CJson) (timeinfo : Nat → Int → Option Tm)
    (apiKey : Bytes) (curl : Curl) :
    getArrivalsForStation cJsonParse timeinfo a apiKey curl =
      getArrivalsForStation cJsonParse timeinfo b apiKey curl := by
  have hparams : stopParams a = stopParams b := by
    unfold stopParams
    rw [h]
  have hstop : getArrivalsForStop a apiKey curl =
      getArrivalsForStop b apiKey curl := by
    unfold getArrivalsForStop
    rw [hparams]
  unfold getArrivalsForStation
  rw [hstop]

/-! ## Lookups and writes -/

/-- The answer of a lookup at `later` that finds `entry`: its class by its exact
age, with the entry unless that is a miss. -/
def answerOf (config : CacheConfig) (entry : CacheEntry) (later : TimePoint) :
    CacheState × Option CacheEntry :=
  match classify config (age later entry.timestamp) with
  | .miss => (.miss, none)
  | .hitFresh => (.hitFresh, some entry)
  | .hitStale => (.hitStale, some entry)

/-- Lookups for `stopId` find `entry`, from the time of `s` on. -/
def Answers (config : SoundConfig) (stopId : Bytes) (entry : CacheEntry)
    (s : Fetches) : Prop :=
  ∀ later : TimePoint, s.now.count ≤ later.count →
    s.cache.getElement stopId later = answerOf config.toCacheConfig entry later

/-- The step writes the entry of `stopId`. -/
def Writes (stopId : Bytes) (s : Fetches) (a : Fetching.Action) : Prop :=
  ∃ k upstream call entry, a = .advance k upstream ∧ s.calls[k]? = some call ∧
    call.stopId = stopId ∧ call.pc = .stamped entry

section Steps

variable {cJsonParse : Bytes → Option CJson} {config : SoundConfig}
  {s t : Fetches} {a : Fetching.Action} {stopId : Bytes}

/-- Only a write of its entry can be seen by the lookups for a stop id. -/
theorem invisibleTo_of_not_writes (hconfig : Configured config s.cache)
    (hstep : Fetching.step cJsonParse s a = some t)
    (hquiet : ¬Writes stopId s a) : InvisibleTo stopId s t := by
  rcases Fetching.step_cases hstep with ⟨later, -, -, ht⟩ | ⟨request, -, ht⟩ |
    ⟨k, upstream, call, ha, hcall, hadvance⟩
  · intro later _
    rw [ht]
  · intro later _
    rw [ht]
  · apply Fetching.invisibleTo_of_advance hconfig hadvance
    intro entry hpc hstop
    exact hquiet ⟨k, upstream, call, entry, ha, hcall, hstop.symm, hpc⟩

/-- What a cache of this configuration answers from an entry that it has. -/
theorem getElement_of_lookup {c : UdsCache} (hconfig : Configured config c)
    {entry : CacheEntry} (hlookup : c.cache.lookup stopId = some entry)
    (later : TimePoint) :
    c.getElement stopId later = answerOf config.toCacheConfig entry later := by
  have hfresh := hconfig.sound.isFresh_iff later entry
  have hservable := hconfig.sound.isServable_iff later entry
  rw [hconfig.freshness] at hfresh
  rw [hconfig.staleness] at hservable
  unfold UdsCache.getElement answerOf classify
  rw [hlookup]
  dsimp only
  by_cases hyoung : age later entry.timestamp < config.freshnessSeconds * 10 ^ 9
  · rw [if_pos (hfresh.2 hyoung), if_pos hyoung]
  · rw [if_neg (mt hfresh.1 hyoung), if_neg hyoung]
    by_cases hserved :
        age later entry.timestamp < config.stalenessSeconds * 10 ^ 9
    · rw [if_pos (hservable.2 hserved), if_pos hserved]
    · rw [if_neg (mt hservable.1 hserved), if_neg hserved]

/-- A write is found by the lookups for its stop id. -/
theorem answers_of_write (hconfig : Configured config s.cache) {k : Nat}
    {upstream : Upstream} {call : Call} {entry : CacheEntry}
    (hcall : s.calls[k]? = some call) (hpc : call.pc = .stamped entry)
    (hstep : Fetching.step cJsonParse s (.advance k upstream) = some t) :
    Answers config call.stopId entry t := by
  have hafter := hconfig.step hstep
  have hwritten : t = { setPc s k call (.written entry) with
      cache := s.cache.write call.stopId entry } := by
    obtain ⟨moved, hmoved, hadvance⟩ := Option.bind_eq_some_iff.1 hstep
    have hsame : moved = call := Option.some.inj (hmoved.symm.trans hcall)
    rw [hsame] at hadvance
    simp only [Fetching.advance, hpc] at hadvance
    exact (Option.some.inj hadvance).symm
  have hlookup : t.cache.cache.lookup call.stopId = some entry := by
    rw [hwritten]
    exact UdsCache.lookup_write_self _ _ _
  intro later _
  exact getElement_of_lookup hafter hlookup later

/-- And it is found until the next one. -/
theorem Answers.step {entry : CacheEntry} (h : Answers config stopId entry s)
    (hconfig : Configured config s.cache)
    (hstep : Fetching.step cJsonParse s a = some t)
    (hquiet : ¬Writes stopId s a) : Answers config stopId entry t := by
  have hnow := now_le_of_step hstep
  intro later hlater
  have hle : s.now.count ≤ later.count := Nat.le_trans hnow hlater
  rw [invisibleTo_of_not_writes hconfig hstep hquiet later hle]
  exact h later hle

end Steps

/-! ## Runs of the server -/

/-- The step is not a write of the entry of `stopId`. -/
def LeavesEntry {n : Nat} (stopId : Bytes) (s : UdsServer n) (a : Action n) :
    Prop :=
  ∀ b, a = .fetch b → ¬Writes stopId s.fetches b

section Runs

variable {cJsonParse : Bytes → Option CJson} {n : Nat} {config : SoundConfig}
  {s t : UdsServer n} {a : Action n} {stopId : Bytes}

/-- What the fetches see of a step that leaves an entry alone. -/
theorem fetch_step_of_leavesEntry (hstep : step cJsonParse s a = some t)
    (hleaves : LeavesEntry stopId s a) :
    t.fetches = s.fetches ∨ ∃ b, ¬Writes stopId s.fetches b ∧
      Fetching.step cJsonParse s.fetches b = some t.fetches := by
  cases step_cases hstep with
  | accept hen => exact Or.inl rfl
  | pool hown hen => exact Or.inl rfl
  | fetch hown hfetch => exact Or.inr ⟨_, hleaves _ rfl, hfetch⟩
  | handle hworker hhandles =>
      rcases hhandles.fetches_cases with hsame | ⟨request, hcall⟩
      · exact Or.inl hsame
      · refine Or.inr ⟨.call request, ?_, congrArg some hcall.symm⟩
        intro hwrites
        obtain ⟨k, upstream, call, entry, hadvance, -⟩ := hwrites
        cases hadvance

/-- A run that leaves the entry alone goes on finding it. -/
theorem answers_of_leadsTo {entry : CacheEntry}
    (hconfig : Configured config s.fetches.cache)
    (h : Answers config stopId entry s.fetches)
    (hlead : (machine cJsonParse n config).LeadsTo (LeavesEntry stopId) s t) :
    Configured config t.fetches.cache ∧ Answers config stopId entry t.fetches := by
  induction hlead with
  | refl => exact ⟨hconfig, h⟩
  | step hlead hleaves hstep ih =>
      obtain ⟨hconfig', h'⟩ := ih
      rcases fetch_step_of_leavesEntry hstep hleaves with hsame | ⟨b, hquiet, hb⟩
      · rw [hsame]
        exact ⟨hconfig', h'⟩
      · exact ⟨hconfig'.step hb, h'.step hconfig' hb hquiet⟩

/-- A step that can be seen by the lookups for a stop id is a call's write of its
entry. -/
theorem writes_of_visible (hconfig : Configured config s.fetches.cache)
    (hstep : step cJsonParse s a = some t)
    (hvisible : ¬InvisibleTo stopId s.fetches t.fetches) :
    ∃ b, a = .fetch b ∧ Writes stopId s.fetches b := by
  by_contra hnone
  have hleaves : LeavesEntry stopId s a := fun b hb hwrites =>
    hnone ⟨b, hb, hwrites⟩
  rcases fetch_step_of_leavesEntry hstep hleaves with hsame | ⟨b, hquiet, hb⟩
  · apply hvisible
    intro later _
    rw [hsame]
  · exact hvisible (invisibleTo_of_not_writes hconfig hb hquiet)

/-- Two spellings of a stop make the same request, and each has its own entry in
every run: only a fetch for a spelling changes what lookups for it find, and what
such a fetch writes is what they find, by its age, until the next one. -/
theorem own_entry_of_reachable (h : (machine cJsonParse n config).Reachable s)
    (a b : Bytes) :
    (SameStop a b → ∀ timeinfo apiKey curl,
        getArrivalsForStation cJsonParse timeinfo a apiKey curl =
          getArrivalsForStation cJsonParse timeinfo b apiKey curl) ∧
      (∀ action t, step cJsonParse s action = some t →
        ¬InvisibleTo a s.fetches t.fetches →
        ∃ write, action = .fetch write ∧ Writes a s.fetches write) ∧
      ∀ (k : Nat) (call : Call) (entry : CacheEntry) (upstream : Upstream)
          (t u : UdsServer n),
        s.fetches.calls[k]? = some call → call.stopId = a →
        call.pc = .stamped entry →
        step cJsonParse s (.fetch (.advance k upstream)) = some t →
        (machine cJsonParse n config).LeadsTo (LeavesEntry a) t u →
        Answers config a entry u.fetches := by
  have hconfig := Fetching.configured_of_reachable (fetches_reachable h)
  refine ⟨fun hsame timeinfo apiKey curl =>
    hsame.fetch_eq cJsonParse timeinfo apiKey curl, ?_, ?_⟩
  · intro action t hstep hvisible
    exact writes_of_visible hconfig hstep hvisible
  · intro k call entry upstream t u hcall hstop hpc hstep hlead
    cases step_cases hstep with
    | fetch hown hfetch =>
        have hanswers := answers_of_write hconfig hcall hpc hfetch
        rw [hstop] at hanswers
        exact (answers_of_leadsTo (hconfig.step hfetch) hanswers hlead).2

end Runs

/-! ## A stop that is fetched under one spelling -/

/-- The call is about to write its entry. -/
def isStamped : Fetching.Pc → Bool
  | .stamped _ => true
  | _ => false

theorem exists_of_isStamped {pc : Fetching.Pc} (h : isStamped pc = true) :
    ∃ entry, pc = .stamped entry := by
  cases pc with
  | stamped entry => exact ⟨entry, rfl⟩
  | entered | transferring | fetched arrivals | written entry | returned entry
  | failed status => cases h

/-- Call 0 is about to write an entry for `F`. -/
def aboutToWrite (s : UdsServer 1) : Bool :=
  (s.fetches.calls[0]?).any fun call =>
    decide (call.stopId = bytesOf "F") && isStamped call.pc

/-- The entry that the sample conversation writes is found under its spelling. -/
theorem own_entry_of_reachable_sample :
    ∃ (s : UdsServer 1) (entry : CacheEntry),
      (machine Fetching.sampleParse 1 Fetching.sampleConfig).Reachable s ∧
        s.fetches.cache.getElement (bytesOf "F") s.fetches.now =
          answerOf Fetching.sampleConfig.toCacheConfig entry s.fetches.now := by
  obtain ⟨s, hreach, hs⟩ := Machine.exists_reachable_of_run
    (M := machine Fetching.sampleParse 1 Fetching.sampleConfig)
    (s := sampleServer) ⟨rfl, ⟨rfl, rfl⟩, rfl, rfl⟩
    (l := sampleDequeue ++ List.replicate 3 (.handle 0 sampleEnvironment) ++
      List.replicate 3 (.fetch (.advance 0 Fetching.sampleUpstream)))
    (p := aboutToWrite)
    (by decide +kernel)
  obtain ⟨call, hcall, htest⟩ := (Option.any_eq_true _ _).1 hs
  rw [Bool.and_eq_true] at htest
  obtain ⟨entry, hpc⟩ := exists_of_isStamped htest.2
  have hstop := of_decide_eq_true htest.1
  have hmoves : ∃ t, step Fetching.sampleParse s
      (.fetch (.advance 0 Fetching.sampleUpstream)) = some t := by
    simp [step, ownFetchStep, Fetching.step, Fetching.advance, hcall, hpc]
  obtain ⟨t, hstep⟩ := hmoves
  have hreach' : (machine Fetching.sampleParse 1
      Fetching.sampleConfig).Reachable t :=
    Machine.Reachable.step (a := .fetch (.advance 0 Fetching.sampleUpstream))
      hreach hstep
  have hanswers :=
    (own_entry_of_reachable hreach (bytesOf "F") (bytesOf "BKK_F")).2.2
      0 call entry _ _ _ hcall hstop hpc hstep .refl
  exact ⟨t, entry, hreach', hanswers _ (Nat.le_refl _)⟩

/-- After it the other spelling of the same stop is still missed. -/
theorem spellings_answered_apart :
    ¬∀ (cJsonParse : Bytes → Option CJson) (n : Nat) (config : SoundConfig)
        (s : UdsServer n) (a b : Bytes),
      (machine cJsonParse n config).Reachable s → SameStop a b →
        ∀ now, s.fetches.cache.getElement a now =
          s.fetches.cache.getElement b now := by
  intro h
  obtain ⟨s, hreach, hs⟩ := Machine.exists_reachable_of_run
    (M := machine Fetching.sampleParse 1 Fetching.sampleConfig)
    (s := sampleServer) ⟨rfl, ⟨rfl, rfl⟩, rfl, rfl⟩
    (l := sampleDequeue ++ sampleFetch)
    (p := fun s => decide
      ((s.fetches.cache.getElement (bytesOf "F") s.fetches.now).1 = .hitFresh ∧
        (s.fetches.cache.getElement (bytesOf "BKK_F") s.fetches.now).1 = .miss))
    (by decide +kernel)
  obtain ⟨hhit, hmiss⟩ := of_decide_eq_true hs
  have hsame : SameStop (bytesOf "F") (bytesOf "BKK_F") := by
    show formattedStopId _ = formattedStopId _
    decide
  rw [h _ _ _ s _ _ hreach hsame s.fetches.now, hmiss] at hhit
  cases hhit

end BkkApi.Server.Spellings
