import BkkApi.Server.Api
import BkkApi.Server.Cache
import BkkApi.Verified.Run

/-!
# Concurrent fetches into one cache

Any number of calls of `fresh_fetch_and_update_cache`, by workers and by
detached refresh threads, share the cache.  The machine interleaves their
steps: the transfer, the reading of the clock for the timestamp, and the two
critical sections of `put_element` are steps of their own, and time passes
between any two of them.

`Advance` lists what a step of a call can do.  Two invariants follow from it:
what a call holds is what `get_arrivals_for_station` gave it (`Genuine`), and
what the cache holds has been put there by a call for the same stop id
(`Sourced`).
-/

namespace BkkApi.Server.Fetching

open BkkApi.Verified.CData
open BkkApi.Verified.Run
open BkkApi.Server.Protocol
open BkkApi.Server.ResponseParser
open BkkApi.Server.Api
open BkkApi.Server.Cache

/-! ## Calls -/

/-- Where a call of `fresh_fetch_and_update_cache` is. -/
inductive Pc
  /-- Before `curl_easy_init`. -/
  | entered
  /-- From `curl_easy_init` to `curl_easy_cleanup`. -/
  | transferring
  /-- The fetch has returned `Ok` with these arrivals. -/
  | fetched (arrivals : List Arrival)
  /-- `steady_clock::now()` has been read into the new entry. -/
  | stamped (entry : CacheEntry)
  /-- `put_element` has written the entry. -/
  | written (entry : CacheEntry)
  /-- Has swept the cache and returned `Ok`. -/
  | returned (entry : CacheEntry)
  /-- Has returned the status of a failed fetch. -/
  | failed (status : BkkApiStatus)
  deriving DecidableEq

/-- The arrivals of a call whose fetch has returned `Ok`. -/
def Pc.arrivals? : Pc → Option (List Arrival)
  | .fetched arrivals => some arrivals
  | .stamped entry | .written entry | .returned entry => some entry.arrivals
  | _ => none

/-- The entry that a call has written to the cache. -/
def Pc.published? : Pc → Option CacheEntry
  | .written entry | .returned entry => some entry
  | _ => none

theorem Pc.arrivals_of_published {pc : Pc} {entry : CacheEntry}
    (h : pc.published? = some entry) : pc.arrivals? = some entry.arrivals := by
  cases pc with
  | written e | returned e => cases h; rfl
  | entered | transferring | fetched a | stamped e | failed status => cases h

/-- The status that a call has ended with. -/
def Pc.status? : Pc → Option BkkApiStatus
  | .returned _ => some .ok
  | .failed status => some status
  | _ => none

/-- A call of `fresh_fetch_and_update_cache` with its two local strings. -/
structure Call where
  stopId : Bytes
  apiKey : Bytes
  pc : Pc
  deriving DecidableEq

/-- A call that has just been entered with a request. -/
def Call.enter (request : RequestInMemory) : Call where
  stopId := request.stopId
  apiKey := request.apiKey
  pc := .entered

/-- What the outside world contributes to one step of a call. -/
structure Upstream where
  curlReady : Bool
  perform : Bytes → Transfer
  timeinfo : Nat → Int → Option Tm

/-- `make_request` up to the end of `curl_easy_init`. -/
def Call.afterInit (call : Call) (upstream : Upstream) : Pc :=
  if call.apiKey = [] then .failed .missingApiKey
  else if upstream.curlReady then .transferring
  else .failed .curlInitFailed

/-- The rest of `get_arrivals_for_station`, and the check of its status. -/
def Call.afterTransfer (cJsonParse : Bytes → Option CJson) (call : Call)
    (upstream : Upstream) : Pc :=
  let (fetchStatus, freshArrivals) :=
    getArrivalsForStation cJsonParse upstream.timeinfo call.stopId call.apiKey
      (some upstream.perform)
  if fetchStatus ≠ .ok then .failed fetchStatus else .fetched freshArrivals

/-! ## The machine -/

/-- The clock, the cache, and every call so far. -/
structure Fetches where
  now : TimePoint
  cache : UdsCache
  calls : List Call

inductive Action
  | tick (later : TimePoint)
  | call (request : RequestInMemory)
  /-- The next step of call `k`. -/
  | advance (k : Nat) (upstream : Upstream)

/-- Call `k`, which is `call`, goes on to `pc`. -/
def setPc (s : Fetches) (k : Nat) (call : Call) (pc : Pc) : Fetches :=
  { s with calls := s.calls.set k { call with pc := pc } }

section Machine

variable (cJsonParse : Bytes → Option CJson)

/-- The next step of `call`, which is call `k`. -/
def advance (s : Fetches) (k : Nat) (call : Call) (upstream : Upstream) :
    Option Fetches :=
  match call.pc with
  | .entered => some (setPc s k call (call.afterInit upstream))
  | .transferring =>
      some (setPc s k call (call.afterTransfer cJsonParse upstream))
  | .fetched arrivals =>
      some (setPc s k call
        (.stamped { arrivals := arrivals, timestamp := s.now }))
  | .stamped entry =>
      some { setPc s k call (.written entry) with
        cache := s.cache.write call.stopId entry }
  | .written entry =>
      some { setPc s k call (.returned entry) with
        cache := s.cache.removeStaleEntries s.now }
  | .returned _ | .failed _ => none

/-- One step. -/
def step (s : Fetches) : Action → Option Fetches
  | .tick later =>
      if s.now.count ≤ later.count then some { s with now := later } else none
  | .call request => some { s with calls := s.calls ++ [Call.enter request] }
  | .advance k upstream =>
      (s.calls[k]?).bind fun call => advance cJsonParse s k call upstream

/-- All interleavings of calls over a cache of the given configuration. -/
def machine (config : SoundConfig) : Machine Fetches Action where
  init s := s.cache = UdsCache.new (some config.toCacheConfig) ∧ s.calls = []
  step := step cJsonParse

/-! ## What one step does -/

/-- What the next step of call `k` can be. -/
inductive Advance (s : Fetches) (k : Nat) (call : Call) (upstream : Upstream) :
    Fetches → Prop
  | init (hpc : call.pc = .entered) :
      Advance s k call upstream (setPc s k call (call.afterInit upstream))
  | transfer (hpc : call.pc = .transferring) :
      Advance s k call upstream
        (setPc s k call (call.afterTransfer cJsonParse upstream))
  | stamp {arrivals : List Arrival} (hpc : call.pc = .fetched arrivals) :
      Advance s k call upstream (setPc s k call
        (.stamped { arrivals := arrivals, timestamp := s.now }))
  | write {entry : CacheEntry} (hpc : call.pc = .stamped entry) :
      Advance s k call upstream
        { setPc s k call (.written entry) with
          cache := s.cache.write call.stopId entry }
  | sweep {entry : CacheEntry} (hpc : call.pc = .written entry) :
      Advance s k call upstream
        { setPc s k call (.returned entry) with
          cache := s.cache.removeStaleEntries s.now }

variable {cJsonParse} {s t : Fetches}

theorem advance_cases {k : Nat} {call : Call} {upstream : Upstream}
    (h : advance cJsonParse s k call upstream = some t) :
    Advance cJsonParse s k call upstream t := by
  unfold advance at h
  cases hpc : call.pc with
  | entered => simp only [hpc, Option.some.injEq] at h; exact h ▸ .init hpc
  | transferring =>
      simp only [hpc, Option.some.injEq] at h
      exact h ▸ .transfer hpc
  | fetched arrivals =>
      simp only [hpc, Option.some.injEq] at h
      exact h ▸ .stamp hpc
  | stamped entry =>
      simp only [hpc, Option.some.injEq] at h
      exact h ▸ .write hpc
  | written entry =>
      simp only [hpc, Option.some.injEq] at h
      exact h ▸ .sweep hpc
  | returned entry | failed status => simp [hpc] at h

/-- What one step can be. -/
theorem step_cases {a : Action} (h : step cJsonParse s a = some t) :
    (∃ later, a = .tick later ∧ s.now.count ≤ later.count ∧
        t = { s with now := later }) ∨
      (∃ request, a = .call request ∧
        t = { s with calls := s.calls ++ [Call.enter request] }) ∨
      ∃ k upstream call, a = .advance k upstream ∧ s.calls[k]? = some call ∧
        Advance cJsonParse s k call upstream t := by
  cases a with
  | tick later =>
      simp only [step] at h
      split at h
      · rename_i hle
        exact .inl ⟨later, rfl, hle, (Option.some.inj h).symm⟩
      · cases h
  | call request => exact .inr (.inl ⟨request, rfl, (Option.some.inj h).symm⟩)
  | advance k upstream =>
      obtain ⟨call, hcall, hadvance⟩ := Option.bind_eq_some_iff.1 h
      exact .inr (.inr ⟨k, upstream, call, rfl, hcall, advance_cases hadvance⟩)

/-- The calls after call `k` has moved. -/
theorem getElem?_setPc {k : Nat} {call : Call} (hcall : s.calls[k]? = some call)
    (pc : Pc) (j : Nat) :
    (setPc s k call pc).calls[j]? =
      if j = k then some { call with pc := pc } else s.calls[j]? := by
  have hlt : k < s.calls.length := (List.getElem?_eq_some_iff.1 hcall).1
  simp only [setPc, List.getElem?_set]
  by_cases hjk : j = k
  · subst hjk
    rw [if_pos rfl, if_pos hlt, if_pos rfl]
  · rw [if_neg (Ne.symm hjk), if_neg hjk]

theorem getElem?_setPc_self {k : Nat} {call : Call}
    (hcall : s.calls[k]? = some call) (pc : Pc) :
    (setPc s k call pc).calls[k]? = some { call with pc := pc } :=
  (getElem?_setPc hcall pc k).trans (if_pos rfl)

/-- A call that has moved on: what it has published or returned stays. -/
structure Follows (call call' : Call) : Prop where
  stopId : call'.stopId = call.stopId
  apiKey : call'.apiKey = call.apiKey
  published : ∀ entry, call.pc.published? = some entry →
    call'.pc.published? = some entry
  arrivals : ∀ arrivals, call.pc.arrivals? = some arrivals →
    call'.pc.arrivals? = some arrivals
  returned : ∀ entry, call.pc = .returned entry → call'.pc = .returned entry
  failed : ∀ status, call.pc = .failed status → call'.pc = .failed status

theorem Follows.refl (call : Call) : Follows call call :=
  ⟨rfl, rfl, fun _ h => h, fun _ h => h, fun _ h => h, fun _ h => h⟩

theorem Follows.trans {first second third : Call} (h : Follows first second)
    (h' : Follows second third) : Follows first third where
  stopId := h'.stopId.trans h.stopId
  apiKey := h'.apiKey.trans h.apiKey
  published entry hentry := h'.published entry (h.published entry hentry)
  arrivals list hlist := h'.arrivals list (h.arrivals list hlist)
  returned entry hentry := h'.returned entry (h.returned entry hentry)
  failed status hstatus := h'.failed status (h.failed status hstatus)

/-- The pc of call `k` after its next step. -/
theorem Advance.setPc {k : Nat} {call : Call} {upstream : Upstream}
    (h : Advance cJsonParse s k call upstream t) :
    ∃ pc, t.calls = (setPc s k call pc).calls ∧
      Follows call { call with pc := pc } := by
  cases h with
  | init hpc | transfer hpc | stamp hpc | write hpc | sweep hpc =>
      refine ⟨_, rfl, rfl, rfl, ?_, ?_, ?_, ?_⟩ <;>
        simp [hpc, Pc.published?, Pc.arrivals?]

/-- A call lives on through any step, and keeps what it has published. -/
theorem step_follows {a : Action} (h : step cJsonParse s a = some t) {j : Nat}
    {call : Call} (hcall : s.calls[j]? = some call) :
    ∃ call', t.calls[j]? = some call' ∧ Follows call call' := by
  rcases step_cases h with ⟨later, rfl, -, rfl⟩ | ⟨request, rfl, rfl⟩ |
    ⟨k, upstream, moved, rfl, hmoved, hadvance⟩
  · exact ⟨call, hcall, .refl call⟩
  · refine ⟨call, ?_, .refl call⟩
    exact List.getElem?_append_left (List.getElem?_eq_some_iff.1 hcall).1 ▸ hcall
  · obtain ⟨pc, hcalls, hfollows⟩ := hadvance.setPc
    rw [hcalls, getElem?_setPc hmoved]
    by_cases hjk : j = k
    · subst hjk
      cases Option.some.inj (hmoved.symm.trans hcall)
      exact ⟨_, if_pos rfl, hfollows⟩
    · exact ⟨call, by rw [if_neg hjk, hcall], .refl call⟩

/-- Where a call comes from: it was there before, or is new, or has moved. -/
theorem call_cases {a : Action} (h : step cJsonParse s a = some t) {j : Nat}
    {call' : Call} (hcall' : t.calls[j]? = some call') :
    s.calls[j]? = some call' ∨
      (∃ request, call' = Call.enter request) ∨
      ∃ upstream call, a = .advance j upstream ∧ s.calls[j]? = some call ∧
        Advance cJsonParse s j call upstream t := by
  rcases step_cases h with ⟨later, rfl, -, rfl⟩ | ⟨request, rfl, rfl⟩ |
    ⟨k, upstream, moved, rfl, hmoved, hadvance⟩
  · exact .inl hcall'
  · by_cases hlt : j < s.calls.length
    · rw [List.getElem?_append_left hlt] at hcall'
      exact .inl hcall'
    · rw [List.getElem?_append_right (Nat.le_of_not_lt hlt)] at hcall'
      have hmem := List.mem_of_getElem? hcall'
      exact .inr (.inl ⟨request, List.mem_singleton.1 hmem⟩)
  · by_cases hjk : j = k
    · subst hjk
      exact .inr (.inr ⟨upstream, moved, rfl, hmoved, hadvance⟩)
    · obtain ⟨pc, hcalls, -⟩ := hadvance.setPc
      rw [hcalls, getElem?_setPc hmoved, if_neg hjk] at hcall'
      exact .inl hcall'

end Machine

/-! ## What a call holds -/

section Holds

variable {cJsonParse : Bytes → Option CJson} {s t : Fetches}

/-- One successful `get_arrivals_for_station` call gave these arrivals. -/
def Fetched (cJsonParse : Bytes → Option CJson) (stopId apiKey : Bytes)
    (arrivals : List Arrival) : Prop :=
  ∃ timeinfo curl,
    getArrivalsForStation cJsonParse timeinfo stopId apiKey curl =
      (.ok, arrivals)

/-- A call holds what `get_arrivals_for_station` gave it. -/
structure Genuine (cJsonParse : Bytes → Option CJson) (call : Call) : Prop where
  fetched : ∀ arrivals, call.pc.arrivals? = some arrivals →
    Fetched cJsonParse call.stopId call.apiKey arrivals
  failed : ∀ status, call.pc = .failed status → status ≠ .ok ∧
    ∃ timeinfo curl, (getArrivalsForStation cJsonParse timeinfo call.stopId
      call.apiKey curl).1 = status

theorem genuine_enter (request : RequestInMemory) :
    Genuine cJsonParse (Call.enter request) := by
  constructor <;> intro _ h <;> cases h

theorem genuine_afterInit (call : Call) (upstream : Upstream) :
    Genuine cJsonParse { call with pc := call.afterInit upstream } := by
  unfold Call.afterInit
  by_cases hkey : call.apiKey = []
  · rw [if_pos hkey]
    refine { fetched := fun _ h => (by cases h), failed := ?_ }
    rintro _ ⟨⟩
    refine ⟨by decide, upstream.timeinfo, none, ?_⟩
    show (getArrivalsForStation _ _ _ call.apiKey _).1 = _
    rw [hkey, getArrivalsForStation_of_no_key]
  · rw [if_neg hkey]
    by_cases hready : upstream.curlReady = true
    · rw [if_pos hready]
      constructor <;> intro _ h <;> cases h
    · rw [if_neg hready]
      refine { fetched := fun _ h => (by cases h), failed := ?_ }
      rintro _ ⟨⟩
      refine ⟨by decide, upstream.timeinfo, none, ?_⟩
      rw [getArrivalsForStation_of_no_curl _ _ hkey]

theorem genuine_afterTransfer (call : Call) (upstream : Upstream) :
    Genuine cJsonParse
      { call with pc := call.afterTransfer cJsonParse upstream } := by
  unfold Call.afterTransfer
  cases hfetch : getArrivalsForStation cJsonParse upstream.timeinfo call.stopId
      call.apiKey (some upstream.perform) with
  | mk fetchStatus freshArrivals =>
      by_cases hok : fetchStatus = .ok
      · subst hok
        refine { fetched := ?_, failed := fun _ h => by cases h }
        rintro _ ⟨⟩
        exact ⟨_, _, hfetch⟩
      · simp only [if_pos hok]
        refine { fetched := fun _ h => (by cases h), failed := ?_ }
        rintro _ ⟨⟩
        exact ⟨hok, _, _, congrArg Prod.fst hfetch⟩

/-- A step of a call leaves it with what the fetch gave. -/
theorem Genuine.advance {k : Nat} {call call' : Call} {upstream : Upstream}
    (h : Genuine cJsonParse call) (hcall : s.calls[k]? = some call)
    (hadvance : Advance cJsonParse s k call upstream t)
    (hcall' : t.calls[k]? = some call') : Genuine cJsonParse call' := by
  have hself := getElem?_setPc_self hcall
  cases hadvance with
  | init hpc =>
      cases Option.some.inj ((hself _).symm.trans hcall')
      exact genuine_afterInit call upstream
  | transfer hpc =>
      cases Option.some.inj ((hself _).symm.trans hcall')
      exact genuine_afterTransfer call upstream
  | stamp hpc | write hpc | sweep hpc =>
      -- the arrivals are handed on as they are
      cases Option.some.inj ((hself _).symm.trans hcall')
      refine { fetched := ?_, failed := fun _ h => by cases h }
      rintro _ ⟨⟩
      exact h.fetched _ (by rw [hpc]; rfl)

/-! ## What the cache holds -/

/-- Every entry of the cache was put there by a call for its stop id. -/
def Sourced (s : Fetches) : Prop :=
  ∀ stopId entry, s.cache.cache.lookup stopId = some entry →
    ∃ (k : Nat) (call : Call), s.calls[k]? = some call ∧ call.stopId = stopId ∧
      call.pc.published? = some entry

/-- What a step does to the cache: a write by a call of that stop id, or at most
an eviction. -/
theorem lookup_cases {a : Action} (h : step cJsonParse s a = some t)
    {stopId : Bytes} {entry : CacheEntry}
    (hlookup : t.cache.cache.lookup stopId = some entry) :
    s.cache.cache.lookup stopId = some entry ∨
      ∃ k upstream call, a = .advance k upstream ∧
        s.calls[k]? = some call ∧ call.stopId = stopId ∧
        call.pc = .stamped entry ∧
        t.calls[k]? = some { call with pc := .written entry } := by
  rcases step_cases h with ⟨later, rfl, -, rfl⟩ | ⟨request, rfl, rfl⟩ |
    ⟨k, upstream, call, rfl, hcall, hadvance⟩
  · exact .inl hlookup
  · exact .inl hlookup
  · cases hadvance with
    | init hpc | transfer hpc | stamp hpc => exact .inl hlookup
    | write hpc =>
        rw [UdsCache.lookup_write] at hlookup
        by_cases heq : stopId = call.stopId
        · rw [if_pos heq] at hlookup
          cases hlookup
          refine .inr ⟨k, upstream, call, rfl, hcall, heq.symm, hpc, ?_⟩
          exact getElem?_setPc_self hcall _
        · rw [if_neg heq] at hlookup
          exact .inl hlookup
    | sweep hpc =>
        exact .inl (UdsCache.lookup_removeStaleEntries_eq_some hlookup)

theorem Sourced.step {a : Action} (h : Sourced s)
    (hstep : step cJsonParse s a = some t) : Sourced t := by
  intro stopId entry hlookup
  rcases lookup_cases hstep hlookup with hold |
    ⟨k, upstream, call, rfl, -, hstop, -, hcall'⟩
  · obtain ⟨k, call, hcall, hstop, hpublished⟩ := h stopId entry hold
    obtain ⟨call', hcall', hfollows⟩ := step_follows hstep hcall
    exact ⟨k, call', hcall', hfollows.stopId.trans hstop,
      hfollows.published _ hpublished⟩
  · exact ⟨k, _, hcall', hstop, rfl⟩

/-- The bounds of the cache are those it was configured with. -/
structure Configured (config : SoundConfig) (c : UdsCache) : Prop where
  freshness : c.cacheFreshnessSeconds = config.freshnessSeconds
  staleness : c.cacheStalenessSeconds = config.stalenessSeconds

theorem Configured.sound {config : SoundConfig} {c : UdsCache}
    (h : Configured config c) : c.Sound where
  freshness_pos := h.freshness ▸ config.freshness_pos
  freshness_le_staleness :=
    h.freshness ▸ h.staleness ▸ config.freshness_le_staleness
  staleness_le := h.staleness ▸ config.staleness_le

theorem Configured.step {config : SoundConfig} {a : Action}
    (h : Configured config s.cache) (hstep : step cJsonParse s a = some t) :
    Configured config t.cache := by
  rcases step_cases hstep with ⟨later, rfl, -, rfl⟩ | ⟨request, rfl, rfl⟩ |
    ⟨k, upstream, call, rfl, -, hadvance⟩
  · exact h
  · exact h
  · cases hadvance with
    | init hpc | transfer hpc | stamp hpc => exact h
    | write hpc | sweep hpc => exact ⟨h.freshness, h.staleness⟩

/-- Invisible to a stop id: nothing that a lookup for it can see changes, now or
at any later reading of the clock. -/
def InvisibleTo (stopId : Bytes) (s t : Fetches) : Prop :=
  ∀ later : TimePoint, s.now.count ≤ later.count →
    t.cache.getElement stopId later = s.cache.getElement stopId later

/-- A step of a call is invisible unless it writes the entry of the stop id: its
sweep evicts only what a lookup would refuse anyway. -/
theorem invisibleTo_of_advance {config : SoundConfig} {k : Nat}
    {upstream : Upstream} {call : Call} (hconfig : Configured config s.cache)
    (hadvance : Advance cJsonParse s k call upstream t) {stopId : Bytes}
    (hother : ∀ entry, call.pc = .stamped entry → stopId ≠ call.stopId) :
    InvisibleTo stopId s t := by
  intro later hle
  cases hadvance with
  | init hpc | transfer hpc | stamp hpc => rfl
  | write hpc =>
      show (s.cache.write call.stopId _).getElement stopId later = _
      unfold UdsCache.getElement
      rw [UdsCache.lookup_write_ne s.cache _ (hother _ hpc)]
      rfl
  | sweep hpc =>
      show (s.cache.removeStaleEntries s.now).getElement stopId later = _
      unfold UdsCache.getElement
      rw [UdsCache.lookup_removeStaleEntries]
      cases hlookup : s.cache.cache.lookup stopId with
      | none => rfl
      | some entry =>
          by_cases hserv : s.cache.isServable s.now entry = true
          · rw [Option.filter_some, if_pos hserv]
            rfl
          · rw [Option.filter_some, if_neg hserv]
            have hlater := hconfig.sound.not_isServable_mono hle
              (Bool.not_eq_true _ ▸ hserv)
            have hfresh : ¬ s.cache.isFresh later entry = true := by
              intro hfresh
              rw [hconfig.sound.isServable_of_isFresh hfresh] at hlater
              cases hlater
            simp only [if_neg hfresh, hlater, Bool.false_eq_true, if_false]

/-- A step of a call for another stop id is invisible: its write is elsewhere. -/
theorem invisibleTo_of_ne {config : SoundConfig} {k : Nat} {upstream : Upstream}
    {call : Call} (hconfig : Configured config s.cache)
    (hadvance : Advance cJsonParse s k call upstream t) {stopId : Bytes}
    (hne : stopId ≠ call.stopId) : InvisibleTo stopId s t :=
  invisibleTo_of_advance hconfig hadvance fun _ _ => hne

end Holds

/-! ## Runs -/

section Runs

variable {cJsonParse : Bytes → Option CJson} {config : SoundConfig}
  {guard : Fetches → Action → Prop} {s : Fetches}

theorem genuine_of_reachable
    (h : (machine cJsonParse config).ReachableIf guard s) :
    ∀ (k : Nat) (call : Call), s.calls[k]? = some call →
      Genuine cJsonParse call := by
  apply Machine.ReachableIf.invariant (I := fun s =>
    ∀ (k : Nat) (call : Call), s.calls[k]? = some call →
      Genuine cJsonParse call) ?_ ?_ h
  · rintro s ⟨-, hnil⟩ k call hcall
    simp [hnil] at hcall
  · intro s a t _ _ hs hstep k call' hcall'
    rcases call_cases hstep hcall' with hold | ⟨request, rfl⟩ |
      ⟨upstream, call, -, hcall, hadvance⟩
    · exact hs k call' hold
    · exact genuine_enter request
    · exact (hs k call hcall).advance hcall hadvance hcall'

theorem sourced_of_reachable
    (h : (machine cJsonParse config).ReachableIf guard s) : Sourced s := by
  apply Machine.ReachableIf.invariant ?_ ?_ h
  · rintro s ⟨hcache, -⟩ stopId entry hlookup
    rw [hcache] at hlookup
    cases hlookup
  · intro s a t _ _ hs hstep
    exact hs.step hstep

theorem configured_of_reachable
    (h : (machine cJsonParse config).ReachableIf guard s) :
    Configured config s.cache := by
  apply Machine.ReachableIf.invariant (I := fun s =>
    Configured config s.cache) ?_ ?_ h
  · rintro s ⟨hcache, -⟩
    rw [hcache]
    exact ⟨rfl, rfl⟩
  · intro s a t _ _ hs hstep
    exact hs.step hstep

/-- Every entry of the cache holds the arrivals of one successful fetch for its
own stop id. -/
theorem fetched_of_lookup (h : (machine cJsonParse config).ReachableIf guard s)
    {stopId : Bytes} {entry : CacheEntry}
    (hlookup : s.cache.cache.lookup stopId = some entry) :
    ∃ (k : Nat) (call : Call), s.calls[k]? = some call ∧ call.stopId = stopId ∧
      call.pc.published? = some entry ∧
      Fetched cJsonParse stopId call.apiKey entry.arrivals := by
  obtain ⟨k, call, hcall, hstop, hpublished⟩ :=
    sourced_of_reachable h stopId entry hlookup
  have hgenuine := genuine_of_reachable h k call hcall
  exact ⟨k, call, hcall, hstop, hpublished,
    hstop ▸ hgenuine.fetched _ (Pc.arrivals_of_published hpublished)⟩

end Runs

/-! ## A sample fetch -/

/-- A response with one departure. -/
def sampleBody : Bytes :=
  bytesOf "\x7b\"data\":\x7b\"entry\":\x7b\"stopTimes\":[\x7b\"arrivalTime\":60\x7d]\x7d\x7d\x7d"

/-- A parser that knows one text, and reads it as cJSON does. -/
def sampleParse (text : Bytes) : Option CJson :=
  if text = sampleBody then
    some (.object [(bytesOf "data", .object [(bytesOf "entry", .object
      [(bytesOf "stopTimes", .array
        [.object [(bytesOf "arrivalTime", .number 60)]])])])])
  else none

/-- An upstream that answers with it. -/
def sampleUpstream : Upstream where
  curlReady := true
  perform := fun _ => .replied 200 [sampleBody]
  timeinfo := fun _ _ => some { tmHour := 0, tmMin := 1 }

/-- A request for the stop `F` with the key `k`. -/
def sampleRequest : RequestInMemory where
  request :=
    { stopId := (Vector.replicate _ 0).set 0 70 (by decide)
      apiKey := (Vector.replicate _ 0).set 0 107 (by decide) }
  beyond := []

/-- The configuration without command line options. -/
def sampleConfig : SoundConfig where
  freshnessSeconds := 10
  stalenessSeconds := 20
  maxCacheSize := 100
  freshness_pos := by decide
  freshness_le_staleness := by decide
  staleness_le := by decide

/-- The beginning, with the clock at its epoch. -/
def sampleStart : Fetches where
  now := ⟨0, by decide⟩
  cache := UdsCache.new (some sampleConfig.toCacheConfig)
  calls := []

end BkkApi.Server.Fetching
