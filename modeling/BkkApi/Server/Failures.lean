import BkkApi.Server.Provenance

/-!
# Failures stay out

A fetch that does not succeed leaves no trace in the cache and no arrivals in
the response.  The source says so in a comment (`no failed fetch entry gets into
the cache`); here it follows from the order of the steps of a call: what it
writes is behind the check of its status, and a call that has written never ends
with another status than `Ok`.
-/

namespace BkkApi.Server.Failures

open BkkApi.Verified.CData
open BkkApi.Server.Protocol
open BkkApi.Server.ResponseParser
open BkkApi.Server.Cache
open BkkApi.Server.Fetching (Fetches Call sampleParse sampleConfig)
open BkkApi.Server.HandleClient
open BkkApi.Server.Transcript
open BkkApi.Server.Provenance
open BkkApi.Server.Serving

variable {cJsonParse : Bytes → Option CJson} {config : SoundConfig} {n : Nat}
  {s t : UdsServer n}

/-! ## The cache -/

theorem extends_of_leadsTo {guard : UdsServer n → Action n → Prop}
    (hlead : (machine cJsonParse n config).LeadsTo guard s t) :
    Extends s.fetches t.fetches := by
  induction hlead with
  | refl => exact fun k call hcall => ⟨call, hcall, .refl call⟩
  | step _ _ hstep ih =>
      intro k call hcall
      obtain ⟨call', hcall', hfollows⟩ := ih k call hcall
      obtain ⟨call'', hcall'', hfollows'⟩ :=
        extends_of_step hstep k call' hcall'
      exact ⟨call'', hcall'', hfollows.trans hfollows'⟩

/-- A step of a call that changes the cache leaves the call with an entry
written. -/
theorem cache_eq_or_published {k : Nat} {upstream : Fetching.Upstream}
    (hstep : step cJsonParse s (.fetch (.advance k upstream)) = some t) :
    t.fetches.cache = s.fetches.cache ∨
      ∃ call entry, t.fetches.calls[k]? = some call ∧
        call.pc.published? = some entry := by
  cases step_cases hstep with
  | fetch hown hfetch =>
      obtain ⟨call, hcall, hadvance⟩ := Option.bind_eq_some_iff.1 hfetch
      have hself := Fetching.getElem?_setPc_self hcall
      cases Fetching.advance_cases hadvance with
      | init hpc | transfer hpc | stamp hpc => exact .inl rfl
      | write hpc | sweep hpc => exact .inr ⟨_, _, hself _, rfl⟩

/-- A call that ends with a failure has not changed the cache by any of its
steps. -/
theorem cache_eq_of_failure {guard : UdsServer n → Action n → Prop}
    {k : Nat} {upstream : Fetching.Upstream} {u : UdsServer n} {call : Call}
    {status : BkkApiStatus}
    (hstep : step cJsonParse s (.fetch (.advance k upstream)) = some t)
    (hlead : (machine cJsonParse n config).LeadsTo guard t u)
    (hcall : u.fetches.calls[k]? = some call)
    (hstatus : call.pc.status? = some status) (hne : status ≠ .ok) :
    t.fetches.cache = s.fetches.cache := by
  rcases cache_eq_or_published hstep with hsame |
    ⟨before, entry, hbefore, hpublished⟩
  · exact hsame
  · obtain ⟨call', hcall', hfollows⟩ := extends_of_leadsTo hlead k before hbefore
    cases Option.some.inj (hcall.symm.trans hcall')
    have hkept := hfollows.published entry hpublished
    cases hpc : call.pc with
    | returned e =>
        rw [hpc] at hstatus
        exact absurd (Option.some.inj hstatus).symm hne
    | failed st => rw [hpc] at hkept; cases hkept
    | entered | transferring | fetched a | stamped e | written e =>
        rw [hpc] at hstatus
        cases hstatus

/-- Only steps of calls change the cache. -/
theorem cache_eq_of_other {a : Action n} (hstep : step cJsonParse s a = some t)
    (hother : ∀ k upstream, a ≠ .fetch (.advance k upstream)) :
    t.fetches.cache = s.fetches.cache := by
  cases step_cases hstep with
  | accept hen | pool hown hen => rfl
  | @fetch b fetches hown hfetch =>
      rcases Fetching.step_cases hfetch with ⟨later, rfl, -, rfl⟩ |
        ⟨request, rfl, rfl⟩ | ⟨k, upstream, call, rfl, -⟩
      · rfl
      · rfl
      · exact absurd rfl (hother k upstream)
  | handle hworker hhandles =>
      rcases hhandles.fetches_cases with rfl | ⟨request, rfl⟩
      · rfl
      · rfl

/-! ## The responses -/

theorem wellShaped_of_replying (h : (machine cJsonParse n config).Reachable s)
    {i : Fin n} {handler : Handler} {apiStatus : BkkApiStatus}
    {arrivals : List Arrival} (hworker : s.pool.workers i = .handling handler)
    (hpc : handler.pc = .replying apiStatus arrivals) :
    WellShaped (buildResponse apiStatus arrivals) := by
  have hfits := (recorded_of_reachable h).handled i handler hworker
  rw [hpc] at hfits
  generalize s.journal handler.conn = events at hfits
  cases hfits with
  | replying hreq hreply =>
      exact wellShaped_buildResponse
        (result_of_reply (fetches_reachable h) hreply)

theorem wellShaped_of_sent (h : (machine cJsonParse n config).Reachable s)
    {conn : Conn} {response : BkkUdsResponse}
    (hsent : .sent response ∈ s.journal conn) : WellShaped response := by
  obtain ⟨pc, hfits⟩ := fits_of_reachable h conn
  obtain ⟨packet, request, before, apiStatus, arrivals, -, hreply, -, rfl⟩ :=
    reply_of_sent hfits hsent
  exact wellShaped_buildResponse (result_of_reply (fetches_reachable h) hreply)

/-- **Failures stay out of the cache and of the responses.**  In every reachable
state:

* no step of a call that at any later point has ended with another status than
  `Ok` changes the cache, and neither does any step that is not a call's;
* every entry of the cache has arrivals;
* every response built, and every response sent, is well shaped. -/
theorem failures_stay_out (h : (machine cJsonParse n config).Reachable s) :
    (∀ t u k upstream call status,
        step cJsonParse s (.fetch (.advance k upstream)) = some t →
        (machine cJsonParse n config).LeadsTo (fun _ _ => True) t u →
        u.fetches.calls[k]? = some call →
        call.pc.status? = some status → status ≠ .ok →
        t.fetches.cache = s.fetches.cache) ∧
      (∀ a t, step cJsonParse s a = some t →
        (∀ k upstream, a ≠ .fetch (.advance k upstream)) →
        t.fetches.cache = s.fetches.cache) ∧
      (∀ stopId entry, s.fetches.cache.cache.lookup stopId = some entry →
        entry.arrivals ≠ []) ∧
      (∀ i handler apiStatus arrivals,
        s.pool.workers i = .handling handler →
        handler.pc = .replying apiStatus arrivals →
        WellShaped (buildResponse apiStatus arrivals)) ∧
      ∀ conn response, .sent response ∈ s.journal conn →
        WellShaped response := by
  refine ⟨?_, ?_, ?_, ?_, ?_⟩
  · intro t u k upstream call status hstep hlead hcall hstatus hne
    exact cache_eq_of_failure hstep hlead hcall hstatus hne
  · intro a t hstep hother
    exact cache_eq_of_other hstep hother
  · intro stopId entry hlookup
    obtain ⟨k, call, -, -, -, timeinfo, curl, hfetched⟩ :=
      Fetching.fetched_of_lookup (fetches_reachable h) hlookup
    exact (Api.servable_of_ok hfetched).nonempty
  · intro i handler apiStatus arrivals hworker hpc
    exact wellShaped_of_replying h hworker hpc
  · intro conn response hsent
    exact wellShaped_of_sent h hsent

/-- The response of the sample conversation. -/
theorem failures_stay_out_sample :
    ∃ (s : UdsServer 1) (response : BkkUdsResponse),
      (machine sampleParse 1 sampleConfig).Reachable s ∧
        .sent response ∈ s.journal 0 ∧ WellShaped response := by
  obtain ⟨s, response, hreach, hsent, -⟩ := sample_answered
  exact ⟨s, response, hreach, hsent,
    (failures_stay_out hreach).2.2.2.2 0 response hsent⟩

end BkkApi.Server.Failures
