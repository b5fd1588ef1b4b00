import BkkApi.Server.Deliveries
import BkkApi.Server.Transcript

/-!
# Where an answer comes from

Every response with status `Ok` carries the first arrivals of one list, and that
list was returned by one successful fetch for the stop id that the connection
asked for.  The fetch is the connection's own when its lookup missed, and
otherwise one whose entry was younger at the lookup than the bound that goes
with the lookup's answer (`SingleSource`).

The course of a connection (`Fits`) already names the call; what is added here
is that a response has a course, and that the call's arrivals are what
`get_arrivals_for_station` returned.
-/

namespace BkkApi.Server.Provenance

open BkkApi.Verified.CData
open BkkApi.Verified.Run
open BkkApi.Server.Protocol
open BkkApi.Server.ResponseParser
open BkkApi.Server.StopTimes (Response arrivesAt arrivalAt)
open BkkApi.Server.Api
open BkkApi.Server.Cache
open BkkApi.Server.Fetching (Fetches Call Fetched InvisibleTo Upstream
  sampleParse sampleConfig)
open BkkApi.Server.Deliveries
open BkkApi.Server.HandleClient
open BkkApi.Server.Transcript
open BkkApi.Server.Workers (ThreadPool)
open BkkApi.Server.Serving

variable {cJsonParse : Bytes → Option CJson} {config : SoundConfig} {n : Nat}
  {fetches : Fetches}

/-! ## From a response to its course -/

/-- A response was built from the result of a course, after it. -/
theorem reply_of_sent {pc : Pc} {events : List Event}
    {response : BkkUdsResponse} (h : Fits config fetches pc events)
    (hsent : .sent response ∈ events) :
    ∃ packet request before apiStatus arrivals,
      acceptRequest packet request.beyond = some request ∧
        Reply config fetches request before apiStatus arrivals ∧
        .received packet :: before <+: events ∧
        response = buildResponse apiStatus arrivals := by
  have hnone : ∀ {request : RequestInMemory} {before : List Event}
      {apiStatus : BkkApiStatus} {arrivals : List Arrival},
      Reply config fetches request before apiStatus arrivals →
        .sent response ∉ before := by
    intro request before apiStatus arrivals hreply
    cases hreply <;> simp
  induction h with
  | receiving | lookingUp hreq | hitStale hreq hsource hage | missed hreq
  | awaiting hreq hcall hstop | rejected hreq => simp at hsent
  | replying hreq hreply =>
      rcases List.mem_cons.1 hsent with heq | hmem
      · cases heq
      · exact absurd hmem (hnone hreply)
  | @answered packet request before apiStatus arrivals delivered hreq hreply =>
      refine ⟨packet, request, before, apiStatus, arrivals, hreq, hreply,
        List.prefix_append _ _, ?_⟩
      rcases List.mem_append.1 hsent with hold | hnew
      · rcases List.mem_cons.1 hold with heq | hmem
        · cases heq
        · exact absurd hmem (hnone hreply)
      · cases delivered with
        | false => cases hnew
        | true => cases List.mem_singleton.1 hnew; rfl
  | closed _ ih =>
      rcases List.mem_append.1 hsent with hold | hnew
      · obtain ⟨packet, request, before, apiStatus, arrivals, hreq, hreply,
          hfront, hbuilt⟩ := ih hold
        exact ⟨packet, request, before, apiStatus, arrivals, hreq, hreply,
          hfront.trans (List.prefix_append _ _), hbuilt⟩
      · cases List.mem_singleton.1 hnew

/-! ## The source of a result -/

/-- A result of the request comes from call `k` alone. -/
structure Source (cJsonParse : Bytes → Option CJson) (config : SoundConfig)
    (fetches : Fetches) (request : RequestInMemory) (events : List Event)
    (arrivals : List Arrival) (k : Nat) (call : Call) : Prop where
  made : fetches.calls[k]? = some call
  same_stop : call.stopId = request.stopId
  holds : call.pc.arrivals? = some arrivals
  succeeded : Fetched cJsonParse request.stopId call.apiKey arrivals
  recent :
    (∃ now, .lookedUp request.stopId now .miss none ∈ events ∧
        .called k ∈ events) ∨
      ∃ now entry, call.pc.published? = some entry ∧
        (.lookedUp request.stopId now .hitFresh (some entry) ∈ events ∧
            age now entry.timestamp < config.freshnessSeconds * 10 ^ 9 ∨
          .lookedUp request.stopId now .hitStale (some entry) ∈ events ∧
            age now entry.timestamp < config.stalenessSeconds * 10 ^ 9)

theorem Source.mono {request : RequestInMemory} {events events' : List Event}
    {arrivals : List Arrival} {k : Nat} {call : Call}
    (h : Source cJsonParse config fetches request events arrivals k call)
    (hsub : events ⊆ events') :
    Source cJsonParse config fetches request events' arrivals k call := by
  refine { h with recent := ?_ }
  rcases h.recent with ⟨now, hmiss, hcalled⟩ |
    ⟨now, entry, hpublished, ⟨hlook, hage⟩ | ⟨hlook, hage⟩⟩
  · exact .inl ⟨now, hsub hmiss, hsub hcalled⟩
  · exact .inr ⟨now, entry, hpublished, .inl ⟨hsub hlook, hage⟩⟩
  · exact .inr ⟨now, entry, hpublished, .inr ⟨hsub hlook, hage⟩⟩

theorem source_of_reply {guard : Fetches → Fetching.Action → Prop}
    (hreach : (Fetching.machine cJsonParse config).ReachableIf guard fetches)
    {request : RequestInMemory} {events : List Event}
    {apiStatus : BkkApiStatus} {arrivals : List Arrival}
    (h : Reply config fetches request events apiStatus arrivals) :
    (∃ k call,
        Source cJsonParse config fetches request events arrivals k call) ∧
        apiStatus = .ok ∨
      apiStatus ≠ .ok ∧ arrivals = [] := by
  have hgenuine := Fetching.genuine_of_reachable hreach
  cases h with
  | @fresh now entry hsource hage =>
      obtain ⟨k, call, hcall, hstop, hpublished⟩ := hsource
      have hholds := Fetching.Pc.arrivals_of_published hpublished
      exact .inl ⟨⟨k, call, hcall, hstop, hholds,
        hstop ▸ (hgenuine k call hcall).fetched _ hholds,
        .inr ⟨now, entry, hpublished, .inl ⟨List.mem_cons_self, hage⟩⟩⟩, rfl⟩
  | @stale now entry j hsource hage =>
      obtain ⟨k, call, hcall, hstop, hpublished⟩ := hsource
      have hholds := Fetching.Pc.arrivals_of_published hpublished
      exact .inl ⟨⟨k, call, hcall, hstop, hholds,
        hstop ▸ (hgenuine k call hcall).fetched _ hholds,
        .inr ⟨now, entry, hpublished, .inr ⟨List.mem_cons_self, hage⟩⟩⟩, rfl⟩
  | @own now k call entry hcall hstop hpc =>
      have hholds : call.pc.arrivals? = some entry.arrivals := by
        rw [hpc]
        rfl
      exact .inl ⟨⟨k, call, hcall, hstop, hholds,
        hstop ▸ (hgenuine k call hcall).fetched _ hholds,
        .inl ⟨now, by simp, by simp⟩⟩, rfl⟩
  | @failed now k call status hcall hstop hpc =>
      exact .inr ⟨((hgenuine k call hcall).failed _ hpc).1, rfl⟩

/-- The result of a course is arrivals that may be served, or a failure. -/
theorem result_of_reply {guard : Fetches → Fetching.Action → Prop}
    (hreach : (Fetching.machine cJsonParse config).ReachableIf guard fetches)
    {request : RequestInMemory} {events : List Event}
    {apiStatus : BkkApiStatus} {arrivals : List Arrival}
    (h : Reply config fetches request events apiStatus arrivals) :
    Result apiStatus arrivals := by
  rcases source_of_reply hreach h with ⟨⟨k, call, hsource⟩, hok⟩ | hfailed
  · obtain ⟨timeinfo, curl, hfetched⟩ := hsource.succeeded
    exact .inl ⟨hok, Api.servable_of_ok hfetched⟩
  · exact .inr hfailed

/-! ## Every answer -/

/-- A response with status `Ok` carries the arrivals of one call, which is for the
stop id in the request of its connection. -/
theorem source_of_sent {s : UdsServer n}
    (h : (machine cJsonParse n config).Reachable s) {conn : Conn}
    {response : BkkUdsResponse} (hsent : .sent response ∈ s.journal conn)
    (hok : response.status = .ok) :
    ∃ packet request arrivals k call,
      .received packet ∈ s.journal conn ∧
        acceptRequest packet request.beyond = some request ∧
        Source cJsonParse config s.fetches request (s.journal conn) arrivals k
          call ∧
        Carries response arrivals := by
  obtain ⟨pc, hfits⟩ := fits_of_reachable h conn
  obtain ⟨packet, request, before, apiStatus, arrivals, hreq, hreply,
    hfront, rfl⟩ := reply_of_sent hfits hsent
  have hsub : before ⊆ s.journal conn := fun e he =>
    hfront.subset (List.mem_cons_of_mem _ he)
  rcases source_of_reply (fetches_reachable h) hreply with
    ⟨⟨k, call, hsource⟩, rfl⟩ | hfail
  · obtain ⟨timeinfo, curl, hfetched⟩ := hsource.succeeded
    exact ⟨packet, request, arrivals, k, call,
      hfront.subset List.mem_cons_self, hreq, hsource.mono hsub,
      carries_buildResponse (Api.servable_of_ok hfetched) .ok⟩
  · exact absurd hok hfail.1

/-- The arrivals of a call are what it makes of the upstream's answer to it; with
any readings of the buffer of `std::localtime` it would have made the same of
it, but for departure times. -/
structure MadeOf (cJsonParse : Bytes → Option CJson) (call : Call)
    (upstream : Upstream) (arrivals : List Arrival) : Prop where
  fetched : getArrivalsForStation cJsonParse upstream.timeinfo call.stopId
    call.apiKey (some upstream.perform) = (.ok, arrivals)
  alone : ∀ timeinfo, ∃ arrivals',
    getArrivalsForStation cJsonParse timeinfo call.stopId call.apiKey
      (some upstream.perform) = (.ok, arrivals') ∧
    List.Forall₂ SameButDepartureTime arrivals arrivals'

/-- **Provenance.**  In every run, a response with status `Ok` on a connection
carries, in order, the first arrivals of the list of one successful fetch for the
stop id in that connection's request.  But for departure times, that list is
settled by the stop id, the key and what the upstream has answered to this
fetch; and no step of a call for one stop id changes what a lookup of another
stop id finds, then or later. -/
theorem answer_has_single_source {s₀ s : UdsServer n}
    {l : List (Nat × Upstream)}
    (hinit : (machine cJsonParse n config).init s₀)
    (hrun : (machine cJsonParse n config).Emits serverDelivered s₀ l s) :
    (∀ conn response, .sent response ∈ s.journal conn →
        response.status = .ok →
        ∃ packet request arrivals k call upstream,
          .received packet ∈ s.journal conn ∧
            acceptRequest packet request.beyond = some request ∧
            Source cJsonParse config s.fetches request (s.journal conn)
              arrivals k call ∧
            Carries response arrivals ∧
            (k, upstream) ∈ l ∧ MadeOf cJsonParse call upstream arrivals) ∧
      ∀ t k upstream call stopId,
        step cJsonParse s (.fetch (.advance k upstream)) = some t →
        s.fetches.calls[k]? = some call → stopId ≠ call.stopId →
        InvisibleTo stopId s.fetches t.fetches := by
  have h := hrun.reachable hinit
  refine ⟨?_, ?_⟩
  · intro conn response hsent hok
    obtain ⟨packet, request, arrivals, k, call, hreceived, hreq, hsource,
      hcarries⟩ := source_of_sent h hsent hok
    obtain ⟨upstream, hmem, hfetched⟩ :=
      delivered_of_server hinit hrun k call arrivals hsource.made hsource.holds
    exact ⟨packet, request, arrivals, k, call, upstream, hreceived, hreq,
      hsource, hcarries, hmem, hfetched,
      fun timeinfo => fetch_readings cJsonParse _ timeinfo hfetched⟩
  · intro t k upstream call stopId hstep hcall hne
    cases step_cases hstep with
    | fetch hown hfetch =>
        obtain ⟨call', hcall', hadvance⟩ := Option.bind_eq_some_iff.1 hfetch
        cases Option.some.inj (hcall.symm.trans hcall')
        exact Fetching.invisibleTo_of_ne
          (Fetching.configured_of_reachable (fetches_reachable h))
          (Fetching.advance_cases hadvance) hne

/-- The answer of the sample conversation. -/
theorem answer_has_single_source_sample :
    ∃ (s : UdsServer 1) (l : List (Nat × Upstream)) (response : BkkUdsResponse)
      (request : RequestInMemory) (arrivals : List Arrival) (k : Nat)
      (call : Call) (upstream : Upstream),
      (machine sampleParse 1 sampleConfig).Emits serverDelivered sampleServer l
          s ∧
        .sent response ∈ s.journal 0 ∧
        Source sampleParse sampleConfig s.fetches request (s.journal 0)
          arrivals k call ∧
        Carries response arrivals ∧
        (k, upstream) ∈ l ∧ MadeOf sampleParse call upstream arrivals := by
  obtain ⟨l, s, hrun, hs⟩ := Machine.exists_emits_of_emit serverDelivered
    (M := machine sampleParse 1 sampleConfig) (s := sampleServer)
    (l := sampleDequeue ++ sampleFetch ++
      List.replicate 2 (.handle 0 sampleEnvironment))
    (p := fun result => (result.2.journal 0).any fun
      | .sent response => decide (response.status = .ok)
      | _ => false)
    (by decide +kernel)
  obtain ⟨event, hsent, hevent⟩ := List.any_eq_true.1 hs
  cases event with
  | sent response =>
      obtain ⟨-, request, arrivals, k, call, upstream, -, -, hsource, hcarries,
        hmem, hmade⟩ :=
        (answer_has_single_source ⟨rfl, ⟨rfl, rfl⟩, rfl, rfl⟩ hrun).1 0 response
          hsent (of_decide_eq_true hevent)
      exact ⟨s, l, response, request, arrivals, k, call, upstream, hrun, hsent,
        hsource, hcarries, hmem, hmade⟩
  | received packet | lookedUp stopId now state entry | refreshed k | called k
  | closed => cases hevent

/-! ## Departure times of another stop -/

/-- The documents for two stops, with one arrival each, an hour apart. -/
def earlyResponse : Response where
  references := none
  currentTime := none
  stopTimes := [arrivesAt 60]

def lateResponse : Response where
  references := none
  currentTime := none
  stopTimes := [arrivesAt 3660]

/-- Their texts. -/
def earlyText : Bytes :=
  bytesOf "\x7b\"data\":\x7b\"entry\":\x7b\"stopTimes\":[" ++
    bytesOf "\x7b\"arrivalTime\":60\x7d]\x7d\x7d\x7d"

def lateText : Bytes :=
  bytesOf "\x7b\"data\":\x7b\"entry\":\x7b\"stopTimes\":[" ++
    bytesOf "\x7b\"arrivalTime\":3660\x7d]\x7d\x7d\x7d"

/-- A parser that knows the two texts. -/
def parseBoth (text : Bytes) : Option CJson :=
  if text = earlyText then some earlyResponse.tree
  else if text = lateText then some lateResponse.tree
  else none

/-- A client that asks about the stop with this one letter. -/
def asksAbout (letter : UInt8) : Environment where
  packet := some (letter :: List.replicate 63 0 ++ 107 :: List.replicate 255 0)
  beyond := []
  delivered := true

/-- The upstream's answer to the fetch for the one stop, in a parse that reads the
buffer when it holds the time of the other. -/
def overtakenUpstream : Upstream where
  curlReady := true
  perform := fun _ => .replied 200 [earlyText]
  timeinfo := fun _ _ => ConcurrentParses.utc 3660

/-- The arrival that this gives. -/
def overtakenArrival : Arrival :=
  arrivalAt (fun _ => ConcurrentParses.utc 3660) earlyResponse (arrivesAt 60) 60

/-- While a worker parses the document for stop `F`, another one that fetches for
stop `G` converts the time in its document.  The answer to the client that has
asked about `F` then says 01:01 for a minute past midnight. -/
theorem departure_time_of_another_stop :
    overtakenArrival.timestamp = 60 ∧
    overtakenArrival.departureTime = terminatedCopy _ (bytesOf "01:01") ∧
    (parseArrivalsResponse parseBoth (fun _ => ConcurrentParses.utc)
      earlyText).2.map (·.departureTime) = [terminatedCopy _ (bytesOf "00:01")] ∧
    (∃ p : ConcurrentParses.Parses,
      (ConcurrentParses.machine parseBoth ConcurrentParses.utc).Reachable p ∧
      p.parses.map (fun parse => (parse.responseBody, parse.output)) =
        [(earlyText, [overtakenArrival]), (lateText, [])]) ∧
    ∃ s : UdsServer 2,
      (machine parseBoth 2 sampleConfig).Reachable s ∧
      s.fetches.calls.map (fun call => (call.stopId, call.pc.arrivals?)) =
        [(bytesOf "F", some [overtakenArrival]), (bytesOf "G", none)] ∧
      .sent (buildResponse .ok [overtakenArrival]) ∈ s.journal 0 := by
  refine ⟨by decide +kernel, by decide +kernel, by decide +kernel, ?_, ?_⟩
  · obtain ⟨p, hreach, hp⟩ := Machine.exists_reachable_of_run
      (M := ConcurrentParses.machine parseBoth ConcurrentParses.utc)
      (s := { buffer := ConcurrentParses.leftover, parses := [] }) rfl
      (l := [.enter earlyText, .enter lateText] ++
        [0, 1, 0].map (.advance · ConcurrentParses.leftover))
      (p := fun p => decide
        (p.parses.map (fun parse => (parse.responseBody, parse.output)) =
          [(earlyText, [overtakenArrival]), (lateText, [])]))
      (by decide +kernel)
    exact ⟨p, hreach, of_decide_eq_true hp⟩
  · let submitted (conn : Conn) (worker : Fin 2) : List (Action 2) :=
      [.accept, .pool (.submitPush conn), .pool .submitUnlock,
        .pool (.notifyOne none), .pool (.lock worker), .pool (.test worker),
        .pool (.dequeue worker conn)]
    let answers : List (Action 2) :=
      submitted 0 0 ++ submitted 1 1 ++
        List.replicate 3 (.handle 0 (asksAbout 70)) ++
        List.replicate 3 (.handle 1 (asksAbout 71)) ++
        [.fetch (.advance 0 overtakenUpstream),
          .fetch (.advance 1 overtakenUpstream)] ++
        List.replicate 4 (.fetch (.advance 0 overtakenUpstream)) ++
        List.replicate 2 (.handle 0 (asksAbout 70))
    obtain ⟨s, hreach, hs⟩ := Machine.exists_reachable_of_run
      (M := machine parseBoth 2 sampleConfig)
      (s :=
        { pool := ThreadPool.new
          fetches := Fetching.sampleStart
          accepted := 0
          journal := fun _ => [] }) ⟨rfl, ⟨rfl, rfl⟩, rfl, rfl⟩
      (l := answers)
      (p := fun s => decide
        (s.fetches.calls.map (fun call => (call.stopId, call.pc.arrivals?)) =
            [(bytesOf "F", some [overtakenArrival]), (bytesOf "G", none)] ∧
          .sent (buildResponse .ok [overtakenArrival]) ∈ s.journal 0))
      (by decide +kernel)
    exact ⟨s, hreach, of_decide_eq_true hs⟩

end BkkApi.Server.Provenance
