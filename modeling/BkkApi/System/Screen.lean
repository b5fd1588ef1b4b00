import BkkApi.Server.Departures
import BkkApi.Server.TripAttribution
import BkkApi.Server.UpstreamRequests
import BkkApi.System.Display

/-!
# From the upstream's document to the screen

All parts of the repository together.  The upstream answers a transfer with a
document; a fetch parses it and stores its arrivals; a handler, perhaps a later one,
copies them into a response; a client receives it and shows it.

`screen_from_upstream` says what the user sees in the words of the document: its
first sixteen valid stop times, in the order of the document, each with the texts
of the trip it names and the minutes until it arrives.  The document is one that
has arrived in this run, for the stop that was asked for.  The clock texts are left
out: other parses have a hand in them.
-/

namespace BkkApi.System.Screen

open BkkApi.Verified.CData
open BkkApi.Verified.Run
open BkkApi.Server
open BkkApi.Server.Protocol
open BkkApi.Server.ResponseParser
open BkkApi.Server.StopTimes
open BkkApi.Server.Departures (arrivalInstant chosenTime_eq)
open BkkApi.Server.TripAttribution
open BkkApi.Server.Api
open BkkApi.Server.Cache
open BkkApi.Server.Fetching (Fetches Call Upstream)
open BkkApi.Server.UpstreamRequests (urlOf)
open BkkApi.Server.Deliveries
open BkkApi.Server.Provenance
open BkkApi.Client.UdsClient
open BkkApi.Client.TestClient
open BkkApi.System.Exchange (Service Answers answers_of_response)
open BkkApi.System.Display

/-! ## What a document says -/

/-- A stop time names no trip, and the trip under the empty key is taken for it. -/
def MeetsEmptyKey (r : Response) (item : CJson) : Prop :=
  NamesNoTrip item ∧ ¬EmptyKeyHarmless r.references

/-- An arrival says what the document does about a stop time. -/
structure Says (r : Response) (item : CJson) (arrival : Arrival) : Prop where
  attributed : ¬MeetsEmptyKey r item →
    Attributed (attributionOf r.references (namedTrip r.references item)) arrival
  minutes : ∃ instant, arrivalInstant item = some instant ∧
    arrival.departsInMin = departsInMinOf (toLongLong instant) r.apiTimeS

/-- A line shows an attribution, as far as that fits. -/
structure ShowsAttribution (attribution : Attribution) (line : ArrivalLine) :
    Prop where
  lineId : line.lineId = (cString attribution.line).take (arrivalLineMaxLen - 1)
  vehicleType : line.vehicleType = vehicleTypeToString attribution.vehicleType
  destination : line.destination =
    (cString attribution.destination).take (arrivalDestinationMaxLen - 1)

/-- A line shows what the document says about a stop time. -/
structure ShowsStopTime (r : Response) (number : Nat) (item : CJson)
    (line : ArrivalLine) : Prop where
  number : line.number = number
  attributed : ¬MeetsEmptyKey r item →
    ShowsAttribution (attributionOf r.references (namedTrip r.references item))
      line
  minutes : ∃ instant, arrivalInstant item = some instant ∧
    line.departsInMin = departsInMinOf (toLongLong instant) r.apiTimeS

/-- The lines show the first valid stop times of the document, one each, in its
order and numbered from 1. -/
def ShowsDocument (r : Response) (lines : List ArrivalLine) : Prop :=
  List.Forall₂ (fun e line => ShowsStopTime r (e.2 + 1) e.1 line)
    ((r.stopTimes.filter isValid).take bkkUdsMaxArrivals).zipIdx lines

/-! ## What the parser makes of it -/

theorem says_of_arrivalOf {localTime : Int → Option Tm} {r : Response}
    {item : CJson} {arrival : Arrival}
    (h : arrivalOf localTime r item = some arrival) : Says r item arrival := by
  obtain ⟨instant, hinstant, hat⟩ := arrivalOf_eq_some_iff.1 h
  rw [← hat]
  refine { attributed := ?_, minutes := ⟨instant, hinstant, rfl⟩ }
  intro hkey
  by_cases htrip : tripIdOf (some item) = []
  · apply (attributed_iff_of_no_tripId localTime r instant htrip).2
    apply Classical.byContradiction
    intro hharmful
    exact hkey ⟨namesNoTrip_iff.2 htrip, hharmful⟩
  · exact attributed_of_tripId localTime r instant htrip

/-- Nothing of this is in the departure time. -/
theorem Says.congr {r : Response} {item : CJson} {arrival arrival' : Arrival}
    (h : Says r item arrival) (hsame : SameButDepartureTime arrival arrival') :
    Says r item arrival' := by
  refine { attributed := fun hkey => ?_, minutes := hsame.departsInMin ▸ h.minutes }
  have hattributed := h.attributed hkey
  exact
    { lineId := hsame.lineId ▸ hattributed.lineId
      vehicleType := hsame.vehicleType ▸ hattributed.vehicleType
      destination := hsame.destination ▸ hattributed.destination }

theorem forall₂_congr {α β : Type} {R : α → β → Prop} {S : β → β → Prop}
    (hcongr : ∀ a b b', R a b → S b b' → R a b') {as : List α} {bs bs' : List β}
    (h : List.Forall₂ R as bs) (hsame : List.Forall₂ S bs bs') :
    List.Forall₂ R as bs' := by
  induction h generalizing bs' with
  | nil =>
      cases hsame
      exact .nil
  | cons hfirst _ ih =>
      cases hsame with
      | cons hbb hrest => exact .cons (hcongr _ _ _ hfirst hbb) (ih hrest)

theorem forall₂_zipIdx {α β : Type} {R : α → β → Prop} {as : List α}
    {bs : List β} (h : List.Forall₂ R as bs) (i : Nat) :
    List.Forall₂ (fun a b => R a.1 b.1 ∧ b.2 = a.2) (as.zipIdx i) (bs.zipIdx i) := by
  induction h generalizing i with
  | nil => exact .nil
  | cons hfirst _ ih => exact .cons ⟨hfirst, rfl⟩ (ih (i + 1))

/-- The upstream has answered the transfer of a call with a document. -/
def Answered (cJsonParse : Bytes → Option CJson) (call : Call)
    (perform : Bytes → Transfer) (r : Response) : Prop :=
  ∃ httpCode chunks, perform (urlOf call) = .replied httpCode chunks ∧
    (200 ≤ httpCode ∧ httpCode < 300) ∧
    Located (cJsonParse (cString chunks.flatten)) r

theorem foldl_writeCallback (chunks : List Bytes) : ∀ userp : Bytes,
    chunks.foldl writeCallback userp = userp ++ chunks.flatten := by
  induction chunks with
  | nil =>
      intro userp
      simp
  | cons chunk chunks ih =>
      intro userp
      rw [List.foldl_cons, ih, writeCallback, List.flatten_cons,
        List.append_assoc]

/-- A transfer that `make_request` calls `Ok`. -/
theorem replied_of_ok {call : Call} {perform : Bytes → Transfer}
    {responseBody : Bytes}
    (h : getArrivalsForStop call.stopId call.apiKey (some perform) =
      .ok (.ok, responseBody)) :
    ∃ httpCode chunks, perform (urlOf call) = .replied httpCode chunks ∧
      (200 ≤ httpCode ∧ httpCode < 300) ∧ responseBody = chunks.flatten := by
  rw [getArrivalsForStop, makeRequest] at h
  by_cases hkey : call.apiKey = []
  · rw [if_pos hkey] at h
    cases h
  · rw [if_neg hkey] at h
    have hafter : afterPerform (perform (urlOf call)) =
        .ok (.ok, responseBody) := h
    cases hperform : perform (urlOf call) with
    | thrown =>
        rw [hperform] at hafter
        cases hafter
    | failed chunks =>
        rw [hperform] at hafter
        cases hafter
    | replied httpCode chunks =>
        rw [hperform, afterPerform] at hafter
        by_cases hinvalid : httpCode = 401
        · rw [if_pos hinvalid] at hafter
          cases hafter
        · rw [if_neg hinvalid] at hafter
          by_cases hhttp : httpCode < 200 ∨ httpCode ≥ 300
          · rw [if_pos hhttp] at hafter
            cases hafter
          · rw [if_neg hhttp] at hafter
            have hbody := foldl_writeCallback chunks []
            cases hafter
            exact ⟨httpCode, chunks, rfl, by omega, hbody⟩

section Parse

variable {cJsonParse : Bytes → Option CJson} (hcounts : CountsItems cJsonParse)
include hcounts

/-- The arrivals of a document are those of its valid stop times, whatever other
parses leave in the buffer of `std::localtime`. -/
theorem says_of_document {responseBody : Bytes} {r : Response}
    (h : Located (cJsonParse (cString responseBody)) r)
    (timeinfo : Nat → Int → Option Tm) :
    List.Forall₂ (Says r) (r.stopTimes.filter isValid)
      (parseArrivalsResponse cJsonParse timeinfo responseBody).2 := by
  have hreadings := (parse_readings cJsonParse (fun _ _ => none) timeinfo
    responseBody).2
  rw [arrivals_of_located hcounts (fun _ => none) h] at hreadings
  have heach := forall₂_filter_filterMap
    (arrivalOf_isSome (fun _ => none) r) r.stopTimes
  refine forall₂_congr (fun _ _ _ hsays hsame => hsays.congr hsame)
    (heach.imp fun _ _ harrival => says_of_arrivalOf harrival) hreadings

/-- Arrivals that a successful fetch returns are those of a document that the
upstream has answered with. -/
theorem document_of_fetched {timeinfo : Nat → Int → Option Tm} {call : Call}
    {perform : Bytes → Transfer} {arrivals : List Arrival}
    (h : getArrivalsForStation cJsonParse timeinfo call.stopId call.apiKey
      (some perform) = (.ok, arrivals)) :
    ∃ r, Answered cJsonParse call perform r ∧
      List.Forall₂ (Says r) (r.stopTimes.filter isValid) arrivals := by
  obtain ⟨responseBody, hstop, hparsed⟩ := body_of_ok h
  have hlocated : ∃ r, Located (cJsonParse (cString responseBody)) r := by
    by_contra hnone
    have hempty : (parseArrivalsResponse cJsonParse timeinfo
        responseBody).2 = [] :=
      arrivals_of_not_located (not_exists.1 hnone)
    exact (servable_of_ok h).nonempty (hparsed.symm.trans hempty)
  obtain ⟨r, hr⟩ := hlocated
  refine ⟨r, ?_, ?_⟩
  · obtain ⟨httpCode, chunks, hreplied, hcode, hbody⟩ := replied_of_ok hstop
    exact ⟨httpCode, chunks, hreplied, hcode, hbody ▸ hr⟩
  · rw [← hparsed]
    exact says_of_document hcounts hr timeinfo

end Parse

/-! ## What is shown of it -/

theorem showsStopTime_lineOf {r : Response} {item : CJson} {arrival : Arrival}
    (h : Says r item arrival) (number : Nat) :
    ShowsStopTime r number item (Display.lineOf number arrival) := by
  refine { number := rfl, attributed := fun hkey => ?_, minutes := h.minutes }
  have hattributed := h.attributed hkey
  refine { lineId := ?_, vehicleType := ?_, destination := ?_ }
  · show cString arrival.lineId.toList = _
    rw [hattributed.lineId, cString_terminatedCopy (by decide)]
  · show vehicleTypeToString arrival.vehicleType = _
    rw [hattributed.vehicleType]
  · show cString arrival.destination.toList = _
    rw [hattributed.destination, cString_terminatedCopy (by decide)]

theorem showsDocument_linesOf {r : Response} {arrivals : List Arrival}
    (h : List.Forall₂ (Says r) (r.stopTimes.filter isValid) arrivals) :
    ShowsDocument r (linesOf arrivals) := by
  have hnumbered := forall₂_zipIdx (List.forall₂_take bkkUdsMaxArrivals h) 0
  unfold ShowsDocument linesOf
  rw [List.forall₂_map_right_iff]
  refine hnumbered.imp fun e e' hboth => ?_
  rw [hboth.2]
  exact showsStopTime_lineOf hboth.1 (e.2 + 1)

/-! ## What arrives in a run -/

section Run

variable {n : Nat} {cJsonParse : Bytes → Option CJson} {config : SoundConfig}

/-- What a step of the server with its clients is delivered. -/
def delivered (s : Service n) : Exchange.Action n → Option (Nat × Upstream)
  | .process (.server a) => serverDelivered s.process.server a
  | _ => none

theorem process_delivered {s : Service n} {a : Shutdown.Action n}
    {process : Shutdown.Process n}
    (h : Shutdown.step cJsonParse s.process a = some process) :
    process.server.fetches = s.process.server.fetches ∧
        delivered s (.process a) = none ∨
      ∃ b, Fetching.step cJsonParse s.process.server.fetches b =
          some process.server.fetches ∧
        delivered s (.process a) = deliveredBy s.process.server.fetches b := by
  rcases Shutdown.step_cases h with ⟨b, rfl, -, hserver⟩ | ⟨rfl, -, rfl⟩ |
    ⟨rfl, -, rfl⟩ | ⟨rfl, -, rfl⟩ | ⟨rfl, -, rfl⟩
  · exact server_delivered hserver
  all_goals exact .inl ⟨rfl, rfl⟩

/-- What the calls hold at the end of a run has been delivered in it. -/
theorem delivered_of_run {s₀ s : Service n} {l : List (Nat × Upstream)}
    (hinit : (Exchange.machine cJsonParse n config).init s₀)
    (h : (Exchange.machine cJsonParse n config).Emits delivered s₀ l s) :
    Delivered cJsonParse s.process.server.fetches l := by
  have hfetches : (Fetching.machine cJsonParse config).Emits deliveredBy
      s₀.process.server.fetches l s.process.server.fetches := by
    refine h.project (v := fun s : Service n => s.process.server.fetches) ?_
    intro t a u hstep
    cases Exchange.step_cases hstep with
    | accept hpending hprocess => exact process_delivered hprocess
    | handle hworker hconnection hside hprocess =>
        exact process_delivered hprocess
    | process haccept hhandle hprocess => exact process_delivered hprocess
    | query | client hquery hmoves | strangerConnects
    | strangerSends hconnection howner | strangerCloses hconnection howner =>
        exact .inl ⟨rfl, rfl⟩
  exact delivered_of_fetches hinit.1.1.2.1 hfetches

/-! ## The whole way -/

/-- The lines go back to a document: call `j`, whose result answers the query, was
delivered it in this run, for the stop of the query. -/
structure Traced (cJsonParse : Bytes → Option CJson) (config : SoundConfig)
    (s : Service n) (l : List (Nat × Upstream)) (query : Query)
    (lines : List ArrivalLine) (j : Nat) (call : Call) (upstream : Upstream)
    (r : Response) : Prop where
  source : ∃ conn beyond arrivals, query.conn = some conn ∧
    Source cJsonParse config s.process.server.fetches ⟨query.request, beyond⟩
      (s.process.server.journal conn) arrivals j call
  stop : ∀ stopId apiKey, query.request = requestFor stopId apiKey →
    call.stopId = (cString stopId).take (bkkUdsMaxStopIdLen - 1)
  delivered : (j, upstream) ∈ l
  answered : Answered cJsonParse call upstream.perform r
  lines : ShowsDocument r lines

/-- **From the document to the screen.**  In every run of the server with its
clients, what the loop of the client shows of an `Ok` response to a call are the
lines about a document that the upstream has answered in this run, with a status
between 200 and 299, to a transfer for the stop of the call. -/
theorem screen_from_upstream (hcounts : CountsItems cJsonParse)
    {s₀ s : Service n} {l : List (Nat × Upstream)}
    (hinit : (Exchange.machine cJsonParse n config).init s₀)
    (hrun : (Exchange.machine cJsonParse n config).Emits delivered s₀ l s)
    {k : Nat} {query : Query} {response : BkkUdsResponse}
    (hquery : s.queries[k]? = some query)
    (hresponse : query.pc.response? = some response)
    (hok : response.status = .ok) :
    ∃ lines j call upstream r, arrivalLines response = some lines ∧
      Traced cJsonParse config s l query lines j call upstream r := by
  have hreach := hrun.reachable hinit
  obtain ⟨conn, hanswers⟩ := answers_of_response hreach hquery hresponse
  obtain ⟨beyond, arrivals, j, call, hsource, hcarries⟩ := hanswers.source hok
  obtain ⟨upstream, hmem, hfetch⟩ :=
    delivered_of_run hinit hrun j call arrivals hsource.made hsource.holds
  obtain ⟨r, hanswered, hsays⟩ := document_of_fetched hcounts hfetch
  have hlines := (arrivalLines_of_carries hcarries
    (terminated_of_fetched hsource.succeeded)).2
  refine ⟨_, j, call, upstream, r, hlines,
    { source := ⟨conn, beyond, arrivals, hanswers.own, hsource⟩
      stop := ?_
      delivered := hmem
      answered := hanswered
      lines := showsDocument_linesOf hsays }⟩
  intro stopId apiKey hrequest
  rw [hsource.same_stop, hrequest]
  exact (requestFor_read beyond stopId apiKey).1

end Run

theorem countsItems_sampleParse : CountsItems Fetching.sampleParse := by
  intro text r h
  have hstop := h.stopTimes
  unfold Fetching.sampleParse at hstop
  split at hstop
  · rw [← Option.some.inj hstop]
    decide
  · cases hstop

/-- One departure, from the document to the screen. -/
theorem screen_from_upstream_sample :
    ∃ (s : Service 1) (l : List (Nat × Upstream)) (query : Query)
      (response : BkkUdsResponse) (lines : List ArrivalLine) (j : Nat)
      (call : Call) (upstream : Upstream) (r : Response),
      s.queries[0]? = some query ∧ query.pc.response? = some response ∧
        arrivalLines response = some lines ∧ lines.length = 1 ∧
        Traced Fetching.sampleParse Fetching.sampleConfig s l query lines j call
          upstream r := by
  let serverSteps : List (Serving.Action 1) :=
    Serving.sampleDequeue ++ Serving.sampleFetch ++
      List.replicate 2 (.handle 0 Serving.sampleEnvironment)
  obtain ⟨l, s, hrun, hs⟩ := Machine.exists_emits_of_emit delivered
    (M := Exchange.machine Fetching.sampleParse 1 Fetching.sampleConfig)
    (s := Exchange.sampleService)
    (l := Exchange.sampleAsk ++
      serverSteps.map (fun a => .process (.server a)) ++
      List.replicate 2 (Exchange.Action.client 0 true))
    (p := fun result => (result.2.queries[0]?).any fun query =>
      query.pc.response?.any fun response =>
        decide (response.status = .ok ∧
          (arrivalLines response).map List.length = some 1))
    (by decide +kernel)
  obtain ⟨query, hquery, hany⟩ := (Option.any_eq_true _ _).1 hs
  obtain ⟨response, hresponse, hboth⟩ := (Option.any_eq_true _ _).1 hany
  obtain ⟨hok, hlength⟩ := of_decide_eq_true hboth
  obtain ⟨lines, j, call, upstream, r, hlines, htraced⟩ :=
    screen_from_upstream countsItems_sampleParse
      ⟨⟨⟨rfl, ⟨rfl, rfl⟩, rfl, rfl⟩, rfl⟩, rfl, rfl⟩ hrun hquery hresponse hok
  rw [hlines] at hlength
  exact ⟨s, l, query, response, lines, j, call, upstream, r, hquery, hresponse,
    hlines, Option.some.inj hlength, htraced⟩

end BkkApi.System.Screen
