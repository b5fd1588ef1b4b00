import BkkApi.Server.Contents
import BkkApi.Client.TestClient
import BkkApi.System.Exchange

/-!
# What is shown of an answer

The loop of `test_main.c` over a response, on the responses that the server
sends.  Every text that the parser stores ends inside its field, so does every
text in a response, and there are no more arrivals than slots: the client reads
nothing behind them.  `display_exact` says that what it shows is what has been
fetched for its request.
-/

namespace BkkApi.System.Display

open BkkApi.Verified.CData
open BkkApi.Verified.Buffer
open BkkApi.Server
open BkkApi.Server.Protocol
open BkkApi.Server.ResponseParser
open BkkApi.Server.Cache
open BkkApi.Server.HandleClient
open BkkApi.Server.Fetching (Call Fetched)
open BkkApi.Server.Provenance
open BkkApi.Server.Contents (forall_of_fetched)
open BkkApi.Client.UdsClient
open BkkApi.Client.TestClient
open BkkApi.System.Exchange (Service Answers answers_of_response answered_sample)

/-! ## What the parser stores -/

section Parse

variable {cJsonParse : Bytes → Option CJson}

theorem terminated_of_stopTimeArrival {timeinfo : Int → Option Tm}
    {references : Option CJson} {apiTimeS : Rat} {item : CJson}
    {arrival : Arrival}
    (h : stopTimeArrival timeinfo references apiTimeS item = some arrival) :
    Terminated arrival := by
  simp only [stopTimeArrival] at h
  split at h
  · obtain ⟨time, -, rfl⟩ := Option.map_eq_some_iff.1 h
    exact
      { lineId := (storedPrefix_terminatedCopy (by decide) _).terminated
        destination := (storedPrefix_terminatedCopy (by decide) _).terminated
        departureTime := (storedPrefix_terminatedCopy (by decide) _).terminated }
  · cases h

/-- All texts that a fetch delivers end inside their fields. -/
theorem terminated_of_fetched {stopId apiKey : Bytes} {arrivals : List Arrival}
    (h : Fetched cJsonParse stopId apiKey arrivals) :
    ∀ arrival ∈ arrivals, Terminated arrival :=
  forall_of_fetched (fun _ _ _ _ _ => terminated_of_stopTimeArrival) h

end Parse

/-! ## What is shown -/

/-- The line about an arrival whose texts end inside their fields. -/
def lineOf (number : Nat) (arrival : Arrival) : ArrivalLine where
  number := number
  lineId := cString arrival.lineId.toList
  vehicleType := vehicleTypeToString arrival.vehicleType
  destination := cString arrival.destination.toList
  departureTime := cString arrival.departureTime.toList
  departsInMin := arrival.departsInMin

/-- The lines about the arrivals that a response has room for, numbered from 1. -/
def linesOf (arrivals : List Arrival) : List ArrivalLine :=
  (arrivals.take bkkUdsMaxArrivals).zipIdx.map fun e => lineOf (e.2 + 1) e.1

theorem arrivalLine_of_terminated {number : Nat} {arrival : Arrival}
    (h : Terminated arrival) :
    arrivalLine number arrival = some (lineOf number arrival) := by
  simp [arrivalLine, fieldText, h.lineId, h.destination, h.departureTime, lineOf]

/-- A response that carries arrivals shows these. -/
theorem arrivalLines_of_carries {response : BkkUdsResponse}
    {arrivals : List Arrival} (h : Carries response arrivals)
    (hterminated : ∀ arrival ∈ arrivals, Terminated arrival) :
    Printable response ∧ arrivalLines response = some (linesOf arrivals) := by
  have hnumber := h.number
  have hslot : ∀ i : Fin bkkUdsMaxArrivals,
      (i.val : Int) < response.numberOfArrivals → i.val < arrivals.length := by
    intro i hi
    omega
  have hprintable : Printable response :=
    { inside := by omega
      terminated := fun i hi => by
        rw [h.slots i (hslot i hi)]
        exact hterminated _ (List.getElem_mem _) }
  refine ⟨hprintable, ?_⟩
  obtain ⟨lines, hlines⟩ :=
    Option.isSome_iff_exists.1 (arrivalLines_isSome_iff.2 hprintable)
  have hcount : response.numberOfArrivals.toNat =
      ((arrivals.take bkkUdsMaxArrivals).zipIdx).length := by
    rw [List.length_zipIdx, List.length_take]
    omega
  have hrounds := hlines
  rw [arrivalLines, hcount] at hrounds
  have hshown : lines.filterMap some =
      ((arrivals.take bkkUdsMaxArrivals).zipIdx).map fun e =>
        lineOf (e.2 + 1) e.1 := by
    refine filterMap_rounds (fun i e given he hgiven => ?_) hrounds
    obtain ⟨hi, hitem⟩ := List.getElem?_eq_some_iff.1 he
    have hroom : i < bkkUdsMaxArrivals ∧ i < arrivals.length := by
      rw [List.length_zipIdx, List.length_take] at hi
      omega
    have harrival : e = (arrivals[i], i) := by
      rw [← hitem]
      simp
    have hread : response.arrivals[i] = arrivals[i] :=
      h.slots ⟨i, hroom.1⟩ hroom.2
    have hline : responseLine response i = some [lineOf (i + 1) arrivals[i]] := by
      rw [responseLine, dif_pos hroom.1, hread,
        arrivalLine_of_terminated (hterminated _ (List.getElem_mem _))]
      rfl
    rw [Nat.zero_add, hline] at hgiven
    cases hgiven
    rw [harrival]
    rfl
  rw [List.filterMap_some] at hshown
  rw [hlines, hshown]
  rfl

/-! ## In the whole system -/

section Answered

variable {cJsonParse : Bytes → Option CJson} {config : SoundConfig} {n : Nat}
  {s : Service n}

/-- What a response to a call makes the client show: nothing, or what has been
fetched for the request of the call, with the stop id that the user gave. -/
structure Displays (cJsonParse : Bytes → Option CJson) (config : SoundConfig)
    (s : Service n) (query : Query) (response : BkkUdsResponse)
    (lines : List ArrivalLine) : Prop where
  shown : arrivalLines response = some lines
  failure : response.status ≠ .ok → lines = []
  success : response.status = .ok → ∃ conn beyond arrivals j call,
    query.conn = some conn ∧
      Source cJsonParse config s.process.server.fetches ⟨query.request, beyond⟩
        (s.process.server.journal conn) arrivals j call ∧
      lines = linesOf arrivals ∧
      ∀ stopId apiKey, query.request = requestFor stopId apiKey →
        call.stopId = (cString stopId).take (bkkUdsMaxStopIdLen - 1)

/-- **What the user sees.**  In every reachable state of the server with its
clients, the loop over a response that a call has received reads nothing outside
the response and its fields, and shows the first sixteen arrivals of one successful
fetch for the request of the call, or, where the response says that something has
failed, none. -/
theorem display_exact
    (h : (Exchange.machine cJsonParse n config).Reachable s)
    {k : Nat} {query : Query} {response : BkkUdsResponse}
    (hquery : s.queries[k]? = some query)
    (hresponse : query.pc.response? = some response) :
    Printable response ∧
      ∃ lines, Displays cJsonParse config s query response lines := by
  obtain ⟨conn, hanswers⟩ := answers_of_response h hquery hresponse
  by_cases hok : response.status = .ok
  · obtain ⟨beyond, arrivals, j, call, hsource, hcarries⟩ := hanswers.source hok
    obtain ⟨hprintable, hlines⟩ := arrivalLines_of_carries hcarries
      (terminated_of_fetched hsource.succeeded)
    refine ⟨hprintable, _, { shown := hlines, failure := ?_, success := ?_ }⟩
    · intro hfails
      exact absurd hok hfails
    · intro _
      refine ⟨conn, beyond, arrivals, j, call, hanswers.own, hsource, rfl, ?_⟩
      intro stopId apiKey hrequest
      rw [hsource.same_stop, hrequest]
      exact (requestFor_read beyond stopId apiKey).1
  · have hnumber := (hanswers.shape.failure hok).1
    refine ⟨{ inside := ?_, terminated := ?_ }, [],
      { shown := ?_, failure := fun _ => rfl, success := ?_ }⟩
    · rw [hnumber]
      decide
    · intro i hi
      omega
    · rw [arrivalLines, hnumber]
      rfl
    · intro hsays
      exact absurd hsays hok

end Answered

/-- An answer with arrivals. -/
theorem display_exact_sample :
    ∃ (s : Service 1) (query : Query) (response : BkkUdsResponse)
      (lines : List ArrivalLine),
      (Exchange.machine Fetching.sampleParse 1 Fetching.sampleConfig).Reachable s ∧
        s.queries[0]? = some query ∧ response.status = .ok ∧
        Displays Fetching.sampleParse Fetching.sampleConfig s query response
          lines := by
  obtain ⟨s, query, response, hreach, hquery, hpc, hok⟩ := answered_sample
  have hresponse : query.pc.response? = some response := by
    rw [hpc]
    rfl
  obtain ⟨-, lines, hdisplays⟩ := display_exact hreach hquery hresponse
  exact ⟨s, query, response, lines, hreach, hquery, hok, hdisplays⟩

end BkkApi.System.Display
