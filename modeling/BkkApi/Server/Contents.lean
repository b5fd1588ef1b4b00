import BkkApi.Server.Provenance

/-!
# Everything that a response carries

A response is sent as the bytes of a struct.  Between the end of a text and the end
of its field, and in the slots behind the last arrival, it could carry anything that
the server has had in its memory.  It does not: all of these are zero, on every way
from the upstream through the cache into the response.  `sent_says_all` states it
without looking at the bytes: responses that read alike are equal.
-/

namespace BkkApi.Server.Contents

open BkkApi.Verified.CData
open BkkApi.Verified.Run
open BkkApi.Server.Protocol
open BkkApi.Server.ResponseParser
open BkkApi.Server.Api
open BkkApi.Server.Cache
open BkkApi.Server.Fetching (Fetched)
open BkkApi.Server.HandleClient
open BkkApi.Server.Transcript
open BkkApi.Server.Provenance
open BkkApi.Server.Serving

/-! ## What holds of every arrival that the parser makes -/

section Parse

variable {P : Arrival → Prop} {cJsonParse : Bytes → Option CJson}

theorem forall_of_stopTimesLoop
    (hmade : ∀ timeinfo references apiTimeS item arrival,
      stopTimeArrival timeinfo references apiTimeS item = some arrival → P arrival)
    (timeinfo : Nat → Int → Option Tm) (references : Option CJson)
    (apiTimeS : Rat) (items : List CJson) :
    ∀ (i : Nat) (output : List Arrival) (skipped : Nat),
      (∀ arrival ∈ output, P arrival) →
      ∀ arrival ∈ (stopTimesLoop timeinfo references apiTimeS i items
        (output, skipped)).1, P arrival := by
  induction items with
  | nil =>
      intro i output skipped houtput
      exact houtput
  | cons item rest ih =>
      intro i output skipped houtput
      rw [stopTimesLoop]
      cases harrival : stopTimeArrival (timeinfo i) references apiTimeS item with
      | none => exact ih (i + 1) output (skipped + 1) houtput
      | some arrival =>
          refine ih (i + 1) (output ++ [arrival]) skipped fun other hmem => ?_
          rcases List.mem_append.1 hmem with hbefore | hnew
          · exact houtput other hbefore
          · rw [List.mem_singleton.1 hnew]
            exact hmade _ _ _ _ _ harrival

theorem forall_of_parseStopTimes
    (hmade : ∀ timeinfo references apiTimeS item arrival,
      stopTimeArrival timeinfo references apiTimeS item = some arrival → P arrival)
    (timeinfo : Nat → Int → Option Tm) (references : Option CJson)
    (apiTimeS : Rat) (stopTimes : List CJson) :
    ∀ arrival ∈ (parseStopTimes timeinfo references apiTimeS stopTimes).2,
      P arrival := by
  intro arrival hmem
  by_cases hcount : CJson.getArraySize stopTimes = 0
  · rw [parseStopTimes_of_empty hcount] at hmem
    cases hmem
  · rw [parseStopTimes_of_ne hcount, afterLoop_snd] at hmem
    exact forall_of_stopTimesLoop hmade timeinfo references apiTimeS _ 0 [] 0
      (fun _ hnil => (by cases hnil)) arrival hmem

theorem forall_of_parse
    (hmade : ∀ timeinfo references apiTimeS item arrival,
      stopTimeArrival timeinfo references apiTimeS item = some arrival → P arrival)
    (timeinfo : Nat → Int → Option Tm) (responseBody : Bytes) :
    ∀ arrival ∈ (parseArrivalsResponse cJsonParse timeinfo responseBody).2,
      P arrival := by
  intro arrival hmem
  unfold parseArrivalsResponse at hmem
  cases hroot : cJsonParse (cString responseBody) with
  | none =>
      rw [hroot] at hmem
      cases hmem
  | some root =>
      simp only [hroot] at hmem
      split at hmem
      · cases hmem
      split at hmem
      · cases hmem
      split at hmem
      · cases hmem
      split at hmem
      · cases hmem
      exact forall_of_parseStopTimes hmade _ _ _ _ arrival hmem

/-- What holds of every arrival that an element of `stopTimes` gives holds of all
that a fetch delivers. -/
theorem forall_of_fetched
    (hmade : ∀ timeinfo references apiTimeS item arrival,
      stopTimeArrival timeinfo references apiTimeS item = some arrival → P arrival)
    {stopId apiKey : Bytes} {arrivals : List Arrival}
    (h : Fetched cJsonParse stopId apiKey arrivals) :
    ∀ arrival ∈ arrivals, P arrival := by
  obtain ⟨timeinfo, curl, hstation⟩ := h
  obtain ⟨responseBody, -, hparsed⟩ := body_of_ok hstation
  intro arrival hmem
  rw [← hparsed] at hmem
  exact forall_of_parse hmade timeinfo responseBody arrival hmem

end Parse

/-! ## Responses -/

structure PaddedTexts (arrival : Arrival) : Prop where
  lineId : Padded arrival.lineId
  destination : Padded arrival.destination
  departureTime : Padded arrival.departureTime

theorem paddedTexts_zero : PaddedTexts Arrival.zero :=
  ⟨padded_replicate _, padded_replicate _, padded_replicate _⟩

theorem paddedTexts_of_stopTimeArrival (timeinfo : Int → Option Tm)
    (references : Option CJson) (apiTimeS : Rat) (item : CJson)
    (arrival : Arrival)
    (h : stopTimeArrival timeinfo references apiTimeS item = some arrival) :
    PaddedTexts arrival := by
  simp only [stopTimeArrival] at h
  split at h
  · obtain ⟨time, -, rfl⟩ := Option.map_eq_some_iff.1 h
    exact
      { lineId := padded_terminatedCopy (by decide) _
        destination := padded_terminatedCopy (by decide) _
        departureTime := padded_terminatedCopy (by decide) _ }
  · cases h

/-- The arrivals have the same texts and numbers. -/
structure ReadAlike (arrival arrival' : Arrival) : Prop where
  lineId : cString arrival.lineId.toList = cString arrival'.lineId.toList
  vehicleType : arrival.vehicleType = arrival'.vehicleType
  destination : cString arrival.destination.toList =
    cString arrival'.destination.toList
  departureTime : cString arrival.departureTime.toList =
    cString arrival'.departureTime.toList
  departsInMin : arrival.departsInMin = arrival'.departsInMin
  timestamp : arrival.timestamp = arrival'.timestamp

/-- The responses say the same, to a client that reads what they say is there. -/
structure SayTheSame (response response' : BkkUdsResponse) : Prop where
  status : response.status = response'.status
  number : response.numberOfArrivals = response'.numberOfArrivals
  slots : ∀ i : Fin bkkUdsMaxArrivals,
    (i.val : Int) < response.numberOfArrivals →
      ReadAlike response.arrivals[i] response'.arrivals[i]

theorem PaddedTexts.eq_of_readAlike {arrival arrival' : Arrival}
    (h : PaddedTexts arrival) (h' : PaddedTexts arrival')
    (halike : ReadAlike arrival arrival') : arrival = arrival' := by
  have hlineId := h.lineId.eq_of_text h'.lineId halike.lineId
  have hdestination := h.destination.eq_of_text h'.destination halike.destination
  have hdepartureTime :=
    h.departureTime.eq_of_text h'.departureTime halike.departureTime
  cases arrival
  cases arrival'
  simp only [Arrival.mk.injEq]
  exact ⟨hlineId, halike.vehicleType, hdestination, hdepartureTime,
    halike.departsInMin, halike.timestamp⟩

/-- Nothing is in a response but what it says. -/
structure Clean (response : BkkUdsResponse) : Prop where
  shape : WellShaped response
  texts : ∀ arrival ∈ response.arrivals, PaddedTexts arrival

theorem Clean.eq_of_sayTheSame {response response' : BkkUdsResponse}
    (h : Clean response) (h' : Clean response')
    (hsame : SayTheSame response response') : response = response' := by
  have hslots : ∀ i : Fin bkkUdsMaxArrivals,
      response.arrivals[i] = response'.arrivals[i] := by
    intro i
    by_cases hi : (i.val : Int) < response.numberOfArrivals
    · have htexts := h.texts _ (Vector.getElem_mem i.isLt)
      have htexts' := h'.texts _ (Vector.getElem_mem i.isLt)
      exact htexts.eq_of_readAlike htexts' (hsame.slots i hi)
    · have hle := Int.not_lt.1 hi
      rw [h.shape.unused i hle, h'.shape.unused i (hsame.number ▸ hle)]
  have harrivals : response.arrivals = response'.arrivals := by
    ext i hi
    exact hslots ⟨i, hi⟩
  have hstatus := hsame.status
  have hnumber := hsame.number
  cases response
  cases response'
  simp only [BkkUdsResponse.mk.injEq]
  exact ⟨hstatus, hnumber, harrivals⟩

theorem clean_buildResponse {apiStatus : BkkApiStatus} {arrivals : List Arrival}
    (h : Result apiStatus arrivals)
    (htexts : ∀ arrival ∈ arrivals, PaddedTexts arrival) :
    Clean (buildResponse apiStatus arrivals) := by
  refine { shape := wellShaped_buildResponse h, texts := ?_ }
  intro arrival hmem
  obtain ⟨i, hi, rfl⟩ := Vector.getElem_of_mem hmem
  have hslot := buildResponse_slot apiStatus arrivals ⟨i, hi⟩
  rw [Fin.getElem_fin] at hslot
  rw [hslot]
  split
  · rw [List.getD_eq_getElem?_getD]
    cases hread : arrivals[i]? with
    | none => exact paddedTexts_zero
    | some arrival => exact htexts arrival (List.mem_of_getElem? hread)
  · exact paddedTexts_zero

section Sent

variable {n n' : Nat} {cJsonParse cJsonParse' : Bytes → Option CJson}
  {config config' : SoundConfig} {s : UdsServer n} {s' : UdsServer n'}

/-- A response on a connection is clean, whatever the memory held before. -/
theorem clean_of_sent (h : (machine cJsonParse n config).Reachable s)
    {conn : Conn} {response : BkkUdsResponse}
    (hsent : .sent response ∈ s.journal conn) : Clean response := by
  have hreach := fetches_reachable h
  obtain ⟨pc, hfits⟩ := fits_of_reachable h conn
  obtain ⟨packet, request, before, apiStatus, arrivals, -, hreply, -, rfl⟩ :=
    reply_of_sent hfits hsent
  refine clean_buildResponse (result_of_reply hreach hreply) ?_
  rcases source_of_reply hreach hreply with ⟨⟨k, call, hsource⟩, -⟩ | ⟨-, rfl⟩
  · exact forall_of_fetched paddedTexts_of_stopTimeArrival hsource.succeeded
  · intro arrival hmem
    cases hmem

/-- **A response carries what it says, and nothing else.**  Two responses that say
the same are equal in every field, each of them up to its last byte: also when
different servers have sent them, which read different upstreams, at other times
and with other memory. -/
theorem sent_says_all (h : (machine cJsonParse n config).Reachable s)
    (h' : (machine cJsonParse' n' config').Reachable s') {conn conn' : Conn}
    {response response' : BkkUdsResponse}
    (hsent : .sent response ∈ s.journal conn)
    (hsent' : .sent response' ∈ s'.journal conn')
    (hsame : SayTheSame response response') : response = response' :=
  (clean_of_sent h hsent).eq_of_sayTheSame (clean_of_sent h' hsent') hsame

end Sent

instance (arrival arrival' : Arrival) : Decidable (ReadAlike arrival arrival') :=
  decidable_of_iff
    (cString arrival.lineId.toList = cString arrival'.lineId.toList ∧
      arrival.vehicleType = arrival'.vehicleType ∧
      cString arrival.destination.toList = cString arrival'.destination.toList ∧
      cString arrival.departureTime.toList =
        cString arrival'.departureTime.toList ∧
      arrival.departsInMin = arrival'.departsInMin ∧
      arrival.timestamp = arrival'.timestamp)
    ⟨fun ⟨hline, htype, hdestination, htime, hmin, hstamp⟩ =>
        ⟨hline, htype, hdestination, htime, hmin, hstamp⟩,
      fun h => ⟨h.lineId, h.vehicleType, h.destination, h.departureTime,
        h.departsInMin, h.timestamp⟩⟩

/-- The response of an event that is one. -/
def response? : Event → Option BkkUdsResponse
  | .sent response => some response
  | _ => none

/-- An answer of the upstream, and a later one out of the cache. -/
theorem sent_says_all_sample :
    ∃ (s : UdsServer 1) (response response' : BkkUdsResponse),
      .sent response ∈ s.journal 0 ∧ .sent response' ∈ s.journal 1 ∧
        response = response' := by
  obtain ⟨s, hreach, hs⟩ := Machine.exists_reachable_of_run
    (M := machine Fetching.sampleParse 1 Fetching.sampleConfig)
    (s := sampleServer) ⟨rfl, ⟨rfl, rfl⟩, rfl, rfl⟩
    (l := sampleStale ++ sampleHit 1)
    (p := fun s => ((s.journal 0).filterMap response?).any fun response =>
      ((s.journal 1).filterMap response?).any fun response' =>
        decide (response.status = response'.status ∧
          response.numberOfArrivals = response'.numberOfArrivals ∧
          ∀ i : Fin bkkUdsMaxArrivals,
            (i.val : Int) < response.numberOfArrivals →
              ReadAlike response.arrivals[i] response'.arrivals[i]))
    (by decide +kernel)
  obtain ⟨response, hmem, hany⟩ := List.any_eq_true.1 hs
  obtain ⟨response', hmem', hdecided⟩ := List.any_eq_true.1 hany
  obtain ⟨hstatus, hnumber, hslots⟩ := of_decide_eq_true hdecided
  have hsame : SayTheSame response response' := ⟨hstatus, hnumber, hslots⟩
  have hsent : ∀ {conn : Conn} {response : BkkUdsResponse},
      response ∈ (s.journal conn).filterMap response? →
        .sent response ∈ s.journal conn := by
    intro conn response hresponse
    obtain ⟨event, hevent, heq⟩ := List.mem_filterMap.1 hresponse
    cases event with
    | sent given =>
        cases heq
        exact hevent
    | received packet | lookedUp stopId now state entry | refreshed k | called k
    | closed => cases heq
  exact ⟨s, response, response', hsent hmem, hsent hmem',
    sent_says_all hreach hreach (hsent hmem) (hsent hmem') hsame⟩

end BkkApi.Server.Contents
