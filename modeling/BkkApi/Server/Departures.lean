import BkkApi.Server.StopTimes

/-!
# Departures

The query asks upstream for departures only, and `parse_arrivals_response` names
what it reads the departure time of an element.  It reads the two arrival
fields.  `reportsDeparture_iff` says for which elements that makes no difference: an
arrival instant has to be there, and to be the same number of whole seconds.
-/

namespace BkkApi.Server.Departures

open BkkApi.Verified.CData
open BkkApi.Server.Protocol
open BkkApi.Server.ResponseParser
open BkkApi.Server.StopTimes

/-- An instant with a predicted and a scheduled field: the predicted one, when it
is a number, and else the scheduled one. -/
def instantOf (predicted scheduled : Bytes) (item : CJson) : Option Rat :=
  match CJson.numberValue (CJson.getObjectItem (some item) predicted) with
  | some instant => some instant
  | none => CJson.numberValue (CJson.getObjectItem (some item) scheduled)

/-- When a vehicle leaves the stop. -/
def departureInstant (item : CJson) : Option Rat :=
  instantOf (bytesOf "predictedDepartureTime") (bytesOf "departureTime") item

/-- When it reaches the stop. -/
def arrivalInstant (item : CJson) : Option Rat :=
  instantOf (bytesOf "predictedArrivalTime") (bytesOf "arrivalTime") item

/-- The function chooses the arrival instant. -/
theorem chosenTime_eq (item : CJson) :
    chosenTime (some item) = arrivalInstant item := rfl

/-- The three times of an arrival are those of `instant`. -/
structure ReportedAt (localTime : Int → Option Tm) (r : Response)
    (instant : Rat) (arrival : Arrival) : Prop where
  timestamp : arrival.timestamp = toLongLong instant
  departureTime : arrival.departureTime =
    terminatedCopy _ (clockText (localTime (toLongLong instant)))
  departsInMin : arrival.departsInMin =
    departsInMinOf (toLongLong instant) r.apiTimeS

/-- If the element has a departure instant, it is reported by it: it has an
arrival, and the times of the arrival are those of the departure. -/
def ReportsDeparture (cJsonParse : Bytes → Option CJson)
    (localTime : Int → Option Tm) (responseBody : Bytes) (r : Response)
    (item : CJson) : Prop :=
  ∀ departure, departureInstant item = some departure →
    ∃ arrival, Emits cJsonParse localTime responseBody r item arrival ∧
      ReportedAt localTime r departure arrival

/-- If the element has a departure instant, it has an arrival instant in the same
second. -/
def ArrivesAsItDeparts (item : CJson) : Prop :=
  ∀ departure, departureInstant item = some departure →
    ∃ time, arrivalInstant item = some time ∧
      toLongLong time = toLongLong departure

/-- The times of an arrival are those of the arrival instant. -/
theorem reportedAt_arrivalAt (localTime : Int → Option Tm) (r : Response)
    (item : CJson) (time : Rat) :
    ReportedAt localTime r time (arrivalAt localTime r item time) where
  timestamp := rfl
  departureTime := rfl
  departsInMin := rfl

/-- Instants of one number of whole seconds are reported alike. -/
theorem ReportedAt.congr {localTime : Int → Option Tm} {r : Response}
    {instant instant' : Rat} {arrival : Arrival}
    (h : ReportedAt localTime r instant arrival)
    (hsame : toLongLong instant = toLongLong instant') :
    ReportedAt localTime r instant' arrival := by
  have htimestamp := h.timestamp
  have hdeparture := h.departureTime
  have hminutes := h.departsInMin
  rw [hsame] at htimestamp hdeparture hminutes
  exact ⟨htimestamp, hdeparture, hminutes⟩

/-- An element is reported by its departure exactly when it arrives in the same
second. -/
theorem reportsDeparture_iff {cJsonParse : Bytes → Option CJson}
    (hcounts : CountsItems cJsonParse) (localTime : Int → Option Tm)
    {responseBody : Bytes} {r : Response}
    (hlocated : Located (cJsonParse (cString responseBody)) r)
    {item : CJson} (hitem : item ∈ r.stopTimes) :
    ReportsDeparture cJsonParse localTime responseBody r item ↔
      ArrivesAsItDeparts item := by
  constructor
  · intro h departure hdeparture
    obtain ⟨arrival, hemits, hreported⟩ := h departure hdeparture
    have harrival := ((emits_iff hcounts hlocated).1 hemits).2
    obtain ⟨time, htime, hat⟩ := arrivalOf_eq_some_iff.1 harrival
    have htimestamp := hreported.timestamp
    rw [← hat] at htimestamp
    exact ⟨time, (chosenTime_eq item).symm.trans htime, htimestamp⟩
  · intro h departure hdeparture
    obtain ⟨time, htime, hsame⟩ := h departure hdeparture
    have harrival : arrivalOf localTime r item =
        some (arrivalAt localTime r item time) :=
      arrivalOf_eq_some_iff.2 ⟨time, (chosenTime_eq item).trans htime, rfl⟩
    have hreported := reportedAt_arrivalAt localTime r item time
    exact ⟨_, (emits_iff hcounts hlocated).2 ⟨hitem, harrival⟩,
      hreported.congr hsame⟩

/-! ## A first stop and a dwelling vehicle -/

/-- The first stop of a trip has no arrival. -/
def firstStop : CJson := .object [(bytesOf "departureTime", .number 120)]

/-- A vehicle that waits for a minute. -/
def dwelling : CJson :=
  .object [(bytesOf "arrivalTime", .number 60),
    (bytesOf "departureTime", .number 120)]

/-- A vehicle that leaves as it arrives. -/
def passing : CJson :=
  .object [(bytesOf "arrivalTime", .number 120),
    (bytesOf "departureTime", .number 120)]

/-- A response with the three of them. -/
def departuresResponse : Response where
  references := none
  currentTime := some 0
  stopTimes := [firstStop, dwelling, passing]

/-- Its text. -/
def departuresText : Bytes :=
  bytesOf "\x7b\"currentTime\":0,\"data\":\x7b\"entry\":\x7b\"stopTimes\":[" ++
    bytesOf "\x7b\"departureTime\":120\x7d," ++
    bytesOf "\x7b\"arrivalTime\":60,\"departureTime\":120\x7d," ++
    bytesOf "\x7b\"arrivalTime\":120,\"departureTime\":120\x7d]\x7d\x7d\x7d"

theorem countsItems_departures :
    CountsItems (knows departuresText departuresResponse) :=
  countsItems_knows (by decide)

theorem located_departures :
    Located (knows departuresText departuresResponse (cString departuresText))
      departuresResponse :=
  located_knows (by decide +kernel) _

/-- The third element is reported by its departure. -/
theorem reportsDeparture_passing :
    ∃ arrival, Emits (knows departuresText departuresResponse) (fun _ => none)
        departuresText departuresResponse passing arrival ∧
      ReportedAt (fun _ => none) departuresResponse 120 arrival := by
  have hitem : passing ∈ departuresResponse.stopTimes := by
    simp [departuresResponse]
  have htimes : arrivalInstant passing = departureInstant passing := by
    decide +kernel
  have hsame : ArrivesAsItDeparts passing := by
    intro departure hdeparture
    exact ⟨departure, htimes.trans hdeparture, rfl⟩
  apply (reportsDeparture_iff countsItems_departures _ located_departures
    hitem).2 hsame
  rfl

/-- The first is left out, and the second is reported a minute early. -/
theorem departures_not_reported :
    firstStop ∈ departuresResponse.stopTimes ∧
      dwelling ∈ departuresResponse.stopTimes ∧
      ¬ReportsDeparture (knows departuresText departuresResponse)
        (fun _ => none) departuresText departuresResponse firstStop ∧
      ¬ReportsDeparture (knows departuresText departuresResponse)
        (fun _ => none) departuresText departuresResponse dwelling := by
  have hemits : ∀ item arrival,
      Emits (knows departuresText departuresResponse) (fun _ => none)
          departuresText departuresResponse item arrival →
        arrivalOf (fun _ => none) departuresResponse item = some arrival :=
    fun item arrival h =>
      ((emits_iff countsItems_departures located_departures).1 h).2
  refine ⟨by simp [departuresResponse], by simp [departuresResponse], ?_, ?_⟩
  · intro h
    obtain ⟨arrival, harrival, -⟩ := h 120 rfl
    cases hemits _ _ harrival
  · intro h
    obtain ⟨arrival, harrival, hreported⟩ := h 120 rfl
    obtain ⟨time, htime, hat⟩ :=
      arrivalOf_eq_some_iff.1 (hemits _ _ harrival)
    have htimestamp := hreported.timestamp
    rw [← hat] at htimestamp
    have hsixty : (60 : Rat) = time := Option.some.inj htime
    rw [← hsixty] at htimestamp
    exact absurd htimestamp (by decide)

end BkkApi.Server.Departures
