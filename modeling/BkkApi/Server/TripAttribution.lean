import BkkApi.Server.StopTimes

/-!
# Attribution of an arrival

The line, the vehicle type and the destination of an arrival come from the trip
that its stop time names.  `attributionOf` is what they should be: the texts of
that trip, or the fallbacks when the stop time names none.

The function looks the trip up twice.  The lookup for the destination is guarded
against a stop time without a trip id; the one for the route is not, and asks for
the trip under the empty key.  `attributed_iff` says when that goes unnoticed.
-/

namespace BkkApi.Server.TripAttribution

open BkkApi.Verified.CData
open BkkApi.Server.Protocol
open BkkApi.Server.ResponseParser
open BkkApi.Server.StopTimes

/-! ## What an arrival should be attributed to -/

/-- The texts and the type of an arrival. -/
structure Attribution where
  line : Bytes
  vehicleType : VehicleType
  destination : Bytes
  deriving DecidableEq

/-- No trip at all. -/
def Attribution.unknown : Attribution where
  line := bytesOf "n.a."
  vehicleType := .unknown
  destination := bytesOf "?"

/-- The line of a route: its short name, or its id without one.  As for trips, an
empty id names no route. -/
def lineOfRoute (routeId : Bytes) (references : Option CJson) : Bytes :=
  if routeId = [] then bytesOf "n.a."
  else
    let route := referenced references (bytesOf "routes") routeId
    match CJson.stringValue (CJson.getObjectItem route (bytesOf "shortName")) with
    | some shortName => if shortName = [] then routeId else shortName
    | none => routeId

/-- The vehicle types that are known. -/
def vehicleTypes : List VehicleType :=
  [.bus, .tram, .trolleybus, .metro, .suburbRail, .rail, .ferry, .cableCar,
    .funicular, .gondola, .coach, .bicycle, .car, .walk, .local, .transit]

/-- The vehicle type that is printed as this text, or else `UNKNOWN`. -/
def typePrinted (text : Bytes) : VehicleType :=
  (vehicleTypes.find? fun type => vehicleTypeToString type == text).getD .unknown

/-- The vehicle type of a route: the one that its `type` names. -/
def typeOfRoute (routeId : Bytes) (references : Option CJson) : VehicleType :=
  if routeId = [] then .unknown
  else
    let route := referenced references (bytesOf "routes") routeId
    match CJson.stringValue (CJson.getObjectItem route (bytesOf "type")) with
    | some text => typePrinted text
    | none => .unknown

/-- The `routeId` of a trip, `""` when it is not a string. -/
def routeIdOf (trip : Option CJson) : Bytes :=
  (CJson.stringValue (CJson.getObjectItem trip (bytesOf "routeId"))).getD []

/-- The `tripHeadsign` of a trip, `?` when it is not a string. -/
def headsignOf (trip : Option CJson) : Bytes :=
  (CJson.stringValue
    (CJson.getObjectItem trip (bytesOf "tripHeadsign"))).getD (bytesOf "?")

/-- The attribution to a trip. -/
def attributionOf (references : Option CJson) : Option CJson → Attribution
  | some trip =>
      { line := lineOfRoute (routeIdOf (some trip)) references
        vehicleType := typeOfRoute (routeIdOf (some trip)) references
        destination := headsignOf (some trip) }
  | none => Attribution.unknown

/-- The trip that a stop time names: the object that `references.trips` has under
its `tripId`, when that is a string and not empty. -/
def namedTrip (references : Option CJson) (item : CJson) : Option CJson :=
  match CJson.stringValue
      (CJson.getObjectItem (some item) (bytesOf "tripId")) with
  | some tripId =>
      if tripId = [] then none
      else referenced references (bytesOf "trips") tripId
  | none => none

/-- The fields of an arrival hold an attribution. -/
structure Attributed (attribution : Attribution) (arrival : Arrival) : Prop where
  lineId : arrival.lineId = terminatedCopy _ attribution.line
  vehicleType : arrival.vehicleType = attribution.vehicleType
  destination : arrival.destination = terminatedCopy _ attribution.destination

/-! ## The two lookups -/

/-- The line text of the source is that of the route it has found. -/
theorem lineOf_eq (tripId : Bytes) (references : Option CJson) :
    lineOf tripId references =
      lineOfRoute (findRouteIdForTrip tripId references) references := by
  unfold lineOf lineOfRoute findRouteNameForRouteId
  by_cases hroute : findRouteIdForTrip tripId references = []
  · simp [hroute]
  · cases hname : CJson.stringValue (CJson.getObjectItem
        (referenced references (bytesOf "routes")
          (findRouteIdForTrip tripId references)) (bytesOf "shortName")) with
    | none => simp [hroute, hname]
    | some shortName =>
        by_cases hempty : shortName = []
        · simp [hroute, hname, hempty]
        · simp [hroute, hname, hempty]

/-- The comparisons of the source undo the printing. -/
theorem typePrinted_eq (text : Bytes) : typePrinted text =
    ((vehicleTypeNames.find? fun row => row.1 == text).map Prod.snd).getD
      .unknown := by
  have hrows : vehicleTypeNames = vehicleTypes.map fun type =>
      (vehicleTypeToString type, type) := by decide
  rw [hrows, List.find?_map, Option.map_map]
  show _ = (Option.map id (vehicleTypes.find? fun type =>
    vehicleTypeToString type == text)).getD _
  rw [Option.map_id]
  rfl

theorem typeOfRoute_eq (routeId : Bytes) (references : Option CJson) :
    typeOfRoute routeId references = findTypeForRouteId routeId references := by
  unfold typeOfRoute findTypeForRouteId
  by_cases hroute : routeId = []
  · rw [if_pos hroute, if_pos hroute]
  · rw [if_neg hroute, if_neg hroute]
    dsimp only
    cases CJson.stringValue (CJson.getObjectItem
        (referenced references (bytesOf "routes") routeId) (bytesOf "type")) with
    | none => rfl
    | some text => exact typePrinted_eq text

/-- The guarded lookup, with a trip id. -/
theorem destinationOf_eq {tripId : Bytes} (h : tripId ≠ [])
    (references : Option CJson) : destinationOf tripId references =
      headsignOf (referenced references (bytesOf "trips") tripId) := by
  have htrips : (if CJson.isObject references then
      CJson.getObjectItem references (bytesOf "trips") else none) =
        CJson.getObjectItem references (bytesOf "trips") := by
    cases hreferences : CJson.isObject references with
    | true => rfl
    | false => rw [getObjectItem_of_not_object hreferences]; rfl
  unfold destinationOf referenced
  simp only [htrips]
  cases htable : CJson.isObject
      (CJson.getObjectItem references (bytesOf "trips")) with
  | false => simp [headsignOf, CJson.getObjectItem, CJson.stringValue]
  | true =>
      simp only [h, ne_eq, not_false_eq_true, and_self, if_true]
      cases htrip : CJson.isObject (CJson.getObjectItem
          (CJson.getObjectItem references (bytesOf "trips")) tripId) with
      | false => simp [headsignOf, CJson.getObjectItem, CJson.stringValue]
      | true => simp [headsignOf]

/-- The guarded lookup, without one. -/
theorem destinationOf_nil (references : Option CJson) :
    destinationOf [] references = bytesOf "?" := by
  simp [destinationOf]

/-- The trip id of a stop time that names a trip or none. -/
theorem namedTrip_eq (references : Option CJson) (item : CJson) :
    namedTrip references item =
      if tripIdOf (some item) = [] then none
      else referenced references (bytesOf "trips") (tripIdOf (some item)) := by
  unfold namedTrip tripIdOf
  cases CJson.stringValue
      (CJson.getObjectItem (some item) (bytesOf "tripId")) with
  | none => rfl
  | some tripId => rfl

/-! ## When the arrivals are attributed right -/

/-- The stop time names no trip: it has no string `tripId`, or an empty one. -/
def NamesNoTrip (item : CJson) : Prop :=
  ∀ tripId, CJson.stringValue
      (CJson.getObjectItem (some item) (bytesOf "tripId")) = some tripId →
    tripId = []

/-- Nothing can be told of a trip under the empty key: there is none that has a
route, or the route is shown like no route at all. -/
def EmptyKeyHarmless (references : Option CJson) : Prop :=
  let routeId := routeIdOf (referenced references (bytesOf "trips") [])
  routeId ≠ [] →
    (cString (lineOfRoute routeId references)).take (arrivalLineMaxLen - 1) =
        bytesOf "n.a." ∧
      typeOfRoute routeId references = .unknown

theorem namesNoTrip_iff {item : CJson} :
    NamesNoTrip item ↔ tripIdOf (some item) = [] := by
  unfold NamesNoTrip tripIdOf
  cases CJson.stringValue
      (CJson.getObjectItem (some item) (bytesOf "tripId")) with
  | none => simp
  | some tripId => simp

section Element

variable (localTime : Int → Option Tm) (r : Response) {item : CJson} (time : Rat)

/-- With a trip id both lookups find the same trip. -/
theorem attributed_of_tripId (h : tripIdOf (some item) ≠ []) :
    Attributed (attributionOf r.references (namedTrip r.references item))
      (arrivalAt localTime r item time) := by
  have hline := lineOf_eq (tripIdOf (some item)) r.references
  have hdestination := destinationOf_eq h r.references
  rw [namedTrip_eq, if_neg h]
  have hroute : findRouteIdForTrip (tripIdOf (some item)) r.references =
      routeIdOf (referenced r.references (bytesOf "trips")
        (tripIdOf (some item))) := rfl
  cases htrip : referenced r.references (bytesOf "trips")
      (tripIdOf (some item)) with
  | none =>
      rw [htrip] at hroute hdestination
      have hnone : findRouteIdForTrip (tripIdOf (some item)) r.references = [] :=
        hroute
      rw [hnone] at hline
      constructor
      · show terminatedCopy _ _ = _
        rw [hline]
        rfl
      · show findTypeForRouteId _ _ = _
        rw [hnone]
        rfl
      · show terminatedCopy _ _ = _
        rw [hdestination]
        rfl
  | some trip =>
      rw [htrip] at hroute hdestination
      rw [hroute] at hline
      constructor
      · show terminatedCopy _ _ = _
        rw [hline]
        rfl
      · show findTypeForRouteId _ _ = typeOfRoute _ _
        rw [hroute, typeOfRoute_eq]
      · show terminatedCopy _ _ = _
        rw [hdestination]
        rfl

/-- Without one the trip under the empty key is found for the route. -/
theorem attributed_iff_of_no_tripId (h : tripIdOf (some item) = []) :
    Attributed (attributionOf r.references (namedTrip r.references item))
        (arrivalAt localTime r item time) ↔
      EmptyKeyHarmless r.references := by
  have hlineId : (arrivalAt localTime r item time).lineId = terminatedCopy _
      (lineOfRoute (routeIdOf (referenced r.references (bytesOf "trips") []))
        r.references) := by
    show terminatedCopy _ _ = _
    rw [h, lineOf_eq]
    rfl
  have htype : (arrivalAt localTime r item time).vehicleType =
      typeOfRoute (routeIdOf (referenced r.references (bytesOf "trips") []))
        r.references := by
    show findTypeForRouteId _ _ = _
    rw [h, typeOfRoute_eq]
    rfl
  have hdestination : (arrivalAt localTime r item time).destination =
      terminatedCopy _ (bytesOf "?") := by
    show terminatedCopy _ _ = _
    rw [h, destinationOf_nil]
  have hfallback : (cString (bytesOf "n.a.")).take (arrivalLineMaxLen - 1) =
      bytesOf "n.a." := by decide
  rw [namedTrip_eq, if_pos h]
  constructor
  · intro hattributed _
    have hline := hattributed.lineId
    rw [hlineId] at hline
    have htaken := (terminatedCopy_inj (by decide)).1 hline
    rw [← htype]
    exact ⟨htaken.trans hfallback, hattributed.vehicleType⟩
  · intro hharmless
    by_cases hroute :
        routeIdOf (referenced r.references (bytesOf "trips") []) = []
    · rw [hroute] at hlineId htype
      exact ⟨hlineId, htype, hdestination⟩
    · obtain ⟨hline, hunknown⟩ := hharmless hroute
      rw [hunknown] at htype
      refine ⟨?_, htype, hdestination⟩
      rw [hlineId]
      exact (terminatedCopy_inj (by decide)).2 (hline.trans hfallback.symm)

end Element

/-- Every arrival of a response is attributed to the trip that its stop time
names, or to none, exactly when no valid stop time without a trip meets a trip
under the empty key that shows. -/
theorem attributed_iff {cJsonParse : Bytes → Option CJson}
    (hcounts : CountsItems cJsonParse) (localTime : Int → Option Tm)
    {responseBody : Bytes} {r : Response}
    (hlocated : Located (cJsonParse (cString responseBody)) r) :
    (∀ item arrival,
        Emits cJsonParse localTime responseBody r item arrival →
        Attributed (attributionOf r.references (namedTrip r.references item))
          arrival) ↔
      ((∃ item ∈ r.stopTimes, isValid item = true ∧ NamesNoTrip item) →
        EmptyKeyHarmless r.references) := by
  constructor
  · intro h hexists
    obtain ⟨item, hitem, hvalid, hnone⟩ := hexists
    rw [← chosenTime_isSome] at hvalid
    obtain ⟨time, htime⟩ := Option.isSome_iff_exists.1 hvalid
    have harrival := arrivalOf_eq_some_iff.2
      ⟨time, htime, (rfl : arrivalAt localTime r item time = _)⟩
    have hattributed :=
      h item _ ((emits_iff hcounts hlocated).2 ⟨hitem, harrival⟩)
    exact (attributed_iff_of_no_tripId localTime r time
      (namesNoTrip_iff.1 hnone)).1 hattributed
  · intro hcondition item arrival hemits
    obtain ⟨hitem, harrival⟩ := (emits_iff hcounts hlocated).1 hemits
    obtain ⟨time, htime, hat⟩ := arrivalOf_eq_some_iff.1 harrival
    rw [← hat]
    by_cases htrip : tripIdOf (some item) = []
    · have hvalid : isValid item = true := by
        rw [← chosenTime_isSome, htime]
        rfl
      apply (attributed_iff_of_no_tripId localTime r time htrip).2
      exact hcondition ⟨item, hitem, hvalid, namesNoTrip_iff.2 htrip⟩
    · exact attributed_of_tripId localTime r time htrip

/-- A stop time with a trip. -/
def tripStopTime : CJson :=
  .object [(bytesOf "tripId", .string (bytesOf "T")),
    (bytesOf "arrivalTime", .number 60)]

/-- That one and one without a trip; the trip under the empty key has no route. -/
def tripResponse : Response where
  references := some (.object
    [(bytesOf "trips", .object
        [(bytesOf "T", .object
            [(bytesOf "routeId", .string (bytesOf "BKK_0070")),
              (bytesOf "tripHeadsign", .string (bytesOf "Keleti"))]),
          ([], .object [(bytesOf "tripHeadsign", .string (bytesOf "Depot"))])]),
      (bytesOf "routes", .object
        [(bytesOf "BKK_0070", .object
            [(bytesOf "shortName", .string (bytesOf "7")),
              (bytesOf "type", .string (bytesOf "BUS"))])])])
  currentTime := some 0
  stopTimes := [tripStopTime, arrivesAt 120]

/-- Its text. -/
def tripText : Bytes :=
  bytesOf "\x7b\"currentTime\":0,\"data\":\x7b\"entry\":\x7b\"stopTimes\":[" ++
    bytesOf "\x7b\"tripId\":\"T\",\"arrivalTime\":60\x7d," ++
    bytesOf "\x7b\"arrivalTime\":120\x7d]\x7d,\"references\":\x7b\"trips\":" ++
    bytesOf "\x7b\"T\":\x7b\"routeId\":\"BKK_0070\",\"tripHeadsign\":\"Keleti\"\x7d," ++
    bytesOf "\"\":\x7b\"tripHeadsign\":\"Depot\"\x7d\x7d,\"routes\":" ++
    bytesOf "\x7b\"BKK_0070\":\x7b\"shortName\":\"7\",\"type\":\"BUS\"\x7d\x7d\x7d\x7d\x7d"

theorem located_trip :
    Located (knows tripText tripResponse (cString tripText)) tripResponse :=
  located_knows (by decide +kernel) _

/-- Both arrivals are attributed right, one to its trip and one to none. -/
theorem attributed_iff_trip :
    Attributed
        { line := bytesOf "7", vehicleType := .bus, destination := bytesOf "Keleti" }
        (arrivalAt (fun _ => none) tripResponse tripStopTime 60) ∧
      Attributed Attribution.unknown
        (arrivalAt (fun _ => none) tripResponse (arrivesAt 120) 120) := by
  have hroute : routeIdOf (referenced tripResponse.references
      (bytesOf "trips") []) = [] := by decide +kernel
  have hharmless : EmptyKeyHarmless tripResponse.references :=
    fun hroutes => absurd hroute hroutes
  have hcounts : CountsItems (knows tripText tripResponse) :=
    countsItems_knows (by decide)
  have hall := (attributed_iff hcounts (fun _ => none) located_trip).2
    fun _ => hharmless
  have hnamed : attributionOf tripResponse.references
      (namedTrip tripResponse.references tripStopTime) =
      { line := bytesOf "7", vehicleType := .bus, destination := bytesOf "Keleti" } :=
    by decide +kernel
  constructor
  · rw [← hnamed]
    exact hall _ _ ((emits_iff hcounts located_trip).2 ⟨List.mem_cons_self, rfl⟩)
  · exact hall _ _ ((emits_iff hcounts located_trip).2
      ⟨List.mem_cons_of_mem _ List.mem_cons_self, rfl⟩)

/-! ## A trip under the empty key -/

/-- A stop time without a trip, and a trip under the empty key. -/
def emptyKeyResponse : Response where
  references := some (.object [(bytesOf "trips", .object
    [([], .object [(bytesOf "routeId", .string (bytesOf "BKK_0530"))])])])
  currentTime := some 0
  stopTimes := [arrivesAt 60]

/-- Its text. -/
def emptyKeyText : Bytes :=
  bytesOf "\x7b\"currentTime\":0,\"data\":\x7b\"entry\":\x7b\"stopTimes\":[" ++
    bytesOf "\x7b\"arrivalTime\":60\x7d]\x7d,\"references\":" ++
    bytesOf "\x7b\"trips\":\x7b\"\":\x7b\"routeId\":\"BKK_0530\"\x7d\x7d\x7d\x7d\x7d"

theorem countsItems_emptyKey : CountsItems (knows emptyKeyText emptyKeyResponse) :=
  countsItems_knows (by decide)

theorem located_emptyKey :
    Located (knows emptyKeyText emptyKeyResponse (cString emptyKeyText))
      emptyKeyResponse :=
  located_knows (by decide +kernel) _

/-- Its one arrival is shown as the line of that trip. -/
theorem emptyKey_not_attributed :
    ¬∀ item arrival,
      Emits (knows emptyKeyText emptyKeyResponse) (fun _ => none) emptyKeyText
          emptyKeyResponse item arrival →
        Attributed (attributionOf emptyKeyResponse.references
          (namedTrip emptyKeyResponse.references item)) arrival := by
  intro h
  have hemits : Emits (knows emptyKeyText emptyKeyResponse) (fun _ => none)
      emptyKeyText emptyKeyResponse (arrivesAt 60)
      (arrivalAt (fun _ => none) emptyKeyResponse (arrivesAt 60) 60) :=
    (emits_iff countsItems_emptyKey located_emptyKey).2
      ⟨List.mem_cons_self, rfl⟩
  have hline := (h _ _ hemits).lineId
  exact absurd hline (by decide)

end BkkApi.Server.TripAttribution
