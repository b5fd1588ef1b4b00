import BkkApi.Verified.FloatFormat
import BkkApi.Server.Protocol

/-!
# Reading an upstream response

`parse_arrivals_response` of `bkk_response_parser.cpp`.  The JSON text is
parsed by cJSON, which is not part of the repository: it enters as the
parameter `cJsonParse`, and `CJson` is the tree it hands out.

Two things are kept as inputs rather than computed.

* `std::localtime` returns a pointer to one buffer of the whole process.  What
  `std::put_time` finds there for the `i`-th element is `timeinfo i`, which may
  depend on more than the converted instant when other threads convert too.
* Numbers are rationals, and the source's arithmetic on `double`s rounds each
  result (`toDouble`).  No result is too large for a `double`, so there are no
  infinities.  The two narrowing conversions of the source are undefined outside
  their target's range; `toLongLong` and `toInt` then give what the x86-64
  conversion instructions leave.

`servable_of_parse` is the result the callers rely on: a status that counts as
successful comes with at least one arrival, and never with more than an `int`
can count.
-/

namespace BkkApi.Server.ResponseParser

open BkkApi.Verified.CData
open BkkApi.Verified.FloatFormat
open BkkApi.Server.Protocol

/-! ## The JSON tree -/

/-- A cJSON item.  Names and strings are the bytes before their terminator. -/
inductive CJson
  | null
  | bool (value : Bool)
  | number (valuedouble : Rat)
  | string (valuestring : Bytes)
  | array (items : List CJson)
  | object (members : List (Bytes × CJson))

namespace CJson

/-- `cJSON_GetObjectItemCaseSensitive`: the first member of that name. -/
def getObjectItem (item : Option CJson) (name : Bytes) : Option CJson :=
  match item with
  | some (.object members) =>
      (members.find? fun member => member.1 == name).map Prod.snd
  | _ => none

/-- `cJSON_IsObject`. -/
def isObject : Option CJson → Bool
  | some (.object _) => true
  | _ => false

/-- `item->valuestring`, when `cJSON_IsString(item)`. -/
def stringValue : Option CJson → Option Bytes
  | some (.string valuestring) => some valuestring
  | _ => none

/-- `cJSON_GetNumberValue(item)`, when `cJSON_IsNumber(item)`. -/
def numberValue : Option CJson → Option Rat
  | some (.number valuedouble) => some valuedouble
  | _ => none

/-- The items of an array, when `cJSON_IsArray(item)`. -/
def arrayItems : Option CJson → Option (List CJson)
  | some (.array items) => some items
  | _ => none

/-- `cJSON_GetArraySize`: the number of items, returned as an `int`. -/
def getArraySize (items : List CJson) : Int := int32 items.length

end CJson

/-! ## Routes of trips -/

/-- The object `references.<table>.<key>`, when both are objects. -/
def referenced (references : Option CJson) (table key : Bytes) : Option CJson :=
  let entries := CJson.getObjectItem references table
  if CJson.isObject entries then
    let entry := CJson.getObjectItem entries key
    if CJson.isObject entry then entry else none
  else none

/-- `find_route_id_for_trip`. -/
def findRouteIdForTrip (tripId : Bytes) (references : Option CJson) : Bytes :=
  let trip := referenced references (bytesOf "trips") tripId
  (CJson.stringValue (CJson.getObjectItem trip (bytesOf "routeId"))).getD []

/-- `find_route_name_for_route_id`. -/
def findRouteNameForRouteId (routeId : Bytes) (references : Option CJson) :
    Bytes :=
  if routeId = [] then []
  else
    let route := referenced references (bytesOf "routes") routeId
    (CJson.stringValue (CJson.getObjectItem route (bytesOf "shortName"))).getD []

/-- The comparisons of `find_type_for_route_id`, in order. -/
def vehicleTypeNames : List (Bytes × VehicleType) :=
  [ (bytesOf "BUS", .bus)
  , (bytesOf "TRAM", .tram)
  , (bytesOf "TROLLEYBUS", .trolleybus)
  , (bytesOf "SUBWAY", .metro)
  , (bytesOf "SUBURBAN_RAILWAY", .suburbRail)
  , (bytesOf "RAIL", .rail)
  , (bytesOf "FERRY", .ferry)
  , (bytesOf "CABLE_CAR", .cableCar)
  , (bytesOf "FUNICULAR", .funicular)
  , (bytesOf "GONDOLA", .gondola)
  , (bytesOf "COACH", .coach)
  , (bytesOf "BICYCLE", .bicycle)
  , (bytesOf "CAR", .car)
  , (bytesOf "WALK", .walk)
  , (bytesOf "LOCAL", .local)
  , (bytesOf "TRANSIT", .transit) ]

/-- `find_type_for_route_id`. -/
def findTypeForRouteId (routeId : Bytes) (references : Option CJson) :
    VehicleType :=
  if routeId = [] then .unknown
  else
    let route := referenced references (bytesOf "routes") routeId
    match CJson.stringValue (CJson.getObjectItem route (bytesOf "type")) with
    | some text =>
        ((vehicleTypeNames.find? fun row => row.1 == text).map Prod.snd).getD
          .unknown
    | none => .unknown

/-! ## Numbers -/

/-- Truncation toward zero. -/
def truncate (x : Rat) : Int := x.num.tdiv x.den

/-- `std::round`: nearest integer, halves away from zero. -/
def roundHalfAway (x : Rat) : Int :=
  if 0 ≤ x then (x + 1 / 2).floor else -((-x + 1 / 2).floor)

/-- `static_cast<long long>(x)`. -/
def toLongLong (x : Rat) : Int :=
  if -2 ^ 63 ≤ truncate x ∧ truncate x < 2 ^ 63 then truncate x else -2 ^ 63

/-- `static_cast<int>(x)` of an integral `x`. -/
def toInt (x : Int) : Int :=
  if -2 ^ 31 ≤ x ∧ x < 2 ^ 31 then x else -2 ^ 31

/-- The `double` that an operation with the exact result `x` gives. -/
def toDouble (x : Rat) : Rat := binary64.round x

/-- `currentTime / 1000.0`. -/
def apiTimeOf (millis : Rat) : Rat := toDouble (millis / 1000)

/-- `departs_in_min`: `static_cast<double>(departure_time)`, the difference and
the quotient are rounded one after the other. -/
def departsInMinOf (departureTime : Int) (apiTimeS : Rat) : Int :=
  toInt (roundHalfAway
    (toDouble (toDouble (toDouble departureTime - apiTimeS) / 60)))

/-! ## Clock texts -/

/-- The fields of `std::tm` that `%H:%M` reads. -/
structure Tm where
  tmHour : Nat
  tmMin : Nat

/-- Two decimal digits. -/
def twoDigits (n : Nat) : Bytes :=
  [UInt8.ofNat (48 + n / 10 % 10), UInt8.ofNat (48 + n % 10)]

/-- `std::put_time(timeinfo, "%H:%M")`, or `00:00` for a null pointer. -/
def clockText : Option Tm → Bytes
  | some tm => twoDigits tm.tmHour ++ bytesOf ":" ++ twoDigits tm.tmMin
  | none => bytesOf "00:00"

/-! ## One element of `stopTimes` -/

/-- The trip of a stop time, `""` without a string `tripId`. -/
def tripIdOf (stopTime : Option CJson) : Bytes :=
  (CJson.stringValue (CJson.getObjectItem stopTime (bytesOf "tripId"))).getD []

/-- The line text: the route's name, else its id, else `n.a.`. -/
def lineOf (tripId : Bytes) (references : Option CJson) : Bytes :=
  let routeId := findRouteIdForTrip tripId references
  let line := findRouteNameForRouteId routeId references
  if line = [] then (if routeId ≠ [] then routeId else bytesOf "n.a.") else line

/-- The chosen time: predicted arrival, else scheduled arrival. -/
def chosenTime (stopTime : Option CJson) : Option Rat :=
  match CJson.numberValue
      (CJson.getObjectItem stopTime (bytesOf "predictedArrivalTime")) with
  | some predicted => some predicted
  | none =>
      CJson.numberValue (CJson.getObjectItem stopTime (bytesOf "arrivalTime"))

/-- The destination text: the trip's headsign, else `?`. -/
def destinationOf (tripId : Bytes) (references : Option CJson) : Bytes :=
  let trips :=
    if CJson.isObject references then
      CJson.getObjectItem references (bytesOf "trips")
    else none
  if CJson.isObject trips ∧ tripId ≠ [] then
    let trip := CJson.getObjectItem trips tripId
    if CJson.isObject trip then
      (CJson.stringValue
        (CJson.getObjectItem trip (bytesOf "tripHeadsign"))).getD (bytesOf "?")
    else bytesOf "?"
  else bytesOf "?"

/-- The body of the loop for one element; `none` where the element is counted
as skipped. -/
def stopTimeArrival (timeinfo : Int → Option Tm) (references : Option CJson)
    (apiTimeS : Rat) (item : CJson) : Option Arrival :=
  let stopTime := some item
  if CJson.isObject stopTime then
    let tripId := tripIdOf stopTime
    let routeId := findRouteIdForTrip tripId references
    (chosenTime stopTime).map fun time =>
      let departureTime := toLongLong time
      { lineId := terminatedCopy _ (lineOf tripId references)
        vehicleType := findTypeForRouteId routeId references
        destination := terminatedCopy _ (destinationOf tripId references)
        departureTime := terminatedCopy _ (clockText (timeinfo departureTime))
        departsInMin := departsInMinOf departureTime apiTimeS
        timestamp := departureTime }
  else none

/-! ## The whole response -/

/-- `ArrivalsParseStatus`. -/
inductive ArrivalsParseStatus
  | success
  | successWithWarnings
  | invalidJson
  | rootNotObject
  | missingDataObject
  | missingEntryObject
  | stopTimesNotArray
  | emptyStopTimes
  | noValidStopTimes
  deriving DecidableEq, Repr

/-- The loop over `stopTimes` from index `i`: `*output_arrivals` and
`skipped_stop_times`. -/
def stopTimesLoop (timeinfo : Nat → Int → Option Tm)
    (references : Option CJson) (apiTimeS : Rat) :
    Nat → List CJson → List Arrival × Nat → List Arrival × Nat
  | _, [], acc => acc
  | i, item :: rest, (output, skipped) =>
      match stopTimeArrival (timeinfo i) references apiTimeS item with
      | none =>
          stopTimesLoop timeinfo references apiTimeS (i + 1) rest
            (output, skipped + 1)
      | some arrival =>
          stopTimesLoop timeinfo references apiTimeS (i + 1) rest
            (output ++ [arrival], skipped)

/-- The end of `parse_arrivals_response`: the status is decided by what the
loop leaves. -/
def afterLoop (out : List Arrival × Nat) : ArrivalsParseStatus × List Arrival :=
  if out.1 = [] then (.noValidStopTimes, out.1)
  else if 0 < out.2 then (.successWithWarnings, out.1)
  else (.success, out.1)

theorem afterLoop_snd (out : List Arrival × Nat) : (afterLoop out).2 = out.1 := by
  unfold afterLoop
  split
  · rfl
  · split <;> rfl

/-- `parse_arrivals_response` from the point where `stopTimes` is known to be
an array. -/
def parseStopTimes (timeinfo : Nat → Int → Option Tm)
    (references : Option CJson) (apiTimeS : Rat) (stopTimes : List CJson) :
    ArrivalsParseStatus × List Arrival :=
  let stopTimeCount := CJson.getArraySize stopTimes
  if stopTimeCount = 0 then (.emptyStopTimes, [])
  else
    afterLoop (stopTimesLoop timeinfo references apiTimeS 0
      (stopTimes.take stopTimeCount.toNat) ([], 0))

/-- `parse_arrivals_response` with a non-null output vector, which it clears
first. -/
def parseArrivalsResponse (cJsonParse : Bytes → Option CJson)
    (timeinfo : Nat → Int → Option Tm) (responseBody : Bytes) :
    ArrivalsParseStatus × List Arrival :=
  match cJsonParse (cString responseBody) with
  | none => (.invalidJson, [])
  | some root =>
      let response := some root
      if !CJson.isObject response then (.rootNotObject, [])
      else
        let data := CJson.getObjectItem response (bytesOf "data")
        if !CJson.isObject data then (.missingDataObject, [])
        else
          let entry := CJson.getObjectItem data (bytesOf "entry")
          if !CJson.isObject entry then (.missingEntryObject, [])
          else
            let apiTimeS :=
              match CJson.numberValue
                  (CJson.getObjectItem response (bytesOf "currentTime")) with
              | some millis => apiTimeOf millis
              | none => 0
            match CJson.arrayItems
                (CJson.getObjectItem entry (bytesOf "stopTimes")) with
            | none => (.stopTimesNotArray, [])
            | some stopTimes =>
                parseStopTimes timeinfo
                  (CJson.getObjectItem data (bytesOf "references")) apiTimeS
                  stopTimes

/-- `parse_arrivals_response` with its output pointer: what it returns, and what
`*output_arrivals` holds afterwards.  Whatever the vector held before is
cleared. -/
def parseArrivalsInto (cJsonParse : Bytes → Option CJson)
    (timeinfo : Nat → Int → Option Tm) (responseBody : Bytes) :
    Option (List Arrival) → ArrivalsParseStatus × Option (List Arrival)
  | none => (.noValidStopTimes, none)
  | some _ =>
      let parsed := parseArrivalsResponse cJsonParse timeinfo responseBody
      (parsed.1, some parsed.2)

/-! ## What the callers rely on -/

/-- `is_successful_parse_status`. -/
def isSuccessfulParseStatus (status : ArrivalsParseStatus) : Bool :=
  decide (status = .success) || decide (status = .successWithWarnings)

/-- Every element of the loop is either emitted or counted as skipped. -/
theorem stopTimesLoop_length (timeinfo : Nat → Int → Option Tm)
    (references : Option CJson) (apiTimeS : Rat) (items : List CJson) :
    ∀ (i : Nat) (output : List Arrival) (skipped : Nat),
      (stopTimesLoop timeinfo references apiTimeS i items
          (output, skipped)).1.length +
        (stopTimesLoop timeinfo references apiTimeS i items
          (output, skipped)).2 =
      output.length + skipped + items.length := by
  induction items with
  | nil => intro i output skipped; rfl
  | cons item rest ih =>
      intro i output skipped
      simp only [stopTimesLoop]
      cases stopTimeArrival (timeinfo i) references apiTimeS item with
      | none =>
          simp only [ih, List.length_cons]
          omega
      | some arrival =>
          simp only [ih, List.length_append, List.length_cons, List.length_nil]
          omega

/-- The counter of the loop is an `int`, so no more than an `int` of arrivals
can come out of it. -/
theorem stopTimesLoop_length_le (timeinfo : Nat → Int → Option Tm)
    (references : Option CJson) (apiTimeS : Rat) (items : List CJson) :
    ((stopTimesLoop timeinfo references apiTimeS 0
      (items.take (CJson.getArraySize items).toNat) ([], 0)).1.length : Int) ≤
      intMax := by
  have hsum := stopTimesLoop_length timeinfo references apiTimeS
    (items.take (CJson.getArraySize items).toNat) 0 [] 0
  have htake := List.length_take_le (CJson.getArraySize items).toNat items
  have hint : CJson.getArraySize items ≤ intMax := int32_lt _
  unfold intMax at hint ⊢
  simp only [List.length_nil] at hsum
  omega

/-- A list of arrivals that may be cached and sent: non-empty, and small
enough for its size to fit an `int`. -/
structure Servable (arrivals : List Arrival) : Prop where
  nonempty : arrivals ≠ []
  length_le : (arrivals.length : Int) ≤ intMax

theorem servable_of_afterLoop {out : List Arrival × Nat}
    (h : isSuccessfulParseStatus (afterLoop out).1 = true)
    (hlen : (out.1.length : Int) ≤ intMax) : Servable (afterLoop out).2 := by
  unfold afterLoop at h ⊢
  by_cases hnil : out.1 = []
  · rw [if_pos hnil] at h
    cases h
  · by_cases hskip : 0 < out.2
    · rw [if_neg hnil, if_pos hskip]
      exact ⟨hnil, hlen⟩
    · rw [if_neg hnil, if_neg hskip]
      exact ⟨hnil, hlen⟩

section StopTimes

variable {timeinfo : Nat → Int → Option Tm} {references : Option CJson}
  {apiTimeS : Rat} {stopTimes : List CJson}

theorem parseStopTimes_of_empty (hcount : CJson.getArraySize stopTimes = 0) :
    parseStopTimes timeinfo references apiTimeS stopTimes =
      (.emptyStopTimes, []) := by
  rw [parseStopTimes, if_pos hcount]

theorem parseStopTimes_of_ne (hcount : CJson.getArraySize stopTimes ≠ 0) :
    parseStopTimes timeinfo references apiTimeS stopTimes =
      afterLoop (stopTimesLoop timeinfo references apiTimeS 0
        (stopTimes.take (CJson.getArraySize stopTimes).toNat) ([], 0)) := by
  rw [parseStopTimes, if_neg hcount]

theorem servable_of_parseStopTimes
    (h : isSuccessfulParseStatus
      (parseStopTimes timeinfo references apiTimeS stopTimes).1 = true) :
    Servable (parseStopTimes timeinfo references apiTimeS stopTimes).2 := by
  have hcount : CJson.getArraySize stopTimes ≠ 0 := by
    intro hzero
    rw [parseStopTimes_of_empty hzero] at h
    cases h
  rw [parseStopTimes_of_ne hcount] at h ⊢
  exact servable_of_afterLoop h
    (stopTimesLoop_length_le timeinfo references apiTimeS stopTimes)

end StopTimes

/-- A successful parse gives arrivals that may be served. -/
theorem servable_of_parse {cJsonParse : Bytes → Option CJson}
    {timeinfo : Nat → Int → Option Tm} {responseBody : Bytes}
    (h : isSuccessfulParseStatus
      (parseArrivalsResponse cJsonParse timeinfo responseBody).1 = true) :
    Servable (parseArrivalsResponse cJsonParse timeinfo responseBody).2 := by
  -- only the branch that reaches the array has a successful status
  unfold parseArrivalsResponse at h ⊢
  cases hroot : cJsonParse (cString responseBody) with
  | none => simp [hroot, isSuccessfulParseStatus] at h
  | some root =>
      simp only [hroot] at h ⊢
      split at h
      · cases h
      rename_i hobj
      rw [if_neg hobj]
      split at h
      · cases h
      rename_i hdata
      rw [if_neg hdata]
      split at h
      · cases h
      rename_i hentry
      rw [if_neg hentry]
      split at h
      · cases h
      exact servable_of_parseStopTimes h

end BkkApi.Server.ResponseParser
