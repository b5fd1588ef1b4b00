import BkkApi.Verified.CData

/-!
# The data of the socket protocol

The fixed-size structs that `bkk_api_arrival.h`, `bkk_api_types.h` and
`bkk_uds_protocol.h` share between the server and its clients.  Text fields are
byte arrays of their declared length, `int` and `long long` fields are integers.

A request is a struct in memory, and the server reads its two fields as C
strings.  Nothing in the struct stops such a reading at the end of a field:
`stop_id` is followed by `api_key`, and `api_key` by whatever the memory behind
the struct holds.  `RequestInMemory` therefore carries those bytes too.
-/

namespace BkkApi.Server.Protocol

open BkkApi.Verified.CData

/-! ## Arrivals -/

/-- `ARRIVAL_LINE_MAX_LEN`. -/
def arrivalLineMaxLen : Nat := 8

/-- `ARRIVAL_DESTINATION_MAX_LEN`. -/
def arrivalDestinationMaxLen : Nat := 64

/-- `ARRIVAL_DEPARTURE_TIME_MAX_LEN`. -/
def arrivalDepartureTimeMaxLen : Nat := 16

/-- `vehicle_type_t`, in the order of the enumeration. -/
inductive VehicleType
  | unknown
  | bus
  | tram
  | trolleybus
  | metro
  | suburbRail
  | rail
  | ferry
  | cableCar
  | funicular
  | gondola
  | coach
  | bicycle
  | car
  | walk
  | «local»
  | transit
  deriving DecidableEq, Repr

/-- `vehicle_type_to_string`. -/
def vehicleTypeToString : VehicleType → Bytes
  | .bus => bytesOf "BUS"
  | .tram => bytesOf "TRAM"
  | .trolleybus => bytesOf "TROLLEYBUS"
  | .metro => bytesOf "SUBWAY"
  | .suburbRail => bytesOf "SUBURBAN_RAILWAY"
  | .rail => bytesOf "RAIL"
  | .ferry => bytesOf "FERRY"
  | .cableCar => bytesOf "CABLE_CAR"
  | .funicular => bytesOf "FUNICULAR"
  | .gondola => bytesOf "GONDOLA"
  | .coach => bytesOf "COACH"
  | .bicycle => bytesOf "BICYCLE"
  | .car => bytesOf "CAR"
  | .walk => bytesOf "WALK"
  | .local => bytesOf "LOCAL"
  | .transit => bytesOf "TRANSIT"
  | .unknown => bytesOf "UNKNOWN"

/-- `Arrival`. -/
structure Arrival where
  lineId : Vector UInt8 arrivalLineMaxLen
  vehicleType : VehicleType
  destination : Vector UInt8 arrivalDestinationMaxLen
  departureTime : Vector UInt8 arrivalDepartureTimeMaxLen
  departsInMin : Int
  timestamp : Int
  deriving DecidableEq

/-- A zero-initialised `Arrival`. -/
def Arrival.zero : Arrival where
  lineId := Vector.replicate _ 0
  vehicleType := .unknown
  destination := Vector.replicate _ 0
  departureTime := Vector.replicate _ 0
  departsInMin := 0
  timestamp := 0

/-! ## Status codes -/

/-- `bkk_api_status_t`. -/
inductive BkkApiStatus
  | ok
  | missingApiKey
  | curlInitFailed
  | curlPerformFailed
  | invalidApiKey
  | httpError
  | fetchArrivalsFailed
  | arrivalsParseFailed
  | unexpectedException
  deriving DecidableEq, Repr

/-- `error_code_to_string`. -/
def errorCodeToString : BkkApiStatus → Bytes
  | .ok => bytesOf "Ok"
  | .missingApiKey => bytesOf "MissingApiKey"
  | .curlInitFailed => bytesOf "CurlInitFailed"
  | .curlPerformFailed => bytesOf "CurlPerformFailed"
  | .invalidApiKey => bytesOf "InvalidApiKey"
  | .httpError => bytesOf "HttpError"
  | .fetchArrivalsFailed => bytesOf "FetchArrivalsFailed"
  | .arrivalsParseFailed => bytesOf "ArrivalsParseFailed"
  | .unexpectedException => bytesOf "UnexpectedException"

/-! ## Requests and responses -/

/-- `BKK_UDS_MAX_STOP_ID_LEN`. -/
def bkkUdsMaxStopIdLen : Nat := 64

/-- `BKK_UDS_MAX_ARRIVALS`. -/
def bkkUdsMaxArrivals : Nat := 16

/-- `BKK_UDS_MAX_KEY_LEN`. -/
def bkkUdsMaxKeyLen : Nat := 256

/-- `bkk_uds_request_t`. -/
structure BkkUdsRequest where
  stopId : Vector UInt8 bkkUdsMaxStopIdLen
  apiKey : Vector UInt8 bkkUdsMaxKeyLen
  deriving DecidableEq

/-- `sizeof(bkk_uds_request_t)`: two byte arrays, so there is no padding. -/
def sizeofRequest : Nat := bkkUdsMaxStopIdLen + bkkUdsMaxKeyLen

/-- The request whose object representation starts with `bytes`; bytes that
were not received stay zero. -/
def BkkUdsRequest.ofBytes (bytes : Bytes) : BkkUdsRequest where
  stopId := Vector.ofFn fun i => bytes.getD i.val 0
  apiKey := Vector.ofFn fun i => bytes.getD (bkkUdsMaxStopIdLen + i.val) 0

/-- `bkk_uds_response_t`. -/
structure BkkUdsResponse where
  status : BkkApiStatus
  numberOfArrivals : Int
  arrivals : Vector Arrival bkkUdsMaxArrivals
  deriving DecidableEq

/-! ## Reading the fields of a request -/

/-- A request object together with the bytes that happen to follow it. -/
structure RequestInMemory where
  request : BkkUdsRequest
  beyond : Bytes
  deriving DecidableEq

/-- The C string that starts at `request.stop_id`. -/
def RequestInMemory.stopId (r : RequestInMemory) : Bytes :=
  cString (r.request.stopId.toList ++ (r.request.apiKey.toList ++ r.beyond))

/-- The C string that starts at `request.api_key`. -/
def RequestInMemory.apiKey (r : RequestInMemory) : Bytes :=
  cString (r.request.apiKey.toList ++ r.beyond)

/-- A terminated stop id is read from its own array alone. -/
theorem RequestInMemory.stopId_of_terminated {r : RequestInMemory}
    (h : 0 ∈ r.request.stopId.toList) :
    r.stopId = cString r.request.stopId.toList :=
  cString_append_of_mem h _

/-- A terminated API key is read from its own array alone. -/
theorem RequestInMemory.apiKey_of_terminated {r : RequestInMemory}
    (h : 0 ∈ r.request.apiKey.toList) :
    r.apiKey = cString r.request.apiKey.toList :=
  cString_append_of_mem h _

/-- An unterminated stop id swallows the API key. -/
theorem RequestInMemory.stopId_of_unterminated {r : RequestInMemory}
    (h : 0 ∉ r.request.stopId.toList) :
    r.stopId = r.request.stopId.toList ++ r.apiKey :=
  cString_append_of_not_mem h _

/-- The request read from a full packet has the packet's bytes as its
fields. -/
theorem BkkUdsRequest.ofBytes_fields {bytes : Bytes}
    (hlen : bytes.length = sizeofRequest) :
    (BkkUdsRequest.ofBytes bytes).stopId.toList =
        bytes.take bkkUdsMaxStopIdLen ∧
      (BkkUdsRequest.ofBytes bytes).apiKey.toList =
        bytes.drop bkkUdsMaxStopIdLen := by
  have hsize : bytes.length = bkkUdsMaxStopIdLen + bkkUdsMaxKeyLen := hlen
  constructor
  · refine List.ext_getElem (by simp [hsize]) fun i h₁ h₂ => ?_
    simp only [Vector.length_toList] at h₁
    simp [BkkUdsRequest.ofBytes, List.getD_eq_getElem?_getD,
      List.getElem?_eq_getElem (show i < bytes.length by omega)]
  · refine List.ext_getElem (by simp [hsize]) fun i h₁ h₂ => ?_
    simp only [Vector.length_toList] at h₁
    simp [BkkUdsRequest.ofBytes, List.getD_eq_getElem?_getD,
      List.getElem?_eq_getElem
        (show bkkUdsMaxStopIdLen + i < bytes.length by omega)]

/-- The object representation of a request, as `send` transmits it. -/
def BkkUdsRequest.toBytes (request : BkkUdsRequest) : Bytes :=
  request.stopId.toList ++ request.apiKey.toList

@[simp] theorem BkkUdsRequest.length_toBytes (request : BkkUdsRequest) :
    request.toBytes.length = sizeofRequest := by
  simp [BkkUdsRequest.toBytes, sizeofRequest]

/-- A transmitted request is read back as it was. -/
theorem BkkUdsRequest.ofBytes_toBytes (request : BkkUdsRequest) :
    BkkUdsRequest.ofBytes request.toBytes = request := by
  obtain ⟨hstop, hkey⟩ := BkkUdsRequest.ofBytes_fields request.length_toBytes
  have hfront : request.stopId.toList.length = bkkUdsMaxStopIdLen :=
    Vector.length_toList
  have hstop' := Vector.toList_inj.1 (hstop.trans (List.take_left' hfront))
  have hkey' := Vector.toList_inj.1 (hkey.trans (List.drop_left' hfront))
  generalize BkkUdsRequest.ofBytes request.toBytes = read at hstop' hkey' ⊢
  cases read
  cases hstop'
  cases hkey'
  rfl

end BkkApi.Server.Protocol
