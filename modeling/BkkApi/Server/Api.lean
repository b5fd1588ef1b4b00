import BkkApi.Server.ResponseParser
import Mathlib.Data.List.Sort

/-!
# Fetching the arrivals of one stop

The functions of `bkk_api.cpp`.  libcurl is not part of the repository: a call
finds it as a `Curl` value, which says whether `curl_easy_init` succeeds and, if
so, what transferring a given URL brings back.  A `std::exception` anywhere in
the `try` block of `get_arrivals_for_station` is one more outcome of the
transfer.

`servable_of_ok` is the contract of the layer: a call that returns `Ok` has
filled its output with arrivals that may be served.
-/

namespace BkkApi.Server.Api

open BkkApi.Verified.CData
open BkkApi.Server.Protocol
open BkkApi.Server.ResponseParser

/-! ## libcurl -/

/-- How one `curl_easy_perform` ends: with an error, with a status code, or
with an exception thrown around it.  What has arrived of the body comes in
chunks. -/
inductive Transfer
  | failed (chunks : List Bytes)
  | replied (httpCode : Int) (chunks : List Bytes)
  | thrown
  deriving DecidableEq

/-- libcurl as one call finds it: `none` when `curl_easy_init` fails. -/
abbrev Curl := Option (Bytes → Transfer)

/-- `std::exception`. -/
inductive StdException
  | thrown
  deriving DecidableEq

/-- `WriteCallback`: append the chunk. -/
def writeCallback (userp contents : Bytes) : Bytes := userp ++ contents

/-! ## The request -/

/-- `BASE_URL`. -/
def baseUrl : Bytes :=
  bytesOf "https://futar.bkk.hu/api/query/v1/ws/otp/api/where"

/-- A `std::map` with these distinct keys, in its order of iteration. -/
def stdMap (init : List (Bytes × Bytes)) : List (Bytes × Bytes) :=
  init.insertionSort fun p q => p.1 ≤ q.1

/-- The loop of `make_request` over its parameters: the URL so far, and
whether none has been appended yet. -/
def appendParams (url : Bytes) (params : List (Bytes × Bytes)) : Bytes × Bool :=
  params.foldl
    (fun (url, first) param =>
      ((if !first then url ++ bytesOf "&" else url) ++
        (param.1 ++ bytesOf "=" ++ param.2), false))
    (url, true)

/-- The URL that `make_request` builds. -/
def requestUrl (endpoint apiKey : Bytes) (params : List (Bytes × Bytes)) :
    Bytes :=
  let (url, first) :=
    appendParams (baseUrl ++ bytesOf "/" ++ endpoint ++ bytesOf "?") params
  (if !first then url ++ bytesOf "&" else url) ++ (bytesOf "key=" ++ apiKey)

/-- `make_request` once `curl_easy_perform` has returned: the status, and what
has been collected in `*response_out`. -/
def afterPerform : Transfer → Except StdException (BkkApiStatus × Bytes)
  | .thrown => .error .thrown
  | .failed chunks =>
      .ok (.curlPerformFailed, chunks.foldl writeCallback [])
  | .replied httpCode chunks =>
      let response := chunks.foldl writeCallback []
      if httpCode = 401 then .ok (.invalidApiKey, response)
      else if httpCode < 200 ∨ httpCode ≥ 300 then .ok (.httpError, response)
      else .ok (.ok, response)

/-- `make_request` with a non-null `response_out`. -/
def makeRequest (endpoint apiKey : Bytes) (params : List (Bytes × Bytes))
    (curl : Curl) : Except StdException (BkkApiStatus × Bytes) :=
  if apiKey = [] then .ok (.missingApiKey, [])
  else
    match curl with
    | none => .ok (.curlInitFailed, [])
    | some perform =>
        afterPerform (perform (cString (requestUrl endpoint apiKey params)))

/-- `get_arrivals_for_stop`'s `formatted_stop_id`. -/
def formattedStopId (stopId : Bytes) : Bytes :=
  if (bytesOf "BKK_").isPrefixOf stopId then stopId
  else bytesOf "BKK_" ++ stopId

/-- The parameters of `get_arrivals_for_stop`. -/
def stopParams (stopId : Bytes) : List (Bytes × Bytes) :=
  stdMap
    [ (bytesOf "stopId", formattedStopId stopId)
    , (bytesOf "onlyDepartures", bytesOf "1")
    , (bytesOf "minutesBefore", bytesOf "0")
    , (bytesOf "minutesAfter", bytesOf "30") ]

/-- `get_arrivals_for_stop`. -/
def getArrivalsForStop (stopId apiKey : Bytes) (curl : Curl) :
    Except StdException (BkkApiStatus × Bytes) :=
  makeRequest (bytesOf "arrivals-and-departures-for-stop.json") apiKey
    (stopParams stopId) curl

section Station

variable (cJsonParse : Bytes → Option CJson)

/-- `bkk_api::get_arrivals_for_station` with a non-null output vector: the
status and the vector's contents. -/
def getArrivalsForStation (timeinfo : Nat → Int → Option Tm)
    (stopId apiKey : Bytes) (curl : Curl) : BkkApiStatus × List Arrival :=
  match getArrivalsForStop stopId apiKey curl with
  | .error _ => (.unexpectedException, [])
  | .ok (fetchStatus, serverResponse) =>
      if fetchStatus ≠ .ok then (fetchStatus, [])
      else
        let parsed := parseArrivalsResponse cJsonParse timeinfo serverResponse
        if !isSuccessfulParseStatus parsed.1 then
          (.arrivalsParseFailed, parsed.2)
        else (.ok, parsed.2)

variable {cJsonParse}

/-- A call that returns `Ok` delivers arrivals that may be served. -/
theorem servable_of_ok {timeinfo : Nat → Int → Option Tm}
    {stopId apiKey : Bytes} {curl : Curl} {arrivals : List Arrival}
    (h : getArrivalsForStation cJsonParse timeinfo stopId apiKey curl =
      (.ok, arrivals)) : Servable arrivals := by
  unfold getArrivalsForStation at h
  cases hstop : getArrivalsForStop stopId apiKey curl with
  | error e => simp [hstop] at h
  | ok reply =>
      obtain ⟨fetchStatus, serverResponse⟩ := reply
      simp only [hstop] at h
      by_cases hfetch : fetchStatus = .ok
      · rw [if_neg (not_not.2 hfetch)] at h
        by_cases hparse : isSuccessfulParseStatus (parseArrivalsResponse
            cJsonParse timeinfo serverResponse).1 = true
        · rw [if_neg (by simp [hparse])] at h
          exact (Prod.mk.inj h).2 ▸ servable_of_parse hparse
        · rw [if_pos (by simpa using hparse)] at h
          exact absurd (Prod.mk.inj h).1 (by decide)
      · rw [if_pos hfetch] at h
        exact absurd (Prod.mk.inj h).1 hfetch

/-- A call that returns `Ok` has got a body, and delivers what is parsed of it. -/
theorem body_of_ok {timeinfo : Nat → Int → Option Tm} {stopId apiKey : Bytes}
    {curl : Curl} {arrivals : List Arrival}
    (h : getArrivalsForStation cJsonParse timeinfo stopId apiKey curl =
      (.ok, arrivals)) :
    ∃ responseBody,
      getArrivalsForStop stopId apiKey curl = .ok (.ok, responseBody) ∧
      (parseArrivalsResponse cJsonParse timeinfo responseBody).2 = arrivals := by
  unfold getArrivalsForStation at h
  cases hstop : getArrivalsForStop stopId apiKey curl with
  | error e =>
      rw [hstop] at h
      cases h
  | ok reply =>
      obtain ⟨fetchStatus, responseBody⟩ := reply
      rw [hstop] at h
      dsimp only at h
      by_cases hfetch : fetchStatus = .ok
      · subst hfetch
        rw [if_neg (not_not.2 rfl)] at h
        refine ⟨responseBody, rfl, ?_⟩
        split at h
        · exact congrArg Prod.snd h
        · exact congrArg Prod.snd h
      · rw [if_pos hfetch] at h
        exact absurd (congrArg Prod.fst h) hfetch

/-- A reply that came through is handed on as it was parsed. -/
theorem getArrivalsForStation_of_parse {timeinfo : Nat → Int → Option Tm}
    {stopId apiKey responseBody : Bytes} {curl : Curl}
    {status : ArrivalsParseStatus} {arrivals : List Arrival}
    (hreply : getArrivalsForStop stopId apiKey curl = .ok (.ok, responseBody))
    (hparse : parseArrivalsResponse cJsonParse timeinfo responseBody =
      (status, arrivals)) :
    getArrivalsForStation cJsonParse timeinfo stopId apiKey curl =
      (if isSuccessfulParseStatus status then .ok else .arrivalsParseFailed,
        arrivals) := by
  unfold getArrivalsForStation
  simp only [hreply, hparse]
  cases isSuccessfulParseStatus status with
  | true | false => rfl

/-- Without a key no transfer is made, whatever libcurl would do. -/
theorem getArrivalsForStation_of_no_key (timeinfo : Nat → Int → Option Tm)
    (stopId : Bytes) (curl : Curl) :
    getArrivalsForStation cJsonParse timeinfo stopId [] curl =
      (.missingApiKey, []) := rfl

/-- A failed initialisation is reported as such. -/
theorem getArrivalsForStation_of_no_curl (timeinfo : Nat → Int → Option Tm)
    (stopId : Bytes) {apiKey : Bytes} (hkey : apiKey ≠ []) :
    getArrivalsForStation cJsonParse timeinfo stopId apiKey none =
      (.curlInitFailed, []) := by
  have hstop : getArrivalsForStop stopId apiKey none =
      .ok (.curlInitFailed, []) := if_neg hkey
  simp [getArrivalsForStation, hstop]

end Station

end BkkApi.Server.Api
