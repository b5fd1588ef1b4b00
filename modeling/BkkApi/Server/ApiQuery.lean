import BkkApi.Server.Api
import BkkApi.Verified.Query

/-!
# What the upstream is asked

`make_request` splices parameter values and the API key between the separators
of a URL without encoding them.  Both the stop id and the key come from the
client as arbitrary bytes, so the question is which of them reach the upstream
as they are.  `asksAsGiven_iff` answers it exactly: those without `&`, `#`, a
terminator, or a percent escape.
-/

namespace BkkApi.Server.ApiQuery

open BkkApi.Verified.CData
open BkkApi.Verified.Query
open BkkApi.Server.Api

/-- `url` is what `get_arrivals_for_stop` hands to libcurl. -/
def HandsToCurl (stopId apiKey url : Bytes) : Prop :=
  ∀ perform : Bytes → Transfer,
    getArrivalsForStop stopId apiKey (some perform) = afterPerform (perform url)

/-- The query part of a URL: what follows its first `?`. -/
def queryPart (url : Bytes) : Bytes := (url.dropWhile (· != 63)).drop 1

/-- The four parameters with their given values, and the key. -/
def askedParams (stopId apiKey : Bytes) : List (Bytes × Bytes) :=
  [ (bytesOf "minutesAfter", bytesOf "30")
  , (bytesOf "minutesBefore", bytesOf "0")
  , (bytesOf "onlyDepartures", bytesOf "1")
  , (bytesOf "stopId", formattedStopId stopId)
  , (bytesOf "key", apiKey) ]

/-- Decoding the query of the URL handed to libcurl gives back exactly what was
asked: nothing added, dropped, overridden or altered. -/
def AsksAsGiven (stopId apiKey : Bytes) : Prop :=
  ∃ url, HandsToCurl stopId apiKey url ∧
    decodeQuery (queryPart url) = askedParams stopId apiKey

/-- Where the reading of a query in memory stops. -/
def endsQuery (b : UInt8) : Bool := b == 0 || b == hashSign

/-- Text without `&`, `#`, terminator or percent escape. -/
abbrev PlainText (text : Bytes) : Prop := Plain endsQuery text

/-! ## The URL -/

/-- The URL that the parameters are spliced into. -/
def urlFront : Bytes :=
  baseUrl ++ bytesOf "/" ++ bytesOf "arrivals-and-departures-for-stop.json"

theorem stopParams_eq (stopId : Bytes) :
    stopParams stopId =
      [ (bytesOf "minutesAfter", bytesOf "30")
      , (bytesOf "minutesBefore", bytesOf "0")
      , (bytesOf "onlyDepartures", bytesOf "1")
      , (bytesOf "stopId", formattedStopId stopId) ] := by
  rfl

/-- The loop of `make_request` and its last step write the parameters the way
`joinParams` does. -/
theorem requestUrl_eq (stopId apiKey : Bytes) :
    requestUrl (bytesOf "arrivals-and-departures-for-stop.json") apiKey
        (stopParams stopId) =
      urlFront ++ 63 :: joinParams (askedParams stopId apiKey) := by
  have hamp : bytesOf "&" = [ampersand] := rfl
  have hequals : bytesOf "=" = [equalsSign] := rfl
  have hmark : bytesOf "?" = [63] := rfl
  have hkey : bytesOf "key=" = bytesOf "key" ++ [equalsSign] := rfl
  rw [stopParams_eq]
  simp only [requestUrl, appendParams, List.foldl_cons, List.foldl_nil,
    Bool.not_true, Bool.not_false, Bool.false_eq_true, if_true, if_false,
    hamp, hequals, hmark, hkey, joinParams, askedParams, urlFront,
    List.append_assoc, List.cons_append, List.nil_append]

theorem urlFront_clean : (urlFront.all fun b => b != 63) = true := by
  decide

/-- Handing over is handing over one definite URL. -/
theorem handsToCurl_iff (stopId url : Bytes) {apiKey : Bytes}
    (hkey : apiKey ≠ []) :
    HandsToCurl stopId apiKey url ↔
      url = cString (urlFront ++ 63 :: joinParams (askedParams stopId apiKey)) := by
  have hcall : ∀ perform : Bytes → Transfer,
      getArrivalsForStop stopId apiKey (some perform) = afterPerform (perform
        (cString (urlFront ++ 63 :: joinParams (askedParams stopId apiKey)))) := by
    intro perform
    rw [getArrivalsForStop, makeRequest, if_neg hkey, requestUrl_eq]
  constructor
  · intro h
    -- an upstream that echoes the URL tells two URLs apart
    have hecho := (h fun url => .replied 200 [url]).symm.trans (hcall _)
    simpa [afterPerform, writeCallback] using hecho
  · rintro rfl
    exact hcall

/-- The query of the URL, as libcurl reads it out of memory. -/
theorem queryPart_url (query : Bytes) :
    queryPart (cString (urlFront ++ 63 :: query)) = cString query := by
  have hzero : 0 ∉ urlFront ++ [63] := by decide
  have hfront : cString (urlFront ++ 63 :: query) =
      urlFront ++ 63 :: cString query := by
    have h := cString_append_of_not_mem hzero query
    simpa using h
  rw [hfront, queryPart,
    List.dropWhile_append_of_pos (List.all_eq_true.1 urlFront_clean)]
  rfl

/-! ## Plain values -/

theorem plainName_of_asked (stopId apiKey : Bytes) :
    ∀ p ∈ askedParams stopId apiKey, PlainName endsQuery p.1 := by
  have hname : ∀ name ∈ [bytesOf "minutesAfter", bytesOf "minutesBefore",
      bytesOf "onlyDepartures", bytesOf "stopId", bytesOf "key"],
      Plain endsQuery name ∧ equalsSign ∉ name := by decide
  intro p hp
  have hmem : p.1 ∈ [bytesOf "minutesAfter", bytesOf "minutesBefore",
      bytesOf "onlyDepartures", bytesOf "stopId", bytesOf "key"] :=
    List.mem_map_of_mem (f := Prod.fst) hp
  exact { toPlain := (hname p.1 hmem).1, no_equals := (hname p.1 hmem).2 }

/-- Putting the prefix in front of a stop id makes no escape and breaks
none. -/
theorem hasEscape_formatted (stopId : Bytes) :
    hasEscape (bytesOf "BKK_" ++ stopId) = hasEscape stopId := by
  have hstep : ∀ (b : UInt8) (rest : Bytes), b ≠ percentSign →
      hasEscape (b :: rest) = hasEscape rest := by
    intro b rest hb
    match rest with
    | [] => rfl
    | [_] => rfl
    | h :: l :: rest => simp [hasEscape, escapedByte?, hb]
  show hasEscape (66 :: 75 :: 75 :: 95 :: stopId) = hasEscape stopId
  rw [hstep _ _ (by decide), hstep _ _ (by decide), hstep _ _ (by decide),
    hstep _ _ (by decide)]

/-- Adding the missing prefix keeps a stop id plain or not plain. -/
theorem plainText_formattedStopId (stopId : Bytes) :
    PlainText (formattedStopId stopId) ↔ PlainText stopId := by
  unfold formattedStopId
  split
  · exact Iff.rfl
  · have hfront : PlainText (bytesOf "BKK_") := by decide
    constructor
    · intro h
      exact
        { no_separator := fun hb =>
            h.no_separator (List.mem_append_right _ hb)
          no_end := fun b hb => h.no_end b (List.mem_append_right _ hb)
          no_escape := hasEscape_formatted stopId ▸ h.no_escape }
    · intro h
      exact
        { no_separator := fun hb =>
            (List.mem_append.1 hb).elim hfront.no_separator h.no_separator
          no_end := fun b hb =>
            (List.mem_append.1 hb).elim (hfront.no_end b) (h.no_end b)
          no_escape := (hasEscape_formatted stopId).trans h.no_escape }

/-! ## The exact condition -/

/-- A request reaches the upstream as given exactly when the stop id and the
key are plain. -/
theorem asksAsGiven_iff (stopId apiKey : Bytes) (hkey : apiKey ≠ []) :
    AsksAsGiven stopId apiKey ↔ PlainText stopId ∧ PlainText apiKey := by
  have hasked : AsksAsGiven stopId apiKey ↔
      decodeUntil endsQuery (joinParams (askedParams stopId apiKey)) =
        askedParams stopId apiKey := by
    unfold AsksAsGiven
    simp only [handsToCurl_iff stopId _ hkey, exists_eq_left, queryPart_url,
      decodeQuery_cString]
    rfl
  have h30 : PlainText (bytesOf "30") := by decide
  have h0 : PlainText (bytesOf "0") := by decide
  have h1 : PlainText (bytesOf "1") := by decide
  rw [hasked, decodeUntil_joinParams_iff (by decide) (by decide) _
    (by simp [askedParams]) (plainName_of_asked stopId apiKey)]
  simp only [askedParams, List.forall_mem_cons, List.not_mem_nil,
    false_implies, implies_true, and_true, plainText_formattedStopId,
    h30, h0, h1, true_and]

/-- An ordinary stop id and key are asked as given. -/
theorem asksAsGiven_iff_F02615 :
    bytesOf "k1" ≠ [] ∧
      (AsksAsGiven (bytesOf "F02615") (bytesOf "k1") ↔
        PlainText (bytesOf "F02615") ∧ PlainText (bytesOf "k1")) :=
  ⟨by decide, asksAsGiven_iff (bytesOf "F02615") (bytesOf "k1") (by decide)⟩

/-- The stop id `F&minutesAfter=999` overrides a parameter. -/
theorem not_asksAsGiven_injection :
    ¬ ∀ stopId apiKey : Bytes, apiKey ≠ [] → AsksAsGiven stopId apiKey := by
  intro h
  obtain ⟨url, hurl, hdec⟩ :=
    h (bytesOf "F&minutesAfter=999") (bytesOf "k1") (by decide)
  rw [handsToCurl_iff _ _ (by decide)] at hurl
  rw [hurl, queryPart_url] at hdec
  exact absurd (congrArg List.length hdec) (by decide)

end BkkApi.Server.ApiQuery
