import BkkApi.Server.ConcurrentParses
import BkkApi.Server.Serving
import BkkApi.Verified.Outputs

/-!
# What a call is delivered

A call of `get_arrivals_for_station` gets its arrivals in the one step in which
libcurl transfers what the upstream answers and the parser goes over it.
`Delivered` ties the arrivals that calls hold in a state of the server to
everything that such steps have been delivered on the way to it.

The readings of the buffer of `std::localtime` are part of what a step is
delivered, and other parses have a hand in them.  They decide the departure
times and nothing else: `fetch_readings` says that the same call, with the same
answer of the upstream and any other readings, gives the same arrivals but for
their departure times.
-/

namespace BkkApi.Server.Deliveries

open BkkApi.Verified.CData
open BkkApi.Verified.Run
open BkkApi.Server.Protocol
open BkkApi.Server.ResponseParser
open BkkApi.Server.Api
open BkkApi.Server.Cache
open BkkApi.Server.Fetching (Fetches Call Upstream)

/-! ## How far the readings go -/

/-- Two arrivals agree in every field but `departure_time`. -/
structure SameButDepartureTime (arrival arrival' : Arrival) : Prop where
  lineId : arrival.lineId = arrival'.lineId
  vehicleType : arrival.vehicleType = arrival'.vehicleType
  destination : arrival.destination = arrival'.destination
  departsInMin : arrival.departsInMin = arrival'.departsInMin
  timestamp : arrival.timestamp = arrival'.timestamp

section Readings

variable (references : Option CJson) (apiTimeS : Rat)

theorem stopTimeArrival_readings (timeinfo timeinfo' : Int → Option Tm)
    (item : CJson) :
    stopTimeArrival timeinfo references apiTimeS item = none ∧
        stopTimeArrival timeinfo' references apiTimeS item = none ∨
      ∃ arrival arrival',
        stopTimeArrival timeinfo references apiTimeS item = some arrival ∧
        stopTimeArrival timeinfo' references apiTimeS item = some arrival' ∧
        SameButDepartureTime arrival arrival' := by
  unfold stopTimeArrival
  by_cases hobject : CJson.isObject (some item) = true
  · rw [if_pos hobject, if_pos hobject]
    cases chosenTime (some item) with
    | none => exact .inl ⟨rfl, rfl⟩
    | some time => exact .inr ⟨_, _, rfl, rfl, ⟨rfl, rfl, rfl, rfl, rfl⟩⟩
  · rw [if_neg hobject, if_neg hobject]
    exact .inl ⟨rfl, rfl⟩

theorem stopTimesLoop_readings (timeinfo timeinfo' : Nat → Int → Option Tm)
    (items : List CJson) :
    ∀ (i : Nat) (output output' : List Arrival) (skipped : Nat),
      List.Forall₂ SameButDepartureTime output output' →
      List.Forall₂ SameButDepartureTime
          (stopTimesLoop timeinfo references apiTimeS i items
            (output, skipped)).1
          (stopTimesLoop timeinfo' references apiTimeS i items
            (output', skipped)).1 ∧
        (stopTimesLoop timeinfo references apiTimeS i items
            (output, skipped)).2 =
          (stopTimesLoop timeinfo' references apiTimeS i items
            (output', skipped)).2 := by
  induction items with
  | nil =>
      intro i output output' skipped hsame
      exact ⟨hsame, rfl⟩
  | cons item rest ih =>
      intro i output output' skipped hsame
      simp only [stopTimesLoop]
      rcases stopTimeArrival_readings references apiTimeS (timeinfo i)
        (timeinfo' i) item with ⟨hnone, hnone'⟩ | ⟨arrival, arrival', hsome,
          hsome', heach⟩
      · rw [hnone, hnone']
        exact ih (i + 1) output output' (skipped + 1) hsame
      · rw [hsome, hsome']
        exact ih (i + 1) _ _ skipped
          (List.rel_append hsame (.cons heach .nil))

theorem afterLoop_readings {out out' : List Arrival × Nat}
    (hsame : List.Forall₂ SameButDepartureTime out.1 out'.1)
    (hskipped : out.2 = out'.2) :
    (afterLoop out).1 = (afterLoop out').1 := by
  have hnil : out.1 = [] ↔ out'.1 = [] := by
    rw [← List.length_eq_zero_iff, ← List.length_eq_zero_iff,
      hsame.length_eq]
  unfold afterLoop
  rw [hskipped]
  by_cases hempty : out.1 = []
  · rw [if_pos hempty, if_pos (hnil.1 hempty)]
  · rw [if_neg hempty, if_neg (mt hnil.2 hempty)]
    by_cases hskip : 0 < out'.2
    · rw [if_pos hskip, if_pos hskip]
    · rw [if_neg hskip, if_neg hskip]

theorem parseStopTimes_readings (timeinfo timeinfo' : Nat → Int → Option Tm)
    (stopTimes : List CJson) :
    (parseStopTimes timeinfo references apiTimeS stopTimes).1 =
        (parseStopTimes timeinfo' references apiTimeS stopTimes).1 ∧
      List.Forall₂ SameButDepartureTime
        (parseStopTimes timeinfo references apiTimeS stopTimes).2
        (parseStopTimes timeinfo' references apiTimeS stopTimes).2 := by
  by_cases hcount : CJson.getArraySize stopTimes = 0
  · rw [parseStopTimes_of_empty hcount, parseStopTimes_of_empty hcount]
    exact ⟨rfl, .nil⟩
  · rw [parseStopTimes_of_ne hcount, parseStopTimes_of_ne hcount]
    have hloop := stopTimesLoop_readings references apiTimeS timeinfo timeinfo'
      (stopTimes.take (CJson.getArraySize stopTimes).toNat) 0 [] [] 0 .nil
    rw [afterLoop_snd, afterLoop_snd]
    exact ⟨afterLoop_readings hloop.1 hloop.2, hloop.1⟩

end Readings

section Fetch

variable (cJsonParse : Bytes → Option CJson)
  (timeinfo timeinfo' : Nat → Int → Option Tm)

theorem parse_readings (responseBody : Bytes) :
    (parseArrivalsResponse cJsonParse timeinfo responseBody).1 =
        (parseArrivalsResponse cJsonParse timeinfo' responseBody).1 ∧
      List.Forall₂ SameButDepartureTime
        (parseArrivalsResponse cJsonParse timeinfo responseBody).2
        (parseArrivalsResponse cJsonParse timeinfo' responseBody).2 := by
  rcases ConcurrentParses.locate_cases cJsonParse responseBody with
    ⟨r, -, hlocated⟩ | ⟨status, -, hfails⟩
  · rw [StopTimes.parse_of_located hlocated, StopTimes.parse_of_located hlocated]
    exact parseStopTimes_readings _ _ timeinfo timeinfo' r.stopTimes
  · rw [hfails, hfails]
    exact ⟨rfl, .nil⟩

/-- The readings of the buffer decide nothing but departure times. -/
theorem fetch_readings {stopId apiKey : Bytes} {curl : Curl}
    {arrivals : List Arrival}
    (h : getArrivalsForStation cJsonParse timeinfo stopId apiKey curl =
      (.ok, arrivals)) :
    ∃ arrivals', getArrivalsForStation cJsonParse timeinfo' stopId apiKey curl =
        (.ok, arrivals') ∧
      List.Forall₂ SameButDepartureTime arrivals arrivals' := by
  obtain ⟨responseBody, hreply, hparsed⟩ := body_of_ok h
  obtain ⟨hstatus, hsame⟩ := parse_readings cJsonParse timeinfo timeinfo'
    responseBody
  have hpair := Prod.mk.eta
    (p := parseArrivalsResponse cJsonParse timeinfo responseBody)
  have hpair' := Prod.mk.eta
    (p := parseArrivalsResponse cJsonParse timeinfo' responseBody)
  have hfetch := getArrivalsForStation_of_parse hreply hpair.symm
  have hfetch' := getArrivalsForStation_of_parse hreply hpair'.symm
  rw [h] at hfetch
  rw [← hstatus, ← (Prod.mk.inj hfetch).1] at hfetch'
  exact ⟨_, hfetch', hparsed ▸ hsame⟩

end Fetch

/-! ## What arrives in a run -/

/-- The call that a step takes through `curl_easy_perform`, and what it gets. -/
def deliveredBy (s : Fetches) : Fetching.Action → Option (Nat × Upstream)
  | .advance k upstream =>
      (s.calls[k]?).bind fun call =>
        if call.pc = .transferring then some (k, upstream) else none
  | _ => none

/-- The arrivals that calls hold are what the deliveries so far have given. -/
def Delivered (cJsonParse : Bytes → Option CJson) (s : Fetches)
    (l : List (Nat × Upstream)) : Prop :=
  ∀ (k : Nat) call arrivals, s.calls[k]? = some call →
    call.pc.arrivals? = some arrivals →
    ∃ upstream, (k, upstream) ∈ l ∧
      getArrivalsForStation cJsonParse upstream.timeinfo call.stopId call.apiKey
        (some upstream.perform) = (.ok, arrivals)

section Run

variable {n : Nat} {cJsonParse : Bytes → Option CJson} {config : SoundConfig}

/-- A call gets its arrivals in one step, and keeps them. -/
theorem Delivered.step {s t : Fetches} {l : List (Nat × Upstream)}
    {a : Fetching.Action} (h : Delivered cJsonParse s l)
    (hstep : Fetching.step cJsonParse s a = some t) :
    Delivered cJsonParse t (l ++ (deliveredBy s a).toList) := by
  intro k call' arrivals hcall' harrivals
  have hkept : ∀ call, s.calls[k]? = some call → call.stopId = call'.stopId →
      call.apiKey = call'.apiKey → call.pc.arrivals? = some arrivals →
      ∃ upstream, (k, upstream) ∈ l ++ (deliveredBy s a).toList ∧
        getArrivalsForStation cJsonParse upstream.timeinfo call'.stopId
          call'.apiKey (some upstream.perform) = (.ok, arrivals) := by
    intro call hcall hstopId hapiKey hheld
    obtain ⟨upstream, hmem, hfetch⟩ := h k call arrivals hcall hheld
    rw [← hstopId, ← hapiKey]
    exact ⟨upstream, List.mem_append_left _ hmem, hfetch⟩
  rcases Fetching.call_cases hstep hcall' with hold | ⟨request, rfl⟩ |
    ⟨upstream, call, rfl, hcall, hadvance⟩
  · exact hkept call' hold rfl rfl harrivals
  · cases harrivals
  · cases hadvance with
    | init hpc =>
        rw [Fetching.getElem?_setPc_self hcall] at hcall'
        cases hcall'
        have hheld : (call.afterInit upstream).arrivals? = some arrivals :=
          harrivals
        simp only [Call.afterInit] at hheld
        split at hheld
        · cases hheld
        · split at hheld
          · cases hheld
          · cases hheld
    | transfer hpc =>
        rw [Fetching.getElem?_setPc_self hcall] at hcall'
        cases hcall'
        have hheld : (call.afterTransfer cJsonParse upstream).arrivals? =
            some arrivals := harrivals
        refine ⟨upstream, ?_, ?_⟩
        · simp [deliveredBy, hcall, hpc]
        · simp only [Call.afterTransfer] at hheld
          split at hheld
          · cases hheld
          · rename_i hok
            cases hheld
            exact Prod.ext (not_not.1 hok) rfl
    | @stamp list hpc =>
        rw [Fetching.getElem?_setPc_self hcall] at hcall'
        cases hcall'
        refine hkept call hcall rfl rfl ?_
        rw [hpc]
        exact harrivals
    | @write entry hpc | @sweep entry hpc =>
        have hset := Fetching.getElem?_setPc_self hcall
        cases (hset _).symm.trans hcall'
        refine hkept call hcall rfl rfl ?_
        rw [hpc]
        exact harrivals

/-- What a step of the server is delivered. -/
def serverDelivered (s : Serving.UdsServer n) :
    Serving.Action n → Option (Nat × Upstream)
  | .fetch a => deliveredBy s.fetches a
  | _ => none

theorem server_delivered {s t : Serving.UdsServer n} {a : Serving.Action n}
    (h : Serving.step cJsonParse s a = some t) :
    t.fetches = s.fetches ∧ serverDelivered s a = none ∨
      ∃ b, Fetching.step cJsonParse s.fetches b = some t.fetches ∧
        serverDelivered s a = deliveredBy s.fetches b := by
  cases Serving.step_cases h with
  | accept hen | pool hown hen => exact .inl ⟨rfl, rfl⟩
  | fetch hown hstep => exact .inr ⟨_, hstep, rfl⟩
  | handle hworker hhandles =>
      rcases hhandles.fetches_cases with hsame | ⟨request, hcall⟩
      · exact .inl ⟨hsame, rfl⟩
      · exact .inr ⟨.call request, congrArg some hcall.symm, rfl⟩

/-- What the calls hold at the end of a run has been delivered in it. -/
theorem delivered_of_fetches {s₀ s : Fetches} {l : List (Nat × Upstream)}
    (hinit : (Fetching.machine cJsonParse config).init s₀)
    (h : (Fetching.machine cJsonParse config).Emits deliveredBy s₀ l s) :
    Delivered cJsonParse s l := by
  refine Machine.Emits.invariant (I := Delivered cJsonParse) hinit ?_ ?_ h
  · intro k call arrivals hcall
    rw [hinit.2] at hcall
    cases hcall
  · intro l t a u _ hdelivered hstep
    exact hdelivered.step hstep

theorem delivered_of_server {s₀ s : Serving.UdsServer n}
    {l : List (Nat × Upstream)}
    (hinit : (Serving.machine cJsonParse n config).init s₀)
    (h : (Serving.machine cJsonParse n config).Emits serverDelivered s₀ l s) :
    Delivered cJsonParse s.fetches l :=
  delivered_of_fetches hinit.2.1
    (h.project (v := fun s : Serving.UdsServer n => s.fetches)
      fun _ _ _ hstep => server_delivered hstep)

end Run

end BkkApi.Server.Deliveries
