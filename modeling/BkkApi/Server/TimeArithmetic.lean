import Mathlib.Data.Rat.Floor
import BkkApi.Verified.Rounding
import BkkApi.Server.StopTimes

/-!
# Time arithmetic

What the timestamp and the minutes of an arrival are, as arithmetic on the
numbers of the response.  Seconds are the chosen time without its fraction, and
minutes the nearest integer to the distance from the response's clock, which is
`currentTime` in seconds and 0 when there is no such number.

The distance is computed with `double`s.  It differs from the exact one by no
more than `errorBound`, a microsecond or two for the times of our day, so the
nearest integer is that to the exact distance unless this is as close to the
middle between two integers.

Neither conversion is checked.  Where the seconds need more than 64 bits, or the
minutes more than 32, the language says nothing about the result, and neither
does `times_of_emits`.
-/

namespace BkkApi.Server.TimeArithmetic

open BkkApi.Verified.CData
open BkkApi.Verified.Rounding
open BkkApi.Verified.FloatFormat
open BkkApi.Server.Protocol
open BkkApi.Server.ResponseParser
open BkkApi.Server.StopTimes

/-! ## The conversions -/

/-- `x` is a value of `long long`. -/
def FitsLongLong (x : Int) : Prop := -2 ^ 63 ≤ x ∧ x < 2 ^ 63

/-- `x` is a value of `int`. -/
def FitsInt (x : Int) : Prop := -2 ^ 31 ≤ x ∧ x < 2 ^ 31

theorem truncate_neg (x : Rat) : truncate (-x) = -truncate x := by
  unfold truncate
  rw [Rat.num_neg_eq_neg_num, Rat.den_neg_eq_den, Int.neg_tdiv]

theorem truncate_of_nonneg {x : Rat} (hx : 0 ≤ x) : truncate x = ⌊x⌋ := by
  unfold truncate
  rw [Rat.floor_def', Int.tdiv_eq_ediv_of_nonneg (Rat.num_nonneg.2 hx)]

/-- The integer part of a number is its truncation. -/
theorem isTruncation_truncate (x : Rat) : IsTruncation x (truncate x) := by
  by_cases hx : 0 ≤ x
  · rw [isTruncation_iff, if_pos hx, truncate_of_nonneg hx]
  · have hneg : 0 ≤ -x := by
      have hlt := lt_of_not_ge hx
      linarith
    have htruncate := truncate_neg (-x)
    rw [neg_neg, truncate_of_nonneg hneg] at htruncate
    rw [isTruncation_iff, if_neg hx, htruncate]

/-- `std::round` gives the nearest integer. -/
theorem isNearest_roundHalfAway (x : Rat) : IsNearest x (roundHalfAway x) := by
  rw [isNearest_iff]
  rfl

theorem eq_truncate {x : Rat} {n : Int} (h : IsTruncation x n) :
    n = truncate x := by
  rw [isTruncation_iff.1 h, isTruncation_iff.1 (isTruncation_truncate x)]

theorem eq_roundHalfAway {x : Rat} {n : Int} (h : IsNearest x n) :
    n = roundHalfAway x := by
  rw [isNearest_iff.1 h, isNearest_iff.1 (isNearest_roundHalfAway x)]

/-- A conversion keeps what fits. -/
theorem toLongLong_of_fits {x : Rat} {n : Int} (h : IsTruncation x n)
    (hfits : FitsLongLong n) : toLongLong x = n := by
  rw [eq_truncate h] at hfits ⊢
  exact if_pos hfits

theorem toInt_of_fits {n : Int} (hfits : FitsInt n) : toInt n = n :=
  if_pos hfits

/-! ## Minutes -/

/-- The distance of an instant from the clock, in minutes. -/
def exactMinutes (clock : Rat) (seconds : Int) : Rat :=
  ((seconds : Rat) - clock) / 60

/-- The same distance, computed with `double`s. -/
def computedMinutes (clock : Rat) (seconds : Int) : Rat :=
  binary64.round
    (binary64.round (binary64.round (seconds : Rat) - binary64.round clock) / 60)

/-- How far the two may be apart. -/
def errorBound (clock : Rat) (seconds : Int) : Rat :=
  (|(seconds : Rat)| + |clock| + 1) / 2 ^ 57

/-- One operation, when numbers need not be the smallest. -/
theorem abs_sub_binary64_le (x : Rat) :
    |x - binary64.round x| ≤ |x| / 2 ^ 53 + 1 / 2 ^ 60 := by
  have herror := abs_sub_round_le binary64 x
  have hmin : (2 : Rat) ^ binary64.minExponent ≤ 2 ^ (-60 : Int) :=
    zpow_le_zpow_right₀ (by norm_num) (by decide)
  have hrel : (2 : Rat) ^ (1 - (binary64.precision : Int)) = 2 / 2 ^ 53 := by
    norm_num [binary64]
  have hsixty : (2 : Rat) ^ (-60 : Int) = 1 / 2 ^ 60 := by norm_num
  rw [hrel] at herror
  rw [hsixty] at hmin
  calc |x - binary64.round x|
      ≤ (|x| * (2 / 2 ^ 53) + 2 ^ binary64.minExponent) / 2 := herror
    _ ≤ |x| / 2 ^ 53 + 1 / 2 ^ 60 := by linarith

/-- A result is hardly larger than the exact one. -/
theorem abs_binary64_le (x : Rat) :
    |binary64.round x| ≤ |x| + |x| / 2 ^ 53 + 1 / 2 ^ 60 := by
  have herror := abs_sub_binary64_le x
  have htriangle := abs_sub_abs_le_abs_sub (binary64.round x) x
  rw [abs_sub_comm] at htriangle
  linarith

/-- The four operations together. -/
theorem abs_exactMinutes_sub_le (clock : Rat) (seconds : Int) :
    |exactMinutes clock seconds - computedMinutes clock seconds| ≤
      errorBound clock seconds := by
  unfold exactMinutes computedMinutes errorBound
  have hs := abs_sub_binary64_le (seconds : Rat)
  have hc := abs_sub_binary64_le clock
  have hs' := abs_binary64_le (seconds : Rat)
  have hc' := abs_binary64_le clock
  have hsnonneg := abs_nonneg (seconds : Rat)
  have hcnonneg := abs_nonneg clock
  generalize binary64.round (seconds : Rat) = s at *
  generalize binary64.round clock = c at *
  have hd := abs_sub_binary64_le (s - c)
  have hd' := abs_binary64_le (s - c)
  have hsub : |s - c| ≤ |s| + |c| := abs_sub s c
  generalize binary64.round (s - c) = d at *
  have hq := abs_sub_binary64_le (d / 60)
  have hquotient : |d / 60| = |d| / 60 := by
    rw [abs_div, abs_of_pos (by norm_num : (0 : Rat) < 60)]
  rw [hquotient] at hq
  generalize binary64.round (d / 60) = q at *
  rw [abs_le] at hs hc hd hq ⊢
  constructor <;> linarith

/-! ## The times of an arrival -/

/-- The clock of the response, in seconds. -/
def clockOf (r : Response) : Rat := r.currentTime.getD 0 / 1000

theorem apiTimeS_eq (r : Response) : r.apiTimeS = binary64.round (clockOf r) := by
  unfold Response.apiTimeS clockOf
  cases r.currentTime with
  | some millis => rfl
  | none => decide +kernel

/-- The timestamp of an arrival is the chosen time without its fraction, and its
minutes are the nearest integer to the computed distance from the clock, as far
as they fit their fields.  This is the nearest integer to the exact distance
too, unless that is close to the middle between two. -/
theorem times_of_emits {cJsonParse : Bytes → Option CJson}
    (hcounts : CountsItems cJsonParse) {localTime : Int → Option Tm}
    {responseBody : Bytes} {r : Response}
    (hlocated : Located (cJsonParse (cString responseBody)) r)
    {item : CJson} {arrival : Arrival}
    (h : Emits cJsonParse localTime responseBody r item arrival) :
    ∃ time seconds minutes,
      chosenTime (some item) = some time ∧
      IsTruncation time seconds ∧
      IsNearest (computedMinutes (clockOf r) seconds) minutes ∧
      (FitsLongLong seconds → arrival.timestamp = seconds ∧
        (FitsInt minutes → arrival.departsInMin = minutes)) ∧
      |exactMinutes (clockOf r) seconds - computedMinutes (clockOf r) seconds| ≤
        errorBound (clockOf r) seconds ∧
      ∀ nearest, IsNearest (exactMinutes (clockOf r) seconds) nearest →
        (∀ k : Int, errorBound (clockOf r) seconds <
          |exactMinutes (clockOf r) seconds - (k + 1 / 2)|) →
        minutes = nearest := by
  have harrival := ((emits_iff hcounts hlocated).1 h).2
  obtain ⟨time, htime, hat⟩ := arrivalOf_eq_some_iff.1 harrival
  have herror := abs_exactMinutes_sub_le (clockOf r) (truncate time)
  refine ⟨time, _, _, htime, isTruncation_truncate time,
    isNearest_roundHalfAway _, fun hfits => ?_, herror, fun nearest hnearest =>
      hnearest.eq_of_near (isNearest_roundHalfAway _) herror⟩
  have hseconds := toLongLong_of_fits (isTruncation_truncate time) hfits
  constructor
  · rw [← hat, ← hseconds]
    rfl
  · intro hminutes
    have hdeparts : arrival.departsInMin =
        departsInMinOf (toLongLong time) r.apiTimeS := by
      rw [← hat]
      rfl
    rw [hdeparts, hseconds, apiTimeS_eq]
    exact toInt_of_fits hminutes

/-- A response of some evening, with one arrival. -/
def eveningResponse : Response where
  references := none
  currentTime := some 1700000000123
  stopTimes := [arrivesAt 1700000100]

/-- Its text. -/
def eveningText : Bytes :=
  bytesOf "\x7b\"currentTime\":1700000000123,\"data\":\x7b\"entry\":" ++
    bytesOf "\x7b\"stopTimes\":[\x7b\"arrivalTime\":1700000100\x7d]\x7d\x7d\x7d"

/-- The one arrival of that response is a minute and two thirds away, which is
not near the middle between two minutes. -/
theorem times_of_emits_sample :
    ∃ arrival, Emits (knows eveningText eveningResponse) (fun _ => none)
        eveningText eveningResponse (arrivesAt 1700000100) arrival ∧
      arrival.timestamp = 1700000100 ∧ arrival.departsInMin = 2 ∧
      IsNearest (exactMinutes (clockOf eveningResponse) 1700000100) 2 := by
  have hcounts : CountsItems (knows eveningText eveningResponse) :=
    countsItems_knows (by decide)
  have hlocated : Located
      (knows eveningText eveningResponse (cString eveningText))
      eveningResponse := located_knows (by decide +kernel) _
  have hemits : Emits (knows eveningText eveningResponse) (fun _ => none)
      eveningText eveningResponse (arrivesAt 1700000100)
      (arrivalAt (fun _ => none) eveningResponse (arrivesAt 1700000100)
        1700000100) :=
    (emits_iff hcounts hlocated).2 ⟨List.mem_cons_self, rfl⟩
  obtain ⟨time, seconds, minutes, htime, hseconds, -, htimes, -, hexact⟩ :=
    times_of_emits hcounts hlocated hemits
  have hchosen : (1700000100 : Rat) = time := Option.some.inj htime
  rw [← hchosen] at hseconds
  have hs : seconds = 1700000100 := by
    rw [eq_truncate hseconds]
    decide +kernel
  rw [hs] at htimes hexact
  have hvalue : exactMinutes (clockOf eveningResponse) 1700000100 =
      99877 / 60000 := by
    norm_num [exactMinutes, clockOf, eveningResponse]
  have hnearest : IsNearest (exactMinutes (clockOf eveningResponse) 1700000100)
      2 := by
    have hround := isNearest_roundHalfAway
      (exactMinutes (clockOf eveningResponse) 1700000100)
    have htwo : roundHalfAway
        (exactMinutes (clockOf eveningResponse) 1700000100) = 2 := by
      rw [hvalue]
      decide +kernel
    rwa [htwo] at hround
  have hbound : errorBound (clockOf eveningResponse) 1700000100 < 1 / 10 := by
    decide +kernel
  have hm : minutes = 2 := by
    apply hexact 2 hnearest
    intro k
    rw [hvalue, lt_abs]
    rcases Int.lt_or_le k 2 with hk | hk
    · have hcast : (k : Rat) ≤ 1 := by exact_mod_cast Int.le_of_lt_add_one hk
      left
      linarith
    · have hcast : (2 : Rat) ≤ k := by exact_mod_cast hk
      right
      linarith
  obtain ⟨htimestamp, hdeparts⟩ := htimes ⟨by decide, by decide⟩
  rw [hm] at hdeparts
  exact ⟨_, hemits, htimestamp, hdeparts ⟨by decide, by decide⟩, hnearest⟩

/-! ## Numbers that do not fit, and one near the middle -/

/-- A response without a clock, and times from one that is ordinary to one that
is in the wrong unit and one that no `long long` holds. -/
def clocklessResponse : Response where
  references := none
  currentTime := none
  stopTimes := [60, 10 ^ 15, 10 ^ 22].map arrivesAt

/-- Its text. -/
def clocklessText : Bytes :=
  bytesOf "\x7b\"data\":\x7b\"entry\":\x7b\"stopTimes\":[" ++
    bytesOf "\x7b\"arrivalTime\":60\x7d,\x7b\"arrivalTime\":1e15\x7d," ++
    bytesOf "\x7b\"arrivalTime\":1e22\x7d]\x7d\x7d\x7d"

/-- A response whose clock is a tenth of a microsecond into the epoch, with an
arrival that is so much less than a half over a minute. -/
def middleResponse : Response where
  references := none
  currentTime := some (toDouble (1 / 10000))
  stopTimes := [arrivesAt 1700000010]

/-- Its text. -/
def middleText : Bytes :=
  bytesOf "\x7b\"currentTime\":0.0001,\"data\":\x7b\"entry\":" ++
    bytesOf "\x7b\"stopTimes\":[\x7b\"arrivalTime\":1700000010\x7d]\x7d\x7d\x7d"

/-- Each of the three elements of the one response has an arrival, although the
response has no clock, the minutes of the second do not fit an `int`, and the
seconds of the third do not fit a `long long`.  The arrival of the other response
has other minutes than the exact distance. -/
theorem emits_out_of_range :
    (∀ time ∈ [(60 : Rat), 10 ^ 15, 10 ^ 22], ∃ arrival,
      Emits (knows clocklessText clocklessResponse) (fun _ => none) clocklessText
        clocklessResponse (arrivesAt time) arrival) ∧
    clocklessResponse.currentTime = none ∧
    (∀ minutes, IsNearest (exactMinutes (clockOf clocklessResponse) (10 ^ 15))
      minutes → ¬FitsInt minutes) ∧
    (∀ seconds, IsTruncation (10 ^ 22 : Rat) seconds → ¬FitsLongLong seconds) ∧
    ∃ arrival,
      Emits (knows middleText middleResponse) (fun _ => none) middleText
        middleResponse (arrivesAt 1700000010) arrival ∧
      arrival.departsInMin = 28333334 ∧
      ∀ minutes, IsNearest (exactMinutes (clockOf middleResponse) 1700000010)
        minutes → minutes = 28333333 := by
  have hcounts : CountsItems (knows clocklessText clocklessResponse) :=
    countsItems_knows (by decide)
  have hlocated : Located
      (knows clocklessText clocklessResponse (cString clocklessText))
      clocklessResponse := located_knows (by decide +kernel) _
  have hmiddleCounts : CountsItems (knows middleText middleResponse) :=
    countsItems_knows (by decide)
  have hmiddle : Located (knows middleText middleResponse (cString middleText))
      middleResponse := located_knows (by decide +kernel) _
  refine ⟨?_, rfl, ?_, ?_, ?_⟩
  · intro time htime
    have hmem : arrivesAt time ∈ clocklessResponse.stopTimes :=
      List.mem_map_of_mem htime
    exact ⟨_, (emits_iff hcounts hlocated).2 ⟨hmem, rfl⟩⟩
  · intro minutes hminutes hfits
    have hm : minutes = 16666666666667 := by
      rw [eq_roundHalfAway hminutes]
      decide +kernel
    rw [hm] at hfits
    exact absurd hfits.2 (by decide)
  · intro seconds hseconds hfits
    have hs : seconds = 10 ^ 22 := by
      rw [eq_truncate hseconds]
      decide +kernel
    rw [hs] at hfits
    exact absurd hfits.2 (by decide)
  · refine ⟨_, (emits_iff hmiddleCounts hmiddle).2 ⟨List.mem_cons_self, rfl⟩,
      ?_, ?_⟩
    · decide +kernel
    · intro minutes hminutes
      rw [eq_roundHalfAway hminutes]
      decide +kernel

end BkkApi.Server.TimeArithmetic
