import Mathlib.Data.List.Forall2
import BkkApi.Server.ResponseParser

/-!
# A response, element by element

What `parse_arrivals_response` makes of a response that holds a `stopTimes`
array: one arrival for each valid element, in the order of the array, and a
status that says how many elements were valid.  `Located` is where the function
looks in the tree that cJSON hands out, `Tells` is what each status says about
that tree, and `arrivals_of_located` is the output as a map over the array.  The
facts about single arrivals are stated over this map.

`cJSON_GetArraySize` is documented to give the number of items, and returns an
`int`.  `CountsItems` says that it does for the array in question; an array of
more items than an `int` counts would need more memory than any machine has.
-/

namespace BkkApi.Server.StopTimes

open BkkApi.Verified.CData
open BkkApi.Server.Protocol
open BkkApi.Server.ResponseParser

/-! ## Where the function looks -/

/-- What a response holds for the function: its references, its clock, and the
elements of its array. -/
structure Response where
  references : Option CJson
  currentTime : Option Rat
  stopTimes : List CJson

/-- `apiTime_s`. -/
def Response.apiTimeS (r : Response) : Rat :=
  match r.currentTime with
  | some millis => apiTimeOf millis
  | none => 0

/-- `data`. -/
def dataOf (parsed : Option CJson) : Option CJson :=
  CJson.getObjectItem parsed (bytesOf "data")

/-- `data.entry`. -/
def entryOf (parsed : Option CJson) : Option CJson :=
  CJson.getObjectItem (dataOf parsed) (bytesOf "entry")

/-- `data.entry.stopTimes`. -/
def stopTimesOf (parsed : Option CJson) : Option CJson :=
  CJson.getObjectItem (entryOf parsed) (bytesOf "stopTimes")

/-- The tree has objects down to an array `data.entry.stopTimes`, and holds
`r`. -/
structure Located (parsed : Option CJson) (r : Response) : Prop where
  root : CJson.isObject parsed = true
  data : CJson.isObject (dataOf parsed) = true
  entry : CJson.isObject (entryOf parsed) = true
  stopTimes : CJson.arrayItems (stopTimesOf parsed) = some r.stopTimes
  references : r.references =
    CJson.getObjectItem (dataOf parsed) (bytesOf "references")
  currentTime : r.currentTime = CJson.numberValue
    (CJson.getObjectItem parsed (bytesOf "currentTime"))

/-- `cJSON_GetArraySize` gives the number of items of the arrays the function
asks for. -/
def CountsItems (cJsonParse : Bytes → Option CJson) : Prop :=
  ∀ text r, Located (cJsonParse text) r →
    CJson.getArraySize r.stopTimes = r.stopTimes.length

/-- An object is there. -/
theorem exists_of_isObject {item : Option CJson}
    (h : CJson.isObject item = true) : ∃ found, item = some found := by
  cases item with
  | none => cases h
  | some found => exact ⟨found, rfl⟩

/-- Only objects have members. -/
theorem getObjectItem_of_not_object {item : Option CJson}
    (h : CJson.isObject item = false) (name : Bytes) :
    CJson.getObjectItem item name = none := by
  cases item with
  | none => rfl
  | some found =>
      cases found with
      | object members => cases h
      | null | bool value | number valuedouble | string valuestring
      | array items => rfl

/-- A tree holds at most one response. -/
theorem Located.unique {parsed : Option CJson} {r r' : Response}
    (h : Located parsed r) (h' : Located parsed r') : r = r' := by
  obtain ⟨references, currentTime, stopTimes⟩ := r
  obtain ⟨references', currentTime', stopTimes'⟩ := r'
  have hstop : stopTimes = stopTimes' :=
    Option.some.inj (h.stopTimes.symm.trans h'.stopTimes)
  have hreferences : references = references' :=
    h.references.trans h'.references.symm
  have hcurrent : currentTime = currentTime' :=
    h.currentTime.trans h'.currentTime.symm
  rw [hstop, hreferences, hcurrent]

/-! ## Elements -/

/-- A valid element: an object with a numeric predicted or scheduled arrival
time. -/
def isValid (item : CJson) : Bool :=
  CJson.isObject (some item) &&
    ((CJson.numberValue (CJson.getObjectItem (some item)
        (bytesOf "predictedArrivalTime"))).isSome ||
      (CJson.numberValue (CJson.getObjectItem (some item)
        (bytesOf "arrivalTime"))).isSome)

/-- The arrival of one element of a response, when `std::localtime` is
`localTime`. -/
def arrivalOf (localTime : Int → Option Tm) (r : Response) (item : CJson) :
    Option Arrival :=
  stopTimeArrival localTime r.references r.apiTimeS item

/-- The arrival that an element with the chosen time `time` gives. -/
def arrivalAt (localTime : Int → Option Tm) (r : Response) (item : CJson)
    (time : Rat) : Arrival where
  lineId := terminatedCopy _ (lineOf (tripIdOf (some item)) r.references)
  vehicleType := findTypeForRouteId
    (findRouteIdForTrip (tripIdOf (some item)) r.references) r.references
  destination := terminatedCopy _
    (destinationOf (tripIdOf (some item)) r.references)
  departureTime := terminatedCopy _ (clockText (localTime (toLongLong time)))
  departsInMin := departsInMinOf (toLongLong time) r.apiTimeS
  timestamp := toLongLong time

/-- Only an object can have a time to choose. -/
theorem chosenTime_of_not_object {item : CJson}
    (h : CJson.isObject (some item) = false) : chosenTime (some item) = none := by
  unfold chosenTime
  rw [getObjectItem_of_not_object h, getObjectItem_of_not_object h]
  rfl

theorem arrivalOf_eq (localTime : Int → Option Tm) (r : Response)
    (item : CJson) : arrivalOf localTime r item =
      (chosenTime (some item)).map (arrivalAt localTime r item) := by
  unfold arrivalOf stopTimeArrival
  cases hobject : CJson.isObject (some item) with
  | false => simp only [hobject, chosenTime_of_not_object hobject]; rfl
  | true => simp only [hobject]; rfl

theorem chosenTime_isSome (item : CJson) :
    (chosenTime (some item)).isSome = isValid item := by
  unfold isValid
  cases hobject : CJson.isObject (some item) with
  | false => rw [chosenTime_of_not_object hobject]; rfl
  | true =>
      unfold chosenTime
      cases CJson.numberValue (CJson.getObjectItem (some item)
          (bytesOf "predictedArrivalTime")) with
      | some predicted => rfl
      | none => simp

/-- A valid element gives an arrival, an invalid one none. -/
theorem arrivalOf_isSome (localTime : Int → Option Tm) (r : Response)
    (item : CJson) : (arrivalOf localTime r item).isSome = isValid item := by
  rw [arrivalOf_eq, Option.isSome_map, chosenTime_isSome]

theorem arrivalOf_eq_some_iff {localTime : Int → Option Tm} {r : Response}
    {item : CJson} {arrival : Arrival} :
    arrivalOf localTime r item = some arrival ↔
      ∃ time, chosenTime (some item) = some time ∧
        arrivalAt localTime r item time = arrival := by
  rw [arrivalOf_eq, Option.map_eq_some_iff]

/-! ## The loop -/

/-- The loop is a map over the elements that counts what it leaves out. -/
theorem stopTimesLoop_eq (localTime : Int → Option Tm) (r : Response)
    (items : List CJson) :
    ∀ (i : Nat) (output : List Arrival) (skipped : Nat),
      stopTimesLoop (fun _ => localTime) r.references r.apiTimeS i items
          (output, skipped) =
        (output ++ items.filterMap (arrivalOf localTime r),
          skipped + items.countP fun item => !isValid item) := by
  induction items with
  | nil =>
      intro i output skipped
      simp [stopTimesLoop]
  | cons item rest ih =>
      intro i output skipped
      have hvalid := arrivalOf_isSome localTime r item
      simp only [stopTimesLoop]
      cases harrival : arrivalOf localTime r item with
      | none =>
          rw [harrival] at hvalid
          have hskip : stopTimeArrival localTime r.references r.apiTimeS item =
              none := harrival
          simp only [hskip, ih]
          rw [List.filterMap_cons_none harrival,
            List.countP_cons_of_pos (by rw [← hvalid]; rfl)]
          congr 1
          omega
      | some arrival =>
          rw [harrival] at hvalid
          have hpush : stopTimeArrival localTime r.references r.apiTimeS item =
              some arrival := harrival
          simp only [hpush, ih]
          rw [List.filterMap_cons_some harrival,
            List.countP_cons_of_neg (by rw [← hvalid]; simp)]
          simp

/-! ## The whole response -/

section Parse

variable {cJsonParse : Bytes → Option CJson} {responseBody : Bytes}
  {r : Response}

/-- A located response is read by the last part of the function. -/
theorem parse_of_located (h : Located (cJsonParse (cString responseBody)) r)
    (timeinfo : Nat → Int → Option Tm) :
    parseArrivalsResponse cJsonParse timeinfo responseBody =
      parseStopTimes timeinfo r.references r.apiTimeS r.stopTimes := by
  have hroot := h.root
  have hdata := h.data
  have hentry := h.entry
  have hstop := h.stopTimes
  have htime := h.currentTime
  unfold parseArrivalsResponse
  cases hparsed : cJsonParse (cString responseBody) with
  | none =>
      rw [hparsed] at hroot
      cases hroot
  | some root =>
      rw [hparsed] at hroot hdata hentry hstop htime
      simp only [dataOf, entryOf, stopTimesOf] at hdata hentry hstop
      simp only [hroot, hdata, hentry, hstop, Bool.not_true,
        Bool.false_eq_true, if_false]
      rw [h.references, hparsed, Response.apiTimeS, htime]
      rfl

variable (hcounts : CountsItems cJsonParse) (localTime : Int → Option Tm)
include hcounts

/-- The output on a located response: its elements, mapped in order. -/
theorem afterLoop_of_located
    (h : Located (cJsonParse (cString responseBody)) r)
    (hne : r.stopTimes ≠ []) :
    parseArrivalsResponse cJsonParse (fun _ => localTime) responseBody =
      afterLoop (r.stopTimes.filterMap (arrivalOf localTime r),
        r.stopTimes.countP fun item => !isValid item) := by
  have hcount := hcounts _ r h
  have hpos := List.length_pos_iff.2 hne
  rw [parse_of_located h, parseStopTimes_of_ne (by omega), hcount,
    Int.toNat_natCast, List.take_length, stopTimesLoop_eq]
  simp

theorem arrivals_of_located
    (h : Located (cJsonParse (cString responseBody)) r) :
    (parseArrivalsResponse cJsonParse (fun _ => localTime) responseBody).2 =
      r.stopTimes.filterMap (arrivalOf localTime r) := by
  by_cases hnil : r.stopTimes = []
  · have hcount := hcounts _ r h
    rw [hnil] at hcount
    rw [parse_of_located h, hnil, parseStopTimes_of_empty hcount]
    rfl
  · rw [afterLoop_of_located hcounts localTime h hnil, afterLoop_snd]

end Parse

/-! ## What the statuses say -/

/-- What a status says about the tree that the body was parsed to. -/
def Tells (parsed : Option CJson) : ArrivalsParseStatus → Prop
  | .invalidJson => parsed = none
  | .rootNotObject => parsed ≠ none ∧ CJson.isObject parsed = false
  | .missingDataObject =>
      CJson.isObject parsed = true ∧ CJson.isObject (dataOf parsed) = false
  | .missingEntryObject =>
      CJson.isObject parsed = true ∧ CJson.isObject (dataOf parsed) = true ∧
        CJson.isObject (entryOf parsed) = false
  | .stopTimesNotArray =>
      CJson.isObject parsed = true ∧ CJson.isObject (dataOf parsed) = true ∧
        CJson.isObject (entryOf parsed) = true ∧
        CJson.arrayItems (stopTimesOf parsed) = none
  | .emptyStopTimes => ∃ r, Located parsed r ∧ r.stopTimes = []
  | .noValidStopTimes => ∃ r, Located parsed r ∧ r.stopTimes ≠ [] ∧
      ∀ item ∈ r.stopTimes, isValid item = false
  | .successWithWarnings => ∃ r, Located parsed r ∧
      (∃ item ∈ r.stopTimes, isValid item = true) ∧
      ∃ item ∈ r.stopTimes, isValid item = false
  | .success => ∃ r, Located parsed r ∧ r.stopTimes ≠ [] ∧
      ∀ item ∈ r.stopTimes, isValid item = true

/-- Some status says the truth about every tree. -/
theorem exists_tells (parsed : Option CJson) : ∃ status, Tells parsed status := by
  by_cases hnone : parsed = none
  · exact ⟨.invalidJson, hnone⟩
  cases hroot : CJson.isObject parsed with
  | false => exact ⟨.rootNotObject, hnone, hroot⟩
  | true =>
  cases hdata : CJson.isObject (dataOf parsed) with
  | false => exact ⟨.missingDataObject, hroot, hdata⟩
  | true =>
  cases hentry : CJson.isObject (entryOf parsed) with
  | false => exact ⟨.missingEntryObject, hroot, hdata, hentry⟩
  | true =>
  cases hstop : CJson.arrayItems (stopTimesOf parsed) with
  | none => exact ⟨.stopTimesNotArray, hroot, hdata, hentry, hstop⟩
  | some stopTimes =>
      have hlocated : Located parsed ⟨_, _, stopTimes⟩ :=
        ⟨hroot, hdata, hentry, hstop, rfl, rfl⟩
      by_cases hnil : stopTimes = []
      · exact ⟨.emptyStopTimes, _, hlocated, hnil⟩
      by_cases hall : ∀ item ∈ stopTimes, isValid item = true
      · exact ⟨.success, _, hlocated, hnil, hall⟩
      by_cases hno : ∀ item ∈ stopTimes, isValid item = false
      · exact ⟨.noValidStopTimes, _, hlocated, hnil, hno⟩
      · have hsome : ∃ item ∈ stopTimes, isValid item = true := by
          by_contra hnot
          refine hno fun item hitem => ?_
          cases hvalid : isValid item with
          | false => rfl
          | true => exact absurd ⟨item, hitem, hvalid⟩ hnot
        have hskipped : ∃ item ∈ stopTimes, isValid item = false := by
          by_contra hnot
          refine hall fun item hitem => ?_
          cases hvalid : isValid item with
          | true => rfl
          | false => exact absurd ⟨item, hitem, hvalid⟩ hnot
        exact ⟨.successWithWarnings, _, hlocated, hsome, hskipped⟩

/-! ## The status of a parse -/

/-- Nothing comes out of the loop when no element is valid. -/
theorem arrivals_eq_nil_iff {localTime : Int → Option Tm} {r : Response}
    {items : List CJson} : items.filterMap (arrivalOf localTime r) = [] ↔
      ∀ item ∈ items, isValid item = false := by
  rw [List.filterMap_eq_nil_iff]
  constructor
  · intro h item hitem
    rw [← arrivalOf_isSome localTime r, h item hitem]
    rfl
  · intro h item hitem
    have hvalid := h item hitem
    rw [← arrivalOf_isSome localTime r] at hvalid
    simpa using hvalid

/-- The loop counts an element as skipped when one is not valid. -/
theorem skipped_pos_iff {items : List CJson} :
    (0 < items.countP fun item => !isValid item) ↔
      ∃ item ∈ items, isValid item = false := by
  rw [List.countP_pos_iff]
  simp

section Status

variable {cJsonParse : Bytes → Option CJson} {localTime : Int → Option Tm}
  {responseBody : Bytes} {status : ArrivalsParseStatus}

/-- The status that says the truth about the tree is the one returned. -/
theorem status_of_tells (hcounts : CountsItems cJsonParse)
    (h : Tells (cJsonParse (cString responseBody)) status) :
    (parseArrivalsResponse cJsonParse (fun _ => localTime)
      responseBody).1 = status := by
  cases status with
  | success =>
      obtain ⟨r, hlocated, hne, hall⟩ := h
      have houtput : r.stopTimes.filterMap (arrivalOf localTime r) ≠ [] := by
        intro hnil
        obtain ⟨item, hitem⟩ := List.exists_mem_of_ne_nil _ hne
        have hvalid := hall item hitem
        rw [arrivals_eq_nil_iff.1 hnil item hitem] at hvalid
        cases hvalid
      have hskipped : ¬0 < r.stopTimes.countP fun item => !isValid item := by
        intro hpos
        obtain ⟨item, hitem, hvalid⟩ := skipped_pos_iff.1 hpos
        rw [hall item hitem] at hvalid
        cases hvalid
      rw [afterLoop_of_located hcounts localTime hlocated hne, afterLoop,
        if_neg houtput, if_neg hskipped]
  | successWithWarnings =>
      obtain ⟨r, hlocated, ⟨item, hitem, hvalid⟩, hskipped⟩ := h
      have houtput : r.stopTimes.filterMap (arrivalOf localTime r) ≠ [] := by
        intro hnil
        rw [arrivals_eq_nil_iff.1 hnil item hitem] at hvalid
        cases hvalid
      rw [afterLoop_of_located hcounts localTime hlocated
          (List.ne_nil_of_mem hitem), afterLoop, if_neg houtput,
        if_pos (skipped_pos_iff.2 hskipped)]
  | noValidStopTimes =>
      obtain ⟨r, hlocated, hne, hall⟩ := h
      rw [afterLoop_of_located hcounts localTime hlocated hne, afterLoop,
        if_pos (arrivals_eq_nil_iff.2 hall)]
  | emptyStopTimes =>
      obtain ⟨r, hlocated, hnil⟩ := h
      have hcount := hcounts _ r hlocated
      rw [hnil] at hcount
      rw [parse_of_located hlocated, hnil, parseStopTimes_of_empty hcount]
  | invalidJson =>
      have hparsed : cJsonParse (cString responseBody) = none := h
      simp only [parseArrivalsResponse, hparsed]
  | rootNotObject =>
      obtain ⟨hsome, hroot⟩ := h
      obtain ⟨root, hparsed⟩ := Option.ne_none_iff_exists'.1 hsome
      rw [hparsed] at hroot
      simp [parseArrivalsResponse, hparsed, hroot]
  | missingDataObject =>
      obtain ⟨hroot, hdata⟩ := h
      obtain ⟨root, hparsed⟩ := exists_of_isObject hroot
      simp only [dataOf, hparsed] at hroot hdata
      simp [parseArrivalsResponse, hparsed, hroot, hdata]
  | missingEntryObject =>
      obtain ⟨hroot, hdata, hentry⟩ := h
      obtain ⟨root, hparsed⟩ := exists_of_isObject hroot
      simp only [dataOf, entryOf, hparsed] at hroot hdata hentry
      simp [parseArrivalsResponse, hparsed, hroot, hdata, hentry]
  | stopTimesNotArray =>
      obtain ⟨hroot, hdata, hentry, hstop⟩ := h
      obtain ⟨root, hparsed⟩ := exists_of_isObject hroot
      simp only [dataOf, entryOf, stopTimesOf, hparsed] at hroot hdata hentry hstop
      simp [parseArrivalsResponse, hparsed, hroot, hdata, hentry, hstop]

/-- Every status is returned exactly when it says the truth. -/
theorem status_iff_tells (hcounts : CountsItems cJsonParse) :
    (parseArrivalsResponse cJsonParse (fun _ => localTime)
      responseBody).1 = status ↔ Tells (cJsonParse (cString responseBody)) status := by
  constructor
  · intro h
    obtain ⟨told, htells⟩ := exists_tells (cJsonParse (cString responseBody))
    have htold : (parseArrivalsResponse cJsonParse (fun _ => localTime)
        responseBody).1 = told := status_of_tells hcounts htells
    rw [← h, htold]
    exact htells
  · exact status_of_tells hcounts

end Status

/-! ## Sample responses -/

/-- The tree of a response that holds nothing else. -/
def Response.tree (r : Response) : CJson :=
  .object ((r.currentTime.toList.map fun millis =>
      (bytesOf "currentTime", CJson.number millis)) ++
    [(bytesOf "data", .object ([(bytesOf "entry", CJson.object
        [(bytesOf "stopTimes", .array r.stopTimes)])] ++
      (r.references.toList.map fun references =>
        (bytesOf "references", references))))])

/-- A parser that knows one text, the one of the response `r`. -/
def knows (text : Bytes) (r : Response) (asked : Bytes) : Option CJson :=
  if asked = text then some r.tree else none

theorem located_tree (r : Response) : Located (some r.tree) r := by
  obtain ⟨references, currentTime, stopTimes⟩ := r
  cases references with
  | none =>
    cases currentTime with
    | none => constructor <;> rfl
    | some millis => constructor <;> rfl
  | some references =>
    cases currentTime with
    | none => constructor <;> rfl
    | some millis => constructor <;> rfl

theorem located_knows {text : Bytes} (h : cString text = text) (r : Response) :
    Located (knows text r (cString text)) r := by
  rw [h, knows, if_pos rfl]
  exact located_tree r

theorem countsItems_knows {text : Bytes} {r : Response}
    (h : (r.stopTimes.length : Int) < 2 ^ 31) : CountsItems (knows text r) := by
  intro asked r' hlocated
  by_cases hasked : asked = text
  · rw [knows, if_pos hasked] at hlocated
    have hsame := Located.unique (located_tree r) hlocated
    subst hsame
    exact int32_of_range (by omega) h
  · rw [knows, if_neg hasked] at hlocated
    cases hlocated.root

/-- A stop time with an arrival at `time`. -/
def arrivesAt (time : Rat) : CJson :=
  .object [(bytesOf "arrivalTime", .number time)]

/-- One element with a time and one without. -/
def sampleResponse : Response where
  references := none
  currentTime := some 30000
  stopTimes := [arrivesAt 60, .null]

/-- Its text. -/
def sampleText : Bytes :=
  bytesOf "\x7b\"currentTime\":30000,\"data\":\x7b\"entry\":" ++
    bytesOf "\x7b\"stopTimes\":[\x7b\"arrivalTime\":60\x7d,null]\x7d\x7d\x7d"

theorem countsItems_sample : CountsItems (knows sampleText sampleResponse) :=
  countsItems_knows (by decide)

theorem located_sample :
    Located (knows sampleText sampleResponse (cString sampleText))
      sampleResponse :=
  located_knows (by decide) _

/-! ## The output of a parse -/

/-- Where a map drops the elements that fail a test, its results belong to the
others, one each and in order. -/
theorem forall₂_filter_filterMap {α β : Type} {f : α → Option β} {p : α → Bool}
    (h : ∀ a, (f a).isSome = p a) (l : List α) :
    List.Forall₂ (fun a b => f a = some b) (l.filter p) (l.filterMap f) := by
  induction l with
  | nil => exact List.Forall₂.nil
  | cons a rest ih =>
      have ha := h a
      cases hf : f a with
      | none =>
          rw [hf] at ha
          rw [List.filterMap_cons_none hf, List.filter_cons_of_neg (by simp [← ha])]
          exact ih
      | some b =>
          rw [hf] at ha
          rw [List.filterMap_cons_some hf, List.filter_cons_of_pos (by simp [← ha])]
          exact List.Forall₂.cons hf ih

/-- A result stands at the place of an element exactly when it is that element's
result. -/
theorem mem_zip_filter_filterMap {α β : Type} {f : α → Option β} {p : α → Bool}
    (h : ∀ a, (f a).isSome = p a) {l : List α} {a : α} {b : β} :
    (a, b) ∈ (l.filter p).zip (l.filterMap f) ↔ a ∈ l ∧ f a = some b := by
  induction l with
  | nil => simp
  | cons c rest ih =>
      have hc := h c
      cases hf : f c with
      | none =>
          rw [hf] at hc
          rw [List.filterMap_cons_none hf,
            List.filter_cons_of_neg (by simp [← hc]), ih]
          constructor
          · intro hmem
            exact ⟨List.mem_cons_of_mem _ hmem.1, hmem.2⟩
          · intro hmem
            have hne : a ≠ c := by
              intro heq
              rw [heq, hf] at hmem
              cases hmem.2
            exact ⟨(List.mem_cons.1 hmem.1).resolve_left hne, hmem.2⟩
      | some found =>
          rw [hf] at hc
          rw [List.filterMap_cons_some hf,
            List.filter_cons_of_pos (by simp [← hc]), List.zip_cons_cons,
            List.mem_cons, ih]
          constructor
          · intro hmem
            rcases hmem with heq | hrest
            · obtain ⟨rfl, rfl⟩ := Prod.mk.inj heq
              exact ⟨List.mem_cons_self, hf⟩
            · exact ⟨List.mem_cons_of_mem _ hrest.1, hrest.2⟩
          · intro hmem
            rcases List.mem_cons.1 hmem.1 with rfl | hrest
            · have hb : b = found := Option.some.inj (hmem.2.symm.trans hf)
              exact Or.inl (by rw [hb])
            · exact Or.inr ⟨hrest, hmem.2⟩

/-- The elements that are not valid give nothing. -/
theorem filterMap_filter_valid (localTime : Int → Option Tm) (r : Response)
    (items : List CJson) : items.filterMap (arrivalOf localTime r) =
      (items.filter isValid).filterMap (arrivalOf localTime r) := by
  rw [List.filterMap_filter]
  apply List.filterMap_congr
  intro item hitem
  cases hvalid : isValid item with
  | true => simp
  | false =>
      rw [← arrivalOf_isSome localTime r] at hvalid
      simpa using hvalid

/-- Each text field of an arrival holds the text it is copied from. -/
structure HoldsTexts (localTime : Int → Option Tm) (references : Option CJson)
    (item : CJson) (arrival : Arrival) : Prop where
  lineId : StoredPrefix arrival.lineId (lineOf (tripIdOf (some item)) references)
  destination : StoredPrefix arrival.destination
    (destinationOf (tripIdOf (some item)) references)
  departureTime : StoredPrefix arrival.departureTime
    (clockText (localTime arrival.timestamp))

theorem holdsTexts_of_arrivalOf {localTime : Int → Option Tm} {r : Response}
    {item : CJson} {arrival : Arrival}
    (h : arrivalOf localTime r item = some arrival) :
    HoldsTexts localTime r.references item arrival := by
  obtain ⟨time, -, harrival⟩ := arrivalOf_eq_some_iff.1 h
  subst harrival
  exact
    { lineId := storedPrefix_terminatedCopy (by decide) _
      destination := storedPrefix_terminatedCopy (by decide) _
      departureTime := storedPrefix_terminatedCopy (by decide) _ }

/-- A status and an output that account for every element of the tree. -/
structure Accounts (localTime : Int → Option Tm) (parsed : Option CJson)
    (status : ArrivalsParseStatus) (output : List Arrival) : Prop where
  empty : (∀ r, Located parsed r → r.stopTimes = []) → output = []
  one_each : ∀ r, Located parsed r →
    List.Forall₂
      (fun item arrival =>
        stopTimeArrival localTime r.references r.apiTimeS item = some arrival ∧
          HoldsTexts localTime r.references item arrival)
      (r.stopTimes.filter isValid) output
  tells : ∀ told, status = told ↔ Tells parsed told

section Output

variable {cJsonParse : Bytes → Option CJson} {localTime : Int → Option Tm}
  {responseBody : Bytes}

/-- Without an array to read there is no output. -/
theorem arrivals_of_not_located {timeinfo : Nat → Int → Option Tm}
    (h : ∀ r, ¬Located (cJsonParse (cString responseBody)) r) :
    (parseArrivalsResponse cJsonParse timeinfo responseBody).2 = [] := by
  unfold parseArrivalsResponse
  cases hparsed : cJsonParse (cString responseBody) with
  | none => rfl
  | some root =>
  rw [hparsed] at h
  cases hroot : CJson.isObject (some root) with
  | false => simp only [hroot]; rfl
  | true =>
  cases hdata : CJson.isObject (dataOf (some root)) with
  | false =>
      simp only [dataOf] at hdata
      simp [hroot, hdata]
  | true =>
  cases hentry : CJson.isObject (entryOf (some root)) with
  | false =>
      simp only [dataOf, entryOf] at hdata hentry
      simp [hroot, hdata, hentry]
  | true =>
  cases hstop : CJson.arrayItems (stopTimesOf (some root)) with
  | none =>
      simp only [dataOf, entryOf, stopTimesOf] at hdata hentry hstop
      simp [hroot, hdata, hentry, hstop]
  | some stopTimes =>
      exact absurd ⟨hroot, hdata, hentry, hstop, rfl, rfl⟩ (h ⟨_, _, stopTimes⟩)

/-- What `parse_arrivals_response` leaves accounts for the whole tree, and
elements that are not valid have no say in it. -/
theorem parseArrivalsInto_accounts (hcounts : CountsItems cJsonParse)
    (localTime : Int → Option Tm) (responseBody : Bytes)
    (before : List Arrival) :
    ∃ status output,
      parseArrivalsInto cJsonParse (fun _ => localTime) responseBody
          (some before) = (status, some output) ∧
        Accounts localTime (cJsonParse (cString responseBody)) status output ∧
        ∀ otherBody otherBefore r r',
          Located (cJsonParse (cString responseBody)) r →
          Located (cJsonParse (cString otherBody)) r' →
          r.references = r'.references → r.currentTime = r'.currentTime →
          r.stopTimes.filter isValid = r'.stopTimes.filter isValid →
          (parseArrivalsInto cJsonParse (fun _ => localTime) otherBody
            (some otherBefore)).2 = some output := by
  refine ⟨_, _, rfl, ⟨?_, ?_, ?_⟩, ?_⟩
  · intro hempty
    by_cases hnone : ∀ r, ¬Located (cJsonParse (cString responseBody)) r
    · exact arrivals_of_not_located hnone
    · obtain ⟨r, hlocated⟩ := not_forall_not.1 hnone
      rw [arrivals_of_located hcounts localTime hlocated, hempty r hlocated]
      rfl
  · intro r hlocated
    rw [arrivals_of_located hcounts localTime hlocated]
    have heach := forall₂_filter_filterMap (arrivalOf_isSome localTime r)
      r.stopTimes
    exact heach.imp fun item arrival harrival =>
      ⟨harrival, holdsTexts_of_arrivalOf harrival⟩
  · intro told
    exact status_iff_tells hcounts
  · intro otherBody otherBefore r r' hr hr' hreferences hcurrent hvalid
    have harrival : arrivalOf localTime r = arrivalOf localTime r' := by
      funext item
      simp only [arrivalOf, Response.apiTimeS, hreferences, hcurrent]
    show some (parseArrivalsResponse cJsonParse (fun _ => localTime) otherBody).2 =
      some (parseArrivalsResponse cJsonParse (fun _ => localTime) responseBody).2
    rw [arrivals_of_located hcounts localTime hr,
      arrivals_of_located hcounts localTime hr',
      filterMap_filter_valid localTime r, filterMap_filter_valid localTime r',
      harrival, hvalid]

end Output

/-- The sample is accounted for: its one valid element gives the one arrival,
and the other is the reason for the warning. -/
theorem parseArrivalsInto_accounts_sample :
    ∃ output, parseArrivalsInto (knows sampleText sampleResponse)
          (fun _ _ => none) sampleText (some [Arrival.zero]) =
        (.successWithWarnings, some output) ∧
      List.Forall₂
        (fun item arrival =>
          stopTimeArrival (fun _ => none) none 30 item = some arrival ∧
            HoldsTexts (fun _ => none) none item arrival)
        [arrivesAt 60] output := by
  obtain ⟨status, output, hparse, haccounts, -⟩ :=
    parseArrivalsInto_accounts countsItems_sample (fun _ => none) sampleText
      [Arrival.zero]
  have hstatus : status = .successWithWarnings := by
    apply (haccounts.tells _).2
    exact ⟨sampleResponse, located_sample, ⟨_, List.mem_cons_self, rfl⟩,
      ⟨.null, by simp [sampleResponse], rfl⟩⟩
  have heach := haccounts.one_each sampleResponse located_sample
  have htime : sampleResponse.apiTimeS = 30 := by decide +kernel
  rw [htime] at heach
  rw [hstatus] at hparse
  exact ⟨output, hparse, heach⟩

/-! ## Arrivals and their elements -/

section Emits

variable {cJsonParse : Bytes → Option CJson} {localTime : Int → Option Tm}
  {responseBody : Bytes} {r : Response} {item : CJson} {arrival : Arrival}

/-- The response in `responseBody` gives `arrival` for the element `item`: the
two stand at one place of the valid elements and of the output. -/
def Emits (cJsonParse : Bytes → Option CJson) (localTime : Int → Option Tm)
    (responseBody : Bytes) (r : Response) (item : CJson)
    (arrival : Arrival) : Prop :=
  (item, arrival) ∈ (r.stopTimes.filter isValid).zip
    (parseArrivalsResponse cJsonParse (fun _ => localTime) responseBody).2

/-- An arrival is given for an element exactly when the body of the loop makes
it of that element. -/
theorem emits_iff (hcounts : CountsItems cJsonParse)
    (located_sample : Located (cJsonParse (cString responseBody)) r) :
    Emits cJsonParse localTime responseBody r item arrival ↔
      item ∈ r.stopTimes ∧ arrivalOf localTime r item = some arrival := by
  unfold Emits
  rw [arrivals_of_located hcounts localTime located_sample]
  exact mem_zip_filter_filterMap (arrivalOf_isSome localTime r)

end Emits

end BkkApi.Server.StopTimes
