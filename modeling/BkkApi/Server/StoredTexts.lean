import BkkApi.Verified.Utf8
import BkkApi.Server.TripAttribution

/-!
# The stored texts

The line and the destination of an arrival are cut to the room their fields have,
by bytes: seven of the line, sixty-three of the destination.

* `text_of_emits`: on a response whose strings are UTF-8, a field holds whole
  characters and at most a part of one more.  It is UTF-8 itself exactly when the
  text fits or the cut is between two characters.
* `lineId_eq_iff`: two arrivals show the same line exactly when their line texts
  agree in the first seven bytes.
-/

namespace BkkApi.Server.StoredTexts

open BkkApi.Verified.CData
open BkkApi.Verified.Utf8
open BkkApi.Server.Protocol
open BkkApi.Server.ResponseParser
open BkkApi.Server.StopTimes
open BkkApi.Server.TripAttribution

/-! ## The strings of a tree -/

/-- The items of a tree. -/
inductive Within (root : CJson) : CJson → Prop
  | root : Within root root
  | item {items : List CJson} {item : CJson} (h : Within root (.array items))
      (hitem : item ∈ items) : Within root item
  | member {members : List (Bytes × CJson)} {member : Bytes × CJson}
      (h : Within root (.object members)) (hmember : member ∈ members) :
      Within root member.2

/-- Every string of the tree is UTF-8, up to its terminator. -/
def StringsAreUtf8 (root : CJson) : Prop :=
  ∀ valuestring, Within root (.string valuestring) →
    ValidUtf8 (cString valuestring)

mutual

/-- The strings of a tree, in order. -/
def stringsOf : CJson → List Bytes
  | .string valuestring => [valuestring]
  | .array items => stringsOfItems items
  | .object members => stringsOfMembers members
  | _ => []

/-- The strings of a list of items. -/
def stringsOfItems : List CJson → List Bytes
  | [] => []
  | item :: rest => stringsOf item ++ stringsOfItems rest

/-- The strings of a list of members. -/
def stringsOfMembers : List (Bytes × CJson) → List Bytes
  | [] => []
  | (_, item) :: rest => stringsOf item ++ stringsOfMembers rest

end

theorem stringsOf_subset_items {items : List CJson} {item : CJson}
    (h : item ∈ items) : stringsOf item ⊆ stringsOfItems items := by
  induction items with
  | nil => cases h
  | cons first rest ih =>
      intro text htext
      simp only [stringsOfItems, List.mem_append]
      rcases List.mem_cons.1 h with heq | hrest
      · rw [heq] at htext
        exact Or.inl htext
      · exact Or.inr (ih hrest htext)

theorem stringsOf_subset_members {members : List (Bytes × CJson)}
    {member : Bytes × CJson} (h : member ∈ members) :
    stringsOf member.2 ⊆ stringsOfMembers members := by
  induction members with
  | nil => cases h
  | cons first rest ih =>
      intro text htext
      simp only [stringsOfMembers, List.mem_append]
      rcases List.mem_cons.1 h with heq | hrest
      · rw [heq] at htext
        exact Or.inl htext
      · exact Or.inr (ih hrest htext)

/-- The strings of an item are among those of the tree. -/
theorem Within.strings_subset {root item : CJson} (h : Within root item) :
    stringsOf item ⊆ stringsOf root := by
  induction h with
  | root => exact List.Subset.refl _
  | item _ hitem ih => exact List.Subset.trans (stringsOf_subset_items hitem) ih
  | member _ hmember ih => exact List.Subset.trans (stringsOf_subset_members hmember) ih

theorem stringsAreUtf8_of_strings {root : CJson}
    (h : ∀ text ∈ stringsOf root, ValidUtf8 (cString text)) :
    StringsAreUtf8 root := by
  intro valuestring hwithin
  exact h _ (hwithin.strings_subset (by simp [stringsOf]))

/-- An item that is found is within the tree that was searched. -/
def FoundWithin (root : CJson) (item : Option CJson) : Prop :=
  ∀ found, item = some found → Within root found

theorem foundWithin_getObjectItem {root : CJson} {item : Option CJson}
    (h : FoundWithin root item) (name : Bytes) :
    FoundWithin root (CJson.getObjectItem item name) := by
  intro found hfound
  cases hobject : CJson.isObject item with
  | false =>
      rw [getObjectItem_of_not_object hobject] at hfound
      cases hfound
  | true =>
      unfold CJson.getObjectItem at hfound
      split at hfound
      · rename_i members
        obtain ⟨member, hfind, hvalue⟩ := Option.map_eq_some_iff.1 hfound
        rw [← hvalue]
        exact (h _ rfl).member (List.mem_of_find?_eq_some hfind)
      · cases hfound

theorem foundWithin_referenced {root : CJson} {references : Option CJson}
    (h : FoundWithin root references) (table key : Bytes) :
    FoundWithin root (referenced references table key) := by
  have hentry := foundWithin_getObjectItem (foundWithin_getObjectItem h table) key
  unfold referenced
  dsimp only
  split
  · split
    · exact hentry
    · intro found hfound
      cases hfound
  · intro found hfound
    cases hfound

/-- A string that is found, or a fallback that is UTF-8. -/
theorem validUtf8_stringValue {root : CJson} (hroot : StringsAreUtf8 root)
    {item : Option CJson} (h : FoundWithin root item) {fallback : Bytes}
    (hfallback : ValidUtf8 (cString fallback)) :
    ValidUtf8 (cString ((CJson.stringValue item).getD fallback)) := by
  unfold CJson.stringValue
  split
  · exact hroot _ (h _ rfl)
  · exact hfallback

/-! ## The texts of an arrival -/

section Texts

variable {root : CJson} {references : Option CJson}

theorem foundWithin_references {r : Response}
    (hlocated : Located (some root) r) : FoundWithin root r.references := by
  have hroot : FoundWithin root (some root) := by
    intro found hfound
    rw [← Option.some.inj hfound]
    exact Within.root
  rw [hlocated.references]
  exact foundWithin_getObjectItem
    (foundWithin_getObjectItem hroot (bytesOf "data")) (bytesOf "references")

variable (hroot : StringsAreUtf8 root) (hreferences : FoundWithin root references)
include hroot hreferences

theorem validUtf8_lineOf (tripId : Bytes) :
    ValidUtf8 (cString (lineOf tripId references)) := by
  have hrouteId : ValidUtf8 (cString (findRouteIdForTrip tripId references)) :=
    validUtf8_stringValue hroot
      (foundWithin_getObjectItem (foundWithin_referenced hreferences _ _) _)
      validUtf8_nil
  have hname : ValidUtf8 (cString (findRouteNameForRouteId
      (findRouteIdForTrip tripId references) references)) := by
    unfold findRouteNameForRouteId
    split
    · exact validUtf8_nil
    · exact validUtf8_stringValue hroot
        (foundWithin_getObjectItem (foundWithin_referenced hreferences _ _) _)
        validUtf8_nil
  unfold lineOf
  dsimp only
  split
  · split
    · exact hrouteId
    · exact ⟨['n', '.', 'a', '.'], by decide⟩
  · exact hname

theorem validUtf8_destinationOf (tripId : Bytes) :
    ValidUtf8 (cString (destinationOf tripId references)) := by
  have hfallback : ValidUtf8 (cString (bytesOf "?")) := ⟨['?'], by decide⟩
  by_cases htrip : tripId = []
  · rw [htrip, destinationOf_nil]
    exact hfallback
  · rw [destinationOf_eq htrip]
    exact validUtf8_stringValue hroot
      (foundWithin_getObjectItem (foundWithin_referenced hreferences _ _) _)
      hfallback

end Texts

/-! ## The fields -/

/-- What a field of `size` bytes keeps of a UTF-8 text: the bytes that leave room
for the terminator, which are whole characters and at most a part of one more.
They are UTF-8 exactly when the first byte that is left out, if any is, begins a
character. -/
structure KeepsCharacters {size : Nat} (field : Vector UInt8 size)
    (text : Bytes) : Prop where
  stored : cString field.toList = (cString text).take (size - 1)
  cut : Cut (cString text) (cString field.toList)
  valid_iff : ValidUtf8 (cString field.toList) ↔
    ∀ b, (cString text)[size - 1]? = some b → b.IsUTF8FirstByte

theorem keepsCharacters_terminatedCopy {size : Nat} (hsize : 0 < size)
    {text : Bytes} (h : ValidUtf8 (cString text)) :
    KeepsCharacters (terminatedCopy size text) text := by
  have hstored := cString_terminatedCopy hsize text
  constructor
  · exact hstored
  · rw [hstored]
    exact cut_take h _
  · rw [hstored]
    exact validUtf8_take_iff h _

section Text

variable {cJsonParse : Bytes → Option CJson} (hcounts : CountsItems cJsonParse)
  {localTime : Int → Option Tm} {responseBody : Bytes} {r : Response}
  (hlocated : Located (cJsonParse (cString responseBody)) r)
include hcounts hlocated

/-- On a response whose strings are UTF-8, the line and the destination of every
arrival are whole characters and at most a part of one more. -/
theorem text_of_emits
    (hstrings : ∀ root, cJsonParse (cString responseBody) = some root →
      StringsAreUtf8 root)
    {item : CJson} {arrival : Arrival}
    (h : Emits cJsonParse localTime responseBody r item arrival) :
    KeepsCharacters arrival.lineId
        (lineOf (tripIdOf (some item)) r.references) ∧
      KeepsCharacters arrival.destination
        (destinationOf (tripIdOf (some item)) r.references) := by
  have harrival := ((emits_iff hcounts hlocated).1 h).2
  obtain ⟨time, -, hat⟩ := arrivalOf_eq_some_iff.1 harrival
  obtain ⟨root, hparsed⟩ := exists_of_isObject hlocated.root
  rw [hparsed] at hlocated
  have hreferences := foundWithin_references hlocated
  have hline := validUtf8_lineOf (hstrings root hparsed) hreferences
    (tripIdOf (some item))
  have hdestination := validUtf8_destinationOf (hstrings root hparsed) hreferences
    (tripIdOf (some item))
  rw [← hat]
  constructor
  · exact keepsCharacters_terminatedCopy (by decide) hline
  · exact keepsCharacters_terminatedCopy (by decide) hdestination

end Text

/-! ## A name that does not fit -/

/-- A stop time of a trip. -/
def tripAt (tripId : Bytes) (time : Rat) : CJson :=
  .object [(bytesOf "tripId", .string tripId), (bytesOf "arrivalTime", .number time)]

/-- `Siklóút`, whose eighth byte is the second one of a letter. -/
def longName : Bytes := bytesOf "Sikl" ++ [0xC3, 0xB3, 0xC3, 0xBA] ++ bytesOf "t"

/-- A trip of a route of that name. -/
def longNameResponse : Response where
  references := some (.object
    [(bytesOf "trips", .object [(bytesOf "T", .object
        [(bytesOf "routeId", .string (bytesOf "R"))])]),
      (bytesOf "routes", .object [(bytesOf "R", .object
        [(bytesOf "shortName", .string longName)])])])
  currentTime := some 0
  stopTimes := [tripAt (bytesOf "T") 60]

/-- Its text. -/
def longNameText : Bytes :=
  bytesOf "\x7b\"currentTime\":0,\"data\":\x7b\"entry\":\x7b\"stopTimes\":[" ++
    bytesOf "\x7b\"tripId\":\"T\",\"arrivalTime\":60\x7d]\x7d,\"references\":" ++
    bytesOf "\x7b\"trips\":\x7b\"T\":\x7b\"routeId\":\"R\"\x7d\x7d,\"routes\":" ++
    bytesOf "\x7b\"R\":\x7b\"shortName\":\"" ++ longName ++
    bytesOf "\"\x7d\x7d\x7d\x7d\x7d"

theorem countsItems_longName : CountsItems (knows longNameText longNameResponse) :=
  countsItems_knows (by decide)

theorem located_longName :
    Located (knows longNameText longNameResponse (cString longNameText))
      longNameResponse :=
  located_knows (by decide +kernel) _

theorem stringsAreUtf8_longName : StringsAreUtf8 longNameResponse.tree := by
  apply stringsAreUtf8_of_strings
  have hstrings : stringsOf longNameResponse.tree =
      [bytesOf "T", bytesOf "R", longName] := by decide
  have hname : cString longName =
      encode ['S', 'i', 'k', 'l', 'ó', 'ú', 't'] := by decide
  rw [hstrings]
  simp only [List.forall_mem_cons, List.not_mem_nil, false_implies, implies_true,
    and_true]
  exact ⟨⟨['T'], by decide⟩, ⟨['R'], by decide⟩, ⟨_, hname⟩⟩

theorem stringsAreUtf8_knows_longName :
    ∀ root, knows longNameText longNameResponse (cString longNameText) =
      some root → StringsAreUtf8 root := by
  intro root hroot
  have htext : cString longNameText = longNameText := by decide +kernel
  rw [htext, knows, if_pos rfl] at hroot
  rw [← Option.some.inj hroot]
  exact stringsAreUtf8_longName

theorem emits_longName : Emits (knows longNameText longNameResponse)
    (fun _ => none) longNameText longNameResponse (tripAt (bytesOf "T") 60)
    (arrivalAt (fun _ => none) longNameResponse (tripAt (bytesOf "T") 60) 60) :=
  (emits_iff countsItems_longName located_longName).2
    ⟨List.mem_cons_self, rfl⟩

/-- The destination of the arrival is the fallback, whole. -/
theorem text_of_emits_longName :
    ValidUtf8 (cString (arrivalAt (fun _ => none) longNameResponse
      (tripAt (bytesOf "T") 60) 60).destination.toList) := by
  have hkeeps := (text_of_emits countsItems_longName located_longName
    stringsAreUtf8_knows_longName emits_longName).2
  have hfits : (cString (destinationOf
      (tripIdOf (some (tripAt (bytesOf "T") 60)))
      longNameResponse.references))[arrivalDestinationMaxLen - 1]? = none := by
    decide +kernel
  apply hkeeps.valid_iff.2
  intro b hb
  rw [hfits] at hb
  cases hb

/-- Its line ends in the first half of a letter. -/
theorem longName_not_utf8 :
    ¬∀ item arrival,
      Emits (knows longNameText longNameResponse) (fun _ => none) longNameText
          longNameResponse item arrival →
        ValidUtf8 (cString arrival.lineId.toList) := by
  intro h
  have hvalid := h _ _ emits_longName
  have hname : ValidUtf8 (cString longName) :=
    ⟨['S', 'i', 'k', 'l', 'ó', 'ú', 't'], by decide⟩
  have hcut : cString (arrivalAt (fun _ => none) longNameResponse
      (tripAt (bytesOf "T") 60) 60).lineId.toList =
        (cString longName).take 7 := by decide +kernel
  rw [hcut] at hvalid
  have hfirst := (validUtf8_take_iff hname 7).1 hvalid 0xBA (by decide)
  exact absurd hfirst (by decide)

/-! ## Lines that look alike -/

section Line

variable {cJsonParse : Bytes → Option CJson} (hcounts : CountsItems cJsonParse)
  {localTime : Int → Option Tm} {responseBody : Bytes} {r : Response}
  (hlocated : Located (cJsonParse (cString responseBody)) r)
include hcounts hlocated

/-- Two arrivals show the same line exactly when their line texts agree in the
first seven bytes.  Lines of at most seven bytes are therefore told apart. -/
theorem lineId_eq_iff {item item' : CJson} {arrival arrival' : Arrival}
    (h : Emits cJsonParse localTime responseBody r item arrival)
    (h' : Emits cJsonParse localTime responseBody r item' arrival') :
    let line := cString (lineOf (tripIdOf (some item)) r.references)
    let line' := cString (lineOf (tripIdOf (some item')) r.references)
    (arrival.lineId = arrival'.lineId ↔ line.take 7 = line'.take 7) ∧
      (line.length ≤ 7 → line'.length ≤ 7 → line ≠ line' →
        arrival.lineId ≠ arrival'.lineId) := by
  obtain ⟨time, -, hat⟩ :=
    arrivalOf_eq_some_iff.1 ((emits_iff hcounts hlocated).1 h).2
  obtain ⟨time', -, hat'⟩ :=
    arrivalOf_eq_some_iff.1 ((emits_iff hcounts hlocated).1 h').2
  have hiff : arrival.lineId = arrival'.lineId ↔
      (cString (lineOf (tripIdOf (some item)) r.references)).take 7 =
        (cString (lineOf (tripIdOf (some item')) r.references)).take 7 := by
    rw [← hat, ← hat']
    exact terminatedCopy_inj (by decide)
  refine ⟨hiff, fun hlen hlen' hne heq => hne ?_⟩
  have htake := hiff.1 heq
  rw [List.take_of_length_le hlen, List.take_of_length_le hlen'] at htake
  exact htake

end Line

/-- Trips of the routes `BKK_1500` and `BKK_1502`, which have no names. -/
def namelessResponse : Response where
  references := some (.object [(bytesOf "trips", .object
    [(bytesOf "T", .object [(bytesOf "routeId", .string (bytesOf "BKK_1500"))]),
      (bytesOf "U", .object
        [(bytesOf "routeId", .string (bytesOf "BKK_1502"))])])])
  currentTime := some 0
  stopTimes := [tripAt (bytesOf "T") 60, tripAt (bytesOf "U") 120]

/-- Its text. -/
def namelessText : Bytes :=
  bytesOf "\x7b\"currentTime\":0,\"data\":\x7b\"entry\":\x7b\"stopTimes\":[" ++
    bytesOf "\x7b\"tripId\":\"T\",\"arrivalTime\":60\x7d," ++
    bytesOf "\x7b\"tripId\":\"U\",\"arrivalTime\":120\x7d]\x7d," ++
    bytesOf "\"references\":\x7b\"trips\":" ++
    bytesOf "\x7b\"T\":\x7b\"routeId\":\"BKK_1500\"\x7d," ++
    bytesOf "\"U\":\x7b\"routeId\":\"BKK_1502\"\x7d\x7d\x7d\x7d\x7d"

theorem countsItems_nameless : CountsItems (knows namelessText namelessResponse) :=
  countsItems_knows (by decide)

theorem located_nameless :
    Located (knows namelessText namelessResponse (cString namelessText))
      namelessResponse :=
  located_knows (by decide +kernel) _

theorem emits_nameless (item : CJson) (time : Rat)
    (hitem : item ∈ namelessResponse.stopTimes)
    (htime : chosenTime (some item) = some time) :
    Emits (knows namelessText namelessResponse) (fun _ => none) namelessText
      namelessResponse item
      (arrivalAt (fun _ => none) namelessResponse item time) :=
  (emits_iff countsItems_nameless located_nameless).2
    ⟨hitem, arrivalOf_eq_some_iff.2 ⟨time, htime, rfl⟩⟩

/-- The two ids agree in the first seven bytes. -/
theorem lineId_eq_iff_nameless :
    (arrivalAt (fun _ => none) namelessResponse
        (tripAt (bytesOf "T") 60) 60).lineId =
      (arrivalAt (fun _ => none) namelessResponse
        (tripAt (bytesOf "U") 120) 120).lineId := by
  have hfirst := emits_nameless (tripAt (bytesOf "T") 60) 60
    (by simp [namelessResponse]) rfl
  have hsecond := emits_nameless (tripAt (bytesOf "U") 120) 120
    (by simp [namelessResponse]) rfl
  apply (lineId_eq_iff countsItems_nameless located_nameless hfirst hsecond).1.2
  decide +kernel

/-- They are shown as the same line, although their line texts differ. -/
theorem nameless_look_alike :
    ∃ arrival arrival',
      Emits (knows namelessText namelessResponse) (fun _ => none) namelessText
        namelessResponse (tripAt (bytesOf "T") 60) arrival ∧
      Emits (knows namelessText namelessResponse) (fun _ => none) namelessText
        namelessResponse (tripAt (bytesOf "U") 120) arrival' ∧
      lineOf (bytesOf "T") namelessResponse.references = bytesOf "BKK_1500" ∧
      lineOf (bytesOf "U") namelessResponse.references = bytesOf "BKK_1502" ∧
      arrival.lineId = arrival'.lineId := by
  have hfirst := emits_nameless (tripAt (bytesOf "T") 60) 60
    (by simp [namelessResponse]) rfl
  have hsecond := emits_nameless (tripAt (bytesOf "U") 120) 120
    (by simp [namelessResponse]) rfl
  exact ⟨_, _, hfirst, hsecond, by decide +kernel, by decide +kernel,
    by decide +kernel⟩

end BkkApi.Server.StoredTexts
