import BkkApi.Client.StopSearch
import BkkApi.Verified.Utf8

/-!
# Stops by id and by name

`find_stop_by_id` and `find_stop_by_name` of `bkk_stop_utils.c`, which compare a
whole field, beside the search for a part of the name.  All of them compare
bytes.  The names are UTF-8, with letters of two bytes in most of them;
`names_by_characters` says that what is found is what a comparison of characters
would find.
-/

namespace BkkApi.Client.StopNames

open BkkApi.Verified.CData
open BkkApi.Verified.Buffer
open BkkApi.Verified.Utf8
open BkkApi.Client.StopSearch

/-! ## The functions -/

/-- `strcmp(a, b) == 0`. -/
def sameString (a b : Bytes) : Bool := decide (cString a = cString b)

/-- A search of the table for the first stop whose field holds the string. -/
def findStop (field : BkkStop → Bytes) (table : List BkkStop)
    (text : Option Bytes) (stopOut : Option BkkStop) :
    BkkStopStat × Option BkkStop :=
  match text with
  | none => (.notFound, stopOut)
  | some text =>
      match table.find? fun stop => sameString (field stop) text with
      | some stop => (.found, stopOut.map fun _ => stop)
      | none => (.notFound, stopOut)

/-- `find_stop_by_id`. -/
def findStopById : List BkkStop → Option Bytes → Option BkkStop →
    BkkStopStat × Option BkkStop :=
  findStop fun stop => stop.stopId.toList

/-- `find_stop_by_name`. -/
def findStopByName : List BkkStop → Option Bytes → Option BkkStop →
    BkkStopStat × Option BkkStop :=
  findStop fun stop => stop.stopName.toList

/-! ## What a comparison of whole fields finds -/

/-- The first stop of the table is found that has the text in its field, or
`*stop_out` is left alone. -/
theorem findStop_cases (field : BkkStop → Bytes) (table : List BkkStop)
    (text : Bytes) (before : BkkStop) :
    (∃ stop front back, table = front ++ stop :: back ∧
        cString (field stop) = cString text ∧
        (∀ other ∈ front, cString (field other) ≠ cString text) ∧
        findStop field table (some text) (some before) = (.found, some stop)) ∨
      (∀ stop ∈ table, cString (field stop) ≠ cString text) ∧
        findStop field table (some text) (some before) =
          (.notFound, some before) := by
  cases hfind : table.find? fun stop => sameString (field stop) text with
  | none =>
      right
      have hnone : ∀ stop ∈ table, cString (field stop) ≠ cString text := by
        intro stop hmem hsame
        exact List.find?_eq_none.1 hfind stop hmem (decide_eq_true hsame)
      refine ⟨hnone, ?_⟩
      simp only [findStop, hfind]
  | some stop =>
      left
      obtain ⟨hsame, front, back, htable, hfirst⟩ :=
        List.find?_eq_some_iff_append.1 hfind
      refine ⟨stop, front, back, htable, of_decide_eq_true hsame, ?_, ?_⟩
      · intro other hmem hother
        have hskipped := hfirst other hmem
        rw [sameString, decide_eq_true hother] at hskipped
        cases hskipped
      · simp only [findStop, hfind]
        rfl

/-! ## Characters -/

/-- The name of the stop, in characters. -/
def Named (stop : BkkStop) (name : List Char) : Prop :=
  cString stop.stopName.toList = encode name

instance (stop : BkkStop) (name : List Char) : Decidable (Named stop name) :=
  inferInstanceAs (Decidable (cString stop.stopName.toList = encode name))

theorem contains_iff {stop : BkkStop} {name chars : List Char} {text : Bytes}
    (hname : Named stop name) (htext : cString text = encode chars) :
    stop.Contains text ↔ chars <:+: name := by
  unfold BkkStop.Contains
  rw [hname, htext]
  exact infix_encode_iff

/-- What the search for a part of the name finds, by its characters. -/
structure PartsFound (table : List BkkStop) (malloc : Nat → Bool)
    (chars : List Char) (text : Bytes) (result : SearchResult) : Prop where
  found : result.status = .found → ∃ indices : List Nat,
    result.indicesOut = some (some (Block.filled indices)) ∧
      result.countOut = some indices.length ∧ indices.Pairwise (· < ·) ∧
      ∀ i, i ∈ indices ↔ ∃ stop name, table[i]? = some stop ∧
        Named stop name ∧ chars <:+: name
  nothing : result.status = .notFound →
    malloc (matchCount table text * sizeofSizeT) = false ∨
      ∀ stop ∈ table, ∀ name, Named stop name → ¬chars <:+: name

/-- What the search for a whole name finds, by its characters: the first stop of
the table that has it. -/
inductive WholeFound (table : List BkkStop) (chars : List Char)
    (before : BkkStop) : BkkStopStat × Option BkkStop → Prop
  | found {stop : BkkStop} {front back : List BkkStop}
      (htable : table = front ++ stop :: back) (hname : Named stop chars)
      (hfirst : ∀ other ∈ front, ¬Named other chars) :
      WholeFound table chars before (.found, some stop)
  | notFound (hnone : ∀ stop ∈ table, ¬Named stop chars) :
      WholeFound table chars before (.notFound, some before)

section ByCharacters

variable {table : List BkkStop} {chars : List Char} {text : Bytes}

theorem parts_by_characters (htable : ∀ stop ∈ table, ∃ name, Named stop name)
    (malloc : Nat → Bool) (htext : cString text = encode chars) :
    ∃ result, findStopsByNameSubstring table malloc (some text) (some none)
        (some 0) = some result ∧
      PartsFound table malloc chars text result := by
  rw [findStopsByNameSubstring_eq]
  have hmem : ∀ i, i ∈ matchingIndices table text ↔ ∃ stop name,
      table[i]? = some stop ∧ Named stop name ∧ chars <:+: name := by
    intro i
    rw [mem_matchingIndices]
    constructor
    · intro h
      obtain ⟨stop, hstop, hcontains⟩ := h
      obtain ⟨name, hname⟩ := htable stop (List.mem_of_getElem? hstop)
      exact ⟨stop, name, hstop, hname, (contains_iff hname htext).1 hcontains⟩
    · intro h
      obtain ⟨stop, name, hstop, hname, hpart⟩ := h
      exact ⟨stop, hstop, (contains_iff hname htext).2 hpart⟩
  by_cases hnothing : matchCount table text = 0 ∨
      malloc (matchCount table text * sizeofSizeT) = false
  · rw [if_pos hnothing]
    refine ⟨_, rfl, { found := fun h => (by cases h), nothing := fun _ => ?_ }⟩
    rcases hnothing with hzero | hfails
    · right
      intro stop hstop name hname hpart
      exact matchCount_eq_zero_iff.1 hzero stop hstop
        ((contains_iff hname htext).2 hpart)
    · exact .inl hfails
  · rw [if_neg hnothing]
    have hexact := exactIndices_matchingIndices table text
    refine ⟨_, rfl, { found := fun _ => ?_, nothing := fun h => (by cases h) }⟩
    exact ⟨_, rfl, congrArg some hexact.count.symm, hexact.increasing, hmem⟩

theorem whole_by_characters (htext : cString text = encode chars)
    (before : BkkStop) :
    WholeFound table chars before
      (findStopByName table (some text) (some before)) := by
  unfold findStopByName
  rcases findStop_cases (fun stop => stop.stopName.toList) table text before with
    ⟨stop, front, back, htable, hsame, hfirst, hfound⟩ | ⟨hnone, hfound⟩
  · rw [hfound]
    rw [htext] at hsame hfirst
    exact .found htable hsame hfirst
  · rw [hfound]
    rw [htext] at hnone
    exact .notFound hnone

/-- **Names are found by their characters.**  In a table of UTF-8 names, a UTF-8
text is found in exactly the names that contain it as characters, and as a whole
name in the first stop that has it. -/
theorem names_by_characters (htable : ∀ stop ∈ table, ∃ name, Named stop name)
    (malloc : Nat → Bool) (htext : cString text = encode chars)
    (before : BkkStop) :
    (∃ result, findStopsByNameSubstring table malloc (some text) (some none)
        (some 0) = some result ∧
      PartsFound table malloc chars text result) ∧
      WholeFound table chars before
        (findStopByName table (some text) (some before)) :=
  ⟨parts_by_characters htable malloc htext, whole_by_characters htext before⟩

end ByCharacters

/-- Two names whose first letters begin with the same byte. -/
def accentTable : List BkkStop :=
  [sampleStop (bytesOf "007880") (encode ['É', 'v', 'a']),
    sampleStop (bytesOf "007881") (encode ['Á', 'r', 'o', 'k'])]

/-- Only the second one is found, by a part of it and as a whole. -/
theorem names_by_characters_accents :
    (∃ result, findStopsByNameSubstring accentTable (fun _ => true)
        (some (encode ['Á', 'r', 'o', 'k'])) (some none) (some 0) = some result ∧
      PartsFound accentTable (fun _ => true) ['Á', 'r', 'o', 'k']
        (encode ['Á', 'r', 'o', 'k']) result) ∧
      WholeFound accentTable ['Á', 'r', 'o', 'k'] (sampleStop [] [])
        (.found, some (sampleStop (bytesOf "007881")
          (encode ['Á', 'r', 'o', 'k']))) := by
  have hname : ∀ stop ∈ accentTable, ∃ name, Named stop name := by
    intro stop hmem
    rcases List.mem_cons.1 hmem with rfl | hmem
    · exact ⟨['É', 'v', 'a'], by decide +kernel⟩
    · rw [List.mem_singleton.1 hmem]
      exact ⟨['Á', 'r', 'o', 'k'], by decide +kernel⟩
  have hwhole : findStopByName accentTable (some (encode ['Á', 'r', 'o', 'k']))
      (some (sampleStop [] [])) = (.found, some (sampleStop (bytesOf "007881")
        (encode ['Á', 'r', 'o', 'k']))) := by decide +kernel
  rw [← hwhole]
  exact names_by_characters hname (fun _ => true) (by decide +kernel)
    (sampleStop [] [])

end BkkApi.Client.StopNames
