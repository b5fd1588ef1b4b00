import BkkApi.Verified.Buffer
import BkkApi.Verified.Strings

/-!
# Searching the stop table

`find_stops_by_name_substring` and `find_stop_by_index` of `bkk_stop_utils.c`,
over a table of any length.  The search goes over the table twice: it counts the
stops whose name contains the string, takes memory for so many indices, and then
writes them there.  `malloc` decides which allocations succeed.

`findStopsByNameSubstring_exact` is what the callers rely on: the second pass stays
inside the allocation and fills it, and what comes out are the indices of exactly
the stops that match, each of which `find_stop_by_index` accepts.
-/

namespace BkkApi.Client.StopSearch

open BkkApi.Verified.CData
open BkkApi.Verified.Buffer
open BkkApi.Verified.Strings

/-! ## The table -/

/-- `STOP_ID_MAX_LEN`. -/
def stopIdMaxLen : Nat := 16

/-- `STOP_NAME_MAX_LEN`. -/
def stopNameMaxLen : Nat := 96

/-- `bkk_stop_t`.  Both texts are C strings that end inside their field, and the
coordinates are the bits of two doubles. -/
structure BkkStop where
  stopId : Vector UInt8 stopIdMaxLen
  stopName : Vector UInt8 stopNameMaxLen
  stopLat : UInt64
  stopLon : UInt64
  stopId_terminated : 0 ∈ stopId.toList
  stopName_terminated : 0 ∈ stopName.toList
  deriving DecidableEq

/-- The name of the stop contains the string. -/
def BkkStop.Contains (stop : BkkStop) (substring : Bytes) : Prop :=
  cString substring <:+: cString stop.stopName.toList

instance (stop : BkkStop) (substring : Bytes) :
    Decidable (stop.Contains substring) :=
  inferInstanceAs (Decidable (cString substring <:+: cString stop.stopName.toList))

/-! ## The functions -/

/-- `bkk_stop_stat_t`. -/
inductive BkkStopStat
  | notFound
  | found
  deriving DecidableEq

/-- `find_stop_by_index`: the status, and `*stop_out` afterwards. -/
def findStopByIndex (table : List BkkStop) (index : Nat)
    (stopOut : Option BkkStop) : BkkStopStat × Option BkkStop :=
  if h : index < table.length then
    (.found, stopOut.map fun _ => table[index])
  else (.notFound, stopOut)

/-- `sizeof(size_t)`. -/
def sizeofSizeT : Nat := 8

/-- What a search returns, and what it leaves at its two outputs, where these are
not `NULL` themselves. -/
structure SearchResult where
  status : BkkStopStat
  indicesOut : Option (Option (Block Nat))
  countOut : Option Nat
  deriving DecidableEq

/-- `strstr(bkk_stop_list[i].stop_name, substring) != NULL`. -/
def nameMatches (substring : Bytes) (stop : BkkStop) : Bool :=
  (strstr stop.stopName.toList substring).isSome

/-- `BKK_STOP_NOT_FOUND`, with `NULL` and 0 at the outputs. -/
def SearchResult.nothing : SearchResult where
  status := .notFound
  indicesOut := some none
  countOut := some 0

/-- `find_stops_by_name_substring`.  There is no result if the second pass writes
outside the memory it has. -/
def findStopsByNameSubstring (table : List BkkStop) (malloc : Nat → Bool)
    (substring : Option Bytes) (indicesOut : Option (Option (Block Nat)))
    (countOut : Option Nat) : Option SearchResult :=
  match substring, indicesOut, countOut with
  | some substring, some _, some _ =>
      let count := countPass (nameMatches substring) table 0
      if count = 0 then some .nothing
      else
        let bytes := count * sizeofSizeT
        if malloc bytes = false then some .nothing
        else
          match fillPass (nameMatches substring) table 0 0
              (Block.fresh (bytes / sizeofSizeT)) with
          | none => none
          | some (_, indices) =>
              some
                { status := .found
                  indicesOut := some (some indices)
                  countOut := some count }
  | _, _, _ =>
      some
        { status := .notFound
          indicesOut := indicesOut.map fun _ => none
          countOut := countOut.map fun _ => 0 }

/-! ## What the search finds -/

theorem nameMatches_iff {substring : Bytes} {stop : BkkStop} :
    nameMatches substring stop = true ↔ stop.Contains substring := by
  rw [nameMatches, ← Option.ne_none_iff_isSome]
  exact strstr_ne_none_iff

/-- The indices of the stops whose name contains the string. -/
def matchingIndices (table : List BkkStop) (substring : Bytes) : List Nat :=
  table.findIdxs (nameMatches substring)

/-- These indices are the result of a search: in order and none twice, one for each
stop that contains the string and no other, and each of them an index that
`find_stop_by_index` accepts. -/
structure ExactIndices (table : List BkkStop) (substring : Bytes)
    (indices : List Nat) : Prop where
  increasing : indices.Pairwise (· < ·)
  mem_iff : ∀ i, i ∈ indices ↔
    ∃ stop, table[i]? = some stop ∧ stop.Contains substring
  count : indices.length =
    table.countP fun stop => decide (stop.Contains substring)
  accepted : ∀ i ∈ indices, ∀ before, ∃ stop,
    findStopByIndex table i (some before) = (.found, some stop) ∧
      stop.Contains substring

theorem mem_matchingIndices {table : List BkkStop} {substring : Bytes} {i : Nat} :
    i ∈ matchingIndices table substring ↔
      ∃ stop, table[i]? = some stop ∧ stop.Contains substring := by
  rw [matchingIndices, List.mem_findIdxs_iff_exists_getElem_pos]
  constructor
  · intro h
    obtain ⟨hi, hmatch⟩ := h
    exact ⟨table[i], List.getElem?_eq_getElem hi, nameMatches_iff.1 hmatch⟩
  · intro h
    obtain ⟨stop, hstop, hcontains⟩ := h
    obtain ⟨hi, hget⟩ := List.getElem?_eq_some_iff.1 hstop
    exact ⟨hi, by rw [hget]; exact nameMatches_iff.2 hcontains⟩

theorem findStopByIndex_of_getElem? {table : List BkkStop} {i : Nat}
    {stop : BkkStop} (h : table[i]? = some stop) (before : BkkStop) :
    findStopByIndex table i (some before) = (.found, some stop) := by
  obtain ⟨hi, hget⟩ := List.getElem?_eq_some_iff.1 h
  rw [findStopByIndex, dif_pos hi, hget]
  rfl

theorem exactIndices_matchingIndices (table : List BkkStop) (substring : Bytes) :
    ExactIndices table substring (matchingIndices table substring) where
  increasing := List.pairwise_findIdxs
  mem_iff := fun _ => mem_matchingIndices
  count := by
    have hsame : nameMatches substring =
        fun stop => decide (stop.Contains substring) := by
      funext stop
      exact Bool.eq_iff_iff.2 (by rw [nameMatches_iff, decide_eq_true_iff])
    rw [matchingIndices, List.length_findIdxs, hsame]
  accepted := by
    intro i hi before
    obtain ⟨stop, hstop, hcontains⟩ := mem_matchingIndices.1 hi
    exact ⟨stop, findStopByIndex_of_getElem? hstop before, hcontains⟩

/-- How many stops match. -/
def matchCount (table : List BkkStop) (substring : Bytes) : Nat :=
  table.countP fun stop => decide (stop.Contains substring)

/-- No `size_t` wraps: where the table itself is an object, so many bytes can be
asked for. -/
theorem matchCount_lt {table : List BkkStop} {substring : Bytes}
    (h : table.length * (stopIdMaxLen + stopNameMaxLen + 16) < 2 ^ 64) :
    matchCount table substring * sizeofSizeT < 2 ^ 64 := by
  have hle : matchCount table substring ≤ table.length := List.countP_le_length
  unfold stopIdMaxLen stopNameMaxLen at h
  unfold sizeofSizeT
  omega

/-- What the two passes and the allocation between them make of the outputs. -/
theorem findStopsByNameSubstring_eq (table : List BkkStop) (malloc : Nat → Bool)
    (substring : Bytes) (indicesBefore : Option (Block Nat)) (countBefore : Nat) :
    findStopsByNameSubstring table malloc (some substring) (some indicesBefore)
        (some countBefore) =
      if matchCount table substring = 0 ∨
          malloc (matchCount table substring * sizeofSizeT) = false then
        some .nothing
      else
        some
          { status := .found
            indicesOut := some (some
              (Block.filled (matchingIndices table substring)))
            countOut := some (matchCount table substring) } := by
  have hexact := exactIndices_matchingIndices table substring
  have hcells : matchCount table substring =
      countPass (nameMatches substring) table 0 := by
    rw [countPass_eq, Nat.zero_add, ← List.length_findIdxs]
    exact hexact.count.symm
  have hroom : matchCount table substring * sizeofSizeT / sizeofSizeT =
      countPass (nameMatches substring) table 0 := by
    rw [← hcells]
    exact Nat.mul_div_cancel _ (by decide)
  unfold findStopsByNameSubstring
  simp only [← hcells]
  by_cases hnone : matchCount table substring = 0
  · rw [if_pos hnone, if_pos (Or.inl hnone)]
  · by_cases hfails : malloc (matchCount table substring * sizeofSizeT) = false
    · rw [if_neg hnone, if_pos hfails, if_pos (Or.inr hfails)]
    · rw [if_neg hnone, if_neg hfails, hroom, fillPass_fresh,
        if_neg (not_or.2 ⟨hnone, hfails⟩)]
      rfl

/-- The result of a search for the stops whose name contains the string. -/
structure ExactResult (table : List BkkStop) (malloc : Nat → Bool)
    (substring : Bytes) (result : SearchResult) : Prop where
  found_iff : malloc (matchCount table substring * sizeofSizeT) = true →
    (result.status = .found ↔ ∃ stop ∈ table, stop.Contains substring)
  found : result.status = .found → ∃ indices,
    ExactIndices table substring indices ∧
      result.indicesOut = some (some (Block.filled indices)) ∧
      result.countOut = some indices.length ∧
      fillPass (nameMatches substring) table 0 0 (Block.fresh indices.length) =
        some (indices.length, Block.filled indices)
  nothing : (∀ stop ∈ table, ¬stop.Contains substring) ∨
      malloc (matchCount table substring * sizeofSizeT) = false →
    result = .nothing

theorem matchCount_eq_zero_iff {table : List BkkStop} {substring : Bytes} :
    matchCount table substring = 0 ↔ ∀ stop ∈ table, ¬stop.Contains substring := by
  rw [matchCount, List.countP_eq_zero]
  simp only [decide_eq_true_eq]

/-- There is nothing to be found, or no memory for it. -/
theorem exactResult_nothing {table : List BkkStop} {malloc : Nat → Bool}
    {substring : Bytes}
    (h : matchCount table substring = 0 ∨
      malloc (matchCount table substring * sizeofSizeT) = false) :
    ExactResult table malloc substring .nothing where
  found_iff := by
    intro halloc
    have hzero : matchCount table substring = 0 := by
      rcases h with hzero | hfails
      · exact hzero
      · rw [halloc] at hfails
        cases hfails
    have hnone := matchCount_eq_zero_iff.1 hzero
    constructor
    · intro hfound
      cases hfound
    · intro hmatch
      obtain ⟨stop, hmem, hcontains⟩ := hmatch
      exact absurd hcontains (hnone stop hmem)
  found := by
    intro hfound
    cases hfound
  nothing := fun _ => rfl

/-- There are matches, and memory for their indices. -/
theorem exactResult_found {table : List BkkStop} {malloc : Nat → Bool}
    {substring : Bytes} (hsome : matchCount table substring ≠ 0)
    (halloc : malloc (matchCount table substring * sizeofSizeT) ≠ false) :
    ExactResult table malloc substring
      { status := .found
        indicesOut := some (some
          (Block.filled (matchingIndices table substring)))
        countOut := some (matchCount table substring) } where
  found_iff := by
    intro _
    refine ⟨fun _ => ?_, fun _ => rfl⟩
    apply Classical.byContradiction
    intro hnone
    apply hsome
    rw [matchCount_eq_zero_iff]
    intro stop hmem hcontains
    exact hnone ⟨stop, hmem, hcontains⟩
  found := by
    intro _
    have hexact := exactIndices_matchingIndices table substring
    refine ⟨_, hexact, rfl, congrArg some hexact.count.symm, ?_⟩
    have hcells : (matchingIndices table substring).length =
        table.countP (nameMatches substring) := List.length_findIdxs
    have hpass := fillPass_fresh (nameMatches substring) table
    rw [countPass_eq, Nat.zero_add, ← hcells] at hpass
    exact hpass
  nothing := by
    intro hnothing
    exfalso
    rcases hnothing with hnone | hfails
    · exact hsome (matchCount_eq_zero_iff.2 hnone)
    · exact halloc hfails

/-- A search with outputs is exact, and stays inside the memory it has taken. -/
theorem findStopsByNameSubstring_exact (table : List BkkStop)
    (malloc : Nat → Bool) (substring : Bytes)
    (indicesBefore : Option (Block Nat)) (countBefore : Nat) :
    ∃ result,
      findStopsByNameSubstring table malloc (some substring) (some indicesBefore)
        (some countBefore) = some result ∧
      ExactResult table malloc substring result := by
  rw [findStopsByNameSubstring_eq]
  by_cases hnothing : matchCount table substring = 0 ∨
      malloc (matchCount table substring * sizeofSizeT) = false
  · rw [if_pos hnothing]
    exact ⟨_, rfl, exactResult_nothing hnothing⟩
  · rw [if_neg hnothing]
    obtain ⟨hsome, halloc⟩ := not_or.1 hnothing
    exact ⟨_, rfl, exactResult_found hsome halloc⟩

/-- A stop with these texts, at the coordinates 0. -/
def sampleStop (stopId stopName : Bytes) : BkkStop where
  stopId := terminatedCopy stopIdMaxLen stopId
  stopName := terminatedCopy stopNameMaxLen stopName
  stopLat := 0
  stopLon := 0
  stopId_terminated := (storedPrefix_terminatedCopy (by decide) stopId).terminated
  stopName_terminated :=
    (storedPrefix_terminatedCopy (by decide) stopName).terminated

example : findStopsByNameSubstring
    [sampleStop (bytesOf "007817") (bytesOf "Marta utca"),
      sampleStop (bytesOf "007880") (bytesOf "Becsi ut"),
      sampleStop (bytesOf "007881") (bytesOf "Varadi utca")]
    (fun _ => true) (some (bytesOf "utca")) (some none) (some 0) =
      some
        { status := .found
          indicesOut := some (some [some 0, some 2])
          countOut := some 2 } := by
  decide +kernel

end BkkApi.Client.StopSearch
