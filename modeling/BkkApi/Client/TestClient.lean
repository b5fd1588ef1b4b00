import BkkApi.Client.ApiKeyFile
import BkkApi.Client.StopSearch
import BkkApi.Client.UdsClient
import BkkApi.Verified.Getopt

/-!
# The command line client

`main` of `test_main.c`.  It takes a stop id, or searches the table for the stops
whose name contains a string, and sends one request after the other.  What it
shows, and what it asks, is a list of events.  An event shows nothing where `main`
reads memory that holds nothing, or a text past the end of its field.  The list
goes on behind it with what the source does next; a process that does not outlive
such a read has done the list up to there.

`main_asks` says which requests leave the client, as the server reads them.
`main_isDefined_iff` says when it reads only what is there.  After each query it
reads `response.status`, which the first answer sets, and after a failed one
`stop`, which only a search sets.
-/

namespace BkkApi.Client.TestClient

open BkkApi.Verified.CData
open BkkApi.Verified.Buffer
open BkkApi.Verified.Getopt
open BkkApi.Server.Protocol
open BkkApi.Client.ApiKeyFile
open BkkApi.Client.StopSearch
open BkkApi.Client.UdsClient (ClientStatus)

/-! ## Options -/

def optstring : Bytes := bytesOf "s:h:k:i:"

/-- The pointers that the options set. -/
structure Options where
  substring : Option Bytes
  keyPath : Option Bytes
  testStopId : Option Bytes
  deriving DecidableEq

def Options.initial : Options where
  substring := none
  keyPath := none
  testStopId := none

/-- `optarg`, where it is neither `NULL` nor empty. -/
def argument (ret : Return) : Option Bytes :=
  ret.optarg.filter fun value => decide (value ≠ [])

/-- The body of the loop: it goes on, or `main` returns. -/
def readOption (options : Options) (ret : Return) : Except Int Options :=
  if ret.opt = 115 then
    .ok { options with substring := (argument ret).or options.substring }
  else if ret.opt = 104 then .error 0
  else if ret.opt = 107 then
    .ok { options with keyPath := (argument ret).or options.keyPath }
  else if ret.opt = 105 then
    .ok { options with testStopId := (argument ret).or options.testStopId }
  else .error 1

/-! ## What is shown -/

/-- The line about one arrival. -/
structure ArrivalLine where
  number : Nat
  lineId : Bytes
  vehicleType : Bytes
  destination : Bytes
  departureTime : Bytes
  departsInMin : Int
  deriving DecidableEq

/-- A field printed with `%s`. -/
def fieldText {size : Nat} (field : Vector UInt8 size) : Option Bytes :=
  if 0 ∈ field.toList then some (cString field.toList) else none

/-- The line about the arrival with this number. -/
def arrivalLine (number : Nat) (arrival : Arrival) : Option ArrivalLine := do
  let lineId ← fieldText arrival.lineId
  let destination ← fieldText arrival.destination
  let departureTime ← fieldText arrival.departureTime
  some
    { number := number
      lineId := lineId
      vehicleType := vehicleTypeToString arrival.vehicleType
      destination := destination
      departureTime := departureTime
      departsInMin := arrival.departsInMin }

/-- `response.arrivals[i]`, printed. -/
def responseLine (response : BkkUdsResponse) (i : Nat) :
    Option (List ArrivalLine) :=
  if h : i < bkkUdsMaxArrivals then
    (arrivalLine (i + 1) response.arrivals[i]).map fun line => [line]
  else none

/-- The loop over `response.number_of_arrivals`. -/
def arrivalLines (response : BkkUdsResponse) : Option (List ArrivalLine) :=
  rounds (responseLine response) 0 response.numberOfArrivals.toNat

/-- What `main` asks, and what it shows of stops and answers.  The texts that may
not be there to read are optional. -/
inductive Event
  | found (count : Nat) (substring : Bytes)
  /-- A line of `display_stop_list`. -/
  | listed (index : Nat) (stopId stopName : Bytes)
  | noneFound (substring : Bytes)
  | usingStop (stopId : Bytes)
  | notRetrieved (index : Nat)
  /-- A call of `send_bkk_uds_query`. -/
  | asked (request : BkkUdsRequest)
  /-- The message about its status, and about `response.status`. -/
  | queried (stopId : Bytes) (res : ClientStatus) (apiStatus : Option Bytes)
  | received (number : Int) (stopId : Bytes) (lines : Option (List ArrivalLine))
  | failed (stopId : Option Bytes)
  deriving DecidableEq

def Event.request? : Event → Option BkkUdsRequest
  | .asked request => some request
  | _ => none

/-- All that is shown was there to read. -/
def Event.isDefined : Event → Bool
  | .queried _ _ apiStatus => apiStatus.isSome
  | .received _ _ lines => lines.isSome
  | .failed stopId => stopId.isSome
  | _ => true

/-- Nothing is asked, and all that is shown was there to read. -/
def Event.isQuiet (event : Event) : Bool :=
  event.request?.isNone && event.isDefined

/-! ## The search -/

/-- One line of `display_stop_list`. -/
def stopLine (table : List BkkStop) (indices : Block Nat) (i : Nat) :
    Option (List Event) :=
  (indices.read i).map fun index =>
    match table[index]? with
    | some stop =>
        [.listed index (cString stop.stopId.toList) (cString stop.stopName.toList)]
    | none => []

/-- `display_stop_list`: the status, and what is printed. -/
def displayStopList (table : List BkkStop) (indices : Option (Block Nat))
    (count : Nat) : Option (BkkStopStat × List Event) :=
  match indices with
  | none => some (.notFound, [])
  | some indices =>
      if count = 0 then some (.notFound, [])
      else (rounds (stopLine table indices) 0 count).map fun lines =>
        (.found, lines)

/-- What a call of `send_bkk_uds_query` comes to. -/
inductive Outcome
  /-- `client_OK`, with the response. -/
  | answered (response : BkkUdsResponse)
  /-- Another status.  A packet of the wrong size may still have brought
  `response.status`. -/
  | failed (res : ClientStatus) (hres : res ≠ .ok) (status : Option BkkApiStatus)

def Outcome.res : Outcome → ClientStatus
  | .answered _ => .ok
  | .failed res _ _ => res

/-- What the call writes to `response.status`, if anything. -/
def Outcome.status? : Outcome → Option BkkApiStatus
  | .answered response => some response.status
  | .failed _ _ status => status

/-- What the library and the other side do in one run. -/
structure Calls where
  order : ArgOrder
  file : FileCalls
  malloc : Nat → Bool
  /-- The call of `send_bkk_uds_query` in a round. -/
  query : Nat → Outcome
  /-- What is in `stop` before `find_stop_by_index` writes there. -/
  uninitialised : BkkStop

/-- What there is to ask about. -/
structure Search where
  events : List Event
  indices : Option (Block Nat)
  count : Nat

/-- The search for the string, and what it shows. -/
def searchTable (calls : Calls) (table : List BkkStop)
    (substring : Option Bytes) : Option Search := do
  let result ←
    match substring with
    | none => some .nothing
    | some substring =>
        findStopsByNameSubstring table calls.malloc (some substring) (some none)
          (some 0)
  let text := substring.getD []
  let indices := result.indicesOut.join
  let count := result.countOut.getD 0
  let events ←
    match result.status with
    | .found =>
        (displayStopList table indices count).map fun list =>
          .found count text :: list.2
    | .notFound => some [.noneFound text]
  some { events := events, indices := indices, count := count }

/-- From the options to the loop over the stops. -/
def search (calls : Calls) (table : List BkkStop) (options : Options) :
    Option Search :=
  (searchTable calls table options.substring).map fun found =>
    match options.testStopId with
    | none => found
    | some testStopId =>
        { found with
          events := found.events ++ [.usingStop testStopId]
          count := 1 }

/-! ## The queries -/

/-- A zeroed request with the two texts, as far as they fit. -/
def requestFor (stopId apiKey : Bytes) : BkkUdsRequest where
  stopId := terminatedCopy _ stopId
  apiKey := terminatedCopy _ apiKey

/-- The request of a round, and `stop`, if that has been set; or the index where
the round is given up. -/
def prepare (calls : Calls) (table : List BkkStop) (testStopId : Option Bytes)
    (indices : Option (Block Nat)) (apiKey : Bytes) (i : Nat) :
    Option (Except Nat (BkkUdsRequest × Option BkkStop)) :=
  match testStopId with
  | some stopId => some (.ok (requestFor stopId apiKey, none))
  | none => do
      let block ← indices
      let index ← block.read i
      match findStopByIndex table index (some calls.uninitialised) with
      | (.found, some stop) =>
          some (.ok (requestFor stop.stopId.toList apiKey, some stop))
      | _ => some (.error index)

/-- A query, and what is shown of its outcome, where `status` is what
`response.status` holds by then. -/
def ask (outcome : Outcome) (status : Option BkkApiStatus)
    (request : BkkUdsRequest) (stop : Option BkkStop) : List Event :=
  let stopId := cString request.stopId.toList
  [.asked request,
    .queried stopId outcome.res (status.map errorCodeToString),
    match outcome with
    | .answered response =>
        .received response.numberOfArrivals stopId (arrivalLines response)
    | .failed .. => .failed (stop.map fun stop => cString stop.stopId.toList)]

/-- The loop over the stops from round `i` on, with what `response.status` holds
before it. -/
def queries (calls : Calls) (table : List BkkStop) (testStopId : Option Bytes)
    (indices : Option (Block Nat)) (apiKey : Bytes) :
    Nat → Nat → Option BkkApiStatus → Option (List Event)
  | _, 0, _ => some []
  | i, left + 1, before =>
      (prepare calls table testStopId indices apiKey i).bind fun prepared =>
        match prepared with
        | .error index =>
            (queries calls table testStopId indices apiKey (i + 1) left before).map
              fun rest => .notRetrieved index :: rest
        | .ok (request, stop) =>
            let status := (calls.query i).status?.or before
            (queries calls table testStopId indices apiKey (i + 1) left status).map
              fun rest => ask (calls.query i) status request stop ++ rest

/-- `main` from the end of the option loop on. -/
def mainWith (calls : Calls) (table : List BkkStop) (options : Options) :
    Option (Int × List Event) :=
  match options.keyPath with
  | none => some (1, [])
  | some keyPath => do
      let key ← readApiKeyFromFile calls.file (some keyPath) (some none)
      if key.1 ≠ .ok then some (1, [])
      else do
        let apiKey ← key.2.join.bind keyString
        if options.substring = none ∧ options.testStopId = none then some (1, [])
        else do
          let found ← search calls table options
          -- nothing sets `response` before the loop
          let asked ← queries calls table options.testStopId found.indices apiKey
            0 found.count none
          some (0, found.events ++ asked)

/-- `main`: its exit code, and what it did. -/
def main (calls : Calls) (table : List BkkStop) (argv : List Bytes) :
    Option (Int × List Event) :=
  match loop optstring readOption .initial (Scan.start calls.order argv) with
  | .error code => some (code, [])
  | .ok options => mainWith calls table options

/-! ## The options that count -/

/-- The last argument of an option that is not empty. -/
def lastArgument (rets : List Return) (c : UInt8) : Option Bytes :=
  rets.reverse.findSome? fun ret => if ret.opt = c then argument ret else none

/-- The options `s`, `k` and `i`, after which the loop goes on. -/
def goesOn (ret : Return) : Bool :=
  ret.opt == 115 || ret.opt == 107 || ret.opt == 105

/-- What the returns leave in the options. -/
def lastOptions (rets : List Return) (before : Options) : Options where
  substring := (lastArgument rets 115).or before.substring
  keyPath := (lastArgument rets 107).or before.keyPath
  testStopId := (lastArgument rets 105).or before.testStopId

theorem lastArgument_cons (ret : Return) (rest : List Return) (c : UInt8) :
    lastArgument (ret :: rest) c =
      (lastArgument rest c).or (if ret.opt = c then argument ret else none) := by
  unfold lastArgument
  rw [List.reverse_cons, List.findSome?_append, List.findSome?_singleton]

theorem readOption_eq (options : Options) (ret : Return) :
    (goesOn ret = true ∧ readOption options ret = .ok
      { substring := (if ret.opt = 115 then argument ret else none).or
          options.substring
        keyPath := (if ret.opt = 107 then argument ret else none).or
          options.keyPath
        testStopId := (if ret.opt = 105 then argument ret else none).or
          options.testStopId }) ∨
      (goesOn ret = false ∧ ∃ code, readOption options ret = .error code) := by
  unfold readOption goesOn
  by_cases hs : ret.opt = 115
  · left
    simp [hs]
  · by_cases hh : ret.opt = 104
    · right
      simp [hh]
    · by_cases hk : ret.opt = 107
      · left
        simp [hk]
      · by_cases hi : ret.opt = 105
        · left
          simp [hi]
        · right
          simp [hs, hh, hk, hi]

/-- The loop goes through all options, or `main` returns at one of them. -/
theorem foldlM_readOption (rets : List Return) (options : Options) :
    (rets.all goesOn = true ∧
        rets.foldlM readOption options = .ok (lastOptions rets options)) ∨
      (rets.all goesOn = false ∧
        ∃ code, rets.foldlM readOption options = .error code) := by
  induction rets generalizing options with
  | nil => exact .inl ⟨rfl, rfl⟩
  | cons ret rest ih =>
      rw [List.foldlM_cons, List.all_cons]
      rcases readOption_eq options ret with ⟨hgoes, hread⟩ | ⟨hends, code, hread⟩
      · rw [hgoes, hread, Bool.true_and]
        have hlast : lastOptions (ret :: rest) options = lastOptions rest
            { substring := (if ret.opt = 115 then argument ret else none).or
                options.substring
              keyPath := (if ret.opt = 107 then argument ret else none).or
                options.keyPath
              testStopId := (if ret.opt = 105 then argument ret else none).or
                options.testStopId } := by
          simp only [lastOptions, lastArgument_cons, Option.or_assoc]
        rw [hlast]
        exact ih _
      · rw [hends, hread, Bool.false_and]
        exact .inr ⟨rfl, code, rfl⟩

/-! ## What there is to ask -/

/-- The key that the file at `path` delivers. -/
def keyIn (file : FileCalls) (path : Bytes) : Option Bytes :=
  match readApiKeyFromFile file (some path) (some none) with
  | some (.ok, some (some block)) => keyString block
  | _ => none

/-- The key to ask with, if there is something to ask. -/
def keyFor (file : FileCalls) (options : Options) : Option Bytes :=
  if options.substring = none ∧ options.testStopId = none then none
  else options.keyPath.bind (keyIn file)

/-- The options and the key with which there is something to ask. -/
def accepted (calls : Calls) (argv : List Bytes) : Option (Options × Bytes) :=
  let rets := returns optstring (Scan.start calls.order argv)
  let options := lastOptions rets .initial
  if rets.all goesOn then
    (keyFor calls.file options).map fun apiKey => (options, apiKey)
  else none

/-- The stops that a search finds, if there is memory for their indices. -/
def stopsFound (malloc : Nat → Bool) (table : List BkkStop) (substring : Bytes) :
    List BkkStop :=
  if malloc (matchCount table substring * sizeofSizeT) then
    table.filter fun stop => decide (stop.Contains substring)
  else []

theorem nameMatches_eq (substring : Bytes) : nameMatches substring =
    fun stop => decide (stop.Contains substring) := by
  funext stop
  rw [Bool.eq_iff_iff, nameMatches_iff, decide_eq_true_iff]

/-- The stop ids to ask about, each with the stop it was taken from: the given
one, or all that are found. -/
def targets (malloc : Nat → Bool) (table : List BkkStop) (options : Options) :
    List (Bytes × Option BkkStop) :=
  match options.testStopId with
  | some testStopId => [(testStopId, none)]
  | none => (options.substring.elim [] (stopsFound malloc table)).map fun stop =>
      (stop.stopId.toList, some stop)

theorem isQuiet_of_stopLine {table : List BkkStop} {indices : Block Nat}
    {i : Nat} {event : Event}
    (h : event ∈ (stopLine table indices i).getD []) : event.isQuiet = true := by
  unfold stopLine at h
  cases hread : indices.read i with
  | none =>
      rw [hread] at h
      cases h
  | some index =>
      rw [hread, Option.map_some, Option.getD_some] at h
      cases hstop : table[index]? with
      | none =>
          rw [hstop] at h
          cases h
      | some stop =>
          rw [hstop] at h
          rw [List.mem_singleton.1 h]
          rfl

/-- A list of the indices that a search has left reads nothing but these, and asks
for nothing. -/
theorem displayStopList_filled (table : List BkkStop) (indices : List Nat) :
    ∃ list, displayStopList table (some (Block.filled indices)) indices.length =
        some list ∧
      ∀ event ∈ list.2, event.isQuiet = true := by
  have hline : ∀ i ∈ List.range' 0 indices.length,
      (stopLine table (Block.filled indices) i).isSome = true := by
    intro i hi
    have hlt : i < indices.length := by simpa using hi
    have hread := Block.read_filled hlt []
    rw [List.append_nil] at hread
    simp [stopLine, hread]
  have hlist := rounds_isSome_iff.2 hline
  obtain ⟨lines, hlines⟩ := Option.isSome_iff_exists.1 hlist
  unfold displayStopList
  by_cases hnone : indices.length = 0
  · exact ⟨_, if_pos hnone, fun event hmem => by cases hmem⟩
  · refine ⟨(.found, lines), ?_, ?_⟩
    · simp only [if_neg hnone, hlines]
      rfl
    · rw [(rounds_eq_some_iff.1 hlines).2]
      intro event hmem
      obtain ⟨i, -, hevent⟩ := List.mem_flatMap.1 hmem
      exact isQuiet_of_stopLine hevent

/-- What the search has left is one index for each of these stops. -/
structure Finds (calls : Calls) (table : List BkkStop) (testStopId : Option Bytes)
    (found : Search) (targets : List (Bytes × Option BkkStop)) : Prop where
  quiet : ∀ event ∈ found.events, event.isQuiet = true
  count : found.count = targets.length
  prepares : ∀ i target, targets[i]? = some target → ∀ apiKey,
    prepare calls table testStopId found.indices apiKey i =
      some (.ok (requestFor target.1 apiKey, target.2))

/-- The index of the `i`th stop found is that of the stop. -/
theorem prepare_of_found {calls : Calls} {table : List BkkStop}
    {substring : Bytes} {i : Nat} {stop : BkkStop}
    (h : (table.filter (nameMatches substring))[i]? = some stop)
    (apiKey : Bytes) :
    prepare calls table none
        (some (Block.filled (matchingIndices table substring))) apiKey i =
      some (.ok (requestFor stop.stopId.toList apiKey, some stop)) := by
  obtain ⟨hi, hstop⟩ := List.getElem?_eq_some_iff.1 h
  have hlt : i < (matchingIndices table substring).length := by
    rw [matchingIndices, List.length_findIdxs, List.countP_eq_length_filter]
    exact hi
  have hread := Block.read_filled hlt []
  rw [List.append_nil] at hread
  have hindex := List.getElem_filter_eq_getElem_getElem_findIdxs hi
  have hat : table[(matchingIndices table substring)[i]]? = some stop := by
    rw [← hstop, hindex]
    exact List.getElem?_eq_getElem _
  have hfound := findStopByIndex_of_getElem? hat calls.uninitialised
  unfold prepare
  simp only [Option.bind_eq_bind, Option.bind_some, hread, hfound]

theorem searchTable_finds (calls : Calls) (table : List BkkStop)
    (substring : Option Bytes) :
    ∃ found, searchTable calls table substring = some found ∧
      Finds calls table none found
        ((substring.elim [] (stopsFound calls.malloc table)).map fun stop =>
          (stop.stopId.toList, some stop)) := by
  cases substring with
  | none =>
      refine ⟨_, rfl, { quiet := ?_, count := rfl, prepares := ?_ }⟩
      · intro event hmem
        rw [List.mem_singleton.1 hmem]
        rfl
      · intro i target htarget
        cases htarget
  | some substring =>
      have hexact := exactIndices_matchingIndices table substring
      have hresult := findStopsByNameSubstring_eq table calls.malloc substring
        none 0
      have hlength : (table.filter (nameMatches substring)).length =
          matchCount table substring := by
        rw [← List.countP_eq_length_filter, ← List.length_findIdxs]
        exact hexact.count
      by_cases hnothing : matchCount table substring = 0 ∨
          calls.malloc (matchCount table substring * sizeofSizeT) = false
      · rw [if_pos hnothing] at hresult
        have hstops : stopsFound calls.malloc table substring = [] := by
          unfold stopsFound
          rcases hnothing with hzero | hfails
          · split
            · rw [← nameMatches_eq]
              exact List.length_eq_zero_iff.1 (hlength.trans hzero)
            · rfl
          · rw [hfails]
            rfl
        unfold searchTable
        simp only [hresult]
        refine ⟨_, rfl, { quiet := ?_, count := ?_, prepares := ?_ }⟩
        · intro event hmem
          rw [List.mem_singleton.1 hmem]
          rfl
        · simp [hstops, SearchResult.nothing]
        · intro i target htarget
          simp [hstops] at htarget
      · rw [if_neg hnothing] at hresult
        have halloc := eq_true_of_ne_false (not_or.1 hnothing).2
        have hstops : stopsFound calls.malloc table substring =
            table.filter (nameMatches substring) := by
          rw [nameMatches_eq]
          exact if_pos halloc
        obtain ⟨list, hlist, hquiet⟩ :=
          displayStopList_filled table (matchingIndices table substring)
        have hcount : (matchingIndices table substring).length =
            matchCount table substring := hexact.count
        rw [hcount] at hlist
        unfold searchTable
        simp only [hresult, Option.bind_eq_bind, Option.bind_some,
          Option.join_some, Option.getD_some, hlist, Option.map_some]
        refine ⟨_, rfl, { quiet := ?_, count := ?_, prepares := ?_ }⟩
        · exact List.forall_mem_cons.2 ⟨rfl, hquiet⟩
        · rw [Option.elim_some, hstops, List.length_map]
          exact hlength.symm
        · intro i target htarget apiKey
          rw [Option.elim_some, hstops, List.getElem?_map] at htarget
          obtain ⟨stop, hstop, rfl⟩ := Option.map_eq_some_iff.1 htarget
          exact prepare_of_found hstop apiKey

theorem search_finds (calls : Calls) (table : List BkkStop) (options : Options) :
    ∃ found, search calls table options = some found ∧
      Finds calls table options.testStopId found
        (targets calls.malloc table options) := by
  obtain ⟨found, hfound, hfinds⟩ :=
    searchTable_finds calls table options.substring
  unfold search targets
  rw [hfound]
  cases options.testStopId with
  | none => exact ⟨found, rfl, hfinds⟩
  | some testStopId =>
      refine ⟨_, rfl, { quiet := ?_, count := rfl, prepares := ?_ }⟩
      · intro event hmem
        rcases List.mem_append.1 hmem with hfirst | hlast
        · exact hfinds.quiet event hfirst
        · rw [List.mem_singleton.1 hlast]
          rfl
      · intro i target htarget apiKey
        cases i with
        | zero =>
            cases htarget
            rfl
        | succ i => cases htarget

/-! ## Runs -/

theorem keyIn_cases (file : FileCalls) (path : Bytes) :
    (readApiKeyFromFile file (some path) (some none) =
        some (.error, some none) ∧ keyIn file path = none) ∨
      ∃ block apiKey, readApiKeyFromFile file (some path) (some none) =
          some (.ok, some (some block)) ∧ keyString block = some apiKey ∧
        keyIn file path = some apiKey := by
  rcases readApiKeyFromFile_cases file (some path) (some none) with
    herror | ⟨name, content, hname, hopened, hread⟩
  · left
    refine ⟨herror, ?_⟩
    simp only [keyIn, herror]
  · right
    refine ⟨_, _, hread, keyString_filled _, ?_⟩
    simp only [keyIn, hread, keyString_filled]

/-- What the loop does in the rounds for these stops, from round `i` on. -/
def asksFrom (query : Nat → Outcome) (apiKey : Bytes) :
    Nat → List (Bytes × Option BkkStop) → Option BkkApiStatus → List Event
  | _, [], _ => []
  | i, target :: rest, before =>
      let status := (query i).status?.or before
      ask (query i) status (requestFor target.1 apiKey) target.2 ++
        asksFrom query apiKey (i + 1) rest status

/-- The loop goes through all rounds that find their stop. -/
theorem queries_eq_asksFrom {calls : Calls} {table : List BkkStop}
    {testStopId : Option Bytes} {indices : Option (Block Nat)} {apiKey : Bytes}
    {targets : List (Bytes × Option BkkStop)} {i : Nat}
    (h : ∀ k target, targets[k]? = some target →
      prepare calls table testStopId indices apiKey (i + k) =
        some (.ok (requestFor target.1 apiKey, target.2)))
    (before : Option BkkApiStatus) :
    queries calls table testStopId indices apiKey i targets.length before =
      some (asksFrom calls.query apiKey i targets before) := by
  induction targets generalizing i before with
  | nil => rfl
  | cons target rest ih =>
      have hhead := h 0 target rfl
      have hrest := ih (i := i + 1) (fun k next hnext => by
        rw [Nat.add_assoc, Nat.add_comm 1 k]
        exact h (k + 1) next hnext) ((calls.query i).status?.or before)
      rw [Nat.add_zero] at hhead
      rw [List.length_cons, queries, hhead, Option.bind_some]
      dsimp only
      rw [hrest, Option.map_some, asksFrom]

/-- Without anything to ask `main` returns; otherwise the search finds what there
is, and the loop goes over it. -/
theorem mainWith_cases (calls : Calls) (table : List BkkStop) (options : Options) :
    (keyFor calls.file options = none ∧
        ∃ code, mainWith calls table options = some (code, [])) ∨
      ∃ apiKey found, keyFor calls.file options = some apiKey ∧
        (∀ event ∈ found, event.isQuiet = true) ∧
        mainWith calls table options =
          some (0, found ++ asksFrom calls.query apiKey 0
            (targets calls.malloc table options) none) := by
  unfold mainWith keyFor
  cases options.keyPath with
  | none => exact .inl ⟨by simp, 1, rfl⟩
  | some keyPath =>
      rcases keyIn_cases calls.file keyPath with
        ⟨hread, hkey⟩ | ⟨block, apiKey, hread, hstring, hkey⟩
      · left
        simp [hread, hkey]
      · by_cases hnothing : options.substring = none ∧ options.testStopId = none
        · left
          simp [hread, hstring, hnothing]
        · right
          obtain ⟨found, hfound, hfinds⟩ := search_finds calls table options
          have hasked := queries_eq_asksFrom (i := 0) (fun k target htarget => by
            rw [Nat.zero_add]
            exact hfinds.prepares k target htarget apiKey) none
          rw [← hfinds.count] at hasked
          refine ⟨apiKey, found.events, ?_, hfinds.quiet, ?_⟩
          · rw [if_neg hnothing]
            exact hkey
          · simp [hread, hstring, hnothing, hfound, hasked]

/-- The same for `main`. -/
theorem main_cases (calls : Calls) (table : List BkkStop) (argv : List Bytes) :
    (accepted calls argv = none ∧
        ∃ code, main calls table argv = some (code, [])) ∨
      ∃ options apiKey found, accepted calls argv = some (options, apiKey) ∧
        (∀ event ∈ found, event.isQuiet = true) ∧
        main calls table argv =
          some (0, found ++ asksFrom calls.query apiKey 0
            (targets calls.malloc table options) none) := by
  unfold accepted main
  rw [loop_eq_foldlM]
  rcases foldlM_readOption (returns optstring (Scan.start calls.order argv))
    .initial with ⟨hall, hread⟩ | ⟨hall, code, hread⟩
  · simp only [hall, hread, if_true]
    rcases mainWith_cases calls table (lastOptions _ .initial) with
      ⟨hkey, hcode⟩ | ⟨apiKey, found, hkey, hquiet, hmain⟩
    · exact .inl ⟨by rw [hkey]; rfl, hcode⟩
    · exact .inr ⟨_, apiKey, found, by rw [hkey]; rfl, hquiet, hmain⟩
  · simp only [hall, hread]
    exact .inl ⟨rfl, code, rfl⟩

/-! ## Reading only what is there -/

/-- The texts of an arrival end inside their fields. -/
structure Terminated (arrival : Arrival) : Prop where
  lineId : 0 ∈ arrival.lineId.toList
  destination : 0 ∈ arrival.destination.toList
  departureTime : 0 ∈ arrival.departureTime.toList

/-- The loop over the arrivals stays in the response and in its fields. -/
structure Printable (response : BkkUdsResponse) : Prop where
  inside : response.numberOfArrivals ≤ bkkUdsMaxArrivals
  terminated : ∀ i : Fin bkkUdsMaxArrivals,
    (i.val : Int) < response.numberOfArrivals → Terminated response.arrivals[i]

theorem fieldText_isSome_iff {size : Nat} {field : Vector UInt8 size} :
    (fieldText field).isSome = true ↔ 0 ∈ field.toList := by
  unfold fieldText
  split <;> simp [*]

theorem arrivalLine_isSome_iff {number : Nat} {arrival : Arrival} :
    (arrivalLine number arrival).isSome = true ↔ Terminated arrival := by
  have hfields : Terminated arrival ↔
      (fieldText arrival.lineId).isSome = true ∧
        (fieldText arrival.destination).isSome = true ∧
        (fieldText arrival.departureTime).isSome = true := by
    rw [fieldText_isSome_iff, fieldText_isSome_iff, fieldText_isSome_iff]
    exact ⟨fun h => ⟨h.lineId, h.destination, h.departureTime⟩,
      fun h => ⟨h.1, h.2.1, h.2.2⟩⟩
  rw [hfields]
  unfold arrivalLine
  cases fieldText arrival.lineId with
  | none => simp
  | some lineId =>
      cases fieldText arrival.destination with
      | none => simp
      | some destination =>
          cases fieldText arrival.departureTime with
          | none => simp
          | some departureTime => simp

theorem responseLine_isSome_iff {response : BkkUdsResponse} {i : Nat} :
    (responseLine response i).isSome = true ↔
      ∃ h : i < bkkUdsMaxArrivals, Terminated response.arrivals[i] := by
  unfold responseLine
  by_cases h : i < bkkUdsMaxArrivals
  · rw [dif_pos h, Option.isSome_map, arrivalLine_isSome_iff]
    exact ⟨fun hends => ⟨h, hends⟩, fun hends => hends.2⟩
  · rw [dif_neg h]
    simp [h]

theorem arrivalLines_isSome_iff {response : BkkUdsResponse} :
    (arrivalLines response).isSome = true ↔ Printable response := by
  unfold arrivalLines
  rw [rounds_isSome_iff]
  constructor
  · intro h
    have hline : ∀ i : Nat, (i : Int) < response.numberOfArrivals →
        (responseLine response i).isSome = true := fun i hi =>
      h i (List.mem_range'_1.2 ⟨Nat.zero_le i, by omega⟩)
    refine { inside := ?_, terminated := fun i hi => ?_ }
    · apply Classical.byContradiction
      intro hbeyond
      obtain ⟨hlt, -⟩ := responseLine_isSome_iff.1
        (hline bkkUdsMaxArrivals (by omega))
      exact absurd hlt (Nat.lt_irrefl _)
    · exact (responseLine_isSome_iff.1 (hline i.val hi)).2
  · intro h i hi
    have hlt : (i : Int) < response.numberOfArrivals := by
      have := (List.mem_range'_1.1 hi).2
      omega
    have hinside := h.inside
    have hslot : i < bkkUdsMaxArrivals := by omega
    exact responseLine_isSome_iff.2 ⟨hslot, h.terminated ⟨i, hslot⟩ hlt⟩

/-- The outcome of the query in round `i` can be shown: an answer fits, and where
the query has failed, `stop` has been set, and `response.status` by this query or
one before it. -/
structure Shows (options : Options) (query : Nat → Outcome) (i : Nat) : Prop where
  answer : ∀ response, query i = .answered response → Printable response
  failure : (query i).res ≠ .ok → options.testStopId = none ∧
    ∃ j ≤ i, (query j).status?.isSome = true

theorem isDefined_ask_iff {outcome : Outcome} {status : Option BkkApiStatus}
    {request : BkkUdsRequest} {stop : Option BkkStop}
    (hstatus : outcome.res = .ok → status.isSome = true) :
    (∀ event ∈ ask outcome status request stop, event.isDefined = true) ↔
      (∀ response, outcome = .answered response → Printable response) ∧
        (outcome.res ≠ .ok → stop.isSome = true ∧ status.isSome = true) := by
  unfold ask
  simp only [List.forall_mem_cons, List.not_mem_nil, false_implies, implies_true,
    and_true, Event.isDefined, true_and, Option.isSome_map]
  cases outcome with
  | answered response =>
      have hset := hstatus rfl
      rw [arrivalLines_isSome_iff]
      constructor
      · intro h
        refine ⟨fun response' hsame => ?_, fun hfails => absurd rfl hfails⟩
        cases hsame
        exact h.2
      · intro h
        exact ⟨hset, h.1 response rfl⟩
  | failed res hres received =>
      dsimp only
      rw [Option.isSome_map]
      constructor
      · intro h
        refine ⟨fun response hsame => ?_, fun _ => h.symm⟩
        cases hsame
      · intro h
        exact (h.2 hres).symm

/-- `response.status` has been set before round `i`, or by a query of the rounds
from there to `i + k`. -/
def StatusSet (query : Nat → Outcome) (before : Option BkkApiStatus) (i k : Nat) :
    Prop :=
  before.isSome = true ∨ ∃ j ≤ k, (query (i + j)).status?.isSome = true

theorem statusSet_zero {query : Nat → Outcome} {before : Option BkkApiStatus}
    {i : Nat} : StatusSet query before i 0 ↔
      ((query i).status?.or before).isSome = true := by
  unfold StatusSet
  simp [or_comm]

/-- The first round comes before the others. -/
theorem statusSet_succ {query : Nat → Outcome} {before : Option BkkApiStatus}
    {i k : Nat} : StatusSet query before i (k + 1) ↔
      StatusSet query ((query i).status?.or before) (i + 1) k := by
  have hfirst : (∃ j ≤ k + 1, (query (i + j)).status?.isSome = true) ↔
      (query i).status?.isSome = true ∨
        ∃ j ≤ k, (query (i + 1 + j)).status?.isSome = true := by
    constructor
    · rintro ⟨j, hj, hset⟩
      cases j with
      | zero => exact .inl hset
      | succ j =>
          refine .inr ⟨j, by omega, ?_⟩
          rw [Nat.add_assoc, Nat.add_comm 1 j]
          exact hset
    · rintro (hset | ⟨j, hj, hset⟩)
      · exact ⟨0, Nat.zero_le _, hset⟩
      · exact ⟨1 + j, by omega, by rw [← Nat.add_assoc]; exact hset⟩
  unfold StatusSet
  rw [Option.isSome_or, Bool.or_eq_true, hfirst, or_left_comm, or_assoc]

/-- All the rounds show what is there exactly if each of them does. -/
theorem isDefined_asksFrom_iff {query : Nat → Outcome} {apiKey : Bytes}
    {targets : List (Bytes × Option BkkStop)} {i : Nat}
    {before : Option BkkApiStatus} :
    (∀ event ∈ asksFrom query apiKey i targets before, event.isDefined = true) ↔
      ∀ k target, targets[k]? = some target →
        (∀ response, query (i + k) = .answered response → Printable response) ∧
          ((query (i + k)).res ≠ .ok →
            target.2.isSome = true ∧ StatusSet query before i k) := by
  induction targets generalizing i before with
  | nil => simp [asksFrom]
  | cons target rest ih =>
      have hset : (query i).res = .ok →
          ((query i).status?.or before).isSome = true := by
        cases query i with
        | answered response => intro _; rfl
        | failed res hres received => intro hok; exact absurd hok hres
      have hshift : ∀ k, i + 1 + k = i + (k + 1) := fun k => by omega
      rw [asksFrom, List.forall_mem_append, isDefined_ask_iff hset, ih,
        ← statusSet_zero]
      simp only [← statusSet_succ, hshift]
      constructor
      · intro h k next hnext
        cases k with
        | zero =>
            cases hnext
            exact h.1
        | succ k => exact h.2 k next hnext
      · intro h
        exact ⟨h 0 target rfl, fun k next hnext => h (k + 1) next hnext⟩

theorem isSome_of_targets {malloc : Nat → Bool} {table : List BkkStop}
    {options : Options} {target : Bytes × Option BkkStop}
    (h : target ∈ targets malloc table options) :
    target.2.isSome = true ↔ options.testStopId = none := by
  unfold targets at h
  cases htest : options.testStopId with
  | none =>
      rw [htest] at h
      obtain ⟨stop, -, rfl⟩ := List.mem_map.1 h
      simp
  | some testStopId =>
      rw [htest] at h
      rw [List.mem_singleton.1 h]
      simp

/-- **Reading only what is there.**  `main` always stays inside the indices of its
search.  All that it shows was there to read exactly if every answer keeps inside
its fields, and a query fails only in a search, behind another one that has brought
a `response.status`. -/
theorem main_isDefined_iff (calls : Calls) (table : List BkkStop)
    (argv : List Bytes) :
    ∃ code events, main calls table argv = some (code, events) ∧
      ((∀ event ∈ events, event.isDefined = true) ↔
        ∀ options apiKey, accepted calls argv = some (options, apiKey) →
          ∀ i < (targets calls.malloc table options).length,
            Shows options calls.query i) := by
  rcases main_cases calls table argv with
    ⟨hnone, code, hmain⟩ | ⟨options, apiKey, found, haccepted, hquiet, hmain⟩
  · refine ⟨code, [], hmain, ?_⟩
    rw [hnone]
    simp
  · refine ⟨0, _, hmain, ?_⟩
    have hfound : ∀ event ∈ found, event.isDefined = true := fun event hmem =>
      (Bool.and_eq_true_iff.1 (hquiet event hmem)).2
    rw [List.forall_mem_append, isDefined_asksFrom_iff]
    simp only [StatusSet, Nat.zero_add, Option.isSome_none, Bool.false_eq_true,
      false_or]
    constructor
    · intro h options' apiKey' hsame i hi
      rw [haccepted] at hsame
      cases hsame
      have hround := h.2 i _ (List.getElem?_eq_getElem hi)
      rw [isSome_of_targets (List.getElem_mem hi)] at hround
      exact { answer := hround.1, failure := hround.2 }
    · intro h
      refine ⟨hfound, fun k target htarget => ?_⟩
      obtain ⟨hk, -⟩ := List.getElem?_eq_some_iff.1 htarget
      have hshows := h options apiKey haccepted k hk
      rw [isSome_of_targets (List.mem_of_getElem? htarget)]
      exact ⟨hshows.answer, hshows.failure⟩

/-! ## What is asked -/

/-- The requests that leave the client. -/
def requestsOf (events : List Event) : List BkkUdsRequest :=
  events.filterMap Event.request?

theorem requestsOf_ask (outcome : Outcome) (status : Option BkkApiStatus)
    (request : BkkUdsRequest) (stop : Option BkkStop) :
    requestsOf (ask outcome status request stop) = [request] := by
  cases outcome with
  | answered response => rfl
  | failed res hres received => rfl

/-- One request for each stop, whatever the queries come to. -/
theorem requestsOf_asksFrom (query : Nat → Outcome) (apiKey : Bytes)
    (targets : List (Bytes × Option BkkStop)) (i : Nat)
    (before : Option BkkApiStatus) :
    requestsOf (asksFrom query apiKey i targets before) =
      targets.map fun target => requestFor target.1 apiKey := by
  induction targets generalizing i before with
  | nil => rfl
  | cons target rest ih =>
      have hhead := requestsOf_ask (query i) ((query i).status?.or before)
        (requestFor target.1 apiKey) target.2
      have hrest := ih (i + 1) ((query i).status?.or before)
      unfold requestsOf at hhead hrest ⊢
      rw [asksFrom, List.filterMap_append, hhead, hrest]
      rfl

/-- The stop id and the key that the server reads in a request, with whatever its
memory holds behind it. -/
def serverReads (beyond : Bytes) (request : BkkUdsRequest) : Bytes × Bytes :=
  let received : RequestInMemory := ⟨.ofBytes request.toBytes, beyond⟩
  (received.stopId, received.apiKey)

/-- The fields of a request read as its two texts, as far as they fit, whatever is
behind them. -/
theorem requestFor_read (beyond stopId apiKey : Bytes) :
    RequestInMemory.stopId ⟨requestFor stopId apiKey, beyond⟩ =
        (cString stopId).take (bkkUdsMaxStopIdLen - 1) ∧
      RequestInMemory.apiKey ⟨requestFor stopId apiKey, beyond⟩ =
        (cString apiKey).take (bkkUdsMaxKeyLen - 1) := by
  have hstopRoom : 0 < bkkUdsMaxStopIdLen := by decide
  have hkeyRoom : 0 < bkkUdsMaxKeyLen := by decide
  have hstop := storedPrefix_terminatedCopy hstopRoom stopId
  have hkey := storedPrefix_terminatedCopy hkeyRoom apiKey
  have hstopText := cString_terminatedCopy hstopRoom stopId
  have hkeyText := cString_terminatedCopy hkeyRoom apiKey
  unfold requestFor
  generalize terminatedCopy bkkUdsMaxStopIdLen stopId = field at hstop hstopText
  generalize terminatedCopy bkkUdsMaxKeyLen apiKey = keyField at hkey hkeyText
  rw [← hstopText, ← hkeyText]
  exact ⟨RequestInMemory.stopId_of_terminated hstop.terminated,
    RequestInMemory.apiKey_of_terminated hkey.terminated⟩

theorem serverReads_requestFor (beyond stopId apiKey : Bytes) :
    serverReads beyond (requestFor stopId apiKey) =
      ((cString stopId).take (bkkUdsMaxStopIdLen - 1),
        (cString apiKey).take (bkkUdsMaxKeyLen - 1)) := by
  have hread := requestFor_read beyond stopId apiKey
  unfold serverReads
  simp only [BkkUdsRequest.ofBytes_toBytes, hread.1, hread.2]

/-- The stop ids to ask about, and the key to ask with. -/
def toAsk (calls : Calls) (table : List BkkStop) (argv : List Bytes) :
    List (Bytes × Bytes) :=
  (accepted calls argv).elim [] fun given =>
    (targets calls.malloc table given.1).map fun target =>
      (cString target.1, cString given.2)

/-- **What is asked.**  Unless an option makes `main` return, the server reads one
request for the last stop id given, or else one for each stop that contains the
last string given, in the order of the table; each with as much of the stop id and
of the key as fits. -/
theorem main_asks (calls : Calls) (table : List BkkStop) (argv : List Bytes)
    (beyond : Bytes) :
    ∃ code events, main calls table argv = some (code, events) ∧
      (requestsOf events).map (serverReads beyond) =
        (toAsk calls table argv).map fun given =>
          (given.1.take (bkkUdsMaxStopIdLen - 1),
            given.2.take (bkkUdsMaxKeyLen - 1)) := by
  unfold toAsk
  rcases main_cases calls table argv with
    ⟨hnone, code, hmain⟩ | ⟨options, apiKey, found, haccepted, hquiet, hmain⟩
  · refine ⟨code, [], hmain, ?_⟩
    rw [hnone]
    rfl
  · refine ⟨0, _, hmain, ?_⟩
    have hfound : requestsOf found = [] := by
      refine List.filterMap_eq_nil_iff.2 fun event hmem => ?_
      exact Option.isNone_iff_eq_none.1
        (Bool.and_eq_true_iff.1 (hquiet event hmem)).1
    have hasked := requestsOf_asksFrom calls.query apiKey
      (targets calls.malloc table options) 0 none
    have hboth : requestsOf (found ++ asksFrom calls.query apiKey 0
        (targets calls.malloc table options) none) =
          (targets calls.malloc table options).map fun target =>
            requestFor target.1 apiKey := by
      rw [← hasked, requestsOf, List.filterMap_append]
      show requestsOf found ++ _ = _
      rw [hfound]
      rfl
    rw [hboth, haccepted, Option.elim_some, List.map_map, List.map_map]
    refine List.map_congr_left fun target _ => ?_
    exact serverReads_requestFor beyond target.1 apiKey

/-- Three stops, two of which lie in a street. -/
def sampleTable : List BkkStop :=
  [sampleStop (bytesOf "007817") (bytesOf "Marta utca"),
    sampleStop (bytesOf "007880") (bytesOf "Becsi ut"),
    sampleStop (bytesOf "007881") (bytesOf "Varadi utca")]

/-- The GNU library, a key file, enough memory, and no server. -/
def sampleCalls : Calls where
  order := .permute
  file := plainFile (bytesOf "KEY\n")
  malloc := fun _ => true
  query := fun _ => .failed .connectionFailed (by decide) none
  uninitialised := sampleStop [] []

/-- `client x -s utca -k key.txt`. -/
def sampleArgv : List Bytes :=
  [bytesOf "client", bytesOf "x", bytesOf "-s", bytesOf "utca", bytesOf "-k",
    bytesOf "key.txt"]

theorem returns_sample : returns optstring (Scan.start .permute sampleArgv) =
    [{ opt := 115, optarg := some (bytesOf "utca") },
      { opt := 107, optarg := some (bytesOf "key.txt") }] := by
  have hfirst : getopt optstring (Scan.start .permute sampleArgv) =
      some ({ opt := 115, optarg := some (bytesOf "utca") },
        { order := .permute
          nextchar := []
          args := [bytesOf "-k", bytesOf "key.txt"] }) := by
    decide
  have hsecond : getopt optstring
      { order := .permute
        nextchar := []
        args := [bytesOf "-k", bytesOf "key.txt"] } =
      some ({ opt := 107, optarg := some (bytesOf "key.txt") },
        { order := .permute, nextchar := [], args := [] }) := by
    decide
  rw [returns_of_call hfirst, returns_of_call hsecond, returns_of_end rfl]

theorem accepted_sample : accepted sampleCalls sampleArgv =
    some ({ substring := some (bytesOf "utca")
            keyPath := some (bytesOf "key.txt")
            testStopId := none }, bytesOf "KEY") := by
  have hkey : keyIn sampleCalls.file (bytesOf "key.txt") = some (bytesOf "KEY") := by
    have hread := readApiKeyFromFile_plainFile (bytesOf "KEY\n")
      (bytesOf "key.txt") none
    unfold keyIn
    rw [show sampleCalls.file = plainFile (bytesOf "KEY\n") from rfl, hread]
    show keyString _ = _
    rw [keyString_filled]
    decide
  unfold accepted
  rw [show sampleCalls.order = .permute from rfl, returns_sample]
  show (Option.map _ (keyIn sampleCalls.file (bytesOf "key.txt"))) = _
  rw [hkey]
  rfl

/-- A search behind an operand.  It finds two stops, and nobody answers. -/
theorem main_asks_search : ∃ code events,
    main sampleCalls sampleTable sampleArgv = some (code, events) ∧
      (requestsOf events).map (serverReads []) =
        [(bytesOf "007817", bytesOf "KEY"), (bytesOf "007881", bytesOf "KEY")] := by
  obtain ⟨code, events, hmain, hasked⟩ :=
    main_asks sampleCalls sampleTable sampleArgv []
  refine ⟨code, events, hmain, ?_⟩
  rw [hasked, toAsk, accepted_sample]
  decide +kernel

end BkkApi.Client.TestClient
