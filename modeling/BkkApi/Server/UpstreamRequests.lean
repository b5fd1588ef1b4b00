import BkkApi.Server.ApiQuery
import BkkApi.Server.InFlight
import BkkApi.Verified.Outputs

/-!
# Whose requests the upstream gets

Every URL that the server hands to libcurl carries the stop id and the key of
somebody: of the client on whose connection the fetch was found necessary.
`requests_accounted` says that in every run the URLs and these connections
correspond, one to one, although fetches outlive their connections and end in
any order.

* `Performed` follows the calls of `fresh_fetch_and_update_cache` through
  `curl_easy_perform`, which each of them comes to once at most.
* `Attributed` is the invariant of the server that ties calls to connections.
-/

namespace BkkApi.Server.UpstreamRequests

open BkkApi.Verified.CData
open BkkApi.Verified.Run
open BkkApi.Server.Protocol
open BkkApi.Server.ResponseParser
open BkkApi.Server.Api
open BkkApi.Server.ApiQuery
open BkkApi.Server.Cache
open BkkApi.Server.Fetching (Fetches Call Advance Follows setPc)
open BkkApi.Server.HandleClient
open BkkApi.Server.Transcript
open BkkApi.Server.InFlight (length_le_of_step)
open BkkApi.Server.Serving

/-! ## What is handed to libcurl -/

/-- The URL that a call hands to `curl_easy_perform`. -/
def urlOf (call : Call) : Bytes :=
  cString (requestUrl (bytesOf "arrivals-and-departures-for-stop.json")
    call.apiKey (stopParams call.stopId))

/-- The call and the URL of a `curl_easy_perform`. -/
def performedBy (s : Fetches) : Fetching.Action → Option (Nat × Bytes)
  | .advance k _ =>
      (s.calls[k]?).bind fun call =>
        if call.pc = .transferring then some (k, urlOf call) else none
  | _ => none

/-- The call has been through `curl_easy_perform`. -/
def isPerformed (call : Call) : Bool :=
  match call.pc with
  | .entered | .transferring => false
  | .failed status => decide (status ≠ .missingApiKey ∧ status ≠ .curlInitFailed)
  | _ => true

theorem handsToCurl_urlOf {call : Call} (hkey : call.apiKey ≠ []) :
    HandsToCurl call.stopId call.apiKey (urlOf call) := by
  intro perform
  rw [getArrivalsForStop, makeRequest, if_neg hkey]
  rfl

section Calls

variable {cJsonParse : Bytes → Option CJson}

theorem isPerformed_afterInit (call : Call) (upstream : Fetching.Upstream) :
    isPerformed { call with pc := call.afterInit upstream } = false := by
  unfold Call.afterInit
  by_cases hkey : call.apiKey = []
  · rw [if_pos hkey]
    rfl
  · rw [if_neg hkey]
    by_cases hready : upstream.curlReady = true
    · rw [if_pos hready]
      rfl
    · rw [if_neg hready]
      rfl

/-- No transfer ends with one of the statuses that come before it. -/
theorem status_of_afterPerform {transfer : Transfer} {status : BkkApiStatus}
    {response : Bytes} (h : afterPerform transfer = .ok (status, response)) :
    status ≠ .missingApiKey ∧ status ≠ .curlInitFailed := by
  cases transfer with
  | thrown => cases h
  | failed chunks =>
      cases h
      decide
  | replied httpCode chunks =>
      simp only [afterPerform] at h
      by_cases hinvalid : httpCode = 401
      · rw [if_pos hinvalid] at h
        cases h
        decide
      · rw [if_neg hinvalid] at h
        by_cases hhttp : httpCode < 200 ∨ httpCode ≥ 300
        · rw [if_pos hhttp] at h
          cases h
          decide
        · rw [if_neg hhttp] at h
          cases h
          decide

theorem status_of_perform {timeinfo : Nat → Int → Option Tm}
    {stopId apiKey : Bytes} {perform : Bytes → Transfer}
    {status : BkkApiStatus} {arrivals : List Arrival} (hkey : apiKey ≠ [])
    (h : getArrivalsForStation cJsonParse timeinfo stopId apiKey
      (some perform) = (status, arrivals)) :
    status ≠ .missingApiKey ∧ status ≠ .curlInitFailed := by
  have hstop : ∃ transfer, getArrivalsForStop stopId apiKey (some perform) =
      afterPerform transfer :=
    ⟨_, if_neg hkey⟩
  obtain ⟨transfer, htransfer⟩ := hstop
  unfold getArrivalsForStation at h
  rw [htransfer] at h
  cases hafter : afterPerform transfer with
  | error e =>
      rw [hafter] at h
      cases h
      decide
  | ok result =>
      rw [hafter] at h
      by_cases hfetch : result.1 ≠ .ok
      · simp only [if_pos hfetch] at h
        cases h
        exact status_of_afterPerform hafter
      · simp only [if_neg hfetch] at h
        split at h
        · cases h
          decide
        · cases h
          decide

theorem isPerformed_afterTransfer {call : Call} (hkey : call.apiKey ≠ [])
    (upstream : Fetching.Upstream) :
    isPerformed { call with pc := call.afterTransfer cJsonParse upstream } =
      true := by
  unfold isPerformed Call.afterTransfer
  cases hfetch : getArrivalsForStation cJsonParse upstream.timeinfo call.stopId
      call.apiKey (some upstream.perform) with
  | mk fetchStatus freshArrivals =>
      by_cases hok : fetchStatus = .ok
      · subst hok
        rfl
      · simp only [if_pos hok]
        exact decide_eq_true (status_of_perform hkey hfetch)

/-! ## Once for each call -/

/-- The URLs handed over so far are those of the calls that have been through
`curl_easy_perform`, once each. -/
structure Performed (s : Fetches) (l : List (Nat × Bytes)) : Prop where
  nodup : (l.map Prod.fst).Nodup
  url : ∀ p ∈ l, ∃ call, s.calls[p.1]? = some call ∧
    isPerformed call = true ∧ urlOf call = p.2
  complete : ∀ (k : Nat) call, s.calls[k]? = some call →
    isPerformed call = true → ∃ url, (k, url) ∈ l
  keyed : ∀ (k : Nat) call, s.calls[k]? = some call →
    isPerformed call = true ∨ call.pc = .transferring → call.apiKey ≠ []

variable {s t : Fetches} {l : List (Nat × Bytes)}

theorem Performed.enter (h : Performed s l) (request : RequestInMemory) :
    Performed (enterCall s request) l := by
  have hcases : ∀ (k : Nat) call, (enterCall s request).calls[k]? = some call →
      s.calls[k]? = some call ∨ call = Call.enter request := by
    intro k call hcall
    by_cases hlt : k < s.calls.length
    · rw [enterCall, List.getElem?_append_left hlt] at hcall
      exact .inl hcall
    · rw [enterCall, List.getElem?_append_right (Nat.le_of_not_lt hlt)] at hcall
      exact .inr (List.mem_singleton.1 (List.mem_of_getElem? hcall))
  refine { nodup := h.nodup, url := ?_, complete := ?_, keyed := ?_ }
  · intro p hp
    obtain ⟨call, hcall, hcalled⟩ := h.url p hp
    have hlt := (List.getElem?_eq_some_iff.1 hcall).1
    refine ⟨call, ?_, hcalled⟩
    rw [enterCall, List.getElem?_append_left hlt, hcall]
  · intro k call hcall hperformed
    rcases hcases k call hcall with hold | rfl
    · exact h.complete k call hold hperformed
    · cases hperformed
  · intro k call hcall hlate
    rcases hcases k call hcall with hold | rfl
    · exact h.keyed k call hold hlate
    · rcases hlate with hperformed | htransferring
      · cases hperformed
      · cases htransferring

/-- A call that goes on without `curl_easy_perform`. -/
theorem Performed.goesOn (h : Performed s l) {k : Nat} {call : Call}
    {pc : Fetching.Pc} (hcall : s.calls[k]? = some call)
    (hcalls : t.calls = (setPc s k call pc).calls)
    (hsame : isPerformed { call with pc := pc } = isPerformed call)
    (hkey : isPerformed call = true ∨ pc = .transferring → call.apiKey ≠ []) :
    Performed t l := by
  have hget := Fetching.getElem?_setPc hcall pc
  refine { nodup := h.nodup, url := ?_, complete := ?_, keyed := ?_ }
  · intro p hp
    obtain ⟨other, hother, hperformed, hurl⟩ := h.url p hp
    rw [hcalls, hget]
    by_cases hk : p.1 = k
    · rw [hk] at hother
      cases Option.some.inj (hcall.symm.trans hother)
      exact ⟨_, if_pos hk, hsame.trans hperformed, hurl⟩
    · exact ⟨other, (if_neg hk).trans hother, hperformed, hurl⟩
  · intro j other hother hperformed
    rw [hcalls, hget] at hother
    by_cases hj : j = k
    · rw [if_pos hj] at hother
      cases hother
      exact h.complete j call (hj ▸ hcall) (hsame.symm.trans hperformed)
    · rw [if_neg hj] at hother
      exact h.complete j other hother hperformed
  · intro j other hother hlate
    rw [hcalls, hget] at hother
    by_cases hj : j = k
    · rw [if_pos hj] at hother
      cases hother
      rw [hsame] at hlate
      exact hkey hlate
    · rw [if_neg hj] at hother
      exact h.keyed j other hother hlate

/-- A call that has just been through `curl_easy_perform`. -/
theorem Performed.performs (h : Performed s l) {k : Nat} {call : Call}
    {pc : Fetching.Pc} (hcall : s.calls[k]? = some call)
    (hcalls : t.calls = (setPc s k call pc).calls)
    (hpc : call.pc = .transferring)
    (hperformed : isPerformed { call with pc := pc } = true) :
    Performed t (l ++ [(k, urlOf call)]) := by
  have hget := Fetching.getElem?_setPc hcall pc
  have hbefore : isPerformed call = false := by
    rw [isPerformed, hpc]
  have hfresh : k ∉ l.map Prod.fst := by
    intro hmem
    obtain ⟨p, hp, hpk⟩ := List.mem_map.1 hmem
    obtain ⟨other, hother, hdone, -⟩ := h.url p hp
    rw [hpk] at hother
    cases Option.some.inj (hcall.symm.trans hother)
    rw [hbefore] at hdone
    cases hdone
  refine { nodup := ?_, url := ?_, complete := ?_, keyed := ?_ }
  · rw [List.map_append]
    show (l.map Prod.fst ++ [k]).Nodup
    exact List.nodup_append.2 ⟨h.nodup, List.nodup_singleton k, fun j hj j' hj' => by
      rintro rfl
      exact hfresh (List.mem_singleton.1 hj' ▸ hj)⟩
  · intro p hp
    rw [hcalls, hget]
    rcases List.mem_append.1 hp with hold | hnew
    · obtain ⟨other, hother, hdone, hurl⟩ := h.url p hold
      have hk : p.1 ≠ k := fun hk => hfresh (hk ▸ List.mem_map_of_mem hold)
      exact ⟨other, (if_neg hk).trans hother, hdone, hurl⟩
    · rw [List.mem_singleton.1 hnew]
      exact ⟨_, if_pos rfl, hperformed, rfl⟩
  · intro j other hother hdone
    rw [hcalls, hget] at hother
    by_cases hj : j = k
    · exact ⟨urlOf call, List.mem_append_right l (List.mem_singleton.2 (by rw [hj]))⟩
    · rw [if_neg hj] at hother
      obtain ⟨url, hurl⟩ := h.complete j other hother hdone
      exact ⟨url, List.mem_append_left _ hurl⟩
  · intro j other hother hlate
    rw [hcalls, hget] at hother
    by_cases hj : j = k
    · rw [if_pos hj] at hother
      cases hother
      exact h.keyed k call hcall (.inr hpc)
    · rw [if_neg hj] at hother
      exact h.keyed j other hother hlate

/-- Every step of the fetches keeps the account. -/
theorem Performed.step {a : Fetching.Action} (h : Performed s l)
    (hstep : Fetching.step cJsonParse s a = some t) :
    Performed t (l ++ (performedBy s a).toList) := by
  rcases Fetching.step_cases hstep with ⟨later, rfl, -, rfl⟩ |
    ⟨request, rfl, rfl⟩ | ⟨k, upstream, call, rfl, hcall, hadvance⟩
  · show Performed { s with now := later } (l ++ [])
    rw [List.append_nil]
    exact ⟨h.nodup, h.url, h.complete, h.keyed⟩
  · show Performed (enterCall s request) (l ++ [])
    rw [List.append_nil]
    exact h.enter request
  · rw [performedBy, hcall, Option.bind_some]
    have hkeyed := h.keyed k call hcall
    cases hadvance with
    | init hpc =>
        rw [if_neg (by rw [hpc]; decide), Option.toList_none, List.append_nil]
        have hbefore : isPerformed call = false := by
          rw [isPerformed, hpc]
        refine h.goesOn hcall rfl ?_ ?_
        · exact (isPerformed_afterInit call upstream).trans hbefore.symm
        · intro hlate
          rcases hlate with hperformed | hinit
          · rw [hbefore] at hperformed
            cases hperformed
          · intro hkey
            rw [Call.afterInit, if_pos hkey] at hinit
            cases hinit
    | transfer hpc =>
        rw [if_pos hpc, Option.toList_some]
        have hkey := hkeyed (.inr hpc)
        exact h.performs hcall rfl hpc (isPerformed_afterTransfer hkey upstream)
    | stamp hpc | write hpc | sweep hpc =>
        have hperformed : isPerformed call = true := by
          rw [isPerformed, hpc]
        rw [if_neg (by rw [hpc]; exact Fetching.Pc.noConfusion),
          Option.toList_none, List.append_nil]
        exact h.goesOn hcall rfl hperformed.symm
          fun _ => hkeyed (.inl hperformed)

end Calls

/-! ## Who has asked -/

/-- The call that an event has started. -/
def startedCall : Event → Option Nat
  | .refreshed k | .called k => some k
  | _ => none

/-- What a connection has behind it when call `k` is made for its request: the
lookup has missed, or has given an old entry.  A detached thread copies the
request to another place in memory. -/
inductive AskedBy (events : List Event) (k : Nat) (request : RequestInMemory) :
    Prop
  | missed {packet : Option Bytes} {now : TimePoint} {rest : List Event}
      (hreq : acceptRequest packet request.beyond = some request)
      (hevents : events = .received packet ::
        .lookedUp request.stopId now .miss none :: .called k :: rest)
  | stale {packet : Option Bytes} {now : TimePoint} {entry : CacheEntry}
      {original : RequestInMemory} {rest : List Event}
      (hreq : acceptRequest packet request.beyond = some request)
      (horiginal : acceptRequest packet original.beyond = some original)
      (hevents : events = .received packet ::
        .lookedUp original.stopId now .hitStale (some entry) ::
          .refreshed k :: rest)

theorem AskedBy.append {events : List Event} {k : Nat}
    {request : RequestInMemory} (h : AskedBy events k request)
    (more : List Event) : AskedBy (events ++ more) k request := by
  cases h with
  | missed hreq hevents => exact .missed hreq (by rw [hevents]; rfl)
  | stale hreq horiginal hevents =>
      exact .stale hreq horiginal (by rw [hevents]; rfl)

theorem AskedBy.started {events : List Event} {k : Nat}
    {request : RequestInMemory} (h : AskedBy events k request) :
    ∃ event, events[2]? = some event ∧ startedCall event = some k := by
  cases h with
  | missed _ hevents => exact ⟨.called k, by rw [hevents]; rfl, rfl⟩
  | stale _ _ hevents => exact ⟨.refreshed k, by rw [hevents]; rfl, rfl⟩

/-- A connection asks once. -/
theorem AskedBy.unique {events : List Event} {k k' : Nat}
    {request request' : RequestInMemory} (h : AskedBy events k request)
    (h' : AskedBy events k' request') : k = k' := by
  obtain ⟨event, hevent, hk⟩ := h.started
  obtain ⟨event', hevent', hk'⟩ := h'.started
  rw [hevent] at hevent'
  cases hevent'
  exact Option.some.inj (hk.symm.trans hk')

/-- Another place in memory is behind the thread's copy of the packet. -/
theorem acceptRequest_elsewhere {packet : Option Bytes} {beyond beyond' : Bytes}
    {request : RequestInMemory}
    (h : acceptRequest packet beyond = some request) :
    acceptRequest packet beyond' = some { request with beyond := beyond' } := by
  cases packet with
  | none => cases h
  | some bytes =>
      have hrequest := acceptRequest_eq_some_iff.1 h
      exact acceptRequest_eq_some_iff.2 ⟨hrequest.1, by rw [hrequest.2]⟩

/-- A step of `handle_client` starts no call, or the one that its connection has
asked for. -/
theorem starts_cases {config : SoundConfig} {fetches fetches' : Fetches}
    {env : Environment} {pc pc' : Pc} {before events : List Event}
    (hfits : Fits config fetches pc before)
    (h : Handles fetches env pc pc' fetches' events) :
    (fetches' = fetches ∧ ∀ event ∈ events, startedCall event = none) ∨
      ∃ request event, fetches' = enterCall fetches request ∧
        events = [event] ∧ startedCall event = some fetches.calls.length ∧
        AskedBy (before ++ [event]) fetches.calls.length request := by
  cases h with
  | refresh =>
      cases hfits with
      | hitStale hreq hsource hage =>
          exact .inr ⟨_, _, rfl, rfl, rfl,
            .stale (acceptRequest_elsewhere hreq) hreq rfl⟩
  | call =>
      cases hfits with
      | missed hreq => exact .inr ⟨_, _, rfl, rfl, rfl, .missed hreq rfl⟩
  | accept | reject | fresh | stale | miss | close =>
      refine .inl ⟨rfl, fun event hevent => ?_⟩
      rw [List.mem_singleton.1 hevent]
      rfl
  | returned | failed => exact .inl ⟨rfl, fun event hevent => by cases hevent⟩
  | reply =>
      refine .inl ⟨rfl, fun event hevent => ?_⟩
      split at hevent
      · rw [List.mem_singleton.1 hevent]
        rfl
      · cases hevent

/-! ## Every call has been asked for by one connection -/

section Connections

variable {cJsonParse : Bytes → Option CJson} {config : SoundConfig} {n : Nat}
  {s t : UdsServer n}

/-- Every call is made for one connection, which has asked for it, with the stop id
and the key of its request. -/
structure Attributed (s : UdsServer n) : Prop where
  asked : ∀ (k : Nat) call, s.fetches.calls[k]? = some call →
    ∃ conn request, AskedBy (s.journal conn) k request ∧
      call.stopId = request.stopId ∧ call.apiKey = request.apiKey
  known : ∀ conn event k, event ∈ s.journal conn →
    startedCall event = some k → k < s.fetches.calls.length
  once : ∀ conn conn' event event' k, event ∈ s.journal conn →
    event' ∈ s.journal conn' → startedCall event = some k →
      startedCall event' = some k → conn = conn'

theorem record_apply (journal : Conn → List Event) (conn : Conn)
    (events : List Event) (conn' : Conn) :
    record journal conn events conn' =
      journal conn' ++ if conn' = conn then events else [] := by
  unfold record
  by_cases hconn : conn' = conn
  · rw [hconn, Function.update_self, if_pos rfl]
  · rw [Function.update_of_ne hconn, if_neg hconn, List.append_nil]

/-- What a fetch step leaves of a call. -/
theorem call_before {a : Fetching.Action} {fetches fetches' : Fetches}
    (hown : ownFetchStep a = true)
    (hstep : Fetching.step cJsonParse fetches a = some fetches') {k : Nat}
    {call' : Call} (hcall' : fetches'.calls[k]? = some call') :
    ∃ call, fetches.calls[k]? = some call ∧ call'.stopId = call.stopId ∧
      call'.apiKey = call.apiKey := by
  rcases Fetching.step_cases hstep with ⟨later, rfl, -, rfl⟩ |
    ⟨request, rfl, rfl⟩ | ⟨j, upstream, call, rfl, hcall, hadvance⟩
  · exact ⟨call', hcall', rfl, rfl⟩
  · cases hown
  · obtain ⟨pc, hcalls, -⟩ := hadvance.setPc
    rw [hcalls, Fetching.getElem?_setPc hcall] at hcall'
    by_cases hk : k = j
    · rw [if_pos hk] at hcall'
      cases hcall'
      exact ⟨call, hk ▸ hcall, rfl, rfl⟩
    · rw [if_neg hk] at hcall'
      exact ⟨call', hcall', rfl, rfl⟩

/-- A handler's step that starts no call. -/
theorem Attributed.goesOn (h : Attributed s) {conn : Conn} {events : List Event}
    (hfetches : t.fetches = s.fetches)
    (hjournal : t.journal = record s.journal conn events)
    (hevents : ∀ event ∈ events, startedCall event = none) : Attributed t := by
  have hmem : ∀ conn' event k, event ∈ t.journal conn' →
      startedCall event = some k → event ∈ s.journal conn' := by
    intro conn' event k hevent hk
    rw [hjournal, record_apply] at hevent
    rcases List.mem_append.1 hevent with hold | hnew
    · exact hold
    · split at hnew
      · rw [hevents event hnew] at hk
        cases hk
      · cases hnew
  refine { asked := ?_, known := ?_, once := ?_ }
  · intro k call hcall
    rw [hfetches] at hcall
    obtain ⟨conn', request, hasked, hstrings⟩ := h.asked k call hcall
    refine ⟨conn', request, ?_, hstrings⟩
    rw [hjournal, record_apply]
    exact hasked.append _
  · intro conn' event k hevent hk
    rw [hfetches]
    exact h.known conn' event k (hmem conn' event k hevent hk) hk
  · intro conn₁ conn₂ event event' k hevent hevent' hk hk'
    exact h.once conn₁ conn₂ event event' k (hmem conn₁ event k hevent hk)
      (hmem conn₂ event' k hevent' hk') hk hk'

/-- A handler's step that starts one. -/
theorem Attributed.starts (h : Attributed s) {conn : Conn} {event : Event}
    {request : RequestInMemory}
    (hfetches : t.fetches = enterCall s.fetches request)
    (hjournal : t.journal = record s.journal conn [event])
    (hevent : startedCall event = some s.fetches.calls.length)
    (hasked : AskedBy (s.journal conn ++ [event]) s.fetches.calls.length
      request) : Attributed t := by
  have hlength : t.fetches.calls.length = s.fetches.calls.length + 1 := by
    rw [hfetches, enterCall, List.length_append, List.length_singleton]
  have hmem : ∀ conn' event' k, event' ∈ t.journal conn' →
      startedCall event' = some k →
        (event' ∈ s.journal conn' ∧ k < s.fetches.calls.length) ∨
          (conn' = conn ∧ k = s.fetches.calls.length) := by
    intro conn' event' k hevent' hk
    rw [hjournal, record_apply] at hevent'
    rcases List.mem_append.1 hevent' with hold | hnew
    · exact .inl ⟨hold, h.known conn' event' k hold hk⟩
    · split at hnew
      · rename_i hconn
        rw [List.mem_singleton.1 hnew, hevent] at hk
        exact .inr ⟨hconn, (Option.some.inj hk).symm⟩
      · cases hnew
  refine { asked := ?_, known := ?_, once := ?_ }
  · intro k call hcall
    rw [hfetches, enterCall] at hcall
    by_cases hlt : k < s.fetches.calls.length
    · rw [List.getElem?_append_left hlt] at hcall
      obtain ⟨conn', request', hasked', hstrings⟩ := h.asked k call hcall
      refine ⟨conn', request', ?_, hstrings⟩
      rw [hjournal, record_apply]
      exact hasked'.append _
    · have hk : k = s.fetches.calls.length := by
        have := (List.getElem?_eq_some_iff.1 hcall).1
        rw [List.length_append, List.length_singleton] at this
        omega
      rw [hk, List.getElem?_concat_length] at hcall
      cases hcall
      refine ⟨conn, request, ?_, rfl, rfl⟩
      rw [hjournal, record_apply, if_pos rfl, hk]
      exact hasked
  · intro conn' event' k hevent' hk
    rcases hmem conn' event' k hevent' hk with ⟨-, hlt⟩ | ⟨-, heq⟩
    · omega
    · omega
  · intro conn₁ conn₂ event₁ event₂ k hevent₁ hevent₂ hk₁ hk₂
    rcases hmem conn₁ event₁ k hevent₁ hk₁ with ⟨hold₁, hlt₁⟩ | ⟨hconn₁, heq₁⟩
    · rcases hmem conn₂ event₂ k hevent₂ hk₂ with ⟨hold₂, -⟩ | ⟨-, heq₂⟩
      · exact h.once conn₁ conn₂ event₁ event₂ k hold₁ hold₂ hk₁ hk₂
      · omega
    · rcases hmem conn₂ event₂ k hevent₂ hk₂ with ⟨-, hlt₂⟩ | ⟨hconn₂, -⟩
      · omega
      · rw [hconn₁, hconn₂]

theorem Attributed.step {guard : UdsServer n → Action n → Prop}
    (hreach : (machine cJsonParse n config).ReachableIf guard s)
    (h : Attributed s) {a : Action n}
    (hstep : step cJsonParse s a = some t) : Attributed t := by
  cases step_cases hstep with
  | accept hen => exact ⟨h.asked, h.known, h.once⟩
  | pool hown hen => exact ⟨h.asked, h.known, h.once⟩
  | fetch hown hfetch =>
      refine { asked := ?_, known := ?_, once := h.once }
      · intro k call' hcall'
        obtain ⟨call, hcall, hstopId, hapiKey⟩ := call_before hown hfetch hcall'
        rw [hstopId, hapiKey]
        exact h.asked k call hcall
      · intro conn event k hevent hk
        exact Nat.lt_of_lt_of_le (h.known conn event k hevent hk)
          (length_le_of_step hstep)
  | @handle i env handler pc fetches events hworker hhandles =>
      have hfits := (recorded_of_reachable hreach).handled i handler hworker
      rcases starts_cases hfits hhandles with ⟨hsame, hsilent⟩ |
        ⟨request, event, hfetches, rfl, hevent, hasked⟩
      · exact h.goesOn hsame rfl hsilent
      · exact h.starts hfetches rfl hevent hasked

theorem attributed_of_reachable {guard : UdsServer n → Action n → Prop}
    (h : (machine cJsonParse n config).ReachableIf guard s) : Attributed s := by
  apply Machine.ReachableIf.invariant ?_ ?_ h
  · rintro s ⟨-, ⟨-, hcalls⟩, -, hjournal⟩
    refine { asked := ?_, known := ?_, once := ?_ }
    · intro k call hcall
      rw [hcalls] at hcall
      cases hcall
    · intro conn event k hevent
      rw [hjournal] at hevent
      cases hevent
    · intro conn conn' event event' k hevent
      rw [hjournal] at hevent
      cases hevent
  · intro s a t hreach _ hs hstep
    exact hs.step hreach hstep

/-! ## The account of a run -/

/-- What a step of the server hands to `curl_easy_perform`. -/
def performed (s : UdsServer n) : Action n → Option (Nat × Bytes)
  | .fetch a => performedBy s.fetches a
  | _ => none

/-- The URL is what `get_arrivals_for_stop` makes of the request that the
connection has asked call `k` for. -/
def Requested (s : UdsServer n) (conn : Conn) (p : Nat × Bytes) : Prop :=
  ∃ request, AskedBy (s.journal conn) p.1 request ∧ request.apiKey ≠ [] ∧
    HandsToCurl request.stopId request.apiKey p.2

/-- The URLs that have been handed to libcurl are those of different connections,
one of each, and of all whose fetch got that far; and no other connection has
asked for the fetch. -/
structure Accounted (s : UdsServer n) (l : List (Nat × Bytes)) : Prop where
  requested : ∃ conns : List Conn, conns.Nodup ∧
    List.Forall₂ (Requested s) conns l
  complete : ∀ conn k request, AskedBy (s.journal conn) k request →
    ∃ call, s.fetches.calls[k]? = some call ∧
      (isPerformed call = true ↔ ∃ url, (k, url) ∈ l)
  alone : ∀ conn conn' k request request', AskedBy (s.journal conn) k request →
    AskedBy (s.journal conn') k request' → conn = conn'

theorem performed_of_step {l : List (Nat × Bytes)} {a : Action n}
    (h : Performed s.fetches l) (hstep : step cJsonParse s a = some t) :
    Performed t.fetches (l ++ (performed s a).toList) := by
  cases step_cases hstep with
  | accept hen | pool hown hen =>
      show Performed s.fetches (l ++ [])
      rw [List.append_nil]
      exact h
  | fetch hown hfetch => exact h.step hfetch
  | handle hworker hhandles =>
      show Performed _ (l ++ [])
      rw [List.append_nil]
      rcases hhandles.fetches_cases with hsame | ⟨request, hcall⟩
      · rw [hsame]
        exact h
      · rw [hcall]
        exact h.enter request

theorem performed_of_emits {l : List (Nat × Bytes)}
    (hinit : (machine cJsonParse n config).init s)
    (h : (machine cJsonParse n config).Emits performed s l t) :
    Performed t.fetches l := by
  refine h.invariant (I := fun t l => Performed t.fetches l) hinit ?_ ?_
  · have hcalls : s.fetches.calls = [] := hinit.2.1.2
    refine { nodup := List.nodup_nil, url := ?_, complete := ?_, keyed := ?_ }
    · intro p hp
      cases hp
    · intro k call hcall
      rw [hcalls] at hcall
      cases hcall
    · intro k call hcall
      rw [hcalls] at hcall
      cases hcall
  · intro l t a u _ hl hstep
    exact performed_of_step hl hstep

/-- **Upstream requests and clients' requests correspond.** -/
theorem requests_accounted {l : List (Nat × Bytes)}
    (hinit : (machine cJsonParse n config).init s)
    (h : (machine cJsonParse n config).Emits performed s l t) :
    Accounted t l := by
  have hattributed := attributed_of_reachable (h.reachable hinit)
  have hperformed := performed_of_emits hinit h
  refine { requested := ?_, complete := ?_, alone := ?_ }
  · refine Machine.exists_causes hperformed.nodup ?_ ?_
    · intro conn p p' hp hp'
      obtain ⟨request, hasked, -⟩ := hp
      obtain ⟨request', hasked', -⟩ := hp'
      exact hasked.unique hasked'
    · intro p hp
      obtain ⟨call, hcall, hdone, hurl⟩ := hperformed.url p hp
      obtain ⟨conn, request, hasked, hstopId, hapiKey⟩ :=
        hattributed.asked p.1 call hcall
      have hkey := hperformed.keyed p.1 call hcall (.inl hdone)
      have hands := handsToCurl_urlOf hkey
      rw [hstopId, hapiKey, hurl] at hands
      exact ⟨conn, request, hasked, hapiKey ▸ hkey, hands⟩
  · intro conn k request hasked
    obtain ⟨event, hevent, hk⟩ := hasked.started
    have hlt := hattributed.known conn event k (List.mem_of_getElem? hevent) hk
    refine ⟨_, List.getElem?_eq_getElem hlt, ?_⟩
    constructor
    · exact hperformed.complete k _ (List.getElem?_eq_getElem hlt)
    · intro hurl
      obtain ⟨url, hmem⟩ := hurl
      obtain ⟨call, hcall, hdone, -⟩ := hperformed.url (k, url) hmem
      cases Option.some.inj ((List.getElem?_eq_getElem hlt).symm.trans hcall)
      exact hdone
  · intro conn conn' k request request' hasked hasked'
    obtain ⟨event, hevent, hk⟩ := hasked.started
    obtain ⟨event', hevent', hk'⟩ := hasked'.started
    exact hattributed.once conn conn' event event' k
      (List.mem_of_getElem? hevent) (List.mem_of_getElem? hevent') hk hk'

end Connections

/-- A miss and a stale hit for one stop, each with a transfer of its own. -/
theorem requests_accounted_sample :
    ∃ (s : UdsServer 1) (l : List (Nat × Bytes)),
      l.map Prod.fst = [0, 1] ∧ Accounted s l := by
  obtain ⟨l, s, hrun, hl⟩ := Machine.exists_emits_of_emit performed
    (M := machine Fetching.sampleParse 1 Fetching.sampleConfig)
    (s := sampleServer)
    (l := sampleStale ++ sampleHit 1 ++
      List.replicate 2 (.fetch (.advance 1 Fetching.sampleUpstream)))
    (p := fun result => decide (result.1.map Prod.fst = [0, 1]))
    (by decide +kernel)
  exact ⟨s, l, of_decide_eq_true hl,
    requests_accounted ⟨rfl, ⟨rfl, rfl⟩, rfl, rfl⟩ hrun⟩

end BkkApi.Server.UpstreamRequests
