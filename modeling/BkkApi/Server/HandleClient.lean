import BkkApi.Server.Fetching

/-!
# Serving one connection

`ThreadPool::handle_client` as the steps of one handler: receiving the request,
the cache lookup with its three outcomes, the fetch of its own after a miss, the
detached refresh after a stale hit, the reply, and the close.  A handler shares
the cache and the calls with everybody else; what it does to its own connection
is recorded as a list of events.

`Handles` lists the steps.  The response is built from a status and a list of
arrivals by `buildResponse`, and `wellShaped_buildResponse` says that the two
kinds of results a handler can have give the two kinds of responses.
-/

namespace BkkApi.Server.HandleClient

open BkkApi.Verified.CData
open BkkApi.Server.Protocol
open BkkApi.Server.ResponseParser
open BkkApi.Server.Cache
open BkkApi.Server.Fetching

/-! ## Receiving -/

/-- `recv` on a packet socket with a buffer of the size of the request: at most
that many bytes of one packet, the rest of which is discarded.  `none` when the
call fails.  The request is taken when the whole buffer was filled; the bytes
that follow it in memory are `beyond`. -/
def acceptRequest (packet : Option Bytes) (beyond : Bytes) :
    Option RequestInMemory :=
  packet.bind fun bytes =>
    let buffer := bytes.take sizeofRequest
    if buffer.length = sizeofRequest then
      some { request := BkkUdsRequest.ofBytes buffer, beyond := beyond }
    else none

theorem acceptRequest_eq_some_iff {bytes beyond : Bytes}
    {request : RequestInMemory} :
    acceptRequest (some bytes) beyond = some request ↔
      sizeofRequest ≤ bytes.length ∧
        request = ⟨BkkUdsRequest.ofBytes (bytes.take sizeofRequest), beyond⟩ := by
  have hmin : (bytes.take sizeofRequest).length = sizeofRequest ↔
      sizeofRequest ≤ bytes.length := by
    rw [List.length_take]
    omega
  simp only [acceptRequest, Option.bind_some]
  by_cases hlen : sizeofRequest ≤ bytes.length
  · rw [if_pos (hmin.2 hlen), Option.some.injEq, eq_comm]
    exact (and_iff_right hlen).symm
  · rw [if_neg (mt hmin.1 hlen)]
    simp [hlen]

theorem acceptRequest_beyond {packet : Option Bytes} {beyond : Bytes}
    {request : RequestInMemory}
    (h : acceptRequest packet beyond = some request) :
    request.beyond = beyond := by
  cases packet with
  | none => cases h
  | some bytes => rw [(acceptRequest_eq_some_iff.1 h).2]

/-- Whether a packet is taken does not depend on the memory behind the
buffer. -/
theorem acceptRequest_eq_none {packet : Option Bytes} {beyond : Bytes}
    (h : acceptRequest packet beyond = none) (beyond' : Bytes) :
    acceptRequest packet beyond' = none := by
  cases packet with
  | none => rfl
  | some bytes =>
      simp only [acceptRequest, Option.bind_some] at h ⊢
      split at h
      · cases h
      · rename_i hlen
        exact if_neg hlen

/-! ## Replying -/

/-- The response of `handle_client`. -/
def buildResponse (apiStatus : BkkApiStatus) (arrivals : List Arrival) :
    BkkUdsResponse :=
  let numArrivals := min (int32 arrivals.length) bkkUdsMaxArrivals
  { status := apiStatus
    numberOfArrivals := numArrivals
    arrivals := Vector.ofFn fun i =>
      if (i.val : Int) < numArrivals then arrivals.getD i.val Arrival.zero
      else Arrival.zero }

/-- What a handler can have when it replies: arrivals that may be served with
`Ok`, or a failure without arrivals. -/
def Result (apiStatus : BkkApiStatus) (arrivals : List Arrival) : Prop :=
  (apiStatus = .ok ∧ Servable arrivals) ∨ (apiStatus ≠ .ok ∧ arrivals = [])

/-- The response says `Ok` exactly when it carries arrivals, and the slots
behind the last one are zero. -/
structure WellShaped (response : BkkUdsResponse) : Prop where
  ok_iff : response.status = .ok ↔
    1 ≤ response.numberOfArrivals ∧
      response.numberOfArrivals ≤ bkkUdsMaxArrivals
  failure : response.status ≠ .ok → response.numberOfArrivals = 0 ∧
    ∀ i : Fin bkkUdsMaxArrivals, response.arrivals[i] = Arrival.zero
  unused : ∀ i : Fin bkkUdsMaxArrivals,
    response.numberOfArrivals ≤ (i.val : Int) →
      response.arrivals[i] = Arrival.zero

/-- The response carries, in order, the first arrivals of the list, as many as
it has room for. -/
structure Carries (response : BkkUdsResponse) (arrivals : List Arrival) :
    Prop where
  number : response.numberOfArrivals =
    (min bkkUdsMaxArrivals arrivals.length : Nat)
  slots : ∀ (i : Fin bkkUdsMaxArrivals) (h : i.val < arrivals.length),
    response.arrivals[i] = arrivals[i.val]

theorem buildResponse_slot (apiStatus : BkkApiStatus)
    (arrivals : List Arrival) (i : Fin bkkUdsMaxArrivals) :
    (buildResponse apiStatus arrivals).arrivals[i] =
      if (i.val : Int) < (buildResponse apiStatus arrivals).numberOfArrivals
        then arrivals.getD i.val Arrival.zero
      else Arrival.zero := by
  simp only [buildResponse, Fin.getElem_fin, Vector.getElem_ofFn]
  rfl

theorem buildResponse_number {arrivals : List Arrival} (h : Servable arrivals)
    (apiStatus : BkkApiStatus) :
    (buildResponse apiStatus arrivals).numberOfArrivals =
      (min bkkUdsMaxArrivals arrivals.length : Nat) := by
  have hlen := h.length_le
  have hint : int32 arrivals.length = arrivals.length := by
    unfold intMax at hlen
    exact int32_of_range (by omega) (by omega)
  show min (int32 arrivals.length) (bkkUdsMaxArrivals : Int) = _
  rw [hint]
  omega

theorem carries_buildResponse {arrivals : List Arrival} (h : Servable arrivals)
    (apiStatus : BkkApiStatus) :
    Carries (buildResponse apiStatus arrivals) arrivals := by
  have hnumber := buildResponse_number h apiStatus
  refine { number := hnumber, slots := fun i hi => ?_ }
  have hlt : (i.val : Int) <
      (buildResponse apiStatus arrivals).numberOfArrivals := by
    have := i.isLt
    rw [hnumber]
    omega
  rw [buildResponse_slot, if_pos hlt]
  simp [List.getD_eq_getElem?_getD, List.getElem?_eq_getElem hi]

theorem wellShaped_buildResponse {apiStatus : BkkApiStatus}
    {arrivals : List Arrival} (h : Result apiStatus arrivals) :
    WellShaped (buildResponse apiStatus arrivals) := by
  have hunused : ∀ i : Fin bkkUdsMaxArrivals,
      (buildResponse apiStatus arrivals).numberOfArrivals ≤ (i.val : Int) →
        (buildResponse apiStatus arrivals).arrivals[i] = Arrival.zero := by
    intro i hi
    rw [buildResponse_slot, if_neg (Int.not_lt.2 hi)]
  rcases h with ⟨rfl, hserv⟩ | ⟨hne, rfl⟩
  · have hnumber := buildResponse_number hserv .ok
    have hpos := List.length_pos_iff.2 hserv.nonempty
    refine { ok_iff := ?_, failure := fun h => absurd rfl h, unused := hunused }
    rw [hnumber]
    refine iff_of_true rfl ⟨?_, ?_⟩ <;> unfold bkkUdsMaxArrivals <;> omega
  · have hzero : (buildResponse apiStatus []).numberOfArrivals = 0 := by
      rfl
    refine { ok_iff := ?_, failure := fun _ => ⟨hzero, ?_⟩, unused := hunused }
    · rw [hzero]
      exact iff_of_false hne (by decide)
    · intro i
      exact hunused i (by omega)

/-! ## Steps -/

/-- Where a call of `handle_client` is. -/
inductive Pc
  | receiving
  | lookingUp (request : RequestInMemory)
  /-- `CACHE_HIT_STALE`, before the detached thread is started. -/
  | hitStale (request : RequestInMemory) (arrivals : List Arrival)
  /-- `CACHE_MISS`, before the call of `fresh_fetch_and_update_cache`. -/
  | missed (request : RequestInMemory)
  /-- Inside that call, which is call `k`. -/
  | awaiting (k : Nat)
  | replying (apiStatus : BkkApiStatus) (arrivals : List Arrival)
  | closing
  | closed
  deriving DecidableEq

/-- What a handler does, as its connection sees it. -/
inductive Event
  | received (packet : Option Bytes)
  | lookedUp (stopId : Bytes) (now : TimePoint) (state : CacheState)
      (entry : Option CacheEntry)
  /-- Has started call `k` in a detached thread. -/
  | refreshed (k : Nat)
  /-- Has made call `k` itself. -/
  | called (k : Nat)
  | sent (response : BkkUdsResponse)
  | closed
  deriving DecidableEq

/-- What the outside world contributes to one step of a handler: the packet of
its connection, the bytes behind a request object, and whether `send`
succeeds. -/
structure Environment where
  packet : Option Bytes
  beyond : Bytes
  delivered : Bool

/-- Where a lookup leads. -/
def afterLookup (request : RequestInMemory) (entry : Option CacheEntry) :
    CacheState → Pc
  | .hitFresh => .replying .ok ((entry.map CacheEntry.arrivals).getD [])
  | .hitStale => .hitStale request ((entry.map CacheEntry.arrivals).getD [])
  | .miss => .missed request

/-- Entering `fresh_fetch_and_update_cache` with a request. -/
def enterCall (fetches : Fetches) (request : RequestInMemory) : Fetches :=
  { fetches with calls := fetches.calls ++ [Call.enter request] }

/-- One step of `handle_client`: where it goes on, what it does to the shared
state, and what it records. -/
def handleNext (fetches : Fetches) (env : Environment) :
    Pc → Option (Pc × Fetches × List Event)
  | .receiving =>
      match acceptRequest env.packet env.beyond with
      | some request =>
          some (.lookingUp request, fetches, [.received env.packet])
      | none => some (.closing, fetches, [.received env.packet])
  | .lookingUp request =>
      let (state, entry) :=
        fetches.cache.getElement request.stopId fetches.now
      some (afterLookup request entry state, fetches,
        [.lookedUp request.stopId fetches.now state entry])
  | .hitStale request arrivals =>
      -- the thread's copy of the request lies elsewhere in memory
      some (.replying .ok arrivals,
        enterCall fetches { request with beyond := env.beyond },
        [.refreshed fetches.calls.length])
  | .missed request =>
      some (.awaiting fetches.calls.length, enterCall fetches request,
        [.called fetches.calls.length])
  | .awaiting k =>
      match (fetches.calls[k]?).map Call.pc with
      | some (.returned entry) =>
          some (.replying .ok entry.arrivals, fetches, [])
      | some (.failed status) => some (.replying status [], fetches, [])
      | _ => none
  | .replying apiStatus arrivals =>
      some (.closing, fetches,
        if env.delivered then [.sent (buildResponse apiStatus arrivals)]
        else [])
  | .closing => some (.closed, fetches, [.closed])
  | .closed => none

/-- What one step of `handle_client` can be. -/
inductive Handles (fetches : Fetches) (env : Environment) :
    Pc → Pc → Fetches → List Event → Prop
  | accept {request : RequestInMemory}
      (hreq : acceptRequest env.packet env.beyond = some request) :
      Handles fetches env .receiving (.lookingUp request) fetches
        [.received env.packet]
  | reject (hreq : acceptRequest env.packet env.beyond = none) :
      Handles fetches env .receiving .closing fetches [.received env.packet]
  | fresh {request : RequestInMemory} {entry : CacheEntry}
      (hget : fetches.cache.getElement request.stopId fetches.now =
        (.hitFresh, some entry)) :
      Handles fetches env (.lookingUp request)
        (.replying .ok entry.arrivals) fetches
        [.lookedUp request.stopId fetches.now .hitFresh (some entry)]
  | stale {request : RequestInMemory} {entry : CacheEntry}
      (hget : fetches.cache.getElement request.stopId fetches.now =
        (.hitStale, some entry)) :
      Handles fetches env (.lookingUp request)
        (.hitStale request entry.arrivals) fetches
        [.lookedUp request.stopId fetches.now .hitStale (some entry)]
  | miss {request : RequestInMemory}
      (hget : fetches.cache.getElement request.stopId fetches.now =
        (.miss, none)) :
      Handles fetches env (.lookingUp request) (.missed request) fetches
        [.lookedUp request.stopId fetches.now .miss none]
  | refresh {request : RequestInMemory} {arrivals : List Arrival} :
      Handles fetches env (.hitStale request arrivals)
        (.replying .ok arrivals)
        (enterCall fetches { request with beyond := env.beyond })
        [.refreshed fetches.calls.length]
  | call {request : RequestInMemory} :
      Handles fetches env (.missed request) (.awaiting fetches.calls.length)
        (enterCall fetches request) [.called fetches.calls.length]
  | returned {k : Nat} {call : Call} {entry : CacheEntry}
      (hcall : fetches.calls[k]? = some call) (hpc : call.pc = .returned entry) :
      Handles fetches env (.awaiting k) (.replying .ok entry.arrivals) fetches
        []
  | failed {k : Nat} {call : Call} {status : BkkApiStatus}
      (hcall : fetches.calls[k]? = some call) (hpc : call.pc = .failed status) :
      Handles fetches env (.awaiting k) (.replying status []) fetches []
  | reply {apiStatus : BkkApiStatus} {arrivals : List Arrival} :
      Handles fetches env (.replying apiStatus arrivals) .closing fetches
        (if env.delivered then [.sent (buildResponse apiStatus arrivals)]
        else [])
  | close : Handles fetches env .closing .closed fetches [.closed]

/-- The three outcomes of a lookup. -/
theorem getElement_cases (c : UdsCache) (stopId : Bytes) (now : TimePoint) :
    (∃ entry, c.getElement stopId now = (.hitFresh, some entry)) ∨
      (∃ entry, c.getElement stopId now = (.hitStale, some entry)) ∨
      c.getElement stopId now = (.miss, none) := by
  unfold UdsCache.getElement
  cases c.cache.lookup stopId with
  | none => exact .inr (.inr rfl)
  | some entry =>
      by_cases hfresh : c.isFresh now entry = true
      · exact .inl ⟨entry, if_pos hfresh⟩
      · by_cases hserv : c.isServable now entry = true
        · exact .inr (.inl ⟨entry, by simp [hfresh, hserv]⟩)
        · exact .inr (.inr (by simp [hfresh, hserv]))

theorem handles_of_handleNext {fetches fetches' : Fetches} {env : Environment}
    {pc pc' : Pc} {events : List Event}
    (h : handleNext fetches env pc = some (pc', fetches', events)) :
    Handles fetches env pc pc' fetches' events := by
  cases pc with
  | receiving =>
      simp only [handleNext] at h
      cases hreq : acceptRequest env.packet env.beyond with
      | some request => rw [hreq] at h; cases h; exact .accept hreq
      | none => rw [hreq] at h; cases h; exact .reject hreq
  | lookingUp request =>
      simp only [handleNext] at h
      rcases getElement_cases fetches.cache request.stopId fetches.now with
        ⟨entry, hget⟩ | ⟨entry, hget⟩ | hget
      · rw [hget] at h; cases h; exact .fresh hget
      · rw [hget] at h; cases h; exact .stale hget
      · rw [hget] at h; cases h; exact .miss hget
  | hitStale request arrivals => cases h; exact .refresh
  | missed request => cases h; exact .call
  | awaiting k =>
      simp only [handleNext] at h
      cases hcall : fetches.calls[k]? with
      | none => rw [hcall] at h; cases h
      | some call =>
          rw [hcall, Option.map_some] at h
          cases hpc : call.pc with
          | returned entry =>
              rw [hpc] at h; cases h; exact .returned hcall hpc
          | failed status => rw [hpc] at h; cases h; exact .failed hcall hpc
          | entered | transferring | fetched a | stamped e | written e =>
              rw [hpc] at h; cases h
  | replying apiStatus arrivals => cases h; exact .reply
  | closing => cases h; exact .close
  | closed => cases h

/-- A handler reads the shared state, or enters one more call. -/
theorem Handles.fetches_cases {fetches fetches' : Fetches} {env : Environment}
    {pc pc' : Pc} {events : List Event}
    (h : Handles fetches env pc pc' fetches' events) :
    fetches' = fetches ∨ ∃ request, fetches' = enterCall fetches request := by
  cases h with
  | refresh | call => exact .inr ⟨_, rfl⟩
  | accept | reject | fresh | stale | miss | returned | failed | reply
  | close => exact .inl rfl

end BkkApi.Server.HandleClient
