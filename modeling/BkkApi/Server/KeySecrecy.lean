import BkkApi.Server.UpstreamRequests
import BkkApi.Verified.Lockstep

/-!
# Where the keys go

A request carries the key of its client, and the arrivals that one client's key has
fetched are served to others.  `keys_stay_private` compares two runs in which the
same requests come with different keys, and the upstream answers the same: no
connection can tell the one from the other, by what it is sent or by how far its
handler gets.

* `WorkerAlike` and `PoolAlike` lift a relation between the calls of
  `handle_client` to pools that run them.
* `FetchesAlike` and `PcAlike` relate the calls themselves.
* `Alike` relates the servers, and `lockstep` says that it is kept.
-/

namespace BkkApi.Server.KeySecrecy

open BkkApi.Verified.CData
open BkkApi.Verified.Run
open BkkApi.Server.Protocol
open BkkApi.Server.ResponseParser
open BkkApi.Server.Api
open BkkApi.Server.Cache
open BkkApi.Server.Fetching (Fetches Call Upstream Advance setPc)
open BkkApi.Server.HandleClient
open BkkApi.Server.Serving
open BkkApi.Server.UpstreamRequests (urlOf)
open BkkApi.Server.Workers (ThreadPool Worker Handling)

/-! ## Pools -/

section Pool

variable {n : Nat} {Task H : Type} {F : Handling Task H} {R : H → H → Prop}

/-- Not in `handle_client`. -/
def isPlain : Worker H → Bool
  | .handling _ => false
  | _ => true

/-- The workers are at the same place, and related where they handle tasks. -/
inductive WorkerAlike (R : H → H → Prop) : Worker H → Worker H → Prop
  | handling {x y : H} (hrelated : R x y) :
      WorkerAlike R (.handling x) (.handling y)
  | plain {w : Worker H} (hplain : isPlain w = true) : WorkerAlike R w w

theorem WorkerAlike.eq_of_eq {w w' v : Worker H} (h : WorkerAlike R w w')
    (hw : w = v) (hv : isPlain v = true) : w' = v := by
  cases h with
  | handling hrelated =>
      rw [← hw] at hv
      cases hv
  | plain hplain => exact hw

theorem WorkerAlike.isBlocked {w w' : Worker H} (h : WorkerAlike R w w') :
    w'.isBlocked = w.isBlocked := by
  cases h with
  | handling hrelated | plain hplain => rfl

theorem WorkerAlike.notified {w w' : Worker H} (h : WorkerAlike R w w') :
    WorkerAlike R w.notified w'.notified := by
  cases h with
  | handling hrelated => exact .handling hrelated
  | plain hplain =>
      cases w with
      | handling x => cases hplain
      | outside | testing | sleeping | blocked | taking | returned =>
          exact .plain rfl

/-- The pools differ in the handlers of their workers at most. -/
structure PoolAlike (R : H → H → Prop) (p p' : ThreadPool n Task H) : Prop where
  rest : p' = { p with workers := p'.workers }
  workers : ∀ i, WorkerAlike R (p.workers i) (p'.workers i)

theorem workers_update {f f' : Fin n → Worker H} {w w' : Worker H}
    (h : ∀ i, WorkerAlike R (f i) (f' i)) (hw : WorkerAlike R w w') (i j : Fin n) :
    WorkerAlike R (Function.update f i w j) (Function.update f' i w' j) := by
  simp only [Function.update_apply]
  split
  · exact hw
  · exact h j

/-- Related handlers have the same task, and are finished together. -/
structure Respects (F : Handling Task H) (R : H → H → Prop) : Prop where
  enter : ∀ task, R (F.enter task) (F.enter task)
  task : ∀ x y, R x y → F.task y = F.task x
  finished : ∀ x y, R x y → F.finished y = F.finished x

theorem WorkerAlike.held (hR : Respects F R) {w w' : Worker H}
    (h : WorkerAlike R w w') : w'.held F = w.held F := by
  cases h with
  | handling hrelated =>
      show [F.task _] = [F.task _]
      rw [hR.task _ _ hrelated]
  | plain hplain => rfl

theorem WorkerAlike.isDone (hR : Respects F R) {w w' : Worker H}
    (h : WorkerAlike R w w') : w'.isDone F = w.isDone F := by
  cases h with
  | handling hrelated => exact hR.finished _ _ hrelated
  | plain hplain => rfl

/-- The step is not one of a handler. -/
def isPoolStep : Workers.Action n Task H → Bool
  | .handle _ _ => false
  | _ => true

variable {p p' : ThreadPool n Task H} {a : Workers.Action n Task H}

theorem PoolAlike.enabled (hR : Respects F R) (h : PoolAlike R p p')
    (ha : isPoolStep a = true) (hen : Workers.enabled F p a) :
    Workers.enabled F p' a := by
  have hworkers := h.workers
  rw [h.rest] at hworkers ⊢
  generalize p'.workers = workers at hworkers
  cases a with
  | lock i =>
      exact ⟨(hworkers i).eq_of_eq hen.1 rfl, hen.2⟩
  | test i | block i | wake i =>
      exact (hworkers i).eq_of_eq hen rfl
  | leave i | dequeue i task =>
      exact ⟨(hworkers i).eq_of_eq hen.1 rfl, hen.2⟩
  | handle i x => cases ha
  | finish i => exact ((hworkers i).isDone hR).trans hen
  | notifyOne woken =>
      cases woken with
      | none =>
          refine ⟨hen.1, fun i => ?_⟩
          exact (hworkers i).isBlocked.trans (hen.2 i)
      | some i =>
          exact ⟨hen.1, (hworkers i).eq_of_eq hen.2 rfl⟩
  | dtorJoin =>
      refine ⟨hen.1, fun i => ?_⟩
      exact (hworkers i).eq_of_eq (hen.2 i) rfl
  | submitLock task | submitPush task | submitUnlock | dtorLock | dtorSetStop
  | dtorUnlock | notifyAll => exact hen

theorem PoolAlike.next (hR : Respects F R) (h : PoolAlike R p p')
    (ha : isPoolStep a = true) :
    PoolAlike R (Workers.next F p a) (Workers.next F p' a) := by
  have hworkers := h.workers
  rw [h.rest] at hworkers ⊢
  generalize p'.workers = workers at hworkers
  have hset : ∀ (i : Fin n) (w : Worker H), isPlain w = true → ∀ j,
      WorkerAlike R (Function.update p.workers i w j)
        (Function.update workers i w j) :=
    fun i w hw => workers_update hworkers (.plain hw) i
  cases a with
  | lock i | block i | wake i | leave i =>
      exact ⟨rfl, hset i _ rfl⟩
  | test i =>
      refine ⟨rfl, hset i _ ?_⟩
      split
      · rfl
      · rfl
  | dequeue i task =>
      exact ⟨rfl, workers_update hworkers (.handling (hR.enter task)) i⟩
  | handle i x => cases ha
  | finish i =>
      refine ⟨?_, hset i _ rfl⟩
      simp only [Workers.next, ThreadPool.setWorker, (hworkers i).held hR]
  | notifyOne woken =>
      cases woken with
      | none => exact ⟨rfl, hworkers⟩
      | some i => exact ⟨rfl, hset i _ rfl⟩
  | notifyAll => exact ⟨rfl, fun i => (hworkers i).notified⟩
  | submitLock task | submitPush task | submitUnlock | dtorLock | dtorSetStop
  | dtorUnlock | dtorJoin => exact ⟨rfl, hworkers⟩

end Pool

/-! ## Requests -/

/-- The requests differ in their keys at most: both have one or none has.  A key that
differs stands behind a stop id that ends inside its field, so that reading the stop
id does not run into it. -/
structure SameButKey (request request' : BkkUdsRequest) : Prop where
  stopId : request'.stopId = request.stopId
  apiKey : request'.apiKey = request.apiKey ∨
    0 ∈ request.stopId.toList ∧
      (cString request'.apiKey.toList = [] ↔ cString request.apiKey.toList = [])

/-- The same for requests in memory, with the same bytes behind them. -/
structure RequestAlike (r r' : RequestInMemory) : Prop where
  beyond : r'.beyond = r.beyond
  request : SameButKey r.request r'.request

theorem RequestAlike.stopId_eq {r r' : RequestInMemory} (h : RequestAlike r r') :
    r'.stopId = r.stopId := by
  rcases h.request.apiKey with hsame | ⟨hstop, -⟩
  · unfold RequestInMemory.stopId
    rw [h.request.stopId, hsame, h.beyond]
  · have hstop' : 0 ∈ r'.request.stopId.toList := by
      rw [h.request.stopId]
      exact hstop
    rw [RequestInMemory.stopId_of_terminated hstop,
      RequestInMemory.stopId_of_terminated hstop', h.request.stopId]

/-- Whether there is a key is seen in its field. -/
theorem apiKey_eq_nil_iff (r : RequestInMemory) :
    r.apiKey = [] ↔ cString r.request.apiKey.toList = [] := by
  have hlength : r.request.apiKey.toList.length = bkkUdsMaxKeyLen :=
    Vector.length_toList
  unfold RequestInMemory.apiKey
  cases hkey : r.request.apiKey.toList with
  | nil =>
      rw [hkey] at hlength
      cases hlength
  | cons b rest =>
      by_cases hb : b = 0
      · simp [cString, hb]
      · simp [cString, hb]

theorem RequestAlike.apiKey_iff {r r' : RequestInMemory}
    (h : RequestAlike r r') : r'.apiKey = [] ↔ r.apiKey = [] := by
  rw [apiKey_eq_nil_iff, apiKey_eq_nil_iff]
  rcases h.request.apiKey with hsame | ⟨-, hkeys⟩
  · rw [hsame]
  · exact hkeys

/-- The packets are the same, or are taken as requests that differ in their keys at
most. -/
inductive SamePacket : Option Bytes → Option Bytes → Prop
  | same (packet : Option Bytes) : SamePacket packet packet
  | keys {bytes bytes' : Bytes} (hlen : sizeofRequest ≤ bytes.length)
      (hlen' : sizeofRequest ≤ bytes'.length)
      (hsame : SameButKey (BkkUdsRequest.ofBytes (bytes.take sizeofRequest))
        (BkkUdsRequest.ofBytes (bytes'.take sizeofRequest))) :
      SamePacket (some bytes) (some bytes')

theorem RequestAlike.refl (r : RequestInMemory) : RequestAlike r r where
  beyond := rfl
  request := { stopId := rfl, apiKey := .inl rfl }

theorem SamePacket.accept {packet packet' : Option Bytes} {beyond : Bytes}
    {request : RequestInMemory} (h : SamePacket packet packet')
    (hreq : acceptRequest packet beyond = some request) :
    ∃ request', acceptRequest packet' beyond = some request' ∧
      RequestAlike request request' := by
  cases h with
  | same => exact ⟨request, hreq, .refl request⟩
  | @keys bytes bytes' hlen hlen' hsame =>
      obtain ⟨-, rfl⟩ := acceptRequest_eq_some_iff.1 hreq
      exact ⟨_, acceptRequest_eq_some_iff.2 ⟨hlen', rfl⟩, rfl, hsame⟩

theorem SamePacket.reject {packet packet' : Option Bytes} {beyond : Bytes}
    (h : SamePacket packet packet')
    (hreq : acceptRequest packet beyond = none) :
    acceptRequest packet' beyond = none := by
  cases h with
  | same => exact hreq
  | @keys bytes bytes' hlen hlen' hsame =>
      have htaken : acceptRequest (some bytes) beyond = some _ :=
        acceptRequest_eq_some_iff.2 ⟨hlen, rfl⟩
      rw [hreq] at htaken
      cases htaken

/-! ## Fetches -/

/-- The calls differ in their keys at most. -/
structure CallAlike (call call' : Call) : Prop where
  stopId : call'.stopId = call.stopId
  apiKey : call'.apiKey = [] ↔ call.apiKey = []
  pc : call'.pc = call.pc

structure FetchesAlike (s s' : Fetches) : Prop where
  now : s'.now = s.now
  cache : s'.cache = s.cache
  length : s'.calls.length = s.calls.length
  calls : ∀ (k : Nat) call, s.calls[k]? = some call →
    ∃ call', s'.calls[k]? = some call' ∧ CallAlike call call'

/-- The upstream serves both calls in the same way. -/
structure UpstreamAlike (call call' : Call) (upstream upstream' : Upstream) :
    Prop where
  curlReady : upstream'.curlReady = upstream.curlReady
  perform : upstream'.perform (urlOf call') = upstream.perform (urlOf call)
  timeinfo : upstream'.timeinfo = upstream.timeinfo

section Calls

variable {cJsonParse : Bytes → Option CJson} {call call' : Call}
  {upstream upstream' : Upstream} {s s' t : Fetches}

theorem afterInit_alike (h : CallAlike call call')
    (hserved : UpstreamAlike call call' upstream upstream') :
    call'.afterInit upstream' = call.afterInit upstream := by
  unfold Call.afterInit
  rw [hserved.curlReady]
  by_cases hkey : call.apiKey = []
  · rw [if_pos hkey, if_pos (h.apiKey.2 hkey)]
  · rw [if_neg hkey, if_neg (mt h.apiKey.1 hkey)]

theorem afterTransfer_alike (h : CallAlike call call')
    (hserved : UpstreamAlike call call' upstream upstream') :
    call'.afterTransfer cJsonParse upstream' =
      call.afterTransfer cJsonParse upstream := by
  have hstop : getArrivalsForStop call'.stopId call'.apiKey
      (some upstream'.perform) = getArrivalsForStop call.stopId call.apiKey
        (some upstream.perform) := by
    unfold getArrivalsForStop makeRequest
    by_cases hkey : call.apiKey = []
    · rw [if_pos hkey, if_pos (h.apiKey.2 hkey)]
    · rw [if_neg hkey, if_neg (mt h.apiKey.1 hkey)]
      exact congrArg afterPerform hserved.perform
  unfold Call.afterTransfer getArrivalsForStation
  rw [hstop, hserved.timeinfo]

theorem FetchesAlike.setPc (h : FetchesAlike s s') {k : Nat}
    (hcall : s.calls[k]? = some call) (hcall' : s'.calls[k]? = some call')
    (halike : CallAlike call call') (pc : Fetching.Pc) :
    FetchesAlike (setPc s k call pc) (setPc s' k call' pc) := by
  refine { now := h.now, cache := h.cache, length := ?_, calls := ?_ }
  · simp only [Fetching.setPc, List.length_set, h.length]
  · intro j moved hmoved
    rw [Fetching.getElem?_setPc hcall] at hmoved
    rw [Fetching.getElem?_setPc hcall']
    by_cases hj : j = k
    · rw [if_pos hj] at hmoved ⊢
      cases hmoved
      exact ⟨_, rfl, halike.stopId, halike.apiKey, rfl⟩
    · rw [if_neg hj] at hmoved ⊢
      exact h.calls j moved hmoved

theorem FetchesAlike.enter (h : FetchesAlike s s') {r r' : RequestInMemory}
    (hreq : RequestAlike r r') :
    FetchesAlike (enterCall s r) (enterCall s' r') := by
  refine { now := h.now, cache := h.cache, length := ?_, calls := ?_ }
  · simp only [enterCall, List.length_append, h.length, List.length_singleton]
  · intro k call hcall
    unfold enterCall at hcall ⊢
    dsimp only at hcall ⊢
    rw [List.getElem?_append] at hcall ⊢
    rw [h.length]
    split at hcall
    · rename_i hlt
      rw [if_pos hlt]
      exact h.calls k call hcall
    · rename_i hge
      rw [if_neg hge]
      have hlt := (List.getElem?_eq_some_iff.1 hcall).1
      rw [List.length_singleton] at hlt
      have hzero : k - s.calls.length = 0 := by omega
      rw [hzero] at hcall ⊢
      cases hcall
      exact ⟨_, rfl, hreq.stopId_eq, hreq.apiKey_iff, rfl⟩

/-- The two calls go on in the same way. -/
theorem FetchesAlike.advance (h : FetchesAlike s s') {k : Nat}
    (hserved : ∀ call call', s.calls[k]? = some call →
      s'.calls[k]? = some call' → UpstreamAlike call call' upstream upstream')
    (hstep : Fetching.step cJsonParse s (.advance k upstream) = some t) :
    ∃ t', Fetching.step cJsonParse s' (.advance k upstream') = some t' ∧
      FetchesAlike t t' := by
  obtain ⟨call, hcall, hadvance⟩ := Option.bind_eq_some_iff.1 hstep
  obtain ⟨call', hcall', halike⟩ := h.calls k call hcall
  have hset := h.setPc hcall hcall' halike
  have hserve := hserved call call' hcall hcall'
  simp only [Fetching.step, hcall', Option.bind_some]
  unfold Fetching.advance
  cases Fetching.advance_cases hadvance with
  | init hpc =>
      rw [halike.pc, hpc]
      refine ⟨_, rfl, ?_⟩
      rw [afterInit_alike halike hserve]
      exact hset _
  | transfer hpc =>
      rw [halike.pc, hpc]
      refine ⟨_, rfl, ?_⟩
      rw [afterTransfer_alike halike hserve]
      exact hset _
  | stamp hpc =>
      rw [halike.pc, hpc]
      refine ⟨_, rfl, ?_⟩
      rw [h.now]
      exact hset _
  | write hpc =>
      rw [halike.pc, hpc]
      refine ⟨_, rfl, ?_⟩
      rw [halike.stopId, h.cache]
      exact { hset _ with cache := rfl }
  | sweep hpc =>
      rw [halike.pc, hpc]
      refine ⟨_, rfl, ?_⟩
      rw [h.now, h.cache]
      exact { hset _ with cache := rfl }

end Calls

/-! ## Handlers -/

/-- The handlers are at the same place, with requests that differ in their keys at
most. -/
inductive PcAlike : Pc → Pc → Prop
  | lookingUp {r r' : RequestInMemory} (hreq : RequestAlike r r') :
      PcAlike (.lookingUp r) (.lookingUp r')
  | hitStale {r r' : RequestInMemory} (hreq : RequestAlike r r')
      (arrivals : List Arrival) :
      PcAlike (.hitStale r arrivals) (.hitStale r' arrivals)
  | missed {r r' : RequestInMemory} (hreq : RequestAlike r r') :
      PcAlike (.missed r) (.missed r')
  /-- A handler that has no request, or has it no more. -/
  | same (pc : Pc) : PcAlike pc pc

/-- What a connection sees is the same, except for the packets it has sent. -/
inductive EventAlike : Event → Event → Prop
  | received {packet packet' : Option Bytes} (hpacket : SamePacket packet packet') :
      EventAlike (.received packet) (.received packet')
  | same (event : Event) : EventAlike event event

/-- The same surroundings, except for the packet. -/
structure EnvironmentAlike (env env' : Environment) : Prop where
  packet : SamePacket env.packet env'.packet
  beyond : env'.beyond = env.beyond
  delivered : env'.delivered = env.delivered

theorem events_refl (events : List Event) :
    List.Forall₂ EventAlike events events := by
  induction events with
  | nil => exact .nil
  | cons event rest ih => exact .cons (.same event) ih

section Handler

variable {s s' t : Fetches} {env env' : Environment} {pc pc' next : Pc}
  {events : List Event}

/-- What the second handler does: it goes on to `next'`, where the first goes on to
`next`. -/
structure Follows (s' : Fetches) (env' : Environment) (pc' : Pc) (next : Pc)
    (t : Fetches) (events : List Event) (next' : Pc) (t' : Fetches)
    (events' : List Event) : Prop where
  step : handleNext s' env' pc' = some (next', t', events')
  pc : PcAlike next next'
  fetches : FetchesAlike t t'
  events : List.Forall₂ EventAlike events events'

theorem follows_lookup (h : FetchesAlike s s') {r r' : RequestInMemory}
    (hreq : RequestAlike r r') {state : CacheState} {entry : Option CacheEntry}
    (hget : s.cache.getElement r.stopId s.now = (state, entry)) :
    ∃ next' t' events', Follows s' env' (.lookingUp r')
      (afterLookup r entry state) s [.lookedUp r.stopId s.now state entry]
      next' t' events' := by
  have hget' : s'.cache.getElement r'.stopId s'.now = (state, entry) := by
    rw [h.cache, h.now, hreq.stopId_eq, hget]
  have hstep : handleNext s' env' (.lookingUp r') =
      some (afterLookup r' entry state, s',
        [.lookedUp r'.stopId s'.now state entry]) := by
    simp only [handleNext, hget']
  refine ⟨_, _, _, ⟨hstep, ?_, h, ?_⟩⟩
  · cases state with
    | hitFresh => exact .same _
    | hitStale => exact .hitStale hreq _
    | miss => exact .missed hreq
  · rw [hreq.stopId_eq, h.now]
    exact events_refl _

/-- One step of two handlers. -/
theorem exists_follows (h : FetchesAlike s s') (hpc : PcAlike pc pc')
    (henv : EnvironmentAlike env env')
    (hhandles : Handles s env pc next t events) :
    ∃ next' t' events', Follows s' env' pc' next t events next' t' events' := by
  cases hhandles with
  | accept hreq =>
      cases hpc
      obtain ⟨request', hreq', halike⟩ := henv.packet.accept hreq
      rw [← henv.beyond] at hreq'
      have hstep : handleNext s' env' .receiving =
          some (.lookingUp request', s', [.received env'.packet]) := by
        simp only [handleNext, hreq']
      refine ⟨_, _, _, ⟨hstep, .lookingUp halike, h, ?_⟩⟩
      exact .cons (.received henv.packet) .nil
  | reject hreq =>
      cases hpc
      have hreq' := henv.packet.reject hreq
      rw [← henv.beyond] at hreq'
      have hstep : handleNext s' env' .receiving =
          some (.closing, s', [.received env'.packet]) := by
        simp only [handleNext, hreq']
      refine ⟨_, _, _, ⟨hstep, .same _, h, ?_⟩⟩
      exact .cons (.received henv.packet) .nil
  | fresh hget | stale hget | miss hget =>
      cases hpc with
      | lookingUp hreq => exact follows_lookup h hreq hget
      | same => exact follows_lookup h (.refl _) hget
  | @refresh request arrivals =>
      have hrefreshed : ∀ {r' : RequestInMemory}, RequestAlike request r' →
          ∃ next' t' events', Follows s' env' (.hitStale r' arrivals)
            (.replying .ok arrivals)
            (enterCall s { request with beyond := env.beyond })
            [.refreshed s.calls.length] next' t' events' := by
        intro r' hreq
        have hcopy : RequestAlike { request with beyond := env.beyond }
            { r' with beyond := env'.beyond } :=
          ⟨henv.beyond, hreq.request⟩
        refine ⟨_, _, _, ⟨rfl, .same _, h.enter hcopy, ?_⟩⟩
        rw [h.length]
        exact events_refl _
      cases hpc with
      | hitStale hreq => exact hrefreshed hreq
      | same => exact hrefreshed (.refl _)
  | @call request =>
      have hcalled : ∀ {r' : RequestInMemory}, RequestAlike request r' →
          ∃ next' t' events', Follows s' env' (.missed r')
            (.awaiting s.calls.length) (enterCall s request)
            [.called s.calls.length] next' t' events' := by
        intro r' hreq
        refine ⟨_, _, _, ⟨rfl, ?_, h.enter hreq, ?_⟩⟩
        -- the new calls have one number in both runs
        · rw [h.length]
          exact .same _
        · rw [h.length]
          exact events_refl _
      cases hpc with
      | missed hreq => exact hcalled hreq
      | same => exact hcalled (.refl _)
  | @returned k call entry hcall hreturned =>
      cases hpc
      obtain ⟨call', hcall', halike⟩ := h.calls k call hcall
      have hpc' : call'.pc = .returned entry := halike.pc.trans hreturned
      refine ⟨_, _, _, ⟨?_, .same _, h, .nil⟩⟩
      simp only [handleNext, hcall', Option.map_some, hpc']
  | @failed k call status hcall hfailed =>
      cases hpc
      obtain ⟨call', hcall', halike⟩ := h.calls k call hcall
      have hpc' : call'.pc = .failed status := halike.pc.trans hfailed
      refine ⟨_, _, _, ⟨?_, .same _, h, .nil⟩⟩
      simp only [handleNext, hcall', Option.map_some, hpc']
  | reply =>
      cases hpc
      refine ⟨_, _, _, ⟨rfl, .same _, h, ?_⟩⟩
      rw [henv.delivered]
      exact events_refl _
  | close =>
      cases hpc
      exact ⟨_, _, _, ⟨rfl, .same _, h, events_refl _⟩⟩

end Handler

/-! ## The server -/

/-- The handlers of one connection. -/
structure HandlerAlike (x y : Handler) : Prop where
  conn : y.conn = x.conn
  pc : PcAlike x.pc y.pc

theorem respects_handling : Respects handling HandlerAlike where
  enter _ := ⟨rfl, .same _⟩
  task _ _ h := h.conn
  finished x y h := by
    obtain ⟨conn, pc⟩ := x
    obtain ⟨conn', pc'⟩ := y
    have hpc : PcAlike pc pc' := h.pc
    show decide (pc' = .closed) = decide (pc = .closed)
    cases hpc with
    | lookingUp hreq | hitStale hreq arrivals | missed hreq | same => rfl

variable {n : Nat} {cJsonParse : Bytes → Option CJson} {config : SoundConfig}

/-- The servers differ in the keys of their clients at most. -/
structure Alike (s s' : UdsServer n) : Prop where
  pool : PoolAlike HandlerAlike s.pool s'.pool
  fetches : FetchesAlike s.fetches s'.fetches
  accepted : s'.accepted = s.accepted
  journal : ∀ conn,
    List.Forall₂ EventAlike (s.journal conn) (s'.journal conn)

/-- The same step, with other keys. -/
inductive GoesAlike (s s' : UdsServer n) : Action n → Action n → Prop
  | accept : GoesAlike s s' .accept .accept
  | pool (a : Workers.Action n Conn Handler) :
      GoesAlike s s' (.pool a) (.pool a)
  | tick (later : TimePoint) :
      GoesAlike s s' (.fetch (.tick later)) (.fetch (.tick later))
  | advance {k : Nat} {upstream upstream' : Upstream}
      (hserved : ∀ call call', s.fetches.calls[k]? = some call →
        s'.fetches.calls[k]? = some call' →
        UpstreamAlike call call' upstream upstream') :
      GoesAlike s s' (.fetch (.advance k upstream))
        (.fetch (.advance k upstream'))
  | handle {i : Fin n} {env env' : Environment}
      (henv : EnvironmentAlike env env') :
      GoesAlike s s' (.handle i env) (.handle i env')

theorem Alike.pool_step {s s' t : UdsServer n} (h : Alike s s')
    {a : Workers.Action n Conn Handler}
    (hstep : step cJsonParse s (.pool a) = some t) :
    ∃ t', step cJsonParse s' (.pool a) = some t' ∧ Alike t t' := by
  cases step_cases hstep with
  | pool hown hen =>
      have ha : isPoolStep a = true := by
        cases a with
        | handle i handler => cases hown
        | _ => rfl
      have hen' := h.pool.enabled respects_handling ha hen
      have hpool : (Workers.machine handling).step s'.pool a =
          some (Workers.next handling s'.pool a) :=
        Machine.guarded_step_iff.2 ⟨hen', rfl⟩
      refine ⟨{ s' with pool := Workers.next handling s'.pool a }, ?_, ?_⟩
      · simp only [step, if_pos hown, hpool, Option.map_some]
      · exact { h with pool := h.pool.next respects_handling ha }

theorem Alike.accept_step {s s' t : UdsServer n} (h : Alike s s')
    (hstep : step cJsonParse s .accept = some t) :
    ∃ t', step cJsonParse s' .accept = some t' ∧ Alike t t' := by
  cases step_cases hstep with
  | accept hen =>
      have hen' := h.pool.enabled respects_handling rfl hen
      rw [← h.accepted] at hen'
      have hpool : (Workers.machine handling).step s'.pool
          (.submitLock s'.accepted) =
          some (Workers.next handling s'.pool (.submitLock s'.accepted)) :=
        Machine.guarded_step_iff.2 ⟨hen', rfl⟩
      refine ⟨{ s' with
        pool := Workers.next handling s'.pool (.submitLock s'.accepted)
        accepted := s'.accepted + 1 }, ?_, ?_⟩
      · simp only [step, hpool, Option.map_some]
      · refine { h with pool := ?_, accepted := ?_ }
        · have hlocks : isPoolStep
              (.submitLock s.accepted : Workers.Action n Conn Handler) = true := rfl
          rw [h.accepted]
          exact h.pool.next respects_handling hlocks
        · exact congrArg (· + 1) h.accepted

theorem Alike.tick_step {s s' t : UdsServer n} (h : Alike s s')
    {later : TimePoint}
    (hstep : step cJsonParse s (.fetch (.tick later)) = some t) :
    ∃ t', step cJsonParse s' (.fetch (.tick later)) = some t' ∧ Alike t t' := by
  cases step_cases hstep with
  | fetch hown hfetch =>
      obtain ⟨hle, hticked⟩ := Option.ite_none_right_eq_some.1 hfetch
      cases hticked
      rw [← h.fetches.now] at hle
      refine ⟨{ s' with fetches := { s'.fetches with now := later } }, ?_, ?_⟩
      · simp only [step, if_pos hown, Fetching.step, if_pos hle,
          Option.map_some]
      · exact { h with fetches := { h.fetches with now := rfl } }

theorem Alike.advance_step {s s' t : UdsServer n} (h : Alike s s') {k : Nat}
    {upstream upstream' : Upstream}
    (hserved : ∀ call call', s.fetches.calls[k]? = some call →
      s'.fetches.calls[k]? = some call' →
      UpstreamAlike call call' upstream upstream')
    (hstep : step cJsonParse s (.fetch (.advance k upstream)) = some t) :
    ∃ t', step cJsonParse s' (.fetch (.advance k upstream')) = some t' ∧
      Alike t t' := by
  cases step_cases hstep with
  | fetch hown hfetch =>
      obtain ⟨fetches', hfetch', halike⟩ := h.fetches.advance hserved hfetch
      have hown' : ownFetchStep (.advance k upstream') = true := rfl
      refine ⟨{ s' with fetches := fetches' }, ?_, { h with fetches := halike }⟩
      simp only [step, if_pos hown', hfetch', Option.map_some]

theorem Alike.handle_step {s s' t : UdsServer n} (h : Alike s s') {i : Fin n}
    {env env' : Environment} (henv : EnvironmentAlike env env')
    (hstep : step cJsonParse s (.handle i env) = some t) :
    ∃ t', step cJsonParse s' (.handle i env') = some t' ∧ Alike t t' := by
  cases step_cases hstep with
  | @handle _ _ x pc fetches events hworker hhandles =>
      have hi := h.pool.workers i
      rw [hworker] at hi
      obtain ⟨y, hworker', hxy⟩ : ∃ y, s'.pool.workers i = .handling y ∧
          HandlerAlike x y := by
        generalize s'.pool.workers i = w at hi
        cases hi with
        | handling hrelated => exact ⟨_, rfl, hrelated⟩
        | plain hplain => cases hplain
      obtain ⟨next', fetches', events', hfollows⟩ :=
        exists_follows h.fetches hxy.pc henv hhandles
      refine ⟨{ s' with
        pool := s'.pool.setWorker i (.handling { y with pc := next' })
        fetches := fetches'
        journal := record s'.journal y.conn events' }, ?_, ?_⟩
      · simp only [step, hworker', hfollows.step, Option.map_some]
      · refine { pool := ?_, fetches := hfollows.fetches, accepted := h.accepted
                 journal := ?_ }
        · have hrest := h.pool.rest
          refine { rest := ?_, workers := ?_ }
          · rw [hrest]
            rfl
          · have hmoved : HandlerAlike { x with pc := pc } { y with pc := next' } :=
              ⟨hxy.conn, hfollows.pc⟩
            exact workers_update h.pool.workers (.handling hmoved) i
        · intro conn
          rw [hxy.conn]
          by_cases hconn : conn = x.conn
          · subst hconn
            simp only [record, Function.update_self]
            exact List.rel_append (h.journal _) hfollows.events
          · simp only [record, Function.update_of_ne hconn]
            exact h.journal conn

theorem Alike.goes {s s' t : UdsServer n} (h : Alike s s') {a a' : Action n}
    (hgoes : GoesAlike s s' a a') (hstep : step cJsonParse s a = some t) :
    ∃ t', step cJsonParse s' a' = some t' ∧ Alike t t' := by
  cases hgoes with
  | accept => exact h.accept_step hstep
  | pool a => exact h.pool_step hstep
  | tick later => exact h.tick_step hstep
  | advance hserved => exact h.advance_step hserved hstep
  | handle henv => exact h.handle_step henv hstep

/-- The beginnings at one time. -/
def SameTime (s s' : UdsServer n) : Prop := s'.fetches.now = s.fetches.now

/-- Servers that differ in keys at most go on side by side. -/
theorem lockstep : Machine.Lockstep (machine cJsonParse n config)
    (machine cJsonParse n config) SameTime GoesAlike Alike where
  start := by
    rintro s s' ⟨hpool, ⟨hcache, hcalls⟩, haccepted, hjournal⟩
      ⟨hpool', ⟨hcache', hcalls'⟩, haccepted', hjournal'⟩ htime
    refine { pool := ?_, fetches := ?_, accepted := ?_, journal := ?_ }
    · rw [hpool, hpool']
      exact ⟨rfl, fun i => .plain rfl⟩
    · refine { now := htime, cache := ?_, length := ?_, calls := ?_ }
      · rw [hcache, hcache']
      · rw [hcalls, hcalls']
      · intro k call hcall
        rw [hcalls] at hcall
        cases hcall
    · rw [haccepted, haccepted']
    · intro conn
      rw [hjournal, hjournal']
      exact .nil
  step _ _ _ _ _ h hgoes hstep := h.goes hgoes hstep

/-- **Keys go to the upstream only.**  Let two servers run side by side, from one
time on, with requests that differ in their keys at most, and an upstream that
serves both in the same way.  Then each connection sees the same in both runs, event
by event: the lookups, whether a fetch has been started, the response to its last
bit, the close.  And what the one can do next the other can do with its keys. -/
theorem keys_stay_private {s s' : UdsServer n}
    (h : Machine.Paired (machine cJsonParse n config)
      (machine cJsonParse n config) SameTime GoesAlike s s') :
    (∀ conn, List.Forall₂ EventAlike (s.journal conn) (s'.journal conn)) ∧
      ∀ a a' t, GoesAlike s s' a a' → step cJsonParse s a = some t →
        ∃ t', step cJsonParse s' a' = some t' ∧
          Machine.Paired (machine cJsonParse n config)
            (machine cJsonParse n config) SameTime GoesAlike t t' :=
  ⟨(lockstep.related h).journal,
    fun _ _ _ hgoes hstep => lockstep.follows h hgoes hstep⟩

/-! ## Two keys -/

/-- The request packet for the stop `F`, with the key `x`. -/
def otherPacket : Bytes :=
  70 :: List.replicate 63 0 ++ 120 :: List.replicate 255 0

/-- The same step, with the other key. -/
def withOtherKey : Action 1 → Action 1
  | .handle i env => .handle i { env with packet := some otherPacket }
  | a => a

theorem samePacket_other : SamePacket (some samplePacket) (some otherPacket) := by
  refine .keys (by decide +kernel) (by decide +kernel) { stopId := ?_, apiKey := .inr ?_ }
  · decide +kernel
  · decide +kernel

theorem goes_sample : ∀ a ∈ sampleStale, ∀ s s',
    GoesAlike s s' a (withOtherKey a) := by
  have hhandle : ∀ s s', GoesAlike (n := 1) s s' (.handle 0 sampleEnvironment)
      (withOtherKey (.handle 0 sampleEnvironment)) :=
    fun s s' => .handle ⟨samePacket_other, rfl, rfl⟩
  have hadvance : ∀ s s', GoesAlike (n := 1) s s'
      (.fetch (.advance 0 Fetching.sampleUpstream))
      (withOtherKey (.fetch (.advance 0 Fetching.sampleUpstream))) :=
    fun s s' => .advance fun call call' _ _ => ⟨rfl, rfl, rfl⟩
  intro a ha s s'
  simp only [sampleStale, sampleDequeue, sampleFetch, List.mem_append,
    List.mem_replicate, List.mem_cons, List.not_mem_nil, or_false] at ha
  rcases ha with (((rfl | rfl | rfl | rfl | rfl | rfl | rfl) |
    (⟨-, rfl⟩ | ⟨-, rfl⟩)) | ⟨-, rfl⟩) | (rfl | rfl)
  · exact .accept
  · exact .pool _
  · exact .pool _
  · exact .pool _
  · exact .pool _
  · exact .pool _
  · exact .pool _
  · exact hhandle s s'
  · exact hadvance s s'
  · exact hhandle s s'
  · exact .pool _
  · exact .tick _

/-- A client with the one key sees what a client with the other key sees. -/
theorem keys_stay_private_sample :
    ∃ s s' : UdsServer 1,
      .received (some samplePacket) ∈ s.journal 0 ∧
        .received (some otherPacket) ∈ s'.journal 0 ∧
        (s.journal 0).length = 5 ∧
        List.Forall₂ EventAlike (s.journal 0) (s'.journal 0) := by
  have hstart : Machine.Paired
      (machine Fetching.sampleParse 1 Fetching.sampleConfig)
      (machine Fetching.sampleParse 1 Fetching.sampleConfig) SameTime GoesAlike
      sampleServer sampleServer :=
    .start ⟨rfl, ⟨rfl, rfl⟩, rfl, rfl⟩ ⟨rfl, ⟨rfl, rfl⟩, rfl, rfl⟩ rfl
  have hrun : ((machine Fetching.sampleParse 1 Fetching.sampleConfig).run
      sampleServer sampleStale).map (fun s =>
        decide (.received (some samplePacket) ∈ s.journal 0 ∧
          (s.journal 0).length = 5)) = some true := by
    decide +kernel
  have hrun' : ((machine Fetching.sampleParse 1 Fetching.sampleConfig).run
      sampleServer (sampleStale.map withOtherKey)).map (fun s =>
        decide (.received (some otherPacket) ∈ s.journal 0)) = some true := by
    decide +kernel
  obtain ⟨s, hs, hseen⟩ := Option.map_eq_some_iff.1 hrun
  obtain ⟨s', hs', hseen'⟩ := Option.map_eq_some_iff.1 hrun'
  obtain ⟨hpacket, hlength⟩ := of_decide_eq_true hseen
  have hpaired := hstart.of_run goes_sample hs hs'
  exact ⟨s, s', hpacket, of_decide_eq_true hseen', hlength,
    (keys_stay_private hpaired).1 0⟩

end BkkApi.Server.KeySecrecy
