import BkkApi.Server.Conservation
import BkkApi.Server.Serving

/-!
# The course of a connection

`Fits pc events` says which events a connection can have behind it when its
handler is at `pc`, and where each piece of the answer comes from.  It is the
grammar of `handle_client` with the provenance of the arrivals written into it:
a hit refers to a call that has published the entry, a miss to the handler's
own call.

`fits_of_reachable` proves it of every connection in every reachable state.  The
handlers of different connections interleave, and other threads overwrite and
evict entries in between; what makes the invariant survive is that it speaks
about calls, which keep for ever what they have published (`Fits.mono`).
-/

namespace BkkApi.Server.Transcript

open BkkApi.Verified.CData
open BkkApi.Verified.Run
open BkkApi.Verified.Tally
open BkkApi.Server.Protocol
open BkkApi.Server.ResponseParser
open BkkApi.Server.Cache
open BkkApi.Server.Fetching (Fetches Call Follows)
open BkkApi.Server.HandleClient
open BkkApi.Server.Workers (ThreadPool Handling Worker)
open BkkApi.Server.Conservation
open BkkApi.Server.Serving

/-! ## The grammar -/

/-- A call for the stop id has put the entry into the cache. -/
def PublishedFor (fetches : Fetches) (stopId : Bytes) (entry : CacheEntry) :
    Prop :=
  ∃ (k : Nat) (call : Call), fetches.calls[k]? = some call ∧
    call.stopId = stopId ∧ call.pc.published? = some entry

/-- The events of a request from its lookup on, and the result they give. -/
inductive Reply (config : SoundConfig) (fetches : Fetches)
    (request : RequestInMemory) :
    List Event → BkkApiStatus → List Arrival → Prop
  | fresh {now : TimePoint} {entry : CacheEntry}
      (hsource : PublishedFor fetches request.stopId entry)
      (hage : age now entry.timestamp < config.freshnessSeconds * 10 ^ 9) :
      Reply config fetches request
        [.lookedUp request.stopId now .hitFresh (some entry)]
        .ok entry.arrivals
  | stale {now : TimePoint} {entry : CacheEntry} {j : Nat}
      (hsource : PublishedFor fetches request.stopId entry)
      (hage : age now entry.timestamp < config.stalenessSeconds * 10 ^ 9) :
      Reply config fetches request
        [.lookedUp request.stopId now .hitStale (some entry), .refreshed j]
        .ok entry.arrivals
  | own {now : TimePoint} {k : Nat} {call : Call} {entry : CacheEntry}
      (hcall : fetches.calls[k]? = some call)
      (hstop : call.stopId = request.stopId) (hpc : call.pc = .returned entry) :
      Reply config fetches request
        [.lookedUp request.stopId now .miss none, .called k]
        .ok entry.arrivals
  | failed {now : TimePoint} {k : Nat} {call : Call} {status : BkkApiStatus}
      (hcall : fetches.calls[k]? = some call)
      (hstop : call.stopId = request.stopId) (hpc : call.pc = .failed status) :
      Reply config fetches request
        [.lookedUp request.stopId now .miss none, .called k] status []

/-- The events behind a connection whose handler is at a given point. -/
inductive Fits (config : SoundConfig) (fetches : Fetches) :
    Pc → List Event → Prop
  | receiving : Fits config fetches .receiving []
  | lookingUp {packet : Option Bytes} {request : RequestInMemory}
      (hreq : acceptRequest packet request.beyond = some request) :
      Fits config fetches (.lookingUp request) [.received packet]
  | hitStale {packet : Option Bytes} {request : RequestInMemory}
      {now : TimePoint} {entry : CacheEntry}
      (hreq : acceptRequest packet request.beyond = some request)
      (hsource : PublishedFor fetches request.stopId entry)
      (hage : age now entry.timestamp < config.stalenessSeconds * 10 ^ 9) :
      Fits config fetches (.hitStale request entry.arrivals)
        [.received packet,
          .lookedUp request.stopId now .hitStale (some entry)]
  | missed {packet : Option Bytes} {request : RequestInMemory}
      {now : TimePoint}
      (hreq : acceptRequest packet request.beyond = some request) :
      Fits config fetches (.missed request)
        [.received packet, .lookedUp request.stopId now .miss none]
  | awaiting {packet : Option Bytes} {request : RequestInMemory}
      {now : TimePoint} {k : Nat} {call : Call}
      (hreq : acceptRequest packet request.beyond = some request)
      (hcall : fetches.calls[k]? = some call)
      (hstop : call.stopId = request.stopId) :
      Fits config fetches (.awaiting k)
        [.received packet, .lookedUp request.stopId now .miss none, .called k]
  | replying {packet : Option Bytes} {request : RequestInMemory}
      {events : List Event} {apiStatus : BkkApiStatus}
      {arrivals : List Arrival}
      (hreq : acceptRequest packet request.beyond = some request)
      (hreply : Reply config fetches request events apiStatus arrivals) :
      Fits config fetches (.replying apiStatus arrivals)
        (.received packet :: events)
  | rejected {packet : Option Bytes}
      (hreq : ∀ beyond, acceptRequest packet beyond = none) :
      Fits config fetches .closing [.received packet]
  | answered {packet : Option Bytes} {request : RequestInMemory}
      {events : List Event} {apiStatus : BkkApiStatus}
      {arrivals : List Arrival} (delivered : Bool)
      (hreq : acceptRequest packet request.beyond = some request)
      (hreply : Reply config fetches request events apiStatus arrivals) :
      Fits config fetches .closing
        (.received packet :: events ++
          if delivered then [.sent (buildResponse apiStatus arrivals)] else [])
  | closed {events : List Event} (hfits : Fits config fetches .closing events) :
      Fits config fetches .closed (events ++ [.closed])

variable {config : SoundConfig} {fetches fetches' : Fetches}

/-! ## It survives what others do -/

/-- All calls live on, and keep what they have published. -/
def Extends (fetches fetches' : Fetches) : Prop :=
  ∀ (k : Nat) (call : Call), fetches.calls[k]? = some call →
    ∃ call', fetches'.calls[k]? = some call' ∧ Follows call call'

theorem PublishedFor.mono {stopId : Bytes} {entry : CacheEntry}
    (hext : Extends fetches fetches')
    (h : PublishedFor fetches stopId entry) :
    PublishedFor fetches' stopId entry := by
  obtain ⟨k, call, hcall, hstop, hpublished⟩ := h
  obtain ⟨call', hcall', hfollows⟩ := hext k call hcall
  exact ⟨k, call', hcall', hfollows.stopId.trans hstop,
    hfollows.published entry hpublished⟩

theorem Reply.mono {request : RequestInMemory} {events : List Event}
    {apiStatus : BkkApiStatus} {arrivals : List Arrival}
    (hext : Extends fetches fetches')
    (h : Reply config fetches request events apiStatus arrivals) :
    Reply config fetches' request events apiStatus arrivals := by
  cases h with
  | fresh hsource hage => exact .fresh (hsource.mono hext) hage
  | stale hsource hage => exact .stale (hsource.mono hext) hage
  | own hcall hstop hpc =>
      obtain ⟨call', hcall', hfollows⟩ := hext _ _ hcall
      exact .own hcall' (hfollows.stopId.trans hstop) (hfollows.returned _ hpc)
  | failed hcall hstop hpc =>
      obtain ⟨call', hcall', hfollows⟩ := hext _ _ hcall
      exact .failed hcall' (hfollows.stopId.trans hstop) (hfollows.failed _ hpc)

theorem Fits.mono {pc : Pc} {events : List Event}
    (hext : Extends fetches fetches') (h : Fits config fetches pc events) :
    Fits config fetches' pc events := by
  induction h with
  | receiving => exact .receiving
  | lookingUp hreq => exact .lookingUp hreq
  | hitStale hreq hsource hage => exact .hitStale hreq (hsource.mono hext) hage
  | missed hreq => exact .missed hreq
  | awaiting hreq hcall hstop =>
      obtain ⟨call', hcall', hfollows⟩ := hext _ _ hcall
      exact .awaiting hreq hcall' (hfollows.stopId.trans hstop)
  | replying hreq hreply => exact .replying hreq (hreply.mono hext)
  | rejected hreq => exact .rejected hreq
  | answered delivered hreq hreply =>
      exact .answered delivered hreq (hreply.mono hext)
  | closed _ ih => exact .closed ih

theorem extends_enterCall (fetches : Fetches) (request : RequestInMemory) :
    Extends fetches (enterCall fetches request) := by
  intro k call hcall
  refine ⟨call, ?_, .refl call⟩
  have hlt := (List.getElem?_eq_some_iff.1 hcall).1
  rw [enterCall, List.getElem?_append_left hlt, hcall]

theorem extends_of_step {cJsonParse : Bytes → Option CJson} {n : Nat}
    {s t : UdsServer n} {a : Action n} (h : step cJsonParse s a = some t) :
    Extends s.fetches t.fetches := by
  intro k call hcall
  rcases fetch_step h with hsame | ⟨b, hb⟩
  · exact ⟨call, by rw [hsame, hcall], .refl call⟩
  · exact Fetching.step_follows hb hcall

/-! ## It survives the handler's own steps -/

/-- What a lookup of a reachable cache returns was published for that stop id,
and its age is within the bound that goes with the answer. -/
theorem hit_of_getElement {cJsonParse : Bytes → Option CJson}
    {guard : Fetches → Fetching.Action → Prop}
    (h : (Fetching.machine cJsonParse config).ReachableIf guard fetches)
    {stopId : Bytes} {now : TimePoint} {state : CacheState} {entry : CacheEntry}
    (hget : fetches.cache.getElement stopId now = (state, some entry)) :
    PublishedFor fetches stopId entry ∧
      (state = .hitFresh →
        age now entry.timestamp < config.freshnessSeconds * 10 ^ 9) ∧
      (state = .hitStale →
        age now entry.timestamp < config.stalenessSeconds * 10 ^ 9) := by
  have hconfig := Fetching.configured_of_reachable h
  obtain ⟨hlookup, hstate⟩ := UdsCache.getElement_hit hget
  refine ⟨Fetching.sourced_of_reachable h stopId entry hlookup, ?_, ?_⟩
  · rintro rfl
    rcases hstate with ⟨-, hfresh⟩ | ⟨hne, -⟩
    · rw [hconfig.sound.isFresh_iff, hconfig.freshness] at hfresh
      exact hfresh
    · cases hne
  · rintro rfl
    rcases hstate with ⟨hne, -⟩ | ⟨-, hserv⟩
    · cases hne
    · rw [hconfig.sound.isServable_iff, hconfig.staleness] at hserv
      exact hserv

/-- A step of the handler continues the course of its connection. -/
theorem Fits.handles {cJsonParse : Bytes → Option CJson}
    {guard : Fetches → Fetching.Action → Prop}
    (hreach : (Fetching.machine cJsonParse config).ReachableIf guard fetches)
    {env : Environment} {pc pc' : Pc} {before after : List Event}
    (h : Fits config fetches pc before)
    (hhandles : Handles fetches env pc pc' fetches' after) :
    Fits config fetches' pc' (before ++ after) := by
  cases hhandles with
  | accept hreq =>
      cases h
      exact .lookingUp (acceptRequest_beyond hreq ▸ hreq)
  | reject hreq =>
      cases h
      exact .rejected (acceptRequest_eq_none hreq)
  | fresh hget =>
      cases h with
      | lookingUp hreq =>
          obtain ⟨hsource, hage, -⟩ := hit_of_getElement hreach hget
          exact .replying hreq (.fresh hsource (hage rfl))
  | stale hget =>
      cases h with
      | lookingUp hreq =>
          obtain ⟨hsource, -, hage⟩ := hit_of_getElement hreach hget
          exact .hitStale hreq hsource (hage rfl)
  | miss hget =>
      cases h with
      | lookingUp hreq => exact .missed hreq
  | refresh =>
      cases h with
      | hitStale hreq hsource hage =>
          exact .replying hreq
            (.stale (hsource.mono (extends_enterCall _ _)) hage)
  | call =>
      cases h with
      | missed hreq =>
          exact .awaiting hreq List.getElem?_concat_length rfl
  | returned hcall hpc =>
      cases h with
      | awaiting hreq hcall' hstop =>
          cases Option.some.inj (hcall.symm.trans hcall')
          rw [List.append_nil]
          exact .replying hreq (.own hcall hstop hpc)
  | failed hcall hpc =>
      cases h with
      | awaiting hreq hcall' hstop =>
          cases Option.some.inj (hcall.symm.trans hcall')
          rw [List.append_nil]
          exact .replying hreq (.failed hcall hstop hpc)
  | reply =>
      cases h with
      | replying hreq hreply => exact .answered env.delivered hreq hreply
  | close => exact .closed h

/-! ## Every connection -/

section Connections

variable {cJsonParse : Bytes → Option CJson} {n : Nat} {s t : UdsServer n}

/-- Connections are submitted once each. -/
structure Numbered (s : UdsServer n) : Prop where
  lt_accepted : ∀ conn ∈ s.pool.submitted, conn < s.accepted
  nodup : s.pool.submitted.Nodup
  pending : ∀ conn, s.pool.queueMutex = some (.submitting conn) →
    conn < s.accepted ∧ conn ∉ s.pool.submitted

theorem Numbered.step {a : Action n} (h : Numbered s)
    (hstep : step cJsonParse s a = some t) : Numbered t := by
  obtain ⟨hlt, hnodup, hpending⟩ := h
  cases step_cases hstep with
  | accept hen =>
      refine { lt_accepted := ?_, nodup := hnodup, pending := ?_ }
      · intro conn hconn
        exact Nat.lt_succ_of_lt (hlt conn hconn)
      · rintro _ ⟨⟩
        exact ⟨Nat.lt_succ_self _, fun hmem => Nat.lt_irrefl _ (hlt _ hmem)⟩
  | @pool b hown hen =>
      cases b with
      | submitLock conn | handle i handler => cases hown
      | submitPush conn =>
          obtain ⟨hconn, hfresh⟩ := hpending conn hen
          refine { lt_accepted := ?_, nodup := ?_, pending := ?_ }
          · intro conn' hmem
            rcases List.mem_append.1 hmem with hold | hnew
            · exact hlt conn' hold
            · exact List.mem_singleton.1 hnew ▸ hconn
          · exact List.nodup_append.2 ⟨hnodup, List.nodup_singleton _,
              fun x hx y hy => by
                rintro rfl
                exact hfresh (List.mem_singleton.1 hy ▸ hx)⟩
          · intro conn' hmutex
            cases hmutex
      | notifyOne woken =>
          cases woken with
          | none | some i => exact ⟨hlt, hnodup, hpending⟩
      | lock i | block i | leave i | dequeue i conn | submitUnlock | dtorLock
      | dtorUnlock =>
          refine { lt_accepted := hlt, nodup := hnodup, pending := ?_ }
          intro conn' hmutex
          cases hmutex
      | test i | wake i | finish i | dtorSetStop | notifyAll | dtorJoin =>
          exact ⟨hlt, hnodup, hpending⟩
  | fetch hown hstep => exact ⟨hlt, hnodup, hpending⟩
  | handle hworker hhandles => exact ⟨hlt, hnodup, hpending⟩

/-- The journal of every connection fits where the connection is. -/
structure Recorded (config : SoundConfig) (s : UdsServer n) : Prop where
  handled : ∀ i handler, s.pool.workers i = .handling handler →
    Fits config s.fetches handler.pc (s.journal handler.conn)
  finished : ∀ conn ∈ s.pool.finished,
    Fits config s.fetches .closed (s.journal conn)
  untouched : ∀ conn, conn ∉ s.pool.dequeued → s.journal conn = []

/-- A handler after a step of the pool was there before, or has just been
entered. -/
theorem handling_of_next {p : ThreadPool n Conn Handler}
    {b : Workers.Action n Conn Handler} (hown : ownPoolStep b = true)
    (hen : Workers.enabled handling p b) {i : Fin n} {handler : Handler}
    (h : (Workers.next handling p b).workers i = .handling handler) :
    p.workers i = .handling handler ∨
      ∃ conn, b = .dequeue i conn ∧
        handler = { conn := conn, pc := .receiving } := by
  rcases Workers.worker_cases hen i with hsame | hmoved
  · exact .inl (hsame.symm.trans h)
  · rw [h] at hmoved
    generalize p.workers i = w at hmoved ⊢
    cases hmoved with
    | dequeue conn => exact .inr ⟨conn, rfl, rfl⟩
    | handle htask => cases hown

/-- A connection finished after a step of the pool was so before, or its handler
has just returned. -/
theorem finished_of_next {p : ThreadPool n Conn Handler}
    {b : Workers.Action n Conn Handler}
    (hen : Workers.enabled handling p b) {conn : Conn}
    (h : conn ∈ (Workers.next handling p b).finished) :
    conn ∈ p.finished ∨
      ∃ i handler, p.workers i = .handling handler ∧ handler.conn = conn ∧
        handler.pc = .closed := by
  cases b with
  | finish i =>
      rcases List.mem_append.1 h with hold | hnew
      · exact .inl hold
      · obtain ⟨handler, hworker⟩ := Worker.handling_of_isDone hen
        simp only [Workers.enabled, hworker] at hen
        rw [hworker] at hnew
        exact .inr ⟨i, handler, hworker, (List.mem_singleton.1 hnew).symm,
          of_decide_eq_true hen⟩
  | notifyOne woken =>
      cases woken with
      | none | some j => exact .inl h
  | lock j | test j | block j | wake j | leave j | dequeue j conn
  | handle j handler | submitLock conn | submitPush conn | submitUnlock
  | dtorLock | dtorSetStop | dtorUnlock | notifyAll | dtorJoin => exact .inl h

theorem dequeued_of_next {p : ThreadPool n Conn Handler}
    {b : Workers.Action n Conn Handler} {conn : Conn} (h : conn ∈ p.dequeued) :
    conn ∈ (Workers.next handling p b).dequeued := by
  cases b with
  | dequeue i conn' => exact List.mem_append_left _ h
  | notifyOne woken =>
      cases woken with
      | none | some j => exact h
  | lock j | test j | block j | wake j | leave j | finish j
  | handle j handler | submitLock conn | submitPush conn | submitUnlock
  | dtorLock | dtorSetStop | dtorUnlock | notifyAll | dtorJoin => exact h

/-- What a handler's connection is not: another handler's, finished, or never
dequeued. -/
structure Owned (s : UdsServer n) (i : Fin n) (handler : Handler) : Prop where
  unique : ∀ j other, s.pool.workers j = .handling other →
    other.conn = handler.conn → j = i
  not_finished : handler.conn ∉ s.pool.finished
  dequeued : handler.conn ∈ s.pool.dequeued

theorem owned_of_handling {guard : UdsServer n → Action n → Prop}
    (h : (machine cJsonParse n config).ReachableIf guard s)
    (hnum : Numbered s) {i : Fin n} {handler : Handler}
    (hworker : s.pool.workers i = .handling handler) :
    Owned s i handler := by
  have hpool := pool_reachable h
  have hheld : handler.conn ∈ (s.pool.workers i).held handling := by
    rw [hworker]
    exact List.mem_singleton.2 rfl
  have hpos : 0 < tally (holds handling handler.conn) s.pool.workers :=
    tally_pos (decide_eq_true hheld)
  have hone := List.nodup_iff_count_le_one.1 hnum.nodup handler.conn
  have hcount := count_submitted hpool handler.conn
  refine { unique := ?_, not_finished := ?_, dequeued := ?_ }
  · intro j other hother hconn
    have hsecond : handler.conn ∈ (s.pool.workers j).held handling := by
      rw [hother, ← hconn]
      exact List.mem_singleton.2 rfl
    exact holder_unique (by omega) hsecond hheld
  · exact List.count_eq_zero.1 (by omega)
  · have hacc := accounted_of_reachable hpool handler.conn
    exact List.count_pos_iff.1 (by omega)

theorem Recorded.step {guard : UdsServer n → Action n → Prop}
    (hreach : (machine cJsonParse n config).ReachableIf guard s)
    (hnum : Numbered s) (h : Recorded config s) {a : Action n}
    (hstep : step cJsonParse s a = some t) : Recorded config t := by
  have hext := extends_of_step hstep
  cases step_cases hstep with
  | accept hen => exact ⟨h.handled, h.finished, h.untouched⟩
  | @pool b hown hen =>
      refine { handled := ?_, finished := ?_, untouched := ?_ }
      · intro i handler hworker
        rcases handling_of_next hown hen hworker with hold | ⟨conn, rfl, rfl⟩
        · exact h.handled i handler hold
        · -- the front of the queue has not been dequeued before
          have hfront : conn ∈ s.pool.taskQueue := List.mem_of_head? hen.2
          have hnodup := hnum.nodup
          rw [fifo_of_reachable (pool_reachable hreach)] at hnodup
          have hfresh : conn ∉ s.pool.dequeued := fun hmem =>
            (List.disjoint_of_nodup_append hnodup) hmem hfront
          show Fits config s.fetches .receiving (s.journal conn)
          rw [h.untouched conn hfresh]
          exact .receiving
      · intro conn hconn
        rcases finished_of_next hen hconn with hold |
          ⟨i, handler, hworker, rfl, hclosed⟩
        · exact h.finished conn hold
        · exact hclosed ▸ h.handled i handler hworker
      · intro conn hconn
        exact h.untouched conn fun hmem => hconn (dequeued_of_next hmem)
  | fetch hown hfetch =>
      exact ⟨fun i handler hworker => (h.handled i handler hworker).mono hext,
        fun conn hconn => (h.finished conn hconn).mono hext, h.untouched⟩
  | @handle i env handler pc fetches events hworker hhandles =>
      have howned := owned_of_handling hreach hnum hworker
      have hother : ∀ conn, conn ≠ handler.conn →
          record s.journal handler.conn events conn = s.journal conn :=
        fun conn hne => Function.update_of_ne hne _ _
      refine { handled := ?_, finished := ?_, untouched := ?_ }
      · intro j other hj
        by_cases hji : j = i
        · subst hji
          simp only [ThreadPool.setWorker, Function.update_self] at hj
          cases hj
          show Fits config fetches pc
            (record s.journal handler.conn events handler.conn)
          rw [record, Function.update_self]
          exact (h.handled j handler hworker).handles
            (fetches_reachable hreach) hhandles
        · simp only [ThreadPool.setWorker, Function.update_of_ne hji] at hj
          have hne : other.conn ≠ handler.conn := fun heq =>
            hji (howned.unique j other hj heq)
          show Fits config fetches other.pc (record _ _ _ other.conn)
          rw [hother _ hne]
          exact (h.handled j other hj).mono hext
      · intro conn hconn
        have hne : conn ≠ handler.conn := fun heq =>
          howned.not_finished (heq ▸ hconn)
        show Fits config fetches .closed (record _ _ _ conn)
        rw [hother _ hne]
        exact (h.finished conn hconn).mono hext
      · intro conn hconn
        have hne : conn ≠ handler.conn := fun heq =>
          hconn (heq ▸ howned.dequeued)
        show record _ _ _ conn = []
        rw [hother _ hne]
        exact h.untouched conn hconn

variable {guard : UdsServer n → Action n → Prop}

theorem numbered_of_reachable
    (h : (machine cJsonParse n config).ReachableIf guard s) : Numbered s := by
  apply Machine.ReachableIf.invariant ?_ ?_ h
  · rintro s ⟨hpool, -, -, -⟩
    constructor
    · intro conn hconn
      rw [hpool] at hconn
      cases hconn
    · rw [hpool]
      exact List.nodup_nil
    · intro conn hmutex
      rw [hpool] at hmutex
      cases hmutex
  · intro s a t _ _ hs hstep
    exact hs.step hstep

theorem recorded_of_reachable
    (h : (machine cJsonParse n config).ReachableIf guard s) :
    Recorded config s := by
  apply Machine.ReachableIf.invariant ?_ ?_ h
  · rintro s ⟨hpool, -, -, hjournal⟩
    refine { handled := ?_, finished := ?_, untouched := ?_ }
    · intro i handler hworker
      rw [hpool] at hworker
      cases hworker
    · intro conn hconn
      rw [hpool] at hconn
      cases hconn
    · intro conn _
      rw [hjournal]
  · intro s a t hreach _ hs hstep
    exact Recorded.step hreach (numbered_of_reachable hreach) hs hstep

/-- Every connection has a course that fits some point of `handle_client`. -/
theorem fits_of_reachable
    (h : (machine cJsonParse n config).ReachableIf guard s) (conn : Conn) :
    ∃ pc, Fits config s.fetches pc (s.journal conn) := by
  have hrec := recorded_of_reachable h
  by_cases hdequeued : conn ∈ s.pool.dequeued
  · have hacc := accounted_of_reachable (pool_reachable h) conn
    have hpos := List.count_pos_iff.2 hdequeued
    by_cases hfinished : conn ∈ s.pool.finished
    · exact ⟨.closed, hrec.finished conn hfinished⟩
    · rw [List.count_eq_zero.2 hfinished] at hacc
      obtain ⟨i, hi⟩ := exists_of_tally_pos
        (p := holds handling conn) (f := s.pool.workers) (by omega)
      have hheld := of_decide_eq_true hi
      cases hworker : s.pool.workers i with
      | handling handler =>
          rw [hworker] at hheld
          rw [List.mem_singleton.1 hheld]
          exact ⟨handler.pc, hrec.handled i handler hworker⟩
      | outside | testing | sleeping | blocked | taking | returned =>
          rw [hworker] at hheld
          cases hheld
  · rw [hrec.untouched conn hdequeued]
    exact ⟨.receiving, .receiving⟩

end Connections

end BkkApi.Server.Transcript
