import BkkApi.Server.Provenance

/-!
# No connection is lost, duplicated or answered twice

Every submitted connection is in exactly one place, and connections leave the
queue in the order in which they entered it.  What happens to a connection
follows one pattern on every path of `handle_client`: its packet is received, at
most one response is sent, which was computed from that packet's request, and
then it is closed once (`Conversation`).  When nothing is submitted after `stop`
is set, a worker that returns leaves an empty queue behind it.
-/

namespace BkkApi.Server.Connections

open BkkApi.Verified.CData
open BkkApi.Verified.Run
open BkkApi.Server.Protocol
open BkkApi.Server.ResponseParser
open BkkApi.Server.Cache
open BkkApi.Server.Fetching (Fetches Call sampleParse sampleConfig)
open BkkApi.Server.HandleClient
open BkkApi.Server.Conservation
open BkkApi.Server.Transcript
open BkkApi.Server.Serving

variable {cJsonParse : Bytes → Option CJson} {config : SoundConfig} {n : Nat}
  {fetches : Fetches} {s t : UdsServer n}

/-! ## Conversations -/

/-- The event is a response. -/
def isSent : Event → Bool
  | .sent _ => true
  | _ => false

/-- The event is a received packet. -/
def isReceived : Event → Bool
  | .received _ => true
  | _ => false

/-- One packet, at most one response computed from its request, and at most one
close, which comes last. -/
structure Conversation (config : SoundConfig) (fetches : Fetches)
    (events : List Event) : Prop where
  received_once : events.countP isReceived ≤ 1
  sent_once : events.countP isSent ≤ 1
  closed_once : events.count .closed ≤ 1
  closed_last : .closed ∈ events → events.getLast? = some .closed
  answered : ∀ response, .sent response ∈ events →
    ∃ packet request before after apiStatus arrivals,
      events = .received packet :: before ++ .sent response :: after ∧
        acceptRequest packet request.beyond = some request ∧
        Reply config fetches request before apiStatus arrivals ∧
        response = buildResponse apiStatus arrivals

/-- Between the packet and the response there is neither another packet, nor a
response, nor a close. -/
theorem counts_of_reply {request : RequestInMemory} {before : List Event}
    {apiStatus : BkkApiStatus} {arrivals : List Arrival}
    (h : Reply config fetches request before apiStatus arrivals) :
    before.countP isReceived = 0 ∧ before.countP isSent = 0 ∧
      .closed ∉ before := by
  cases h <;> simp [isReceived, isSent]

/-- The events before the close, on every path of `handle_client`. -/
inductive Open (config : SoundConfig) (fetches : Fetches) : List Event → Prop
  | nothing : Open config fetches []
  | unanswered {packet : Option Bytes} {before : List Event}
      (hreceived : before.countP isReceived = 0)
      (hsent : before.countP isSent = 0) (hclosed : .closed ∉ before) :
      Open config fetches (.received packet :: before)
  | answered {packet : Option Bytes} {request : RequestInMemory}
      {before : List Event} {apiStatus : BkkApiStatus}
      {arrivals : List Arrival}
      (hreq : acceptRequest packet request.beyond = some request)
      (hreply : Reply config fetches request before apiStatus arrivals) :
      Open config fetches (.received packet :: before ++
        [.sent (buildResponse apiStatus arrivals)])

/-- A connection is open, or has just been closed. -/
theorem open_or_closed {pc : Pc} {events : List Event}
    (h : Fits config fetches pc events) :
    (pc ≠ .closed ∧ Open config fetches events) ∨
      pc = .closed ∧ ∃ before, Open config fetches before ∧
        events = before ++ [.closed] := by
  cases h with
  | receiving => exact .inl ⟨by simp, .nothing⟩
  | lookingUp hreq | hitStale hreq hsource hage | missed hreq
  | awaiting hreq hcall hstop | rejected hreq =>
      exact .inl ⟨by simp, .unanswered (by simp [isReceived])
        (by simp [isSent]) (by simp)⟩
  | replying hreq hreply =>
      obtain ⟨hreceived, hsent, hclosed⟩ := counts_of_reply hreply
      exact .inl ⟨by simp, .unanswered hreceived hsent hclosed⟩
  | answered delivered hreq hreply =>
      obtain ⟨hreceived, hsent, hclosed⟩ := counts_of_reply hreply
      cases delivered with
      | true => exact .inl ⟨by simp, .answered hreq hreply⟩
      | false =>
          rw [if_neg Bool.false_ne_true, List.append_nil]
          exact .inl ⟨by simp, .unanswered hreceived hsent hclosed⟩
  | closed hfits =>
      refine .inr ⟨rfl, _, ?_, rfl⟩
      cases hfits with
      | rejected hreq =>
          exact .unanswered (by simp) (by simp) (by simp)
      | answered delivered hreq hreply =>
          obtain ⟨hreceived, hsent, hclosed⟩ := counts_of_reply hreply
          cases delivered with
          | true => exact .answered hreq hreply
          | false =>
              rw [if_neg Bool.false_ne_true, List.append_nil]
              exact .unanswered hreceived hsent hclosed

theorem Open.counts {events : List Event} (h : Open config fetches events) :
    events.countP isReceived ≤ 1 ∧ events.countP isSent ≤ 1 ∧
      .closed ∉ events := by
  cases h with
  | nothing => simp
  | unanswered hreceived hsent hclosed =>
      simp [List.countP_cons, isReceived, isSent, hreceived, hsent, hclosed]
  | answered hreq hreply =>
      obtain ⟨hreceived, hsent, hclosed⟩ := counts_of_reply hreply
      simp [List.countP_cons, isReceived, isSent, hreceived, hsent, hclosed]

theorem Open.answered_of_sent {events : List Event}
    (h : Open config fetches events) {response : BkkUdsResponse}
    (hsent : .sent response ∈ events) :
    ∃ packet request before apiStatus arrivals,
      events = .received packet :: before ++ [.sent response] ∧
        acceptRequest packet request.beyond = some request ∧
        Reply config fetches request before apiStatus arrivals ∧
        response = buildResponse apiStatus arrivals := by
  have hno : ∀ {before : List Event}, before.countP isSent = 0 →
      .sent response ∉ before := fun hzero hmem =>
    absurd rfl (List.countP_eq_zero.1 hzero _ hmem)
  cases h with
  | nothing => cases hsent
  | unanswered _ hzero _ =>
      rcases List.mem_cons.1 hsent with heq | hmem
      · cases heq
      · exact absurd hmem (hno hzero)
  | answered hreq hreply =>
      rcases List.mem_append.1 hsent with hold | hnew
      · rcases List.mem_cons.1 hold with heq | hmem
        · cases heq
        · exact absurd hmem (hno (counts_of_reply hreply).2.1)
      · cases List.mem_singleton.1 hnew
        exact ⟨_, _, _, _, _, rfl, hreq, hreply, rfl⟩

/-- An open connection is a conversation, and stays one when it is closed. -/
theorem Open.conversation {events : List Event}
    (h : Open config fetches events) :
    Conversation config fetches events ∧
      Conversation config fetches (events ++ [.closed]) ∧
      (events ++ [Event.closed]).count .closed = 1 := by
  obtain ⟨hreceived, hsent, hclosed⟩ := h.counts
  have hzero : events.count Event.closed = 0 := List.count_eq_zero.2 hclosed
  refine ⟨?_, ?_, ?_⟩
  · refine
      { received_once := hreceived
        sent_once := hsent
        closed_once := by omega
        closed_last := fun hmem => absurd hmem hclosed
        answered := ?_ }
    intro response hmem
    obtain ⟨packet, request, before, apiStatus, arrivals, hevents, hrest⟩ :=
      h.answered_of_sent hmem
    exact ⟨packet, request, before, [], apiStatus, arrivals, hevents, hrest⟩
  · refine
      { received_once := by simpa [isReceived] using hreceived
        sent_once := by simpa [isSent] using hsent
        closed_once := by simp [hzero]
        closed_last := fun _ => List.getLast?_concat
        answered := ?_ }
    intro response hmem
    have hmem' : .sent response ∈ events := by simpa using hmem
    obtain ⟨packet, request, before, apiStatus, arrivals, hevents, hrest⟩ :=
      h.answered_of_sent hmem'
    refine ⟨packet, request, before, [.closed], apiStatus, arrivals, ?_, hrest⟩
    rw [hevents, List.append_assoc, List.singleton_append]
  · simp [hzero]

theorem conversation_of_fits {pc : Pc} {events : List Event}
    (h : Fits config fetches pc events) :
    Conversation config fetches events := by
  rcases open_or_closed h with ⟨-, hopen⟩ | ⟨-, before, hopen, rfl⟩
  · exact hopen.conversation.1
  · exact hopen.conversation.2.1

theorem closed_once_of_fits {events : List Event}
    (h : Fits config fetches .closed events) : events.count .closed = 1 := by
  rcases open_or_closed h with ⟨hne, -⟩ | ⟨-, before, hopen, rfl⟩
  · exact absurd rfl hne
  · exact hopen.conversation.2.2

/-! ## Shutdown -/

/-- No connection is pushed after `stop` has been set. -/
def NoSubmitAfterStop (s : UdsServer n) (a : Action n) : Prop :=
  ∀ conn, a = .pool (.submitPush conn) → s.pool.stop = false

theorem drainProjection :
    Projection (machine cJsonParse n config) (Workers.machine handling)
      NoSubmitAfterStop NoPushAfterStop UdsServer.pool := by
  apply poolProjection ?_ ?_
  · intro s b hguard
    cases b with
    | submitPush conn => exact hguard conn rfl
    | lock i | test i | block i | wake i | leave i | dequeue i conn
    | handle i handler | finish i | submitLock conn | submitUnlock
    | notifyOne woken | dtorLock | dtorSetStop | dtorUnlock | notifyAll
    | dtorJoin => trivial
  · intro p b hother
    cases b with
    | submitPush conn => cases hother
    | lock i | test i | block i | wake i | leave i | dequeue i conn
    | handle i handler | finish i | submitLock conn | submitUnlock
    | notifyOne woken | dtorLock | dtorSetStop | dtorUnlock | notifyAll
    | dtorJoin => trivial

/-- **Connections are conserved.**  In every reachable state the connections
submitted are those dequeued, in the same order, followed by the queue; each is
in exactly one place; each has a conversation behind it, and a finished one has
been closed exactly once.  In a run without a submission after `stop`, the queue
is empty for good once some worker has returned. -/
theorem connections_conserved (h : (machine cJsonParse n config).Reachable s) :
    s.pool.submitted = s.pool.dequeued ++ s.pool.taskQueue ∧
      (∀ conn ∈ s.pool.submitted, OnePlace handling s.pool conn) ∧
      (∀ conn, Conversation config s.fetches (s.journal conn)) ∧
      (∀ conn ∈ s.pool.finished, (s.journal conn).count .closed = 1) ∧
      ((machine cJsonParse n config).ReachableIf NoSubmitAfterStop s →
        ∀ i, s.pool.workers i = .returned →
          ∀ t, (machine cJsonParse n config).LeadsTo NoSubmitAfterStop s t →
            t.pool.taskQueue = []) := by
  have hpool := pool_reachable h
  refine ⟨fifo_of_reachable hpool, ?_, ?_, ?_, ?_⟩
  · intro conn hconn
    apply onePlace_of_count hpool ?_
    have hone := List.nodup_iff_count_le_one.1
      (numbered_of_reachable h).nodup conn
    have hpos := List.count_pos_iff.2 hconn
    omega
  · intro conn
    obtain ⟨pc, hfits⟩ := fits_of_reachable h conn
    exact conversation_of_fits hfits
  · intro conn hconn
    exact closed_once_of_fits ((recorded_of_reachable h).finished conn hconn)
  · intro hquiet i hreturned t hlead
    have hdrained := drained_of_reachable
      (drainProjection.reachable hquiet) i hreturned
    exact (drained_of_leadsTo (drainProjection.reachable hquiet) hdrained
      (drainProjection.leadsTo hlead)).empty

/-- Nothing is pushed once `stop` has been set. -/
def pushesBeforeStop (s : UdsServer n) : Action n → Bool
  | .pool (.submitPush _) => !s.pool.stop
  | _ => true

theorem noSubmitAfterStop_of_pushesBeforeStop (s : UdsServer n) (a : Action n)
    (h : pushesBeforeStop s a = true) : NoSubmitAfterStop s a := by
  rintro conn rfl
  simpa [pushesBeforeStop] using h

/-- The sample conversation, after which the server is shut down. -/
theorem connections_conserved_sample :
    ∃ s : UdsServer 1,
      (machine sampleParse 1 sampleConfig).ReachableIf NoSubmitAfterStop s ∧
        0 ∈ s.pool.finished ∧ s.pool.workers 0 = .returned ∧
        (s.journal 0).count .closed = 1 ∧
        Conversation sampleConfig s.fetches (s.journal 0) ∧
        s.pool.taskQueue = [] := by
  obtain ⟨s, hreach, hs⟩ := Machine.exists_reachableIf_of_runIf
    (M := machine sampleParse 1 sampleConfig) (s := sampleServer)
    noSubmitAfterStop_of_pushesBeforeStop ⟨rfl, ⟨rfl, rfl⟩, rfl, rfl⟩
    (l := sampleDequeue ++ sampleFetch ++
      List.replicate 3 (.handle 0 sampleEnvironment) ++
      [.pool (.finish 0), .pool .dtorLock, .pool .dtorSetStop,
        .pool .dtorUnlock, .pool .notifyAll, .pool (.lock 0),
        .pool (.test 0), .pool (.leave 0)])
    (p := fun s => decide (0 ∈ s.pool.finished) &&
      decide (s.pool.workers 0 = .returned))
    (by decide +kernel)
  rw [Bool.and_eq_true, decide_eq_true_iff, decide_eq_true_iff] at hs
  obtain ⟨hfinished, hreturned⟩ := hs
  obtain ⟨-, -, hconversation, hclosed, hempty⟩ :=
    connections_conserved hreach.reachable
  exact ⟨s, hreach, hfinished, hreturned, hclosed 0 hfinished,
    hconversation 0, hempty hreach 0 hreturned s .refl⟩

end BkkApi.Server.Connections
