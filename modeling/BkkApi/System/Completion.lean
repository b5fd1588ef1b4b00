import BkkApi.System.Courses
import BkkApi.Server.Progress

/-!
# Every call is answered

In runs without failures every call of `send_bkk_uds_query` returns `client_OK`
with a response, provided that fewer strangers keep silent on an open connection
than the server has workers.  Strangers may connect, send anything and close, in
any order and number, and the threads of the server and the calls may go on in
any order.

The argument looks at a state where nothing is left to do.  There the server has
served everybody but the silent strangers (`served_of_stalled`), so a call that
still waited would have its response in front of it (`answered_of_stalled`).
`serviceRank` bounds the way there: a call costs 27 steps, its own and those of
all threads of the server together.
-/

namespace BkkApi.System.Completion

open BkkApi.Verified.CData
open BkkApi.Verified.Run
open BkkApi.Verified.Tally
open BkkApi.Server
open BkkApi.Server.Protocol
open BkkApi.Server.ResponseParser
open BkkApi.Server.Cache
open BkkApi.Server.Fetching (Fetches Call)
open BkkApi.Server.HandleClient
open BkkApi.Server.Workers (ThreadPool Worker)
open BkkApi.Server.Transcript
open BkkApi.Server.Serving
open BkkApi.Server.Workload
open BkkApi.Server.Progress
open BkkApi.Server.Shutdown (Process mainNext server_reachable accepted_eq
  accepted_accept)
open BkkApi.Client.UdsClient
open BkkApi.System.Exchange
open BkkApi.System.Courses

variable {n : Nat}

/-! ## What is left to do -/

/-- The steps that a call has still to take, with what its connection is going to
cost the server. -/
def queryRank : QueryPc → Nat
  | .called => 27
  | .socketOpened => 26
  | .connected => 3
  | .waiting => 2
  | .closing _ _ => 1
  | .returned _ _ => 0

def queriesRank (queries : List Query) : Nat :=
  (queries.map fun query => queryRank query.pc).sum

/-- What is still to be done by the server and by the calls. -/
def serviceRank (s : Service n) : Nat :=
  processRank s.process +
    22 * (s.connections.length - s.process.server.accepted) +
    queriesRank s.queries

/-- The own steps of the server and of the calls; the others are a new call, what
strangers do, and what the server does not do on its own. -/
def ownStep : Exchange.Action n → Bool
  | .process (.server .accept) => true
  | .process a => isOwn a
  | .client _ _ => true
  | _ => false

/-- What a step adds to the rank at most. -/
def serviceGain : Exchange.Action n → Nat
  | .process a => gain a
  | .query _ => 27
  | .strangerConnects => 22
  | _ => 0

section Rank

variable {cJsonParse : Bytes → Option CJson} {config : SoundConfig}

/-- A step of a call is one step less to do, its new connection included. -/
theorem queryRank_moves {connections connections' : List Connection} {k : Nat}
    {query query' : Query} {succeeds : Bool}
    (h : QueryMoves connections k query succeeds connections' query') :
    connections.length ≤ connections'.length ∧
      queryRank query'.pc + 22 * connections'.length <
        queryRank query.pc + 22 * connections.length := by
  cases h with
  | socket hpc | socketFails hpc | connectFails hpc =>
      simp [hpc, queryRank]
  | connect hpc =>
      simp only [hpc, queryRank, List.length_append, List.length_singleton]
      omega
  | send hpc hconn hconnection hopen | sendFails hpc hconn hconnection
  | receive hpc hconn hconnection hpacket
  | hungUp hpc hconn hconnection hnothing hclosed
  | receiveFails hpc hconn hconnection | close hpc hconn hconnection =>
      simp [hpc, queryRank]

theorem queriesRank_set {queries : List Query} {k : Nat} {query : Query}
    (hquery : queries[k]? = some query) (query' : Query) :
    queriesRank (queries.set k query') + queryRank query.pc =
      queriesRank queries + queryRank query'.pc :=
  sum_map_set (fun query : Query => queryRank query.pc) hquery query'

/-- The service halts when its environment rests. -/
theorem servicePotential :
    Machine.Potential (Exchange.machine cJsonParse n config) (fun _ _ => True)
      ownStep serviceRank serviceGain where
  pays s a t hreach _ hown hstep := by
    have hlinked := linked_of_reachable hreach
    have hle := hlinked.accepted_le
    have hprocess := process_reachable hreach
    unfold serviceRank
    cases Exchange.step_cases hstep with
    | @accept process hpending hserver =>
        have hgain := processPotential.gains s.process (.server .accept) process
          hprocess trivial rfl hserver
        have haccepted := accepted_accept hserver
        simp only [gain] at hgain
        dsimp only
        omega
    | @handle i env handler connection connection' process hworker hconnection
        hside hserver =>
        have hpays := processPotential.pays s.process (.server (.handle i env))
          process hprocess trivial rfl hserver
        have haccepted := accepted_eq (by simp) hserver
        dsimp only
        rw [List.length_set]
        omega
    | @process a process haccept hhandle hserver =>
        have hown' : isOwn a = true := by
          unfold ownStep at hown
          split at hown <;> simp_all
        have hpays := processPotential.pays _ _ _ hprocess trivial hown' hserver
        have haccepted := accepted_eq haccept hserver
        dsimp only
        omega
    | @client k succeeds query query' connections hquery hmoves =>
        have hrank := queryRank_moves hmoves
        have hset := queriesRank_set hquery query'
        dsimp only
        omega
    | query | strangerConnects | strangerSends | strangerCloses => cases hown
  gains s a t hreach _ hown hstep := by
    have hlinked := linked_of_reachable hreach
    have hle := hlinked.accepted_le
    have hprocess := process_reachable hreach
    unfold serviceRank
    cases Exchange.step_cases hstep with
    | @process a process haccept hhandle hserver =>
        have hown' : isOwn a = false := by
          unfold ownStep at hown
          split at hown <;> simp_all
        have hgain := processPotential.gains _ _ _ hprocess trivial hown' hserver
        have haccepted := accepted_eq haccept hserver
        simp only [serviceGain]
        omega
    | @query request =>
        simp only [queriesRank, List.map_append, List.sum_append,
          List.map_singleton, List.sum_singleton, Query.enter, queryRank,
          serviceGain]
        omega
    | strangerConnects =>
        simp only [List.length_append, List.length_singleton, serviceGain]
        omega
    | strangerSends hconnection howner | strangerCloses hconnection howner =>
        simp only [List.length_set, serviceGain]
        omega
    | accept | handle | client => cases hown

end Rank

/-! ## Where the service comes to rest -/

/-- An own step in which nothing fails. -/
def MayAct (s : Service n) (a : Exchange.Action n) : Prop :=
  ownStep a = true ∧ Faultless (fun _ => true) s a

/-- A stranger that has connected, sent nothing and not closed. -/
def mute (connection : Connection) : Bool :=
  connection.owner.isNone && !connection.spoken && connection.clientOpen

/-- The connections of mute strangers. -/
def silentIn (connections : List Connection) (conn : Conn) : Bool :=
  (connections[conn]?).any mute

section Rest

variable {cJsonParse : Bytes → Option CJson} {config : SoundConfig}
  {s t : Service n}

theorem undisturbed_of_mayAct {a : Exchange.Action n} (h : MayAct s a) :
    Undisturbed s a := by
  obtain ⟨-, hfaultless⟩ := h
  unfold Undisturbed Faultless at *
  split at hfaultless
  · exact hfaultless
  · exact hfaultless
  · intro handler connection hworker hconnection _
    exact hfaultless handler connection hworker hconnection rfl
  · trivial

/-- A call that can go on goes on. -/
theorem queryNext_eq_none
    (h : (Exchange.machine cJsonParse n config).Stalled MayAct s) {k : Nat}
    {query : Query} (hquery : s.queries[k]? = some query) :
    queryNext s.connections k query true = none := by
  have hnone := h (.client k true) ⟨rfl, rfl⟩
  simpa [Exchange.machine, Exchange.step, hquery] using hnone

/-- Every call has returned or waits for its response. -/
theorem query_rests (htended : Tended s) (hlinked : Linked s)
    (h : (Exchange.machine cJsonParse n config).Stalled MayAct s) {k : Nat}
    {query : Query} (hquery : s.queries[k]? = some query) :
    query.pc = .waiting ∨ ∃ status response, query.pc = .returned status response := by
  have hnone := queryNext_eq_none h hquery
  have hconsistent := hlinked.consistent k query hquery
  have hhas : query.pc ≠ .called → query.pc ≠ .socketOpened →
      (∀ status, query.pc ≠ .returned status none) →
      ∃ conn connection, query.conn = some conn ∧
        s.connections[conn]? = some connection ∧
        Link k query connection (s.process.server.journal conn) := by
    intro hcalled hsocket hreturned
    have hconn : query.conn ≠ none := by
      intro hconn
      rcases hconsistent.opened hconn with hpc | hpc | ⟨status, hpc⟩
      · exact hcalled hpc
      · exact hsocket hpc
      · exact hreturned status hpc
    obtain ⟨conn, hconn⟩ := Option.ne_none_iff_exists'.1 hconn
    obtain ⟨connection, hconnection, hlink⟩ :=
      hlinked.link k query conn hquery hconn
    exact ⟨conn, connection, hconn, hconnection, hlink⟩
  cases hpc : query.pc with
  | called | socketOpened =>
      simp [queryNext, hpc] at hnone
  | waiting => exact .inl rfl
  | returned status response => exact .inr ⟨status, response, rfl⟩
  | connected =>
      exfalso
      obtain ⟨conn, connection, hconn, hconnection, hlink⟩ :=
        hhas (by simp [hpc]) (by simp [hpc]) (by simp [hpc])
      obtain ⟨query₂, hquery₂, -, hcourse⟩ :=
        htended.course conn connection k hconnection hlink.owner
      rw [hquery] at hquery₂
      cases hquery₂
      have hopen : connection.serverOpen = true := by
        by_contra hclosed
        have hmem := (htended.kept conn connection hconnection).closes
          (Bool.not_eq_true _ ▸ hclosed)
        rw [(hcourse.connected hpc).1] at hmem
        cases hmem
      simp [queryNext, hpc, onConnection, hconn, hconnection, clientSend,
        hopen] at hnone
  | closing status response =>
      exfalso
      obtain ⟨conn, connection, hconn, hconnection, hlink⟩ :=
        hhas (by simp [hpc]) (by simp [hpc]) (by simp [hpc])
      simp [queryNext, hpc, onConnection, hconn, hconnection] at hnone

/-- A step of the server that moves no packet is a step of the service. -/
theorem exists_step_process (config : SoundConfig) {a : Shutdown.Action n}
    {process : Process n} {connections : List Connection} (hkernel : kernel s a = some connections)
    (hstep : Shutdown.step cJsonParse s.process a = some process) :
    (Exchange.machine cJsonParse n config).step s (.process a) ≠ none := by
  simp [Exchange.machine, Exchange.step, hkernel, hstep]

theorem kernel_other {a : Shutdown.Action n} (haccept : a ≠ .server .accept)
    (hhandle : ∀ i env, a ≠ .server (.handle i env)) :
    kernel s a = some s.connections := by
  unfold kernel
  split
  · exact absurd rfl haccept
  · exact absurd rfl (hhandle _ _)
  · rfl

/-- Whether a handler can go on is not its environment's choice. -/
theorem exists_handleNext {fetches : Fetches} {env : Environment} {pc : Pc}
    (h : handleNext fetches env pc ≠ none) (env' : Environment) :
    ∃ next, handleNext fetches env' pc = some next := by
  cases pc with
  | receiving =>
      simp only [handleNext]
      split <;> exact ⟨_, rfl⟩
  | awaiting k => exact Option.ne_none_iff_exists'.1 h
  | lookingUp request | hitStale request arrivals | missed request
  | replying apiStatus arrivals | closing => exact ⟨_, rfl⟩
  | closed => exact absurd rfl h

/-- What the environment of a handler is when nothing fails. -/
def reliably (connection : Connection) : Environment where
  packet := some (connection.toServer.headD [])
  beyond := []
  delivered := connection.clientOpen

/-- A handler that has something to receive can go on with it. -/
theorem exists_serverSide (pc : Pc) (connection : Connection)
    (h : pc = .receiving → connection.toServer = [] →
      connection.clientOpen = false) :
    ∃ connection', serverSide (reliably connection) pc connection =
      some connection' := by
  cases pc with
  | receiving =>
      simp only [serverSide, serverRecv, reliably]
      cases hqueue : connection.toServer with
      | nil =>
          have hclosed := h rfl hqueue
          simp [hclosed]
      | cons first rest => simp
  | replying apiStatus arrivals =>
      by_cases hopen : connection.clientOpen = true <;>
        simp [serverSide, serverSend, reliably, hopen]
  | lookingUp request | hitStale request arrivals | missed request
  | awaiting k | closing | closed => exact ⟨_, rfl⟩

/-- A connection at which a handler waits for a packet in vain is a mute
stranger's. -/
theorem mute_of_receiving (htended : Tended s) (hlinked : Linked s)
    (h : (Exchange.machine cJsonParse n config).Stalled MayAct s) {conn : Conn}
    {connection : Connection} (hconnection : s.connections[conn]? = some connection)
    (hnothing : s.process.server.journal conn = [])
    (hqueue : connection.toServer = []) (hopen : connection.clientOpen = true) :
    mute connection = true := by
  have hkept := htended.kept conn connection hconnection
  have hquiet : connection.spoken = false := by
    by_contra hspoken
    exact hkept.asks (Bool.not_eq_false _ ▸ hspoken) hnothing hqueue
  cases howner : connection.owner with
  | none => simp [mute, howner, hquiet, hopen]
  | some k =>
      -- a call would have sent its request by now
      exfalso
      obtain ⟨query, hquery, -, hcourse⟩ :=
        htended.course conn connection k hconnection howner
      rcases query_rests htended hlinked h hquery with hpc | ⟨status, response, hpc⟩
      · exact hcourse.waiting hpc hnothing hqueue
      · obtain ⟨sent, hsent⟩ := hcourse.ended (by rw [hpc]; rfl)
        rw [hnothing] at hsent
        cases hsent

/-- When nothing is left to do in the service, nothing is left to do in the
server but for the mute strangers. -/
theorem process_stalled
    (hreach : (Exchange.machine cJsonParse n config).ReachableIf Undisturbed s)
    (h : (Exchange.machine cJsonParse n config).Stalled MayAct s) :
    Progress.Stalled cJsonParse config (silentIn s.connections) s.process := by
  intro a hmay
  by_contra hstep
  obtain ⟨process, hprocess⟩ := Option.ne_none_iff_exists'.1 hstep
  have hprocess : Shutdown.step cJsonParse s.process a = some process := hprocess
  have hlinked := linked_of_reachable hreach.reachable
  have htended := tended_of_reachable hreach
  have hserver := server_reachable (process_reachable hreach.reachable)
  have hown : ownStep (.process a) = true := by
    unfold ownStep
    split
    · rfl
    · rename_i hsame
      cases hsame
      exact hmay.1
    · rename_i hsame
      cases hsame
    · rename_i hnot _
      exact absurd rfl (hnot a)
  by_cases hhandle : ∃ i env, a = .server (.handle i env)
  · obtain ⟨i, env, rfl⟩ := hhandle
    rcases Shutdown.step_cases hprocess with ⟨b, heq, -, hb⟩ | ⟨heq, -⟩ |
      ⟨heq, -⟩ | ⟨heq, -⟩ | ⟨heq, -⟩
    all_goals cases heq
    obtain ⟨handler, hworker, hnext⟩ : ∃ handler,
        s.process.server.pool.workers i = .handling handler ∧
          handleNext s.process.server.fetches env handler.pc ≠ none := by
      simp only [Serving.step] at hb
      split at hb
      · rename_i handler hworker
        refine ⟨handler, hworker, fun hnone => ?_⟩
        rw [hnone] at hb
        cases hb
      · cases hb
    have hwaits := hmay.2 i env rfl
    rw [hworker] at hwaits
    have howned := owned_of_handling hserver (numbered_of_reachable hserver) hworker
    have hfits := (recorded_of_reachable hserver).handled i handler hworker
    have hlt : handler.conn < s.connections.length := by
      refine Nat.lt_of_lt_of_le ?_ hlinked.accepted_le
      apply (numbered_of_reachable hserver).lt_accepted
      rw [Conservation.fifo_of_reachable (pool_reachable hserver)]
      exact List.mem_append_left _ howned.dequeued
    have hconnection : s.connections[handler.conn]? =
        some s.connections[handler.conn] := List.getElem?_eq_getElem hlt
    generalize s.connections[handler.conn] = connection at hconnection
    have hreceives : handler.pc = .receiving → connection.toServer = [] →
        connection.clientOpen = false := by
      intro hpc hqueue
      by_contra hopen
      have hnothing : s.process.server.journal handler.conn = [] := by
        rw [hpc] at hfits
        generalize s.process.server.journal handler.conn = events at hfits
        cases hfits
        rfl
      have hmute := mute_of_receiving htended hlinked h hconnection hnothing
        hqueue (Bool.not_eq_false _ ▸ hopen)
      obtain ⟨conn, pc⟩ := handler
      cases hpc
      simp [keptWaiting, silentIn, hconnection, hmute] at hwaits
    obtain ⟨connection', hside⟩ := exists_serverSide handler.pc connection hreceives
    obtain ⟨next, hnext'⟩ := exists_handleNext hnext (reliably connection)
    have hkernel : kernel s (.server (.handle i (reliably connection))) =
        some (s.connections.set handler.conn connection') := by
      simp [kernel, hworker, hconnection, hside]
    have hagain : Shutdown.step cJsonParse s.process
        (.server (.handle i (reliably connection))) ≠ none := by
      simp [Shutdown.step, mainNext, Serving.step, hworker, hnext']
    obtain ⟨process', hprocess'⟩ := Option.ne_none_iff_exists'.1 hagain
    refine exists_step_process config hkernel hprocess' (h _ ⟨rfl, ?_⟩)
    intro other connection₂ hother hconnection₂ _
    rw [hworker] at hother
    cases hother
    rw [hconnection] at hconnection₂
    cases hconnection₂
    exact ⟨rfl, rfl⟩
  · have haccept : a ≠ .server .accept := by
      rintro rfl
      cases hmay.1
    have hkernel : kernel s a = some s.connections :=
      kernel_other haccept fun i env heq => hhandle ⟨i, env, heq⟩
    refine exists_step_process config hkernel hprocess (h _ ⟨hown, ?_⟩)
    unfold Faultless
    split
    · rename_i heq
      cases heq
    · rename_i heq
      cases heq
      cases hmay.1
    · rename_i i env heq
      cases heq
      exact absurd ⟨i, env, rfl⟩ hhandle
    · trivial

/-- Everything has been accepted: the main thread is in its loop, and nothing
keeps it from taking the queue. -/
theorem accepted_of_stalled
    (hreach : (Exchange.machine cJsonParse n config).ReachableIf Undisturbed s)
    (h : (Exchange.machine cJsonParse n config).Stalled MayAct s) :
    s.process.server.accepted = s.connections.length := by
  have hprocess := process_reachable hreach.reachable
  have hstalled := process_stalled hreach h
  have hle := (linked_of_reachable hreach.reachable).accepted_le
  by_contra hne
  have hpending : s.process.server.accepted < s.connections.length := by omega
  have hwaiting : s.process.main = .waiting := by
    have hmain := (tended_of_reachable hreach).main
    rcases hstalled.main_rests hprocess with hrest | hrest | ⟨hrest, -⟩ <;>
      rw [hrest] at hmain ⊢ <;> simp at hmain
  have hstep : ∃ process, (Shutdown.machine cJsonParse n config).step s.process
      (.server .accept) = some process :=
    ⟨_, accept_step hwaiting (hstalled.mutex_free hprocess)⟩
  obtain ⟨process, hstep⟩ := hstep
  have hkernel : kernel s (.server .accept) = some s.connections :=
    if_pos hpending
  exact exists_step_process config (a := .server .accept) hkernel hstep
    (h _ ⟨rfl, trivial⟩)

/-- Where nothing is left to do, every call has returned `client_OK`. -/
theorem answered_of_stalled
    (hreach : (Exchange.machine cJsonParse n config).ReachableIf Undisturbed s)
    (hfew : s.connections.countP mute < n)
    (h : (Exchange.machine cJsonParse n config).Stalled MayAct s) {k : Nat}
    {query : Query} (hquery : s.queries[k]? = some query) :
    ∃ response, query.pc = .returned .ok (some response) := by
  have hlinked := linked_of_reachable hreach.reachable
  have htended := tended_of_reachable hreach
  have haccepted := accepted_of_stalled hreach h
  have hcount : Nat.count (fun conn => silentIn s.connections conn = true)
      s.process.server.accepted < n := by
    rw [haccepted]
    exact countP_eq_count mute s.connections ▸ hfew
  have hserved := served_of_stalled (process_reachable hreach.reachable)
    htended.main hcount (process_stalled hreach h)
  rcases query_rests htended hlinked h hquery with hpc | ⟨status, response?, hpc⟩
  · exfalso
    have hconsistent := hlinked.consistent k query hquery
    obtain ⟨conn, hconn⟩ := Option.ne_none_iff_exists'.1 fun hnone => by
      rcases hconsistent.opened hnone with hother | hother | ⟨status, hother⟩ <;>
        simp [hpc] at hother
    obtain ⟨connection, hconnection, hlink⟩ :=
      hlinked.link k query conn hquery hconn
    obtain ⟨query₂, hquery₂, -, hcourse⟩ :=
      htended.course conn connection k hconnection hlink.owner
    rw [hquery] at hquery₂
    cases hquery₂
    -- the server has closed it, and had answered before
    have hlt : conn < s.process.server.accepted := by
      rw [haccepted]
      exact (List.getElem?_eq_some_iff.1 hconnection).1
    have hspeaks : silentIn s.connections conn = false := by
      simp [silentIn, hconnection, mute, hlink.owner]
    have hclosed : .closed ∈ s.process.server.journal conn := by
      apply List.count_pos_iff.1
      rw [(hserved.handled conn hlt hspeaks).2]
      exact Nat.one_pos
    obtain ⟨response, hsent⟩ :=
      (htended.kept conn connection hconnection).answers
        (by simp [ofQuery, hlink.owner]) hclosed
    obtain ⟨first, rest, hqueue⟩ := List.exists_cons_of_ne_nil
      (List.ne_nil_of_mem (hcourse.unread hpc response hsent))
    have hnone := queryNext_eq_none h hquery
    simp [queryNext, hpc, onConnection, hconn, hconnection, clientRecv,
      hqueue] at hnone
  · have hstatus := htended.status k query status hquery (by rw [hpc]; rfl)
    have hok := (hlinked.consistent k query hquery).ok_iff
    rw [hpc, hstatus] at hok
    obtain ⟨response, hresponse⟩ := Option.isSome_iff_exists.1 (hok.1 rfl)
    have hsame : response? = some response := hresponse
    exact ⟨response, by rw [hpc, hstatus, hsame]⟩

/-! ## What own steps leave as it is -/

/-- The requests of the calls so far. -/
def requests (s : Service n) : List BkkUdsRequest := s.queries.map Query.request

theorem countP_set_of_eq {connections : List Connection} {conn : Nat}
    {connection connection' : Connection}
    (hconnection : connections[conn]? = some connection)
    (hsame : mute connection' = mute connection) :
    (connections.set conn connection').countP mute = connections.countP mute := by
  obtain ⟨hlt, rfl⟩ := List.getElem?_eq_some_iff.1 hconnection
  have hpos : mute connections[conn] = true → 0 < connections.countP mute :=
    fun hmute => List.countP_pos_iff.2 ⟨_, List.getElem_mem hlt, hmute⟩
  rw [List.countP_set hlt, hsame]
  split
  · rename_i hmute
    have hlarge := hpos hmute
    omega
  · omega

/-- Own steps make nobody mute and call nobody. -/
theorem frame_of_mayAct {a : Exchange.Action n} (hmay : MayAct s a)
    (hreach : (Exchange.machine cJsonParse n config).Reachable s)
    (hstep : Exchange.step cJsonParse s a = some t) :
    t.connections.countP mute = s.connections.countP mute ∧
      requests t = requests s := by
  have hlinked := linked_of_reachable hreach
  cases Exchange.step_cases hstep with
  | accept hpending hserver | process haccept hhandle hserver =>
      exact ⟨rfl, rfl⟩
  | handle hworker hconnection hside hserver =>
      refine ⟨countP_set_of_eq hconnection ?_, rfl⟩
      obtain ⟨pc, fetches, events, hhandles, -⟩ :=
        Shutdown.handle_cases hworker hserver
      have htransmits := transmits_of_handles hhandles hside
      simp only [mute, htransmits.owner, htransmits.spoken, htransmits.clientOpen]
  | @client k succeeds query query' connections hquery hmoves =>
      constructor
      · dsimp only
        cases hmoves.affects with
        | alone hconn hresponse => rfl
        | opens hconn hresponse => simp [mute, Connection.opened]
        | @uses conn connection connection' hbefore hconn hconnection huses =>
            obtain ⟨same, hsame, hlink⟩ := hlinked.link k query conn hquery hbefore
            rw [hconnection] at hsame
            cases hsame
            refine countP_set_of_eq hconnection ?_
            simp [mute, huses.owner, hlink.owner]
      · obtain ⟨hlt, rfl⟩ := List.getElem?_eq_some_iff.1 hquery
        simp only [requests, List.map_set, hmoves.request_eq]
        rw [← List.getElem_map Query.request (h := by simpa using hlt)]
        exact List.set_getElem_self _
  | query | strangerConnects | strangerSends | strangerCloses => cases hmay.1

theorem frame_of_leadsTo
    (hreach : (Exchange.machine cJsonParse n config).Reachable s)
    (hlead : (Exchange.machine cJsonParse n config).LeadsTo MayAct s t) :
    t.connections.countP mute = s.connections.countP mute ∧
      requests t = requests s := by
  induction hlead with
  | refl => exact ⟨rfl, rfl⟩
  | step hprev hmay hstep ih =>
      have hbefore := hreach.trans (hprev.mono fun _ _ _ => trivial)
      obtain ⟨hmute, hrequests⟩ := frame_of_mayAct hmay hbefore hstep
      exact ⟨hmute.trans ih.1, hrequests.trans ih.2⟩

/-! ## Every call -/

/-- All calls have returned `client_OK`, each with a response of its own. -/
def AllAnswered (cJsonParse : Bytes → Option CJson) (config : SoundConfig)
    (s : Service n) : Prop :=
  ∀ (k : Nat) (query : Query), s.queries[k]? = some query →
    ∃ response conn, query.pc = .returned .ok (some response) ∧
      Answers cJsonParse config s k query response conn

/-- **Every call is answered.**  After any run in which no system call has failed
for a call, with fewer mute strangers than workers: in whatever order the server
and the calls go on, if still nothing fails, they come to rest after a bounded
number of steps, and then every call has returned `client_OK` with a response to
its request. -/
theorem calls_answered
    (hreach : (Exchange.machine cJsonParse n config).ReachableIf Undisturbed s)
    (hfew : s.connections.countP mute < n) :
    (∃ t, (Exchange.machine cJsonParse n config).LeadsTo MayAct s t ∧
        requests t = requests s ∧ AllAnswered cJsonParse config t) ∧
      ∀ l t, (Exchange.machine cJsonParse n config).Path MayAct s l t →
        l.length ≤ serviceRank s ∧
          ((Exchange.machine cJsonParse n config).Stalled MayAct t →
            requests t = requests s ∧ AllAnswered cJsonParse config t) := by
  have hown : ∀ (s : Service n) a, MayAct s a → True ∧ ownStep a = true :=
    fun s a h => ⟨trivial, h.1⟩
  have hanswered : ∀ t, (Exchange.machine cJsonParse n config).LeadsTo MayAct s t →
      (Exchange.machine cJsonParse n config).Stalled MayAct t →
      requests t = requests s ∧ AllAnswered cJsonParse config t := by
    intro t hlead hstalled
    obtain ⟨hmute, hrequests⟩ := frame_of_leadsTo hreach.reachable hlead
    have hafter := hreach.trans (hlead.mono fun _ _ => undisturbed_of_mayAct)
    refine ⟨hrequests, fun k query hquery => ?_⟩
    obtain ⟨response, hpc⟩ :=
      answered_of_stalled hafter (hmute ▸ hfew) hstalled hquery
    obtain ⟨conn, hanswers⟩ :=
      answers_of_response hafter.reachable hquery (by rw [hpc]; rfl)
    exact ⟨response, conn, hpc, hanswers⟩
  refine ⟨?_, ?_⟩
  · obtain ⟨t, hlead, hstalled⟩ :=
      servicePotential.exists_stalled hown hreach.reachable
    exact ⟨t, hlead, hanswered t hlead hstalled⟩
  · intro l t hpath
    have hlen := servicePotential.length_le hown hreach.reachable hpath
    exact ⟨by omega, hanswered t hpath.leadsTo⟩

end Rest

/-- The server with two workers, and nobody yet. -/
def samplePair : Service 2 where
  process :=
    { server :=
        { pool := ThreadPool.new
          fetches := Fetching.sampleStart
          accepted := 0
          journal := fun _ => [] }
      main := .waiting }
  connections := []
  queries := []

/-- One call beside a mute stranger, with two workers. -/
theorem calls_answered_pair :
    ∃ s t : Service 2, s.connections.countP mute = 1 ∧
      requests s = [sampleRequest] ∧
      (Exchange.machine Fetching.sampleParse 2 Fetching.sampleConfig).LeadsTo
        MayAct s t ∧
      requests t = [sampleRequest] ∧
      AllAnswered Fetching.sampleParse Fetching.sampleConfig t := by
  have hstart : (Exchange.machine Fetching.sampleParse 2
      Fetching.sampleConfig).ReachableIf Undisturbed samplePair :=
    .start ⟨⟨⟨rfl, ⟨rfl, rfl⟩, rfl, rfl⟩, rfl⟩, rfl, rfl⟩
  have hquiet : ∀ s : Service 2, Undisturbed s (.query sampleRequest) ∧
      Undisturbed s .strangerConnects := fun s => ⟨trivial, trivial⟩
  have hasked := hstart.step (hquiet _).1 rfl
  have hmute := hasked.step (hquiet _).2 rfl
  obtain ⟨t, hlead, hrequests, hanswered⟩ :=
    (calls_answered hmute (by decide)).1
  exact ⟨_, t, rfl, rfl, hlead, hrequests, hanswered⟩

end BkkApi.System.Completion
