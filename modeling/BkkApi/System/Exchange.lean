import BkkApi.Client.UdsClient
import BkkApi.Server.Shutdown

/-!
# Clients and the server together

The process of the server, the connections that the kernel keeps, any number of
calls of `send_bkk_uds_query`, and any number of strangers: clients that open
connections of their own and send what they like on them, or nothing.  The
kernel decides what the environment of a handler's step is: which packet `recv`
gives it, and whether a response reaches its client.

The server takes only steps of its own machine (`processProjection`), so
everything proved about it holds here.  `Link` ties a call to its connection and
to what the server has recorded about that connection, and `client_ok_sound`
says what a returned `client_OK` means: the response is one that the server has
built for this very request, and nobody else has got it.
-/

namespace BkkApi.System.Exchange

open BkkApi.Verified.CData
open BkkApi.Verified.Run
open BkkApi.Server
open BkkApi.Server.Protocol
open BkkApi.Server.ResponseParser
open BkkApi.Server.Cache
open BkkApi.Server.Fetching (Fetches Call)
open BkkApi.Server.HandleClient
open BkkApi.Server.Workers (ThreadPool Worker)
open BkkApi.Server.Transcript
open BkkApi.Server.Provenance
open BkkApi.Server.Serving
open BkkApi.Server.Shutdown (Process journal_eq journal_of_accepted_le
  handle_cases accepted_eq accepted_accept)
open BkkApi.Client.UdsClient

/-! ## The server's side of a connection -/

/-- `recv`: the first packet on its way, or no bytes at all once the client has
closed and everything has been received; `none` is a failure. -/
def serverRecv (packet : Option Bytes) (connection : Connection) :
    Option Connection :=
  match packet, connection.toServer with
  | none, _ => some connection
  | some bytes, first :: rest =>
      if bytes = first then some { connection with toServer := rest } else none
  | some bytes, [] =>
      if bytes = [] ∧ connection.clientOpen = false then some connection
      else none

/-- `send` of the response, which a client that has closed does not get. -/
def serverSend (delivered : Bool) (response : BkkUdsResponse)
    (connection : Connection) : Option Connection :=
  if delivered then
    if connection.clientOpen then
      some { connection with toClient := connection.toClient ++ [response] }
    else none
  else some connection

/-- What a step of a handler does to its connection. -/
def serverSide (env : Environment) (pc : Pc) (connection : Connection) :
    Option Connection :=
  match pc with
  | .receiving => serverRecv env.packet connection
  | .replying apiStatus arrivals =>
      serverSend env.delivered (buildResponse apiStatus arrivals) connection
  | .closing => some { connection with serverOpen := false }
  | _ => some connection

/-! ## The machine -/

/-- The server with its clients.  Connections are numbered in the order of their
`connect`, in which the server accepts them. -/
structure Service (n : Nat) where
  process : Process n
  connections : List Connection
  /-- The calls of `send_bkk_uds_query` so far. -/
  queries : List Query

variable {n : Nat}

/-- One step of one thread of the server, of one call, or of a stranger. -/
inductive Action (n : Nat)
  | process (a : Shutdown.Action n)
  /-- A program calls `send_bkk_uds_query`. -/
  | query (request : BkkUdsRequest)
  /-- The next step of call `k`, whose system call succeeds or fails. -/
  | client (k : Nat) (succeeds : Bool)
  | strangerConnects
  | strangerSends (conn : Conn) (packet : Bytes)
  | strangerCloses (conn : Conn)

/-- The connections after a step of the server, if they allow it. -/
def kernel (s : Service n) : Shutdown.Action n → Option (List Connection)
  | .server .accept =>
      if s.process.server.accepted < s.connections.length then
        some s.connections
      else none
  | .server (.handle i env) =>
      match s.process.server.pool.workers i with
      | .handling handler =>
          (s.connections[handler.conn]?).bind fun connection =>
            (serverSide env handler.pc connection).map fun connection' =>
              s.connections.set handler.conn connection'
      | _ => none
  | _ => some s.connections

/-- A stranger does something to a connection of its own. -/
def strangerActs (s : Service n) (conn : Conn)
    (act : Connection → Option Connection) : Option (Service n) :=
  (s.connections[conn]?).bind fun connection =>
    if connection.owner = none ∧ connection.clientOpen then
      (act connection).map fun connection' =>
        { s with connections := s.connections.set conn connection' }
    else none

section Machine

variable (cJsonParse : Bytes → Option CJson)

/-- One step. -/
def step (s : Service n) : Action n → Option (Service n)
  | .process a =>
      (kernel s a).bind fun connections =>
        (Shutdown.step cJsonParse s.process a).map fun process =>
          { s with process := process, connections := connections }
  | .query request =>
      some { s with queries := s.queries ++ [Query.enter request] }
  | .client k succeeds =>
      (s.queries[k]?).bind fun query =>
        (queryNext s.connections k query succeeds).map
          fun (connections, query') =>
            { s with
              connections := connections
              queries := s.queries.set k query' }
  | .strangerConnects =>
      some { s with connections := s.connections ++ [Connection.opened none] }
  | .strangerSends conn packet =>
      strangerActs s conn fun connection =>
        if connection.serverOpen then some (connection.clientSends packet)
        else none
  | .strangerCloses conn =>
      strangerActs s conn fun connection =>
        some { connection with clientOpen := false }

/-- The server and its clients in all their interleavings. -/
def machine (n : Nat) (config : SoundConfig) :
    Machine (Service n) (Action n) where
  init s := (Shutdown.machine cJsonParse n config).init s.process ∧
    s.connections = [] ∧ s.queries = []
  step := step cJsonParse

/-- What one step can be. -/
inductive Step (s : Service n) : Action n → Service n → Prop
  | accept {process : Process n}
      (hpending : s.process.server.accepted < s.connections.length)
      (hstep : Shutdown.step cJsonParse s.process (.server .accept) =
        some process) :
      Step s (.process (.server .accept)) { s with process := process }
  | handle {i : Fin n} {env : Environment} {handler : Handler}
      {connection connection' : Connection} {process : Process n}
      (hworker : s.process.server.pool.workers i = .handling handler)
      (hconnection : s.connections[handler.conn]? = some connection)
      (hside : serverSide env handler.pc connection = some connection')
      (hstep : Shutdown.step cJsonParse s.process (.server (.handle i env)) =
        some process) :
      Step s (.process (.server (.handle i env)))
        { s with
          process := process
          connections := s.connections.set handler.conn connection' }
  | process {a : Shutdown.Action n} {process : Process n}
      (haccept : a ≠ .server .accept)
      (hhandle : ∀ i env, a ≠ .server (.handle i env))
      (hstep : Shutdown.step cJsonParse s.process a = some process) :
      Step s (.process a) { s with process := process }
  | query {request : BkkUdsRequest} :
      Step s (.query request)
        { s with queries := s.queries ++ [Query.enter request] }
  | client {k : Nat} {succeeds : Bool} {query query' : Query}
      {connections : List Connection} (hquery : s.queries[k]? = some query)
      (hmoves : QueryMoves s.connections k query succeeds connections query') :
      Step s (.client k succeeds)
        { s with
          connections := connections
          queries := s.queries.set k query' }
  | strangerConnects :
      Step s .strangerConnects
        { s with connections := s.connections ++ [Connection.opened none] }
  | strangerSends {conn : Conn} {packet : Bytes} {connection : Connection}
      (hconnection : s.connections[conn]? = some connection)
      (howner : connection.owner = none) :
      Step s (.strangerSends conn packet)
        { s with
          connections := s.connections.set conn
            (connection.clientSends packet) }
  | strangerCloses {conn : Conn} {connection : Connection}
      (hconnection : s.connections[conn]? = some connection)
      (howner : connection.owner = none) :
      Step s (.strangerCloses conn)
        { s with
          connections := s.connections.set conn
            { connection with clientOpen := false } }

variable {cJsonParse} {s t : Service n}

theorem strangerActs_eq_some {conn : Conn}
    {act : Connection → Option Connection}
    (h : strangerActs s conn act = some t) :
    ∃ connection connection', s.connections[conn]? = some connection ∧
      connection.owner = none ∧ act connection = some connection' ∧
      t = { s with connections := s.connections.set conn connection' } := by
  obtain ⟨connection, hconnection, hrest⟩ := Option.bind_eq_some_iff.1 h
  rw [Option.ite_none_right_eq_some] at hrest
  obtain ⟨⟨howner, -⟩, hrest⟩ := hrest
  obtain ⟨connection', hact, rfl⟩ := Option.map_eq_some_iff.1 hrest
  exact ⟨connection, connection', hconnection, howner, hact, rfl⟩

theorem step_cases {a : Action n} (h : step cJsonParse s a = some t) :
    Step cJsonParse s a t := by
  cases a with
  | process a =>
      obtain ⟨connections, hkernel, hrest⟩ := Option.bind_eq_some_iff.1 h
      obtain ⟨process, hstep, rfl⟩ := Option.map_eq_some_iff.1 hrest
      unfold kernel at hkernel
      split at hkernel
      · rw [Option.ite_none_right_eq_some] at hkernel
        obtain ⟨hpending, hsame⟩ := hkernel
        cases hsame
        exact .accept hpending hstep
      · split at hkernel
        · rename_i handler hworker
          obtain ⟨connection, hconnection, hrest⟩ :=
            Option.bind_eq_some_iff.1 hkernel
          obtain ⟨connection', hside, rfl⟩ := Option.map_eq_some_iff.1 hrest
          exact .handle hworker hconnection hside hstep
        · cases hkernel
      · rename_i haccept hhandle
        cases hkernel
        exact .process haccept hhandle hstep
  | query request => cases h; exact .query
  | client k succeeds =>
      obtain ⟨query, hquery, hrest⟩ := Option.bind_eq_some_iff.1 h
      obtain ⟨⟨connections, query'⟩, hnext, rfl⟩ :=
        Option.map_eq_some_iff.1 hrest
      exact .client hquery (moves_of_queryNext hnext)
  | strangerConnects => cases h; exact .strangerConnects
  | strangerSends conn packet =>
      obtain ⟨connection, connection', hconnection, howner, hact, rfl⟩ :=
        strangerActs_eq_some h
      rw [Option.ite_none_right_eq_some] at hact
      obtain ⟨-, hsame⟩ := hact
      cases hsame
      exact .strangerSends hconnection howner
  | strangerCloses conn =>
      obtain ⟨connection, connection', hconnection, howner, hact, rfl⟩ :=
        strangerActs_eq_some h
      cases hact
      exact .strangerCloses hconnection howner

variable {config : SoundConfig} {guard : Service n → Action n → Prop}

/-- The server among its clients takes steps of its own only. -/
theorem processProjection
    {guard' : Process n → Shutdown.Action n → Prop}
    (hguard : ∀ s a, guard s (.process a) → guard' s.process a) :
    Projection (machine cJsonParse n config)
      (Shutdown.machine cJsonParse n config) guard guard'
      Service.process where
  init _ h := h.1
  step s a t ha h := by
    cases step_cases h with
    | accept hpending hstep => exact .inr ⟨_, hguard _ _ ha, hstep⟩
    | handle hworker hconnection hside hstep =>
        exact .inr ⟨_, hguard _ _ ha, hstep⟩
    | process haccept hhandle hstep => exact .inr ⟨_, hguard _ _ ha, hstep⟩
    | query | client hquery hmoves | strangerConnects
    | strangerSends hconnection howner | strangerCloses hconnection howner =>
        exact .inl rfl

theorem process_reachable
    (h : (machine cJsonParse n config).ReachableIf guard s) :
    (Shutdown.machine cJsonParse n config).Reachable s.process :=
  (processProjection fun _ _ _ => trivial).reachable h

end Machine

/-! ## What the server does to a connection -/

/-- A step of a handler, seen from its connection: it takes packets, and what it
adds is what it records as sent. -/
structure Transmits (connection connection' : Connection)
    (events : List Event) : Prop where
  owner : connection'.owner = connection.owner
  spoken : connection'.spoken = connection.spoken
  clientOpen : connection'.clientOpen = connection.clientOpen
  packets : connection'.toServer ⊆ connection.toServer
  received : ∀ packet, .received (some packet) ∈ events →
    packet ∈ connection.toServer ∨ packet = []
  keeps : connection.toClient ⊆ connection'.toClient
  responses : ∀ response ∈ connection'.toClient,
    response ∈ connection.toClient ∨ .sent response ∈ events
  sent : ∀ response, .sent response ∈ events → response ∈ connection'.toClient
  closes : connection'.serverOpen = false →
    connection.serverOpen = false ∨ .closed ∈ events

/-- A step that receives nothing and sends nothing. -/
theorem transmits_idle {connection : Connection} (events : List Event)
    (hreceived : ∀ packet, .received (some packet) ∉ events)
    (hsent : ∀ response, .sent response ∉ events) :
    Transmits connection connection events where
  owner := rfl
  spoken := rfl
  clientOpen := rfl
  packets := List.Subset.refl _
  received packet hmem := absurd hmem (hreceived packet)
  keeps := List.Subset.refl _
  responses _ := .inl
  sent response hmem := absurd hmem (hsent response)
  closes := .inl

theorem serverRecv_eq_some {packet : Option Bytes}
    {connection connection' : Connection}
    (h : serverRecv packet connection = some connection') :
    (packet = none ∧ connection' = connection) ∨
      (∃ first rest, packet = some first ∧
        connection.toServer = first :: rest ∧
        connection' = { connection with toServer := rest }) ∨
      (packet = some [] ∧ connection.toServer = [] ∧
        connection.clientOpen = false ∧ connection' = connection) := by
  unfold serverRecv at h
  cases packet with
  | none => exact .inl ⟨rfl, (Option.some.inj h).symm⟩
  | some bytes =>
      cases hqueue : connection.toServer with
      | cons first rest =>
          rw [hqueue] at h
          dsimp only at h
          rw [Option.ite_none_right_eq_some] at h
          obtain ⟨rfl, hsame⟩ := h
          exact .inr (.inl ⟨bytes, rest, rfl, rfl,
            (Option.some.inj hsame).symm⟩)
      | nil =>
          rw [hqueue] at h
          dsimp only at h
          rw [Option.ite_none_right_eq_some] at h
          obtain ⟨⟨rfl, hclosed⟩, hsame⟩ := h
          exact .inr (.inr ⟨rfl, rfl, hclosed, (Option.some.inj hsame).symm⟩)

/-- Receiving adds nothing to a connection. -/
theorem transmits_recv {packet : Option Bytes}
    {connection connection' : Connection}
    (h : serverRecv packet connection = some connection') :
    Transmits connection connection' [.received packet] := by
  rcases serverRecv_eq_some h with ⟨rfl, rfl⟩ | ⟨first, rest, rfl, hqueue, rfl⟩ |
    ⟨rfl, -, -, rfl⟩
  · exact transmits_idle _ (by simp) (by simp)
  · refine
      { owner := rfl, spoken := rfl, clientOpen := rfl, packets := ?_
        received := ?_, keeps := List.Subset.refl _, responses := fun _ => .inl
        sent := by simp, closes := .inl }
    · rw [hqueue]
      exact List.subset_cons_self _ _
    · intro packet hmem
      have hsame : packet = first := by simpa using hmem
      rw [hqueue]
      exact .inl (hsame ▸ List.mem_cons_self)
  · refine { transmits_idle [] (by simp) (by simp) with
      received := fun packet hmem => .inr (by simpa using hmem)
      responses := fun _ => .inl, sent := by simp, closes := .inl }

/-- Sending adds the response. -/
theorem transmits_send {delivered : Bool} {response : BkkUdsResponse}
    {connection connection' : Connection}
    (h : serverSend delivered response connection = some connection') :
    Transmits connection connection'
      (if delivered then [.sent response] else []) := by
  unfold serverSend at h
  cases delivered with
  | false =>
      cases h
      exact transmits_idle _ (by simp) (by simp)
  | true =>
      rw [if_pos rfl, Option.ite_none_right_eq_some] at h
      obtain ⟨-, hsame⟩ := h
      cases hsame
      refine
        { owner := rfl, spoken := rfl, clientOpen := rfl
          packets := List.Subset.refl _, received := by simp
          keeps := List.subset_append_left _ _, responses := ?_, sent := ?_
          closes := .inl }
      · intro other hmem
        rcases List.mem_append.1 hmem with hold | hnew
        · exact .inl hold
        · rw [List.mem_singleton.1 hnew]
          exact .inr List.mem_cons_self
      · intro other hmem
        have hsame : other = response := by simpa using hmem
        exact List.mem_append_right _ (hsame ▸ List.mem_cons_self)

theorem transmits_of_handles {fetches fetches' : Fetches} {env : Environment}
    {pc pc' : Pc} {events : List Event} {connection connection' : Connection}
    (h : Handles fetches env pc pc' fetches' events)
    (hside : serverSide env pc connection = some connection') :
    Transmits connection connection' events := by
  cases h with
  | accept hreq | reject hreq => exact transmits_recv hside
  | reply => exact transmits_send hside
  | fresh hget | stale hget | miss hget | refresh | call
  | returned hcall hpc | failed hcall hpc =>
      cases hside
      exact transmits_idle _ (by simp) (by simp)
  | close =>
      cases hside
      exact { transmits_idle [.closed] (by simp) (by simp) with
        closes := fun _ => .inr List.mem_cons_self }

/-! ## Calls and their connections -/

/-- What call `k` has to do with its connection, and what the server has recorded
about it: the server has received nothing but the request, or the end of the
connection, and what the call gets was sent to it. -/
structure Link (k : Nat) (query : Query) (connection : Connection)
    (events : List Event) : Prop where
  owner : connection.owner = some k
  packets : ∀ packet ∈ connection.toServer, packet = query.request.toBytes
  received : ∀ packet, .received (some packet) ∈ events →
    packet = query.request.toBytes ∨ packet = []
  responses : ∀ response ∈ connection.toClient, .sent response ∈ events
  response : ∀ response, query.pc.response? = some response →
    .sent response ∈ events

/-- Every call that has a connection is linked to it. -/
structure Linked (s : Service n) : Prop where
  accepted_le : s.process.server.accepted ≤ s.connections.length
  consistent : ∀ (k : Nat) (query : Query), s.queries[k]? = some query →
    query.Consistent
  link : ∀ (k : Nat) (query : Query) (conn : Conn), s.queries[k]? = some query →
    query.conn = some conn →
    ∃ connection, s.connections[conn]? = some connection ∧
      Link k query connection (s.process.server.journal conn)

/-- The server's step keeps the link. -/
theorem Link.transmits {k : Nat} {query : Query}
    {connection connection' : Connection} {before after : List Event}
    (h : Link k query connection before)
    (htransmits : Transmits connection connection' after) :
    Link k query connection' (before ++ after) where
  owner := htransmits.owner.trans h.owner
  packets packet hmem := h.packets packet (htransmits.packets hmem)
  received packet hmem := by
    rcases List.mem_append.1 hmem with hold | hnew
    · exact h.received packet hold
    · exact (htransmits.received packet hnew).imp_left (h.packets packet)
  responses response hmem := by
    rcases htransmits.responses response hmem with hold | hnew
    · exact List.mem_append_left _ (h.responses response hold)
    · exact List.mem_append_right _ hnew
  response response hresponse :=
    List.mem_append_left _ (h.response response hresponse)

/-- So does the call's. -/
theorem Link.uses {k : Nat} {query query' : Query}
    {connection connection' : Connection} {events : List Event}
    (h : Link k query connection events)
    (hrequest : query'.request = query.request)
    (huses : Uses query query' connection connection') :
    Link k query' connection' events where
  owner := huses.owner.trans h.owner
  packets packet hmem := by
    rw [hrequest]
    exact (huses.packets packet hmem).elim (h.packets packet) id
  received packet hmem := by
    rw [hrequest]
    exact h.received packet hmem
  responses response hmem := h.responses response (huses.responses hmem)
  response response hresponse :=
    (huses.response response hresponse).elim (h.responses response)
      (h.response response)

/-- A connection that has just been opened. -/
theorem Link.opened {k : Nat} {query : Query}
    (hresponse : query.pc.response? = none) :
    Link k query (Connection.opened (some k)) [] where
  owner := rfl
  packets packet hmem := by cases hmem
  received packet hmem := by cases hmem
  responses response hmem := by cases hmem
  response response hsome := by
    rw [hresponse] at hsome
    cases hsome

section Safety

variable {cJsonParse : Bytes → Option CJson} {config : SoundConfig}
  {s t : Service n}

/-- A step that records nothing and changes at most one connection, which is no
call's, keeps every link. -/
theorem Linked.of_connections {process : Process n}
    {connections : List Connection} (h : Linked s)
    (haccepted : process.server.accepted ≤ connections.length)
    (hjournal : process.server.journal = s.process.server.journal)
    (hkept : ∀ (conn : Nat) connection k, s.connections[conn]? = some connection →
      connection.owner = some k → connections[conn]? = some connection) :
    Linked { s with process := process, connections := connections } where
  accepted_le := haccepted
  consistent := h.consistent
  link k query conn hquery hconn := by
    obtain ⟨connection, hconnection, hlink⟩ := h.link k query conn hquery hconn
    refine ⟨connection, hkept conn connection k hconnection hlink.owner, ?_⟩
    dsimp only
    rw [hjournal]
    exact hlink

/-- A stranger's connection is no call's. -/
theorem set_stranger {connections : List Connection} {conn : Conn}
    {connection : Connection} (hconnection : connections[conn]? = some connection)
    (howner : connection.owner = none) (connection' : Connection)
    (conn' : Nat) (other : Connection) (k : Nat)
    (hother : connections[conn']? = some other) (hk : other.owner = some k) :
    (connections.set conn connection')[conn']? = some other := by
  have hne : conn ≠ conn' := by
    rintro rfl
    rw [hconnection] at hother
    cases hother
    rw [howner] at hk
    cases hk
  rw [List.getElem?_set_ne hne]
  exact hother

theorem Linked.handle {i : Fin n} {env : Environment} {handler : Handler}
    {connection connection' : Connection} {process : Process n}
    (h : Linked s) (hworker : s.process.server.pool.workers i = .handling handler)
    (hconnection : s.connections[handler.conn]? = some connection)
    (hside : serverSide env handler.pc connection = some connection')
    (hstep : Shutdown.step cJsonParse s.process (.server (.handle i env)) =
      some process) :
    Linked { s with
      process := process
      connections := s.connections.set handler.conn connection' } := by
  obtain ⟨pc, fetches, events, hhandles, rfl⟩ := handle_cases hworker hstep
  refine { accepted_le := ?_, consistent := h.consistent, link := ?_ }
  · rw [List.length_set]
    exact h.accepted_le
  · intro k query conn hquery hconn
    obtain ⟨old, hold, hlink⟩ := h.link k query conn hquery hconn
    by_cases hsame : conn = handler.conn
    · subst hsame
      rw [hconnection] at hold
      cases hold
      refine ⟨connection', ?_, ?_⟩
      · exact List.getElem?_set_self (List.getElem?_eq_some_iff.1 hconnection).1
      · show Link k query connection' (record _ _ _ handler.conn)
        rw [record, Function.update_self]
        exact hlink.transmits (transmits_of_handles hhandles hside)
    · refine ⟨old, ?_, ?_⟩
      · dsimp only
        rw [List.getElem?_set_ne (Ne.symm hsame)]
        exact hold
      · show Link k query old (record _ _ _ conn)
        rw [record, Function.update_of_ne hsame]
        exact hlink

theorem Linked.client {k : Nat} {query query' : Query}
    {connections : List Connection} (h : Linked s)
    (hnew : ∀ conn, s.connections.length ≤ conn →
      s.process.server.journal conn = [])
    (hquery : s.queries[k]? = some query)
    (hconsistent : query'.Consistent)
    (hrequest : query'.request = query.request)
    (haffects : Affects s.connections k query query' connections) :
    Linked { s with
      connections := connections
      queries := s.queries.set k query' } := by
  have hlt := (List.getElem?_eq_some_iff.1 hquery).1
  -- the other calls have connections of their own
  have hothers : ∀ {j : Nat} {other : Query}, j ≠ k →
      (s.queries.set k query')[j]? = some other → s.queries[j]? = some other := by
    intro j other hne hother
    rwa [List.getElem?_set_ne (Ne.symm hne)] at hother
  have hself : ∀ {other : Query}, (s.queries.set k query')[k]? = some other →
      other = query' := by
    intro other hother
    rw [List.getElem?_set_self hlt] at hother
    exact (Option.some.inj hother).symm
  have hall : ∀ (j : Nat) (other : Query), (s.queries.set k query')[j]? = some other →
      other.Consistent := by
    intro j other hother
    by_cases hj : j = k
    · subst hj
      exact hself hother ▸ hconsistent
    · exact h.consistent j other (hothers hj hother)
  cases haffects with
  | alone hconn hresponse =>
      refine { accepted_le := h.accepted_le, consistent := hall, link := ?_ }
      intro j other conn hother hsome
      by_cases hj : j = k
      · subst hj
        cases hself hother
        rw [hconn] at hsome
        obtain ⟨connection, hconnection, hlink⟩ := h.link j query conn hquery hsome
        refine ⟨connection, hconnection, { hlink with packets := ?_, received := ?_, response := ?_ }⟩
        · rw [hrequest]
          exact hlink.packets
        · rw [hrequest]
          exact hlink.received
        · intro response hsome
          rw [hresponse] at hsome
          cases hsome
      · exact h.link j other conn (hothers hj hother) hsome
  | opens hconn hresponse =>
      refine { accepted_le := ?_, consistent := hall, link := ?_ }
      · rw [List.length_append]
        exact Nat.le_add_right_of_le h.accepted_le
      · intro j other conn hother hsome
        by_cases hj : j = k
        · subst hj
          cases hself hother
          rw [hconn] at hsome
          cases hsome
          refine ⟨_, List.getElem?_concat_length, ?_⟩
          dsimp only
          rw [hnew _ (Nat.le_refl _)]
          exact .opened hresponse
        · obtain ⟨connection, hconnection, hlink⟩ :=
            h.link j other conn (hothers hj hother) hsome
          have hin := (List.getElem?_eq_some_iff.1 hconnection).1
          refine ⟨connection, ?_, hlink⟩
          dsimp only
          rw [List.getElem?_append_left hin]
          exact hconnection
  | @uses conn connection connection' hbefore hconn hconnection huses =>
      have hin := (List.getElem?_eq_some_iff.1 hconnection).1
      obtain ⟨same, hsame, hlink⟩ := h.link k query conn hquery hbefore
      rw [hconnection] at hsame
      cases hsame
      refine { accepted_le := ?_, consistent := hall, link := ?_ }
      · rw [List.length_set]
        exact h.accepted_le
      · intro j other conn' hother hsome
        by_cases hj : j = k
        · subst hj
          cases hself hother
          rw [hconn] at hsome
          cases hsome
          exact ⟨connection', List.getElem?_set_self hin,
            hlink.uses hrequest huses⟩
        · obtain ⟨connection₂, hconnection₂, hlink₂⟩ :=
            h.link j other conn' (hothers hj hother) hsome
          have hne : conn ≠ conn' := by
            rintro rfl
            rw [hconnection] at hconnection₂
            cases hconnection₂
            exact hj (Option.some.inj (hlink₂.owner.symm.trans hlink.owner))
          refine ⟨connection₂, ?_, hlink₂⟩
          dsimp only
          rw [List.getElem?_set_ne hne]
          exact hconnection₂

theorem Linked.step {a : Action n} (h : Linked s)
    (hreach : (machine cJsonParse n config).Reachable s)
    (hstep : Exchange.step cJsonParse s a = some t) : Linked t := by
  have hprocess := process_reachable hreach
  cases step_cases hstep with
  | accept hpending hserver =>
      refine h.of_connections ?_ (journal_eq (by simp) hserver)
        fun _ _ _ hsome _ => hsome
      rw [accepted_accept hserver]
      exact hpending
  | handle hworker hconnection hside hserver =>
      exact h.handle hworker hconnection hside hserver
  | process haccept hhandle hserver =>
      refine h.of_connections ?_ (journal_eq hhandle hserver)
        fun _ _ _ hsome _ => hsome
      rw [accepted_eq haccept hserver]
      exact h.accepted_le
  | @query request =>
      have hnew : ∀ {k : Nat} {query : Query},
          (s.queries ++ [Query.enter request])[k]? = some query →
          s.queries[k]? = some query ∨ query = Query.enter request := by
        intro k query hquery
        rw [List.getElem?_append] at hquery
        split at hquery
        · exact .inl hquery
        · exact .inr (List.mem_singleton.1 (List.mem_of_getElem? hquery))
      refine { accepted_le := h.accepted_le, consistent := ?_, link := ?_ }
      · intro k query hquery
        rcases hnew hquery with hold | rfl
        · exact h.consistent k query hold
        · exact .enter request
      · intro k query conn hquery hconn
        rcases hnew hquery with hold | rfl
        · exact h.link k query conn hold hconn
        · cases hconn
  | client hquery hmoves =>
      refine h.client ?_ hquery (hmoves.consistent (h.consistent _ _ hquery))
        hmoves.request_eq hmoves.affects
      intro conn hconn
      exact journal_of_accepted_le hprocess (Nat.le_trans h.accepted_le hconn)
  | strangerConnects =>
      refine h.of_connections ?_ rfl fun conn connection k hsome _ => ?_
      · rw [List.length_append]
        exact Nat.le_add_right_of_le h.accepted_le
      · rw [List.getElem?_append_left (List.getElem?_eq_some_iff.1 hsome).1]
        exact hsome
  | strangerSends hconnection howner | strangerCloses hconnection howner =>
      refine h.of_connections ?_ rfl fun conn connection k hsome hk =>
        set_stranger hconnection howner _ conn connection k hsome hk
      rw [List.length_set]
      exact h.accepted_le

theorem linked_of_reachable (h : (machine cJsonParse n config).Reachable s) :
    Linked s := by
  apply Machine.ReachableIf.invariant ?_ ?_ h
  · rintro s ⟨⟨⟨-, -, haccepted, -⟩, -⟩, -, hqueries⟩
    refine { accepted_le := ?_, consistent := ?_, link := ?_ }
    · rw [haccepted]
      exact Nat.zero_le _
    · intro k query hquery
      simp [hqueries] at hquery
    · intro k query conn hquery
      simp [hqueries] at hquery
  · intro s a t hreach _ hs hstep
    exact hs.step hreach hstep

/-- The server reads back the very request that the call has sent. -/
theorem request_of_packet {packet : Option Bytes} {request : RequestInMemory}
    {sent : BkkUdsRequest}
    (hreq : acceptRequest packet request.beyond = some request)
    (hpacket : ∀ bytes, packet = some bytes →
      bytes = sent.toBytes ∨ bytes = []) :
    request = ⟨sent, request.beyond⟩ := by
  cases packet with
  | none => cases hreq
  | some bytes =>
      obtain ⟨hlen, hrequest⟩ := acceptRequest_eq_some_iff.1 hreq
      rcases hpacket bytes rfl with rfl | rfl
      · have hwhole : sent.toBytes.take sizeofRequest = sent.toBytes :=
          List.take_of_length_le (Nat.le_of_eq sent.length_toBytes)
        rw [hwhole, BkkUdsRequest.ofBytes_toBytes] at hrequest
        exact hrequest
      · exact absurd hlen (by decide)

/-- Where the response of a call comes from: a connection that no other call
has, on which the server has sent it, and, if it says `Ok`, one successful fetch
for the request. -/
structure Answers (cJsonParse : Bytes → Option CJson) (config : SoundConfig)
    (s : Service n) (k : Nat) (query : Query) (response : BkkUdsResponse)
    (conn : Conn) : Prop where
  own : query.conn = some conn
  nobody_else : ∀ (j : Nat) (other : Query), s.queries[j]? = some other →
    other.conn = some conn → j = k
  sent : .sent response ∈ s.process.server.journal conn
  shape : WellShaped response
  source : response.status = .ok → ∃ beyond arrivals j call,
    Source cJsonParse config s.process.server.fetches ⟨query.request, beyond⟩
        (s.process.server.journal conn) arrivals j call ∧
      Carries response arrivals

/-- What a call has received was built for its request. -/
theorem answers_of_response (h : (machine cJsonParse n config).Reachable s)
    {k : Nat} {query : Query} {response : BkkUdsResponse}
    (hquery : s.queries[k]? = some query)
    (hresponse : query.pc.response? = some response) :
    ∃ conn, Answers cJsonParse config s k query response conn := by
  have hlinked := linked_of_reachable h
  obtain ⟨conn, hconn⟩ :=
    (hlinked.consistent k query hquery).exists_conn hresponse
  obtain ⟨connection, hconnection, hlink⟩ :=
    hlinked.link k query conn hquery hconn
  have hsent := hlink.response response hresponse
  have hserver := Shutdown.server_reachable (process_reachable h)
  have hfetches := fetches_reachable hserver
  obtain ⟨pc, hfits⟩ := fits_of_reachable hserver conn
  obtain ⟨packet, request, before, apiStatus, arrivals, hreq, hreply, hfront,
    rfl⟩ := reply_of_sent hfits hsent
  have hsame := request_of_packet hreq fun bytes hbytes =>
    hlink.received bytes (hfront.subset (hbytes ▸ List.mem_cons_self))
  have hbefore : before ⊆ s.process.server.journal conn := fun e he =>
    hfront.subset (List.mem_cons_of_mem _ he)
  refine ⟨conn,
    { own := hconn
      nobody_else := ?_
      sent := hsent
      shape := wellShaped_buildResponse (result_of_reply hfetches hreply)
      source := ?_ }⟩
  · intro j other hother hconn'
    obtain ⟨connection', hconnection', hlink'⟩ :=
      hlinked.link j other conn hother hconn'
    rw [hconnection] at hconnection'
    cases hconnection'
    exact Option.some.inj (hlink'.owner.symm.trans hlink.owner)
  · intro hok
    rcases source_of_reply hfetches hreply with
      ⟨⟨j, call, hsource⟩, rfl⟩ | hfailed
    · obtain ⟨timeinfo, curl, hfetched⟩ := hsource.succeeded
      rw [hsame] at hsource
      exact ⟨request.beyond, arrivals, j, call, hsource.mono hbefore,
        carries_buildResponse (Api.servable_of_ok hfetched) .ok⟩
    · exact absurd hok hfailed.1

/-- **What a client gets.**  In every reachable state of the server with its
clients, among strangers who send what they like, a call that has returned
`client_OK` has a response, and one that has returned anything else has none;
and the response was built by the server for the request of this call, and sent
on the connection that is this call's alone. -/
theorem client_ok_sound (h : (machine cJsonParse n config).Reachable s)
    {k : Nat} {query : Query} {status : ClientStatus}
    {response? : Option BkkUdsResponse} (hquery : s.queries[k]? = some query)
    (hpc : query.pc = .returned status response?) :
    (status = .ok ↔ response?.isSome = true) ∧
      ∀ response, response? = some response →
        ∃ conn, Answers cJsonParse config s k query response conn := by
  refine ⟨?_, ?_⟩
  · have hok := ((linked_of_reachable h).consistent k query hquery).ok_iff
    rw [hpc] at hok
    simpa [QueryPc.status?, QueryPc.response?] using hok
  · rintro response rfl
    exact answers_of_response h hquery (by rw [hpc]; rfl)

end Safety

/-- The server with one worker, and nobody yet. -/
def sampleService : Service 1 where
  process := { server := sampleServer, main := .waiting }
  connections := []
  queries := []

/-- A request for the stop `F` with the key `k`. -/
def sampleRequest : BkkUdsRequest where
  stopId := (Vector.replicate bkkUdsMaxStopIdLen 0).setIfInBounds 0 70
  apiKey := (Vector.replicate bkkUdsMaxKeyLen 0).setIfInBounds 0 107

/-- A call with it, from `socket` to the request on its way. -/
def sampleAsk : List (Action 1) :=
  .query sampleRequest :: List.replicate 3 (.client 0 true)

/-- What a call has got by its return, if its answer says `Ok`. -/
def okResponse? : QueryPc → Option BkkUdsResponse
  | .returned .ok (some response) =>
      if response.status = .ok then some response else none
  | _ => none

/-- A call that is answered. -/
theorem answered_sample :
    ∃ (s : Service 1) (query : Query) (response : BkkUdsResponse),
      (machine Fetching.sampleParse 1 Fetching.sampleConfig).Reachable s ∧
        s.queries[0]? = some query ∧
        query.pc = .returned .ok (some response) ∧ response.status = .ok := by
  let serverSteps : List (Serving.Action 1) :=
    sampleDequeue ++ sampleFetch ++
      List.replicate 2 (.handle 0 sampleEnvironment)
  obtain ⟨s, hreach, hs⟩ := Machine.exists_reachable_of_run
    (M := machine Fetching.sampleParse 1 Fetching.sampleConfig)
    (s := sampleService) ⟨⟨⟨rfl, ⟨rfl, rfl⟩, rfl, rfl⟩, rfl⟩, rfl, rfl⟩
    (l := sampleAsk ++ serverSteps.map (fun a => .process (.server a)) ++
      List.replicate 2 (Action.client 0 true))
    (p := fun s => (s.queries[0]?).any fun query =>
      (okResponse? query.pc).isSome)
    (by decide +kernel)
  obtain ⟨query, hquery, hsome⟩ := (Option.any_eq_true _ _).1 hs
  obtain ⟨response, hresponse⟩ := Option.isSome_iff_exists.1 hsome
  unfold okResponse? at hresponse
  split at hresponse
  · rename_i response' hpc
    rw [Option.ite_none_right_eq_some] at hresponse
    obtain ⟨hok, hsame⟩ := hresponse
    cases hsame
    exact ⟨s, query, response, hreach, hquery, hpc, hok⟩
  · cases hresponse

theorem client_ok_sound_sample :
    ∃ (s : Service 1) (query : Query) (response : BkkUdsResponse) (conn : Conn),
      (machine Fetching.sampleParse 1 Fetching.sampleConfig).Reachable s ∧
        s.queries[0]? = some query ∧ response.status = .ok ∧
        Answers Fetching.sampleParse Fetching.sampleConfig s 0 query response
          conn := by
  obtain ⟨s, query, response, hreach, hquery, hpc, hok⟩ := answered_sample
  obtain ⟨conn, hanswers⟩ :=
    (client_ok_sound hreach hquery hpc).2 response rfl
  exact ⟨s, query, response, conn, hreach, hquery, hok, hanswers⟩

end BkkApi.System.Exchange
