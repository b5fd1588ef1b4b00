import BkkApi.Server.Protocol

/-!
# The client's side of a query

`send_bkk_uds_query` as the steps of one call, on the connections that the kernel
keeps: opening a socket, connecting, sending the request, receiving the response,
closing.  Each system call can fail.  A connection carries packets whole and in
order, and is closed by either side; what has been sent before a close is
received all the same.

`QueryMoves` lists the steps.  `call` is a valid pair of pointers; with a null
pointer the function returns `client_InvalidArguments` without touching anything.
-/

namespace BkkApi.Client.UdsClient

open BkkApi.Verified.CData
open BkkApi.Server.Protocol

/-- `bkk_client_status_t`. -/
inductive ClientStatus
  | ok
  | invalidArguments
  | socketError
  | connectionFailed
  | sendFailed
  | receiveFailed
  deriving DecidableEq, Repr

/-! ## Connections -/

/-- A `SOCK_SEQPACKET` connection: the call of `send_bkk_uds_query` that has
opened it, if it was one, the packets on their way, whether its client has ever
sent one, and which sides are open. -/
structure Connection where
  owner : Option Nat
  toServer : List Bytes
  toClient : List BkkUdsResponse
  spoken : Bool
  clientOpen : Bool
  serverOpen : Bool
  deriving DecidableEq

/-- After `connect`. -/
def Connection.opened (owner : Option Nat) : Connection where
  owner := owner
  toServer := []
  toClient := []
  spoken := false
  clientOpen := true
  serverOpen := true

/-- The client sends a packet. -/
def Connection.clientSends (connection : Connection) (packet : Bytes) :
    Connection :=
  { connection with
    toServer := connection.toServer ++ [packet]
    spoken := true }

/-! ## The call -/

/-- Where a call of `send_bkk_uds_query` is. -/
inductive QueryPc
  /-- Before `socket`. -/
  | called
  /-- Before `connect`. -/
  | socketOpened
  /-- Before `send`. -/
  | connected
  /-- In `recv`. -/
  | waiting
  /-- Before `close`, with what is going to be returned. -/
  | closing (status : ClientStatus) (response : Option BkkUdsResponse)
  | returned (status : ClientStatus) (response : Option BkkUdsResponse)
  deriving DecidableEq

/-- A call of `send_bkk_uds_query`, with the connection that it has opened. -/
structure Query where
  request : BkkUdsRequest
  conn : Option Nat
  pc : QueryPc
  deriving DecidableEq

/-- A call that has just been entered. -/
def Query.enter (request : BkkUdsRequest) : Query where
  request := request
  conn := none
  pc := .called

/-- The response that a call has received. -/
def QueryPc.response? : QueryPc → Option BkkUdsResponse
  | .closing _ response | .returned _ response => response
  | _ => none

/-- The status that a call is going to return or has returned. -/
def QueryPc.status? : QueryPc → Option ClientStatus
  | .closing status _ | .returned status _ => some status
  | _ => none

/-- `send` of the request. -/
def clientSend (request : BkkUdsRequest) (succeeds : Bool)
    (connection : Connection) : Option (Connection × QueryPc) :=
  if succeeds then
    if connection.serverOpen then
      some (connection.clientSends request.toBytes, .waiting)
    else none
  else some (connection, .closing .sendFailed none)

/-- `recv` of the response: it waits for a packet, or for the server to close. -/
def clientRecv (succeeds : Bool) (connection : Connection) :
    Option (Connection × QueryPc) :=
  if succeeds then
    match connection.toClient with
    | response :: rest =>
        some ({ connection with toClient := rest },
          .closing .ok (some response))
    | [] =>
        if connection.serverOpen then none
        else some (connection, .closing .receiveFailed none)
  else some (connection, .closing .receiveFailed none)

/-- A system call on the connection of a query. -/
def onConnection (connections : List Connection) (query : Query)
    (act : Connection → Option (Connection × QueryPc)) :
    Option (List Connection × Query) :=
  query.conn.bind fun conn =>
    (connections[conn]?).bind fun connection =>
      (act connection).map fun (connection', pc) =>
        (connections.set conn connection', { query with pc := pc })

/-- One step of call `k`; `none` when it has to wait, or has returned. -/
def queryNext (connections : List Connection) (k : Nat) (query : Query)
    (succeeds : Bool) : Option (List Connection × Query) :=
  match query.pc with
  | .called =>
      some (connections, { query with
        pc := if succeeds then .socketOpened
          else .returned .socketError none })
  | .socketOpened =>
      if succeeds then
        some (connections ++ [Connection.opened (some k)],
          { query with conn := some connections.length, pc := .connected })
      else
        some (connections,
          { query with pc := .returned .connectionFailed none })
  | .connected =>
      onConnection connections query (clientSend query.request succeeds)
  | .waiting => onConnection connections query (clientRecv succeeds)
  | .closing status response =>
      onConnection connections query fun connection =>
        some ({ connection with clientOpen := false },
          .returned status response)
  | .returned _ _ => none

/-- What one step of call `k` can be. -/
inductive QueryMoves (connections : List Connection) (k : Nat) (query : Query) :
    Bool → List Connection → Query → Prop
  | socket (hpc : query.pc = .called) :
      QueryMoves connections k query true connections
        { query with pc := .socketOpened }
  | socketFails (hpc : query.pc = .called) :
      QueryMoves connections k query false connections
        { query with pc := .returned .socketError none }
  | connect (hpc : query.pc = .socketOpened) :
      QueryMoves connections k query true
        (connections ++ [Connection.opened (some k)])
        { query with conn := some connections.length, pc := .connected }
  | connectFails (hpc : query.pc = .socketOpened) :
      QueryMoves connections k query false connections
        { query with pc := .returned .connectionFailed none }
  | send {conn : Nat} {connection : Connection} (hpc : query.pc = .connected)
      (hconn : query.conn = some conn)
      (hconnection : connections[conn]? = some connection)
      (hopen : connection.serverOpen = true) :
      QueryMoves connections k query true
        (connections.set conn
          (connection.clientSends query.request.toBytes))
        { query with pc := .waiting }
  | sendFails {conn : Nat} {connection : Connection}
      (hpc : query.pc = .connected) (hconn : query.conn = some conn)
      (hconnection : connections[conn]? = some connection) :
      QueryMoves connections k query false (connections.set conn connection)
        { query with pc := .closing .sendFailed none }
  | receive {conn : Nat} {connection : Connection} {response : BkkUdsResponse}
      {rest : List BkkUdsResponse} (hpc : query.pc = .waiting)
      (hconn : query.conn = some conn)
      (hconnection : connections[conn]? = some connection)
      (hpacket : connection.toClient = response :: rest) :
      QueryMoves connections k query true
        (connections.set conn { connection with toClient := rest })
        { query with pc := .closing .ok (some response) }
  | hungUp {conn : Nat} {connection : Connection} (hpc : query.pc = .waiting)
      (hconn : query.conn = some conn)
      (hconnection : connections[conn]? = some connection)
      (hnothing : connection.toClient = [])
      (hclosed : connection.serverOpen = false) :
      QueryMoves connections k query true (connections.set conn connection)
        { query with pc := .closing .receiveFailed none }
  | receiveFails {conn : Nat} {connection : Connection}
      (hpc : query.pc = .waiting) (hconn : query.conn = some conn)
      (hconnection : connections[conn]? = some connection) :
      QueryMoves connections k query false (connections.set conn connection)
        { query with pc := .closing .receiveFailed none }
  | close {conn : Nat} {connection : Connection} {status : ClientStatus}
      {response : Option BkkUdsResponse} {succeeds : Bool}
      (hpc : query.pc = .closing status response)
      (hconn : query.conn = some conn)
      (hconnection : connections[conn]? = some connection) :
      QueryMoves connections k query succeeds
        (connections.set conn { connection with clientOpen := false })
        { query with pc := .returned status response }

theorem onConnection_eq_some {connections connections' : List Connection}
    {query query' : Query} {act : Connection → Option (Connection × QueryPc)}
    (h : onConnection connections query act = some (connections', query')) :
    ∃ conn connection connection' pc, query.conn = some conn ∧
      connections[conn]? = some connection ∧
      act connection = some (connection', pc) ∧
      connections' = connections.set conn connection' ∧
      query' = { query with pc := pc } := by
  obtain ⟨conn, hconn, hrest⟩ := Option.bind_eq_some_iff.1 h
  obtain ⟨connection, hconnection, hrest⟩ := Option.bind_eq_some_iff.1 hrest
  obtain ⟨⟨connection', pc⟩, hact, hresult⟩ := Option.map_eq_some_iff.1 hrest
  obtain ⟨rfl, rfl⟩ := Prod.mk.inj hresult
  exact ⟨conn, connection, connection', pc, hconn, hconnection, hact, rfl, rfl⟩

theorem moves_of_queryNext {connections connections' : List Connection}
    {k : Nat} {query query' : Query} {succeeds : Bool}
    (h : queryNext connections k query succeeds =
      some (connections', query')) :
    QueryMoves connections k query succeeds connections' query' := by
  unfold queryNext at h
  cases hpc : query.pc with
  | called =>
      rw [hpc] at h
      cases succeeds with
      | true => cases h; exact .socket hpc
      | false => cases h; exact .socketFails hpc
  | socketOpened =>
      rw [hpc] at h
      cases succeeds with
      | true => cases h; exact .connect hpc
      | false => cases h; exact .connectFails hpc
  | connected =>
      rw [hpc] at h
      obtain ⟨conn, connection, connection', pc, hconn, hconnection, hact, rfl,
        rfl⟩ := onConnection_eq_some h
      unfold clientSend at hact
      cases succeeds with
      | true =>
          by_cases hopen : connection.serverOpen = true
          · rw [if_pos rfl, if_pos hopen] at hact
            cases hact
            exact .send hpc hconn hconnection hopen
          · rw [if_pos rfl, if_neg hopen] at hact
            cases hact
      | false => cases hact; exact .sendFails hpc hconn hconnection
  | waiting =>
      rw [hpc] at h
      obtain ⟨conn, connection, connection', pc, hconn, hconnection, hact, rfl,
        rfl⟩ := onConnection_eq_some h
      unfold clientRecv at hact
      cases succeeds with
      | true =>
          rw [if_pos rfl] at hact
          cases hpacket : connection.toClient with
          | cons response rest =>
              rw [hpacket] at hact
              cases hact
              exact .receive hpc hconn hconnection hpacket
          | nil =>
              rw [hpacket] at hact
              by_cases hopen : connection.serverOpen = true
              · rw [if_pos hopen] at hact
                cases hact
              · rw [if_neg hopen] at hact
                cases hact
                exact .hungUp hpc hconn hconnection hpacket
                  (Bool.not_eq_true _ ▸ hopen)
      | false => cases hact; exact .receiveFails hpc hconn hconnection
  | closing status response =>
      rw [hpc] at h
      obtain ⟨conn, connection, connection', pc, hconn, hconnection, hact, rfl,
        rfl⟩ := onConnection_eq_some h
      cases hact
      exact .close hpc hconn hconnection
  | returned status response =>
      rw [hpc] at h
      cases h

/-! ## What a call does to its connection -/

/-- A step of a call, seen from its connection: the only packet is the request,
and the response comes from the connection. -/
structure Uses (query query' : Query) (connection connection' : Connection) :
    Prop where
  owner : connection'.owner = connection.owner
  packets : ∀ packet ∈ connection'.toServer,
    packet ∈ connection.toServer ∨ packet = query.request.toBytes
  responses : connection'.toClient ⊆ connection.toClient
  response : ∀ response, query'.pc.response? = some response →
    response ∈ connection.toClient ∨ query.pc.response? = some response

/-- A call leaves the connections alone, opens one, or uses its own. -/
inductive Affects (connections : List Connection) (k : Nat)
    (query query' : Query) : List Connection → Prop
  | alone (hconn : query'.conn = query.conn)
      (hresponse : query'.pc.response? = none) :
      Affects connections k query query' connections
  | opens (hconn : query'.conn = some connections.length)
      (hresponse : query'.pc.response? = none) :
      Affects connections k query query'
        (connections ++ [Connection.opened (some k)])
  | uses {conn : Nat} {connection connection' : Connection}
      (hbefore : query.conn = some conn) (hconn : query'.conn = some conn)
      (hconnection : connections[conn]? = some connection)
      (huses : Uses query query' connection connection') :
      Affects connections k query query' (connections.set conn connection')

theorem QueryMoves.affects {connections connections' : List Connection}
    {k : Nat} {query query' : Query} {succeeds : Bool}
    (h : QueryMoves connections k query succeeds connections' query') :
    Affects connections k query query' connections' := by
  cases h with
  | socket hpc | socketFails hpc | connectFails hpc => exact .alone rfl rfl
  | connect hpc => exact .opens rfl rfl
  | send hpc hconn hconnection hopen =>
      refine .uses hconn hconn hconnection ⟨rfl, ?_, List.Subset.refl _, ?_⟩
      · intro packet hmem
        rcases List.mem_append.1 hmem with hold | hnew
        · exact .inl hold
        · exact .inr (List.mem_singleton.1 hnew)
      · intro response hresponse
        cases hresponse
  | sendFails hpc hconn hconnection
  | hungUp hpc hconn hconnection hnothing hclosed
  | receiveFails hpc hconn hconnection =>
      refine .uses hconn hconn hconnection
        ⟨rfl, fun _ => .inl, List.Subset.refl _, ?_⟩
      intro response hresponse
      cases hresponse
  | @receive conn connection response rest hpc hconn hconnection hpacket =>
      refine .uses hconn hconn hconnection ⟨rfl, fun _ => .inl, ?_, ?_⟩
      · rw [hpacket]
        exact List.subset_cons_self _ _
      · intro other hother
        cases hother
        exact .inl (hpacket ▸ List.mem_cons_self)
  | close hpc hconn hconnection =>
      refine .uses hconn hconn hconnection
        ⟨rfl, fun _ => .inl, List.Subset.refl _, ?_⟩
      intro response hresponse
      rw [hpc]
      exact .inr hresponse

theorem QueryMoves.request_eq {connections connections' : List Connection}
    {k : Nat} {query query' : Query} {succeeds : Bool}
    (h : QueryMoves connections k query succeeds connections' query') :
    query'.request = query.request := by
  cases h <;> rfl

/-! ## What a call returns -/

/-- A call returns `client_OK` with a response and everything else without one,
and has a connection from `connect` on. -/
structure Query.Consistent (query : Query) : Prop where
  ok_iff : query.pc.status? = some .ok ↔ query.pc.response?.isSome = true
  unopened : query.pc = .called ∨ query.pc = .socketOpened → query.conn = none
  opened : query.conn = none → query.pc = .called ∨
    query.pc = .socketOpened ∨ ∃ status, query.pc = .returned status none

theorem Query.Consistent.enter (request : BkkUdsRequest) :
    (Query.enter request).Consistent where
  ok_iff := by simp [Query.enter, QueryPc.status?, QueryPc.response?]
  unopened _ := rfl
  opened _ := .inl rfl

/-- A response needs a connection. -/
theorem Query.Consistent.exists_conn {query : Query} (h : query.Consistent)
    {response : BkkUdsResponse} (hresponse : query.pc.response? = some response) :
    ∃ conn, query.conn = some conn := by
  refine Option.ne_none_iff_exists'.1 fun hnone => ?_
  rcases h.opened hnone with hpc | hpc | ⟨status, hpc⟩ <;>
    simp [hpc, QueryPc.response?] at hresponse

theorem QueryMoves.consistent {connections connections' : List Connection}
    {k : Nat} {query query' : Query} {succeeds : Bool}
    (h : QueryMoves connections k query succeeds connections' query')
    (hquery : query.Consistent) : query'.Consistent := by
  have hunopened := hquery.unopened
  cases h with
  | socket hpc =>
      exact ⟨by simp [QueryPc.status?, QueryPc.response?],
        fun _ => hunopened (.inl hpc), fun _ => .inr (.inl rfl)⟩
  | socketFails hpc | connectFails hpc =>
      exact ⟨by simp [QueryPc.status?, QueryPc.response?], by simp,
        fun _ => .inr (.inr ⟨_, rfl⟩)⟩
  | connect hpc =>
      exact ⟨by simp [QueryPc.status?, QueryPc.response?], by simp,
        fun hnone => by cases hnone⟩
  | send hpc hconn hconnection hopen | sendFails hpc hconn hconnection
  | hungUp hpc hconn hconnection hnothing hclosed
  | receiveFails hpc hconn hconnection
  | receive hpc hconn hconnection hpacket =>
      exact ⟨by simp [QueryPc.status?, QueryPc.response?], by simp,
        fun hnone => by simp [hconn] at hnone⟩
  | close hpc hconn hconnection =>
      have hok := hquery.ok_iff
      rw [hpc] at hok
      exact ⟨hok, by simp, fun hnone => by simp [hconn] at hnone⟩

end BkkApi.Client.UdsClient
