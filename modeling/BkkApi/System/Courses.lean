import BkkApi.System.Exchange

/-!
# Runs without failures

When no system call fails on the way of a call of `send_bkk_uds_query`, the
server closes its connection only after a response, and the response stays there
until the call has received it.  `Course` ties the call to its connection and to
what is recorded about it, `Kept` is the server's part, and `Tended` collects
both for every connection.  Strangers may do, and fail at, what they like.
-/

namespace BkkApi.System.Courses

open BkkApi.Verified.CData
open BkkApi.Verified.Run
open BkkApi.Server
open BkkApi.Server.Protocol
open BkkApi.Server.ResponseParser
open BkkApi.Server.Cache
open BkkApi.Server.Fetching (Fetches Call)
open BkkApi.Server.HandleClient
open BkkApi.Server.Workers (ThreadPool Worker)
open BkkApi.Server.Transcript
open BkkApi.Server.Serving
open BkkApi.Server.Shutdown (Process MainPc mainNext server_reachable journal_eq
  journal_of_accepted_le handle_cases)
open BkkApi.Client.UdsClient
open BkkApi.System.Exchange

variable {n : Nat}

/-! ## Runs without failures -/

/-- No system call of a handler fails on the connection: `recv` gives what there
is, and `send` succeeds unless the client has closed. -/
def Reliable (connection : Connection) (env : Environment) : Prop :=
  env.packet.isSome = true ∧ env.delivered = connection.clientOpen

/-- No system call fails: none of a call's, none of a handler's on the
connections in question, and not `epoll_wait`. -/
def Faultless (covers : Connection → Bool) (s : Service n) :
    Exchange.Action n → Prop
  | .client _ succeeds => succeeds = true
  | .process .epollFails => False
  | .process (.server (.handle i env)) =>
      ∀ handler connection, s.process.server.pool.workers i = .handling handler →
        s.connections[handler.conn]? = some connection →
        covers connection = true → Reliable connection env
  | _ => True

/-- The connection is one of a call. -/
def ofQuery (connection : Connection) : Bool := connection.owner.isSome

/-- Nothing fails for the calls; strangers may have all kinds of failures. -/
def Undisturbed (s : Service n) (a : Exchange.Action n) : Prop :=
  Faultless ofQuery s a

/-! ## A connection of a call -/

/-- How far a call, its connection and what is recorded about it have come. -/
structure Course (query : Query) (connection : Connection)
    (events : List Event) : Prop where
  hangsUp : connection.clientOpen = false → query.pc.status?.isSome = true
  connected : query.pc = .connected → events = [] ∧ connection.toServer = []
  waiting : query.pc = .waiting → events = [] → connection.toServer ≠ []
  unread : query.pc = .waiting → ∀ response, .sent response ∈ events →
    response ∈ connection.toClient
  ended : query.pc.status?.isSome = true → ∃ response, .sent response ∈ events

/-- What the server keeps to on a connection: it closes for good, and a call's
only after a response. -/
structure Kept (connection : Connection) (events : List Event) : Prop where
  asks : connection.spoken = true → events = [] → connection.toServer ≠ []
  closes : connection.serverOpen = false → .closed ∈ events
  answers : ofQuery connection = true → .closed ∈ events →
    ∃ response, .sent response ∈ events

section Handlers

variable {config : SoundConfig} {fetches fetches' : Fetches} {env : Environment}
  {pc pc' : Pc} {before after : List Event} {k : Nat} {query : Query}
  {connection connection' : Connection}

theorem fits_ne_nil (h : Fits config fetches pc before)
    (hpc : pc ≠ .receiving) : before ≠ [] := by
  cases h <;> simp_all

/-- After a step of its handler a connection has something recorded. -/
theorem started_of_handles (hfits : Fits config fetches pc before)
    (h : Handles fetches env pc pc' fetches' after) : before ++ after ≠ [] := by
  by_cases hpc : pc = .receiving
  · subst hpc
    cases h <;> simp
  · exact List.append_ne_nil_of_left_ne_nil (fits_ne_nil hfits hpc) _

theorem closing_of_closed (h : Handles fetches env pc pc' fetches' after)
    (hmem : .closed ∈ after) : pc = .closing := by
  cases h with
  | reply => split at hmem <;> simp at hmem
  | close => rfl
  | accept hreq | reject hreq | fresh hget | stale hget | miss hget | refresh
  | call | returned hcall hpc | failed hcall hpc => simp at hmem

/-- On the connection of a call no handler comes to its end without having
sent a response. -/
theorem sent_of_handles (h : Handles fetches env pc .closing fetches' after)
    (hside : serverSide env pc connection = some connection')
    (hreliable : Reliable connection env) (hlink : Link k query connection before)
    (hcourse : Course query connection before) :
    ∃ response, .sent response ∈ before ++ after := by
  have hgone : connection.clientOpen = false →
      ∃ response, .sent response ∈ before ++ after := by
    intro hclosed
    obtain ⟨response, hsent⟩ := hcourse.ended (hcourse.hangsUp hclosed)
    exact ⟨response, List.mem_append_left _ hsent⟩
  cases h with
  | reject hreq =>
      rcases serverRecv_eq_some hside with ⟨hnone, -⟩ |
        ⟨first, rest, hpacket, hqueue, -⟩ | ⟨-, -, hclosed, -⟩
      · have hsome := hreliable.1
        rw [hnone] at hsome
        cases hsome
      · -- the request of a call is long enough
        have hfirst := hlink.packets first (hqueue ▸ List.mem_cons_self)
        have hlen := Nat.le_of_eq query.request.length_toBytes.symm
        rw [hpacket, hfirst, acceptRequest_eq_some_iff.2 ⟨hlen, rfl⟩] at hreq
        cases hreq
      · exact hgone hclosed
  | @reply apiStatus arrivals =>
      cases hopen : connection.clientOpen with
      | false => exact hgone hopen
      | true =>
          rw [hreliable.2, hopen, if_pos rfl]
          exact ⟨_, List.mem_append_right _ List.mem_cons_self⟩

theorem Kept.handles (h : Kept connection before)
    (hfits : Fits config fetches pc before)
    (hhandles : Handles fetches env pc pc' fetches' after)
    (htransmits : Transmits connection connection' after)
    (hclosing : ofQuery connection = true → pc = .closing →
      ∃ response, .sent response ∈ before) :
    Kept connection' (before ++ after) where
  asks _ hnil := absurd hnil (started_of_handles hfits hhandles)
  closes hclosed := by
    rcases htransmits.closes hclosed with hold | hnew
    · exact List.mem_append_left _ (h.closes hold)
    · exact List.mem_append_right _ hnew
  answers howner hclosed := by
    have howner' : ofQuery connection = true := by
      rw [← howner, ofQuery, ofQuery, htransmits.owner]
    have hsent : ∃ response, .sent response ∈ before := by
      rcases List.mem_append.1 hclosed with hold | hnew
      · exact h.answers howner' hold
      · exact hclosing howner' (closing_of_closed hhandles hnew)
    obtain ⟨response, hmem⟩ := hsent
    exact ⟨response, List.mem_append_left _ hmem⟩

theorem Course.handles (h : Course query connection before)
    (hfits : Fits config fetches pc before)
    (hhandles : Handles fetches env pc pc' fetches' after)
    (hside : serverSide env pc connection = some connection')
    (hreliable : Reliable connection env) :
    Course query connection' (before ++ after) := by
  have htransmits := transmits_of_handles hhandles hside
  refine { hangsUp := ?_, connected := ?_, waiting := ?_, unread := ?_, ended := ?_ }
  · rw [htransmits.clientOpen]
    exact h.hangsUp
  · -- before its `send` there is nothing for the handler to receive
    intro hpc
    obtain ⟨hnil, hqueue⟩ := h.connected hpc
    exfalso
    have hreceiving : pc = .receiving := by
      by_contra hne
      exact fits_ne_nil hfits hne hnil
    subst hreceiving
    rcases serverRecv_eq_some hside with ⟨hnone, -⟩ |
      ⟨first, rest, -, hcons, -⟩ | ⟨-, -, hclosed, -⟩
    · have hsome := hreliable.1
      rw [hnone] at hsome
      cases hsome
    · rw [hqueue] at hcons
      cases hcons
    · have hended := h.hangsUp hclosed
      rw [hpc] at hended
      cases hended
  · intro _ hnil
    exact absurd hnil (started_of_handles hfits hhandles)
  · intro hpc response hsent
    rcases List.mem_append.1 hsent with hold | hnew
    · exact htransmits.keeps (h.unread hpc response hold)
    · exact htransmits.sent response hnew
  · intro hended
    obtain ⟨response, hsent⟩ := h.ended hended
    exact ⟨response, List.mem_append_left _ hsent⟩

end Handlers

/-! ## Every state without failures -/

/-- What the runs without failures keep. -/
structure Tended (s : Service n) : Prop where
  main : s.process.main = .waiting ∨ s.process.main = .submitting
  kept : ∀ (conn : Nat) (connection : Connection),
    s.connections[conn]? = some connection →
    Kept connection (s.process.server.journal conn)
  closing : ∀ (i : Fin n) (handler : Handler) (connection : Connection),
    s.process.server.pool.workers i = .handling handler →
    s.connections[handler.conn]? = some connection →
    ofQuery connection = true → handler.pc = .closing →
    ∃ response, .sent response ∈ s.process.server.journal handler.conn
  course : ∀ (conn : Nat) (connection : Connection) (k : Nat),
    s.connections[conn]? = some connection → connection.owner = some k →
    ∃ query, s.queries[k]? = some query ∧ query.conn = some conn ∧
      Course query connection (s.process.server.journal conn)
  status : ∀ (k : Nat) (query : Query) (status : ClientStatus),
    s.queries[k]? = some query → query.pc.status? = some status → status = .ok

section Preservation

variable {cJsonParse : Bytes → Option CJson} {config : SoundConfig}
  {s t : Service n} {p q : Process n}

/-- A step other than a handler's puts no worker before a `close`. -/
theorem handling_before {a : Shutdown.Action n}
    (hhandle : ∀ i env, a ≠ .server (.handle i env))
    (h : Shutdown.step cJsonParse p a = some q) {i : Fin n} {handler : Handler}
    (hi : q.server.pool.workers i = .handling handler) :
    p.server.pool.workers i = .handling handler ∨ handler.pc = .receiving := by
  rcases Shutdown.step_cases h with ⟨b, rfl, -, hb⟩ | ⟨-, -, rfl⟩ |
    ⟨-, -, rfl⟩ | ⟨-, -, rfl⟩ | ⟨-, -, rfl⟩
  · obtain ⟨server, main⟩ := q
    dsimp only at hb hi
    cases Serving.step_cases hb with
    | handle hworker hhandles => exact absurd rfl (hhandle _ _)
    | accept hen | fetch hown hfetch => exact .inl hi
    | pool hown hen =>
        rcases handling_of_next hown hen hi with hold | ⟨conn, -, rfl⟩
        · exact .inl hold
        · exact .inr rfl
  all_goals exact .inl hi

/-- A step of the server that is not a handler's. -/
theorem Tended.process {a : Shutdown.Action n} {process : Process n}
    (h : Tended s) (hfails : a ≠ .epollFails)
    (hhandle : ∀ i env, a ≠ .server (.handle i env))
    (hstep : Shutdown.step cJsonParse s.process a = some process) :
    Tended { s with process := process } := by
  have hjournal := journal_eq hhandle hstep
  refine
    { main := Shutdown.main_stays hfails hstep h.main, kept := ?_
      closing := ?_, course := ?_, status := h.status }
  · dsimp only
    rw [hjournal]
    exact h.kept
  · intro i handler connection hi hconnection howner hpc
    dsimp only
    rw [hjournal]
    rcases handling_before hhandle hstep hi with hold | hreceiving
    · exact h.closing i handler connection hold hconnection howner hpc
    · rw [hpc] at hreceiving
      cases hreceiving
  · dsimp only
    rw [hjournal]
    exact h.course

/-- A list before and after a change of one place. -/
theorem getElem?_set_cases {α : Type} {l : List α} {i j : Nat} {new old x : α}
    (hold : l[i]? = some old) (h : (l.set i new)[j]? = some x) :
    (j = i ∧ x = new) ∨ (j ≠ i ∧ l[j]? = some x) := by
  by_cases hsame : j = i
  · subst hsame
    rw [List.getElem?_set_self (List.getElem?_eq_some_iff.1 hold).1] at h
    exact .inl ⟨rfl, (Option.some.inj h).symm⟩
  · rw [List.getElem?_set_ne (Ne.symm hsame)] at h
    exact .inr ⟨hsame, h⟩

theorem Tended.handle {i : Fin n} {env : Environment} {handler : Handler}
    {connection connection' : Connection} {process : Process n} (h : Tended s)
    (hreach : (Exchange.machine cJsonParse n config).Reachable s)
    (hworker : s.process.server.pool.workers i = .handling handler)
    (hconnection : s.connections[handler.conn]? = some connection)
    (hside : serverSide env handler.pc connection = some connection')
    (hreliable : ofQuery connection = true → Reliable connection env)
    (hstep : Shutdown.step cJsonParse s.process (.server (.handle i env)) =
      some process) :
    Tended { s with
      process := process
      connections := s.connections.set handler.conn connection' } := by
  have hserver := server_reachable (process_reachable hreach)
  have howned := owned_of_handling hserver (numbered_of_reachable hserver) hworker
  have hfits := (recorded_of_reachable hserver).handled i handler hworker
  have hlinked := linked_of_reachable hreach
  obtain ⟨pc, fetches, events, hhandles, rfl⟩ := handle_cases hworker hstep
  have htransmits := transmits_of_handles hhandles hside
  -- only this connection has something new recorded
  have hself : record s.process.server.journal handler.conn events handler.conn =
      s.process.server.journal handler.conn ++ events :=
    Function.update_self _ _ _
  have hother : ∀ conn, conn ≠ handler.conn →
      record s.process.server.journal handler.conn events conn =
        s.process.server.journal conn :=
    fun conn hne => Function.update_of_ne hne _ _
  refine { main := h.main, kept := ?_, closing := ?_, course := ?_, status := h.status }
  · intro conn other hconn
    dsimp only
    rcases getElem?_set_cases hconnection hconn with ⟨rfl, rfl⟩ | ⟨hne, hold⟩
    · rw [hself]
      exact (h.kept _ connection hconnection).handles hfits hhandles htransmits
        fun howner hpc => h.closing i handler connection hworker hconnection
          howner hpc
    · rw [hother conn hne]
      exact h.kept conn other hold
  · intro j other connection₂ hj hconn howner hpc
    dsimp only at hj ⊢
    by_cases hji : j = i
    · subst hji
      simp only [ThreadPool.setWorker, Function.update_self] at hj
      cases hj
      dsimp only at hpc hconn ⊢
      subst hpc
      rcases getElem?_set_cases hconnection hconn with ⟨-, rfl⟩ | ⟨hne, -⟩
      · have howner' : ofQuery connection = true := by
          rw [← howner, ofQuery, ofQuery, htransmits.owner]
        obtain ⟨k, hk⟩ := Option.isSome_iff_exists.1 howner'
        obtain ⟨query, hquery, hqconn, hcourse⟩ :=
          h.course _ connection k hconnection hk
        obtain ⟨same, hsame, hlink⟩ := hlinked.link k query _ hquery hqconn
        rw [hconnection] at hsame
        cases hsame
        rw [hself]
        exact sent_of_handles hhandles hside (hreliable howner') hlink hcourse
      · exact absurd rfl hne
    · simp only [ThreadPool.setWorker, Function.update_of_ne hji] at hj
      have hne : other.conn ≠ handler.conn := fun heq =>
        hji (howned.unique j other hj heq)
      rcases getElem?_set_cases hconnection hconn with ⟨hsame, -⟩ | ⟨-, hold⟩
      · exact absurd hsame hne
      · rw [hother other.conn hne]
        exact h.closing j other connection₂ hj hold howner hpc
  · intro conn other k hconn hk
    dsimp only
    rcases getElem?_set_cases hconnection hconn with ⟨rfl, rfl⟩ | ⟨hne, hold⟩
    · have hk' : connection.owner = some k := htransmits.owner.symm.trans hk
      obtain ⟨query, hquery, hqconn, hcourse⟩ :=
        h.course _ connection k hconnection hk'
      have howner : ofQuery connection = true := by
        rw [ofQuery, hk']
        rfl
      refine ⟨query, hquery, hqconn, ?_⟩
      rw [hself]
      exact hcourse.handles hfits hhandles hside (hreliable howner)
    · rw [hother conn hne]
      exact h.course conn other k hold hk

/-- A stranger's step, on a connection of a stranger or a new one. -/
theorem Tended.stranger {connections : List Connection} (h : Tended s)
    (hkept : ∀ (conn : Nat) (connection : Connection),
      connections[conn]? = some connection → connection.owner = none →
      Kept connection (s.process.server.journal conn))
    (hsame : ∀ (conn : Nat) (connection : Connection),
      connections[conn]? = some connection → connection.owner ≠ none →
      s.connections[conn]? = some connection) :
    Tended { s with connections := connections } := by
  have hold : ∀ {conn : Nat} {connection : Connection},
      connections[conn]? = some connection → ofQuery connection = true →
      s.connections[conn]? = some connection := by
    intro conn connection hconnection howner
    refine hsame conn connection hconnection fun hnone => ?_
    rw [ofQuery, hnone] at howner
    cases howner
  refine { main := h.main, kept := ?_, closing := ?_, course := ?_, status := h.status }
  · intro conn connection hconnection
    cases howner : connection.owner with
    | none => exact hkept conn connection hconnection howner
    | some k =>
        exact h.kept conn connection
          (hsame conn connection hconnection (by simp [howner]))
  · intro i handler connection hi hconnection howner hpc
    exact h.closing i handler connection hi (hold hconnection howner) howner hpc
  · intro conn connection k hconnection hk
    exact h.course conn connection k
      (hsame conn connection hconnection (by simp [hk])) hk

/-- A step of call `k` on its own connection. -/
theorem Tended.uses {conn k : Nat} {query query' : Query}
    {connection connection' : Connection} (h : Tended s) (hlinked : Linked s)
    (hquery : s.queries[k]? = some query)
    (hconnection : s.connections[conn]? = some connection)
    (hbefore : query.conn = some conn) (hconn : query'.conn = some conn)
    (howner : connection'.owner = connection.owner)
    (hkept : Kept connection' (s.process.server.journal conn))
    (hcourse : Course query' connection' (s.process.server.journal conn))
    (hstatus : ∀ status, query'.pc.status? = some status → status = .ok) :
    Tended { s with
      connections := s.connections.set conn connection'
      queries := s.queries.set k query' } := by
  have hlt := (List.getElem?_eq_some_iff.1 hquery).1
  obtain ⟨same, hsame, hlink⟩ := hlinked.link k query conn hquery hbefore
  rw [hconnection] at hsame
  cases hsame
  refine { main := h.main, kept := ?_, closing := ?_, course := ?_, status := ?_ }
  · intro conn' other hother
    rcases getElem?_set_cases hconnection hother with ⟨rfl, rfl⟩ | ⟨-, hold⟩
    · exact hkept
    · exact h.kept conn' other hold
  · intro i handler other hi hother hof hpc
    rcases getElem?_set_cases hconnection hother with ⟨hsame, rfl⟩ | ⟨-, hold⟩
    · have hof' : ofQuery connection = true := by
        rw [← hof, ofQuery, ofQuery, howner]
      exact h.closing i handler connection hi (hsame ▸ hconnection) hof' hpc
    · exact h.closing i handler other hi hold hof hpc
  · intro conn' other j hother hj
    rcases getElem?_set_cases hconnection hother with ⟨rfl, rfl⟩ | ⟨hne, hold⟩
    · have hjk : j = k := by
        rw [howner, hlink.owner] at hj
        exact (Option.some.inj hj).symm
      subst hjk
      exact ⟨query', List.getElem?_set_self hlt, hconn, hcourse⟩
    · obtain ⟨query₂, hquery₂, hconn₂, hcourse₂⟩ := h.course conn' other j hold hj
      have hjk : k ≠ j := by
        rintro rfl
        rw [hquery] at hquery₂
        cases hquery₂
        rw [hbefore] at hconn₂
        exact hne (Option.some.inj hconn₂).symm
      refine ⟨query₂, ?_, hconn₂, hcourse₂⟩
      dsimp only
      rw [List.getElem?_set_ne hjk]
      exact hquery₂
  · intro j other status hother hsome
    rcases getElem?_set_cases hquery hother with ⟨-, rfl⟩ | ⟨-, hold⟩
    · exact hstatus status hsome
    · exact h.status j other status hold hsome

/-- A step of call `k` before it has a connection, which may give it one. -/
theorem Tended.opens {k : Nat} {query query' : Query}
    {connections : List Connection} (h : Tended s)
    (hquery : s.queries[k]? = some query) (hconn : query.conn = none)
    (hkeeps : ∀ (conn : Nat) connection, connections[conn]? = some connection →
      s.connections[conn]? = some connection ∨
        connection = Connection.opened (some k) ∧ query'.conn = some conn ∧
          s.process.server.journal conn = [])
    (hstarted : ∀ i handler, s.process.server.pool.workers i = .handling handler →
      handler.pc = .closing → s.process.server.journal handler.conn ≠ [])
    (hpc : query'.pc.status? = none) (hwaits : query'.pc ≠ .waiting) :
    Tended { s with
      connections := connections
      queries := s.queries.set k query' } := by
  have hlt := (List.getElem?_eq_some_iff.1 hquery).1
  have hnew : ∀ {conn : Nat}, s.process.server.journal conn = [] →
      Kept (Connection.opened (some k)) (s.process.server.journal conn) := by
    intro conn hnil
    rw [hnil]
    exact
      { asks := fun hspoken => by cases hspoken
        closes := fun hclosed => by cases hclosed
        answers := fun _ hmem => by cases hmem }
  refine { main := h.main, kept := ?_, closing := ?_, course := ?_, status := ?_ }
  · intro conn connection hconnection
    rcases hkeeps conn connection hconnection with hold | ⟨rfl, -, hnil⟩
    · exact h.kept conn connection hold
    · exact hnew hnil
  · intro i handler connection hi hconnection howner hclosing
    rcases hkeeps _ connection hconnection with hold | ⟨rfl, -, hnil⟩
    · exact h.closing i handler connection hi hold howner hclosing
    · exact absurd hnil (hstarted i handler hi hclosing)
  · intro conn connection j hconnection hj
    rcases hkeeps conn connection hconnection with hold | ⟨rfl, hconn', hnil⟩
    · obtain ⟨query₂, hquery₂, hconn₂, hcourse₂⟩ := h.course conn connection j hold hj
      have hjk : k ≠ j := by
        rintro rfl
        rw [hquery] at hquery₂
        cases hquery₂
        rw [hconn] at hconn₂
        cases hconn₂
      refine ⟨query₂, ?_, hconn₂, hcourse₂⟩
      dsimp only
      rw [List.getElem?_set_ne hjk]
      exact hquery₂
    · cases hj
      refine ⟨query', List.getElem?_set_self hlt, hconn', ?_⟩
      rw [hnil]
      exact
        { hangsUp := fun hclosed => by cases hclosed
          connected := fun _ => ⟨rfl, rfl⟩
          waiting := fun hwaiting => absurd hwaiting hwaits
          unread := fun hwaiting => absurd hwaiting hwaits
          ended := fun hended => by rw [hpc] at hended; cases hended }
  · intro j other status hother hsome
    rcases getElem?_set_cases hquery hother with ⟨-, rfl⟩ | ⟨-, hold⟩
    · rw [hpc] at hsome
      cases hsome
    · exact h.status j other status hold hsome

/-- A step of a call whose system call succeeds. -/
theorem Tended.client {k : Nat} {succeeds : Bool} {query query' : Query}
    {connections : List Connection} (h : Tended s)
    (hreach : (Exchange.machine cJsonParse n config).Reachable s)
    (hsucceeds : succeeds = true) (hquery : s.queries[k]? = some query)
    (hmoves : QueryMoves s.connections k query succeeds connections query') :
    Tended { s with
      connections := connections
      queries := s.queries.set k query' } := by
  have hlinked := linked_of_reachable hreach
  have hunopened := (hlinked.consistent k query hquery).unopened
  have hprocess := process_reachable hreach
  have hstarted : ∀ i handler,
      s.process.server.pool.workers i = .handling handler →
      handler.pc = .closing → s.process.server.journal handler.conn ≠ [] := by
    intro i handler hi hclosing
    have hfits := (recorded_of_reachable (server_reachable hprocess)).handled i
      handler hi
    exact fits_ne_nil hfits (by simp [hclosing])
  -- the connection of the call, and how far it has come
  have hown : ∀ {conn : Nat} {connection : Connection}, query.conn = some conn →
      s.connections[conn]? = some connection →
      Link k query connection (s.process.server.journal conn) ∧
        Course query connection (s.process.server.journal conn) := by
    intro conn connection hconn hconnection
    obtain ⟨same, hsame, hlink⟩ := hlinked.link k query conn hquery hconn
    rw [hconnection] at hsame
    cases hsame
    obtain ⟨query₂, hquery₂, -, hcourse⟩ :=
      h.course conn connection k hconnection hlink.owner
    rw [hquery] at hquery₂
    cases hquery₂
    exact ⟨hlink, hcourse⟩
  cases hmoves with
  | socket hpc =>
      exact h.opens hquery (hunopened (.inl hpc)) (fun _ _ => .inl) hstarted rfl
        (by simp)
  | connect hpc =>
      refine h.opens hquery (hunopened (.inr hpc)) ?_ hstarted rfl (by simp)
      intro conn connection hconnection
      rw [List.getElem?_append] at hconnection
      split at hconnection
      · exact .inl hconnection
      · rename_i hnot
        have hlt := (List.getElem?_eq_some_iff.1 hconnection).1
        have hlast : conn = s.connections.length := by
          rw [List.length_singleton] at hlt
          omega
        have hsame := List.mem_singleton.1 (List.mem_of_getElem? hconnection)
        subst hlast
        exact .inr ⟨hsame, rfl,
          journal_of_accepted_le hprocess hlinked.accepted_le⟩
  | @send conn connection hpc hconn hconnection hopen =>
      obtain ⟨-, hcourse⟩ := hown hconn hconnection
      obtain ⟨hnil, -⟩ := hcourse.connected hpc
      have hkept := h.kept conn connection hconnection
      have hasked : (connection.clientSends query.request.toBytes).toServer ≠ [] :=
        List.append_ne_nil_of_right_ne_nil _ (List.cons_ne_nil _ _)
      refine h.uses hlinked hquery hconnection hconn hconn rfl
        ⟨fun _ _ => hasked, hkept.closes, hkept.answers⟩
        { hangsUp := ?_, connected := ?_, waiting := ?_, unread := ?_, ended := ?_ }
        ?_
      · intro hclosed
        have hended := hcourse.hangsUp hclosed
        rw [hpc] at hended
        cases hended
      · intro hconnected
        cases hconnected
      · intro _ _
        exact hasked
      · intro _ response hsent
        rw [hnil] at hsent
        cases hsent
      · intro hended
        cases hended
      · intro status hstatus
        cases hstatus
  | @receive conn connection response rest hpc hconn hconnection hpacket =>
      obtain ⟨hlink, hcourse⟩ := hown hconn hconnection
      have hkept := h.kept conn connection hconnection
      have hsent : .sent response ∈ s.process.server.journal conn :=
        hlink.responses response (hpacket ▸ List.mem_cons_self)
      refine h.uses hlinked hquery hconnection hconn hconn rfl
        ⟨hkept.asks, hkept.closes, hkept.answers⟩
        { hangsUp := fun _ => rfl, connected := ?_, waiting := ?_, unread := ?_
          ended := fun _ => ⟨response, hsent⟩ } ?_
      · intro hconnected
        cases hconnected
      · intro hwaiting
        cases hwaiting
      · intro hwaiting
        cases hwaiting
      · intro status hstatus
        cases hstatus
        rfl
  | @hungUp conn connection hpc hconn hconnection hnothing hclosed =>
      -- the server does not close before it has sent a response
      obtain ⟨hlink, hcourse⟩ := hown hconn hconnection
      have hkept := h.kept conn connection hconnection
      have hof : ofQuery connection = true := by
        rw [ofQuery, hlink.owner]
        rfl
      obtain ⟨response, hsent⟩ := hkept.answers hof (hkept.closes hclosed)
      have hunread := hcourse.unread hpc response hsent
      rw [hnothing] at hunread
      cases hunread
  | @close conn connection status response succeeds hpc hconn hconnection =>
      obtain ⟨-, hcourse⟩ := hown hconn hconnection
      have hkept := h.kept conn connection hconnection
      have hbefore : query.pc.status? = some status := by
        rw [hpc]
        rfl
      refine h.uses hlinked hquery hconnection hconn hconn rfl
        ⟨hkept.asks, hkept.closes, hkept.answers⟩
        { hangsUp := fun _ => rfl, connected := ?_, waiting := ?_, unread := ?_
          ended := fun _ => hcourse.ended (by rw [hbefore]; rfl) } ?_
      · intro hconnected
        cases hconnected
      · intro hwaiting
        cases hwaiting
      · intro hwaiting
        cases hwaiting
      · intro status' hstatus
        cases hstatus
        exact h.status k query status hquery hbefore
  | socketFails | connectFails | sendFails | receiveFails => cases hsucceeds

/-- A call is made. -/
theorem Tended.query (h : Tended s) (request : BkkUdsRequest) :
    Tended { s with queries := s.queries ++ [Query.enter request] } where
  main := h.main
  kept := h.kept
  closing := h.closing
  course conn connection k hconnection hk := by
    obtain ⟨query, hquery, hrest⟩ := h.course conn connection k hconnection hk
    refine ⟨query, ?_, hrest⟩
    dsimp only
    rw [List.getElem?_append_left (List.getElem?_eq_some_iff.1 hquery).1]
    exact hquery
  status k query status hquery hstatus := by
    dsimp only at hquery
    rw [List.getElem?_append] at hquery
    split at hquery
    · exact h.status k query status hquery hstatus
    · rw [List.mem_singleton.1 (List.mem_of_getElem? hquery)] at hstatus
      cases hstatus

theorem Tended.step {a : Exchange.Action n} (h : Tended s)
    (hreach : (Exchange.machine cJsonParse n config).Reachable s)
    (hundisturbed : Undisturbed s a)
    (hstep : Exchange.step cJsonParse s a = some t) : Tended t := by
  cases Exchange.step_cases hstep with
  | accept hpending hserver =>
      exact h.process (by simp) (by simp) hserver
  | handle hworker hconnection hside hserver =>
      exact h.handle hreach hworker hconnection hside
        (hundisturbed _ _ hworker hconnection) hserver
  | process haccept hhandle hserver =>
      refine h.process ?_ hhandle hserver
      rintro rfl
      exact hundisturbed
  | query => exact h.query _
  | client hquery hmoves => exact h.client hreach hundisturbed hquery hmoves
  | strangerConnects =>
      refine h.stranger ?_ ?_
      · intro conn connection hconnection _
        rw [List.getElem?_append] at hconnection
        split at hconnection
        · exact h.kept conn connection hconnection
        · rw [List.mem_singleton.1 (List.mem_of_getElem? hconnection)]
          exact
            { asks := fun hspoken => by cases hspoken
              closes := fun hclosed => by cases hclosed
              answers := fun hof => by cases hof }
      · intro conn connection hconnection howner
        rw [List.getElem?_append] at hconnection
        split at hconnection
        · exact hconnection
        · rw [List.mem_singleton.1 (List.mem_of_getElem? hconnection)] at howner
          exact absurd rfl howner
  | @strangerSends conn packet connection hconnection howner =>
      refine h.stranger ?_ ?_
      · intro conn' other hother _
        rcases getElem?_set_cases hconnection hother with ⟨rfl, rfl⟩ | ⟨-, hold⟩
        · have hkept := h.kept _ connection hconnection
          exact ⟨fun _ _ => List.append_ne_nil_of_right_ne_nil _
            (List.cons_ne_nil _ _), hkept.closes, hkept.answers⟩
        · exact h.kept conn' other hold
      · intro conn' other hother hof
        rcases getElem?_set_cases hconnection hother with ⟨-, rfl⟩ | ⟨-, hold⟩
        · exact absurd howner hof
        · exact hold
  | @strangerCloses conn connection hconnection howner =>
      refine h.stranger ?_ ?_
      · intro conn' other hother _
        rcases getElem?_set_cases hconnection hother with ⟨rfl, rfl⟩ | ⟨-, hold⟩
        · have hkept := h.kept _ connection hconnection
          exact ⟨hkept.asks, hkept.closes, hkept.answers⟩
        · exact h.kept conn' other hold
      · intro conn' other hother hof
        rcases getElem?_set_cases hconnection hother with ⟨-, rfl⟩ | ⟨-, hold⟩
        · exact absurd howner hof
        · exact hold

theorem tended_of_reachable
    (h : (Exchange.machine cJsonParse n config).ReachableIf Undisturbed s) :
    Tended s := by
  apply Machine.ReachableIf.invariant ?_ ?_ h
  · rintro s ⟨⟨⟨hpool, -⟩, hmain⟩, hconnections, hqueries⟩
    refine { main := .inl hmain, kept := ?_, closing := ?_, course := ?_, status := ?_ }
    · intro conn connection hconnection
      simp [hconnections] at hconnection
    · intro i handler connection hi
      rw [hpool] at hi
      cases hi
    · intro conn connection k hconnection
      simp [hconnections] at hconnection
    · intro k query status hquery
      simp [hqueries] at hquery
  · intro s a t hreach hundisturbed hs hstep
    exact hs.step hreach.reachable hundisturbed hstep

end Preservation

end BkkApi.System.Courses
