import BkkApi.Server.HandleClient
import BkkApi.Server.Workers

/-!
# The running server

The thread pool, with `handle_client` as what its workers do, over the shared
cache and fetches.  Connections are numbered in the order in which they are
accepted, so that a descriptor that the kernel uses again is a new connection
here.  `journal` records, for each connection, what has happened to it.

The two components take steps of their own machines only
(`poolProjection`, `fetchProjection`), so every theorem about a pool or about
concurrent fetches holds of the server.
-/

namespace BkkApi.Server.Serving

open BkkApi.Verified.CData
open BkkApi.Verified.Run
open BkkApi.Server.Protocol
open BkkApi.Server.ResponseParser
open BkkApi.Server.Cache
open BkkApi.Server.Fetching (Fetches Call)
open BkkApi.Server.HandleClient
open BkkApi.Server.Workers (ThreadPool Handling)

/-! ## States -/

/-- An accepted connection, by its number. -/
abbrev Conn := Nat

/-- A call of `handle_client`. -/
structure Handler where
  conn : Conn
  pc : Pc
  deriving DecidableEq

/-- `handle_client` as what a worker does with a connection. -/
def handling : Handling Conn Handler where
  enter conn := { conn := conn, pc := .receiving }
  task := Handler.conn
  finished handler := decide (handler.pc = .closed)
  task_enter _ := rfl

/-- The server with `n` workers. -/
structure UdsServer (n : Nat) where
  pool : ThreadPool n Conn Handler
  fetches : Fetches
  /-- How many connections have been accepted. -/
  accepted : Nat
  journal : Conn → List Event

variable {n : Nat}

/-- A connection's journal goes on. -/
def record (journal : Conn → List Event) (conn : Conn) (events : List Event) :
    Conn → List Event :=
  Function.update journal conn (journal conn ++ events)

/-! ## Steps -/

/-- One atomic step of one thread, or of the clock. -/
inductive Action (n : Nat)
  /-- The main thread accepts a connection and locks the queue to submit it. -/
  | accept
  /-- A step of the pool itself. -/
  | pool (a : Workers.Action n Conn Handler)
  /-- A step of a call of `fresh_fetch_and_update_cache`, or of the clock. -/
  | fetch (a : Fetching.Action)
  /-- A step of the handler that worker `i` runs. -/
  | handle (i : Fin n) (env : Environment)

/-- The pool's steps that are not made for it by `accept` or `handle`. -/
def ownPoolStep : Workers.Action n Conn Handler → Bool
  | .submitLock _ | .handle _ _ => false
  | _ => true

/-- The steps of calls and of the clock; entering a call is a handler's. -/
def ownFetchStep : Fetching.Action → Bool
  | .call _ => false
  | _ => true

section Machine

variable (cJsonParse : Bytes → Option CJson)

/-- One step. -/
def step (s : UdsServer n) : Action n → Option (UdsServer n)
  | .accept =>
      ((Workers.machine handling).step s.pool (.submitLock s.accepted)).map
        fun pool => { s with pool := pool, accepted := s.accepted + 1 }
  | .pool a =>
      if ownPoolStep a then
        ((Workers.machine handling).step s.pool a).map
          fun pool => { s with pool := pool }
      else none
  | .fetch a =>
      if ownFetchStep a then
        (Fetching.step cJsonParse s.fetches a).map
          fun fetches => { s with fetches := fetches }
      else none
  | .handle i env =>
      match s.pool.workers i with
      | .handling handler =>
          (handleNext s.fetches env handler.pc).map
            fun (pc, fetches, events) =>
              { s with
                pool := s.pool.setWorker i (.handling { handler with pc := pc })
                fetches := fetches
                journal := record s.journal handler.conn events }
      | _ => none

/-- The server in all its interleavings. -/
def machine (n : Nat) (config : SoundConfig) :
    Machine (UdsServer n) (Action n) where
  init s := s.pool = ThreadPool.new ∧
    (Fetching.machine cJsonParse config).init s.fetches ∧
    s.accepted = 0 ∧ s.journal = fun _ => []
  step := step cJsonParse

/-- What one step can be. -/
inductive Step (s : UdsServer n) : Action n → UdsServer n → Prop
  | accept (hen : Workers.enabled handling s.pool (.submitLock s.accepted)) :
      Step s .accept
        { s with
          pool := Workers.next handling s.pool (.submitLock s.accepted)
          accepted := s.accepted + 1 }
  | pool {a : Workers.Action n Conn Handler} (hown : ownPoolStep a = true)
      (hen : Workers.enabled handling s.pool a) :
      Step s (.pool a) { s with pool := Workers.next handling s.pool a }
  | fetch {a : Fetching.Action} {fetches : Fetches}
      (hown : ownFetchStep a = true)
      (hstep : Fetching.step cJsonParse s.fetches a = some fetches) :
      Step s (.fetch a) { s with fetches := fetches }
  | handle {i : Fin n} {env : Environment} {handler : Handler} {pc : Pc}
      {fetches : Fetches} {events : List Event}
      (hworker : s.pool.workers i = .handling handler)
      (hhandles : Handles s.fetches env handler.pc pc fetches events) :
      Step s (.handle i env)
        { s with
          pool := s.pool.setWorker i (.handling { handler with pc := pc })
          fetches := fetches
          journal := record s.journal handler.conn events }

variable {cJsonParse} {s t : UdsServer n} {a : Action n}

theorem step_cases (h : step cJsonParse s a = some t) :
    Step cJsonParse s a t := by
  cases a with
  | accept =>
      obtain ⟨pool, hpool, rfl⟩ := Option.map_eq_some_iff.1 h
      obtain ⟨hen, rfl⟩ := Machine.guarded_step_iff.1 hpool
      exact .accept hen
  | pool b =>
      simp only [step] at h
      split at h
      · rename_i hown
        obtain ⟨pool, hpool, rfl⟩ := Option.map_eq_some_iff.1 h
        obtain ⟨hen, rfl⟩ := Machine.guarded_step_iff.1 hpool
        exact .pool hown hen
      · cases h
  | fetch b =>
      simp only [step] at h
      split at h
      · rename_i hown
        obtain ⟨fetches, hfetches, rfl⟩ := Option.map_eq_some_iff.1 h
        exact .fetch hown hfetches
      · cases h
  | handle i env =>
      simp only [step] at h
      split at h
      · rename_i handler hworker
        obtain ⟨⟨pc, fetches, events⟩, hnext, rfl⟩ :=
          Option.map_eq_some_iff.1 h
        exact .handle hworker (handles_of_handleNext hnext)
      · cases h

/-! ## Components -/

/-- A step of the server, seen by the pool. -/
theorem pool_step (h : step cJsonParse s a = some t) :
    t.pool = s.pool ∨ ∃ b, (a = .pool b ∨ ownPoolStep b = false) ∧
      (Workers.machine handling).step s.pool b = some t.pool := by
  cases step_cases h with
  | accept hen =>
      exact .inr ⟨_, .inr rfl, Machine.guarded_step_iff.2 ⟨hen, rfl⟩⟩
  | pool hown hen =>
      exact .inr ⟨_, .inl rfl, Machine.guarded_step_iff.2 ⟨hen, rfl⟩⟩
  | fetch hown hstep => exact .inl rfl
  | @handle i env handler pc fetches events hworker hhandles =>
      refine .inr ⟨.handle i { handler with pc := pc }, .inr rfl,
        Machine.guarded_step_iff.2 ⟨?_, rfl⟩⟩
      show (s.pool.workers i).held handling = _
      rw [hworker]
      rfl

/-- A step of the server, seen by the fetches. -/
theorem fetch_step (h : step cJsonParse s a = some t) :
    t.fetches = s.fetches ∨ ∃ b, Fetching.step cJsonParse s.fetches b =
      some t.fetches := by
  cases step_cases h with
  | accept hen => exact .inl rfl
  | pool hown hen => exact .inl rfl
  | fetch hown hstep => exact .inr ⟨_, hstep⟩
  | handle hworker hhandles =>
      rcases hhandles.fetches_cases with hsame | ⟨request, hcall⟩
      · exact .inl hsame
      · exact .inr ⟨.call request, congrArg some hcall.symm⟩

variable {config : SoundConfig} {guard : UdsServer n → Action n → Prop}

/-- The pool, under a restriction of its own steps. -/
theorem poolProjection
    {guard' : ThreadPool n Conn Handler → Workers.Action n Conn Handler → Prop}
    (hpool : ∀ s b, guard s (.pool b) → guard' s.pool b)
    (hother : ∀ p b, ownPoolStep b = false → guard' p b) :
    Projection (machine cJsonParse n config) (Workers.machine handling)
      guard guard' UdsServer.pool where
  init _ h := h.1
  step s a t hguard h := by
    rcases pool_step h with hsame | ⟨b, rfl | hother', hb⟩
    · exact .inl hsame
    · exact .inr ⟨b, hpool s b hguard, hb⟩
    · exact .inr ⟨b, hother _ b hother', hb⟩

/-- The shared cache and the calls. -/
theorem fetchProjection :
    Projection (machine cJsonParse n config)
      (Fetching.machine cJsonParse config) guard (fun _ _ => True)
      UdsServer.fetches where
  init _ h := h.2.1
  step s a t _ h := by
    rcases fetch_step h with hsame | ⟨b, hb⟩
    · exact .inl hsame
    · exact .inr ⟨b, trivial, hb⟩

theorem pool_reachable {s : UdsServer n}
    (h : (machine cJsonParse n config).ReachableIf guard s) :
    (Workers.machine handling).Reachable s.pool :=
  (poolProjection (fun _ _ _ => trivial) fun _ _ _ => trivial).reachable h

theorem fetches_reachable {s : UdsServer n}
    (h : (machine cJsonParse n config).ReachableIf guard s) :
    (Fetching.machine cJsonParse config).Reachable s.fetches :=
  fetchProjection.reachable h

end Machine

/-! ## A sample conversation -/

/-- A request packet for the stop `F` with the key `k`. -/
def samplePacket : Bytes :=
  70 :: List.replicate 63 0 ++ 107 :: List.replicate 255 0

/-- A client that sends it and takes the response. -/
def sampleEnvironment : Environment where
  packet := some samplePacket
  beyond := []
  delivered := true

/-- The beginning, with one worker. -/
def sampleServer : UdsServer 1 where
  pool := ThreadPool.new
  fetches := Fetching.sampleStart
  accepted := 0
  journal := fun _ => []

/-- The main thread submits connection 0, and the worker takes it. -/
def sampleDequeue : List (Action 1) :=
  [.accept, .pool (.submitPush 0), .pool .submitUnlock,
    .pool (.notifyOne none), .pool (.lock 0), .pool (.test 0),
    .pool (.dequeue 0 0)]

/-- Its request misses, and its own call fetches one departure and stores it. -/
def sampleFetch : List (Action 1) :=
  List.replicate 3 (.handle 0 sampleEnvironment) ++
    List.replicate 5 (.fetch (.advance 0 Fetching.sampleUpstream))

/-- It is answered, and the clock goes on to where the entry has been stale for
five seconds. -/
def sampleStale : List (Action 1) :=
  sampleDequeue ++ sampleFetch ++
    List.replicate 3 (.handle 0 sampleEnvironment) ++
    [.pool (.finish 0), .fetch (.tick ⟨15 * 10 ^ 9, by decide⟩)]

/-- The worker takes a further connection for the stop, and answers it from the
cache. -/
def sampleHit (conn : Conn) : List (Action 1) :=
  [.accept, .pool (.submitPush conn), .pool .submitUnlock,
    .pool (.notifyOne none), .pool (.lock 0), .pool (.test 0),
    .pool (.dequeue 0 conn)] ++
    List.replicate 5 (.handle 0 sampleEnvironment) ++ [.pool (.finish 0)]

/-- A conversation that ends with an answer. -/
theorem sample_answered :
    ∃ (s : UdsServer 1) (response : BkkUdsResponse),
      (machine Fetching.sampleParse 1 Fetching.sampleConfig).Reachable s ∧
        .sent response ∈ s.journal 0 ∧ response.status = .ok := by
  obtain ⟨s, hreach, hs⟩ := Machine.exists_reachable_of_run
    (M := machine Fetching.sampleParse 1 Fetching.sampleConfig)
    (s := sampleServer) ⟨rfl, ⟨rfl, rfl⟩, rfl, rfl⟩
    (l := sampleDequeue ++ sampleFetch ++
      List.replicate 2 (.handle 0 sampleEnvironment))
    (p := fun s => (s.journal 0).any fun
      | .sent response => decide (response.status = .ok)
      | _ => false)
    (by decide +kernel)
  obtain ⟨event, hmem, hevent⟩ := List.any_eq_true.1 hs
  cases event with
  | sent response => exact ⟨s, response, hreach, hmem, of_decide_eq_true hevent⟩
  | received packet | lookedUp stopId now state entry | refreshed k | called k
  | closed => cases hevent

end BkkApi.Server.Serving
