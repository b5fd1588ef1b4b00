import BkkApi.Server.Connections

/-!
# The exit path of the process

The main thread of `main.cpp` over the running server: it accepts and submits
connections, goes on with its loop when `accept` fails, and after a failed
`epoll_wait` it runs `curl_global_cleanup` and then leaves the scope of its
locals, which ends the life of the cache before the destructor of the thread pool
stops and joins the workers.  The detached refresh threads are joined by nobody.
The main thread submits nothing after that point (`server_reachable`), so the
workers do drain the queue (`taskQueue_of_returned`).

The order is the wrong way round for any work that is still queued or under way.
`Quiet` says what must be the case when `curl_global_cleanup` runs so that
nothing is: then nothing is later either, because all that is left to do is
replying and closing (`Quiet.step`).
-/

namespace BkkApi.Server.Shutdown

open BkkApi.Verified.CData
open BkkApi.Verified.Run
open BkkApi.Server.Protocol
open BkkApi.Server.ResponseParser
open BkkApi.Server.Cache
open BkkApi.Server.Fetching (Fetches Call sampleParse sampleConfig)
open BkkApi.Server.HandleClient
open BkkApi.Server.Workers (ThreadPool Worker)
open BkkApi.Server.Conservation
open BkkApi.Server.Transcript
open BkkApi.Server.Connections
open BkkApi.Server.Serving

/-! ## The process -/

/-- Where the main thread is. -/
inductive MainPc
  /-- In the loop around `epoll_wait`. -/
  | waiting
  /-- Inside `thread_pool.submit`. -/
  | submitting
  /-- `epoll_wait` has failed. -/
  | failed
  /-- `curl_global_cleanup` has run. -/
  | curlCleaned
  /-- The cache's lifetime has ended; `~ThreadPool` runs from here. -/
  | cacheEnded
  | exited
  deriving DecidableEq, Repr

/-- `curl_global_cleanup` has run. -/
def MainPc.isCleaned : MainPc → Bool
  | .curlCleaned | .cacheEnded | .exited => true
  | _ => false

/-- The lifetime of the cache is over. -/
def MainPc.isEnded : MainPc → Bool
  | .cacheEnded | .exited => true
  | _ => false

/-- The server with its main thread. -/
structure Process (n : Nat) where
  server : UdsServer n
  main : MainPc

variable {n : Nat}

/-- A step of the main thread, or of anything else. -/
inductive Action (n : Nat)
  | server (a : Serving.Action n)
  /-- `accept` fails: the main thread logs it and goes on with its loop. -/
  | acceptFails
  | epollFails
  | curlGlobalCleanup
  | endCache

/-- The steps of the server that are the main thread's, and where they take it:
submitting a connection, and the destructor of the pool. -/
def mainNext (main : MainPc) : Serving.Action n → Option MainPc
  | .accept => if main = .waiting then some .submitting else none
  | .pool (.submitPush _) | .pool .submitUnlock =>
      if main = .submitting then some .submitting else none
  | .pool (.notifyOne _) => if main = .submitting then some .waiting else none
  | .pool .dtorLock | .pool .dtorSetStop | .pool .dtorUnlock
  | .pool .notifyAll => if main = .cacheEnded then some .cacheEnded else none
  | .pool .dtorJoin => if main = .cacheEnded then some .exited else none
  | _ => some main

section Machine

variable (cJsonParse : Bytes → Option CJson)

/-- One step.  A thread that uses the cache after the end of its lifetime does
something undefined; here it finds the cache as it was, so that the step can be
taken and seen, and what comes after it is not about the program. -/
def step (p : Process n) : Action n → Option (Process n)
  | .server a =>
      (mainNext p.main a).bind fun main =>
        (Serving.step cJsonParse p.server a).map fun server =>
          { server := server, main := main }
  | .acceptFails => if p.main = .waiting then some p else none
  | .epollFails =>
      if p.main = .waiting then some { p with main := .failed } else none
  | .curlGlobalCleanup =>
      if p.main = .failed then some { p with main := .curlCleaned } else none
  | .endCache =>
      if p.main = .curlCleaned then some { p with main := .cacheEnded }
      else none

/-- The process in all its interleavings. -/
def machine (n : Nat) (config : SoundConfig) :
    Machine (Process n) (Action n) where
  init p := (Serving.machine cJsonParse n config).init p.server ∧
    p.main = .waiting
  step := step cJsonParse

variable {cJsonParse} {p q : Process n} {a : Action n}

/-- What one step can be. -/
theorem step_cases (h : step cJsonParse p a = some q) :
    (∃ b, a = .server b ∧ mainNext p.main b = some q.main ∧
        Serving.step cJsonParse p.server b = some q.server) ∨
      (a = .epollFails ∧ p.main = .waiting ∧ q = { p with main := .failed }) ∨
      (a = .curlGlobalCleanup ∧ p.main = .failed ∧
        q = { p with main := .curlCleaned }) ∨
      (a = .endCache ∧ p.main = .curlCleaned ∧
        q = { p with main := .cacheEnded }) ∨
      (a = .acceptFails ∧ p.main = .waiting ∧ q = p) := by
  cases a with
  | server b =>
      obtain ⟨main, hmain, hrest⟩ := Option.bind_eq_some_iff.1 h
      obtain ⟨server, hserver, rfl⟩ := Option.map_eq_some_iff.1 hrest
      exact .inl ⟨b, rfl, hmain, hserver⟩
  | epollFails =>
      simp only [step] at h
      split at h
      · rename_i hmain
        exact .inr (.inl ⟨rfl, hmain, (Option.some.inj h).symm⟩)
      · cases h
  | curlGlobalCleanup =>
      simp only [step] at h
      split at h
      · rename_i hmain
        exact .inr (.inr (.inl ⟨rfl, hmain, (Option.some.inj h).symm⟩))
      · cases h
  | endCache =>
      simp only [step] at h
      split at h
      · rename_i hmain
        exact .inr (.inr (.inr (.inl ⟨rfl, hmain, (Option.some.inj h).symm⟩)))
      · cases h
  | acceptFails =>
      simp only [step] at h
      split at h
      · rename_i hmain
        exact .inr (.inr (.inr (.inr ⟨rfl, hmain, (Option.some.inj h).symm⟩)))
      · cases h

/-- A main thread that has cleaned up does not submit any more. -/
theorem no_push_of_cleaned {main main' : MainPc} {b : Serving.Action n}
    (hcleaned : main.isCleaned = true) (h : mainNext main b = some main') :
    ∀ conn, b ≠ .pool (.submitPush conn) := by
  rintro conn rfl
  cases main with
  | waiting | submitting | failed => cases hcleaned
  | curlCleaned | cacheEnded | exited => cases h

/-- A step of the server does not clean up for the main thread. -/
theorem cleaned_of_mainNext {main main' : MainPc} {b : Serving.Action n}
    (h : mainNext main b = some main') (hcleaned : main'.isCleaned = true) :
    main.isCleaned = true := by
  unfold mainNext at h
  split at h <;> grind [MainPc.isCleaned]

end Machine

/-! ## What the main thread keeps to -/

section Discipline

variable {cJsonParse : Bytes → Option CJson} {config : SoundConfig}
  {p q : Process n}

theorem ended_of_mainNext {main main' : MainPc} {b : Serving.Action n}
    (h : mainNext main b = some main') (hended : main.isEnded = true) :
    main'.isEnded = true := by
  unfold mainNext at h
  split at h <;> grind [MainPc.isEnded]

/-- Only the end of the scope runs the destructor of the pool. -/
theorem destructor_of_mainNext {s t : UdsServer n} {main main' : MainPc}
    {b : Serving.Action n} (h : mainNext main b = some main')
    (hended : main.isEnded = false)
    (hstep : Serving.step cJsonParse s b = some t) :
    t.pool.destructor = s.pool.destructor := by
  cases Serving.step_cases hstep with
  | accept hen | fetch hown hfetch | handle hworker hhandles => rfl
  | @pool b hown hen =>
      cases b with
      | dtorLock | dtorSetStop | dtorUnlock | notifyAll | dtorJoin =>
          have hmain : main = .cacheEnded := by
            by_contra hne
            simp [mainNext, hne] at h
          rw [hmain] at hended
          cases hended
      | notifyOne woken =>
          cases woken with
          | none | some i => rfl
      | lock i | test i | block i | wake i | leave i | dequeue i conn
      | handle i handler | finish i | submitLock conn | submitPush conn
      | submitUnlock => rfl

theorem destructor_of_reachable (h : (machine cJsonParse n config).Reachable p) :
    p.main.isEnded = false → p.server.pool.destructor = .notCalled := by
  apply Machine.ReachableIf.invariant (I := fun p : Process n =>
    p.main.isEnded = false → p.server.pool.destructor = .notCalled) ?_ ?_ h
  · rintro p ⟨⟨hpool, -⟩, -⟩ -
    rw [hpool]
    rfl
  · intro p a q _ _ hp hstep hended
    rcases step_cases hstep with ⟨b, rfl, hmain, hb⟩ | ⟨-, hmain, rfl⟩ |
      ⟨-, hmain, rfl⟩ | ⟨-, -, rfl⟩ | ⟨-, -, rfl⟩
    · have hbefore : p.main.isEnded = false := by
        by_contra hnot
        have hafter := ended_of_mainNext hmain (Bool.not_eq_false _ ▸ hnot)
        rw [hafter] at hended
        cases hended
      exact (destructor_of_mainNext hmain hbefore hb).trans (hp hbefore)
    · exact hp (by rw [hmain]; rfl)
    · exact hp (by rw [hmain]; rfl)
    · cases hended
    · exact hp hended

/-- The main thread submits nothing once `stop` has been set. -/
theorem server_reachable (h : (machine cJsonParse n config).Reachable p) :
    (Serving.machine cJsonParse n config).ReachableIf NoSubmitAfterStop
      p.server := by
  induction h with
  | start hinit => exact .start hinit.1
  | @step p q a hreach _ hstep ih =>
      rcases step_cases hstep with ⟨b, rfl, hmain, hb⟩ | ⟨-, -, rfl⟩ |
        ⟨-, -, rfl⟩ | ⟨-, -, rfl⟩ | ⟨-, -, rfl⟩
      · refine .step ih ?_ hb
        rintro conn rfl
        have hsubmitting : p.main = .submitting := by
          by_contra hne
          simp [mainNext, hne] at hmain
        have hdestructor := destructor_of_reachable hreach
          (by rw [hsubmitting]; rfl)
        have hset := Workers.stopSet_of_reachable (pool_reachable ih)
        by_contra hstop
        exact (hset.1 (Bool.not_eq_false _ ▸ hstop)).1 hdestructor
      all_goals exact ih

/-- The main thread stays in its loop until `epoll_wait` fails. -/
theorem main_stays {a : Action n} (hfails : a ≠ .epollFails)
    (h : step cJsonParse p a = some q)
    (hmain : p.main = .waiting ∨ p.main = .submitting) :
    q.main = .waiting ∨ q.main = .submitting := by
  rcases step_cases h with ⟨b, rfl, hnext, -⟩ | ⟨rfl, -⟩ |
    ⟨-, hfailed, -⟩ | ⟨-, hcleaned, -⟩ | ⟨-, -, rfl⟩
  · unfold mainNext at hnext
    split at hnext <;> grind
  · exact absurd rfl hfails
  · rcases hmain with hmain | hmain <;> rw [hmain] at hfailed <;> cases hfailed
  · rcases hmain with hmain | hmain <;> rw [hmain] at hcleaned <;> cases hcleaned
  · exact hmain

/-- In every run of the process, a worker returns over an empty queue. -/
theorem taskQueue_of_returned (h : (machine cJsonParse n config).Reachable p)
    {i : Fin n} (hreturned : p.server.pool.workers i = .returned) :
    p.server.pool.taskQueue = [] :=
  (drained_of_reachable (drainProjection.reachable (server_reachable h)) i
    hreturned).empty

end Discipline

/-! ## What a step of the server records -/

section Records

variable {cJsonParse : Bytes → Option CJson} {p q : Process n}

/-- A step of a handler records events of its own connection. -/
theorem handle_cases {i : Fin n} {env : Environment} {handler : Handler}
    (hworker : p.server.pool.workers i = .handling handler)
    (h : step cJsonParse p (.server (.handle i env)) = some q) :
    ∃ pc fetches events,
      Handles p.server.fetches env handler.pc pc fetches events ∧
        q = { p with server := { p.server with
          pool := p.server.pool.setWorker i (.handling { handler with pc := pc })
          fetches := fetches
          journal := record p.server.journal handler.conn events } } := by
  rcases step_cases h with ⟨b, heq, hmain, hb⟩ | ⟨heq, -⟩ |
    ⟨heq, -⟩ | ⟨heq, -⟩ | ⟨heq, -⟩
  · cases heq
    obtain ⟨server, main⟩ := q
    cases hmain
    dsimp only at hb
    cases Serving.step_cases hb with
    | @handle i env other pc fetches events hother hhandles =>
        rw [hworker] at hother
        cases hother
        exact ⟨pc, fetches, events, hhandles, rfl⟩
  all_goals cases heq

/-- The other steps record nothing. -/
theorem journal_eq {a : Action n}
    (hhandle : ∀ i env, a ≠ .server (.handle i env))
    (h : step cJsonParse p a = some q) :
    q.server.journal = p.server.journal := by
  rcases step_cases h with ⟨b, rfl, -, hb⟩ | ⟨-, -, rfl⟩ |
    ⟨-, -, rfl⟩ | ⟨-, -, rfl⟩ | ⟨-, -, rfl⟩
  · obtain ⟨server, main⟩ := q
    dsimp only at hb
    cases Serving.step_cases hb with
    | handle hworker hhandles => exact absurd rfl (hhandle _ _)
    | accept hen | pool hown hen | fetch hown hfetch => rfl
  all_goals rfl

/-- Only accepting counts. -/
theorem accepted_eq {a : Action n} (haccept : a ≠ .server .accept)
    (h : step cJsonParse p a = some q) :
    q.server.accepted = p.server.accepted := by
  rcases step_cases h with ⟨b, rfl, -, hb⟩ | ⟨-, -, rfl⟩ |
    ⟨-, -, rfl⟩ | ⟨-, -, rfl⟩ | ⟨-, -, rfl⟩
  · obtain ⟨server, main⟩ := q
    dsimp only at hb
    cases Serving.step_cases hb with
    | accept hen => exact absurd rfl haccept
    | pool hown hen | fetch hown hfetch | handle hworker hhandles => rfl
  all_goals rfl

theorem accepted_accept
    (h : step cJsonParse p (.server .accept) = some q) :
    q.server.accepted = p.server.accepted + 1 := by
  rcases step_cases h with ⟨b, heq, -, hb⟩ | ⟨heq, -⟩ |
    ⟨heq, -⟩ | ⟨heq, -⟩ | ⟨heq, -⟩
  · cases heq
    obtain ⟨server, main⟩ := q
    dsimp only at hb
    cases Serving.step_cases hb with
    | accept hen => rfl
  all_goals cases heq

/-- Nothing is recorded about a connection before it is accepted. -/
theorem journal_of_accepted_le {config : SoundConfig}
    (h : (machine cJsonParse n config).Reachable p) {conn : Conn}
    (hlater : p.server.accepted ≤ conn) : p.server.journal conn = [] := by
  have hserver := server_reachable h
  refine (recorded_of_reachable hserver).untouched conn fun hmem => ?_
  have hsubmitted : conn ∈ p.server.pool.submitted := by
    rw [fifo_of_reachable (pool_reachable hserver)]
    exact List.mem_append_left _ hmem
  have hlt := (numbered_of_reachable hserver).lt_accepted conn hsubmitted
  exact absurd hlt (Nat.not_lt.2 hlater)

end Records

/-! ## The use of shared state -/

/-- The worker is about to look a stop id up. -/
def looksUp : Worker Handler → Bool
  | .handling { conn := _, pc := .lookingUp _ } => true
  | _ => false

/-- The step is an operation on the cache: a lookup, or one of the two sections
of `put_element`. -/
def UsesCache (s : UdsServer n) : Serving.Action n → Prop
  | .handle i _ => looksUp (s.pool.workers i) = true
  | .fetch (.advance k _) => ∃ call entry, s.fetches.calls[k]? = some call ∧
      (call.pc = .stamped entry ∨ call.pc = .written entry)
  | _ => False

/-- The step starts a transfer, or is taken inside one. -/
def UsesCurl (s : UdsServer n) : Serving.Action n → Prop
  | .fetch (.advance k _) => ∃ call, s.fetches.calls[k]? = some call ∧
      (call.pc = .entered ∧ call.apiKey ≠ [] ∨ call.pc = .transferring)
  | _ => False

/-- No thread is inside a transfer once libcurl has been cleaned up, and none
uses libcurl or the cache after its end. -/
structure Outlived (cJsonParse : Bytes → Option CJson) (p : Process n) :
    Prop where
  no_transfer : p.main.isCleaned = true →
    ∀ (k : Nat) (call : Call), p.server.fetches.calls[k]? = some call →
      call.pc ≠ .transferring
  no_curl : p.main.isCleaned = true → ∀ a q,
    step cJsonParse p (.server a) = some q → ¬ UsesCurl p.server a
  no_cache : p.main.isEnded = true → ∀ a q,
    step cJsonParse p (.server a) = some q → ¬ UsesCache p.server a

/-! ## Quiet servers -/

/-- The call will use neither libcurl nor the cache: it has ended, or is about
to be turned away without a key. -/
def CallOver (call : Call) : Prop :=
  call.pc.status?.isSome = true ∨ call.pc = .entered ∧ call.apiKey = []

/-- The handler will use neither, directly or in a call that it starts. -/
def HandlerOver : Pc → Prop
  | .receiving | .lookingUp _ => False
  | .hitStale request _ => ∀ beyond,
      RequestInMemory.apiKey { request with beyond := beyond } = []
  | .missed request => request.apiKey = []
  | .awaiting _ | .replying _ _ | .closing | .closed => True

/-- Nothing that is queued or under way will use libcurl or the cache. -/
structure Quiet (s : UdsServer n) : Prop where
  queue : n = 0 ∨ s.pool.taskQueue = []
  handlers : ∀ i handler, s.pool.workers i = .handling handler →
    HandlerOver handler.pc
  calls : ∀ (k : Nat) (call : Call), s.fetches.calls[k]? = some call →
    CallOver call

theorem looksUp_of_over {handler : Handler} (h : HandlerOver handler.pc) :
    looksUp (.handling handler) = false := by
  obtain ⟨conn, pc⟩ := handler
  cases pc with
  | lookingUp request => exact h.elim
  | receiving | hitStale request entry | missed request | awaiting k
  | replying apiStatus arrivals | closing | closed => rfl

theorem callOver_enter {request : RequestInMemory}
    (h : request.apiKey = []) : CallOver (Call.enter request) :=
  .inr ⟨rfl, h⟩

section Preservation

variable {cJsonParse : Bytes → Option CJson} {s t : UdsServer n}
  {fetches fetches' : Fetches}

/-- A call that is over does nothing but return. -/
theorem callOver_advance {k : Nat} {call : Call} {upstream : Fetching.Upstream}
    (h : CallOver call)
    (hadvance : Fetching.Advance cJsonParse fetches k call upstream fetches') :
    call.pc = .entered ∧ call.apiKey = [] ∧
      fetches' = Fetching.setPc fetches k call (.failed .missingApiKey) := by
  rcases h with hstatus | ⟨hentered, hkey⟩
  · cases hadvance with
    | init hpc | transfer hpc | stamp hpc | write hpc | sweep hpc =>
        rw [hpc] at hstatus
        cases hstatus
  · cases hadvance with
    | init hpc =>
        refine ⟨hentered, hkey, ?_⟩
        rw [Call.afterInit, if_pos hkey]
    | transfer hpc | stamp hpc | write hpc | sweep hpc =>
        rw [hentered] at hpc
        cases hpc

/-- Calls that are over stay over, also next to one that is entered over. -/
theorem callsOver_enterCall {request : RequestInMemory}
    (h : ∀ (k : Nat) (call : Call), fetches.calls[k]? = some call →
      CallOver call) (hrequest : request.apiKey = []) :
    ∀ (k : Nat) (call : Call),
      (enterCall fetches request).calls[k]? = some call → CallOver call := by
  intro k call hcall
  have hmem := List.mem_of_getElem? hcall
  rcases List.mem_append.1 hmem with hold | hnew
  · obtain ⟨j, hj⟩ := List.getElem?_of_mem hold
    exact h j call hj
  · exact List.mem_singleton.1 hnew ▸ callOver_enter hrequest

/-- A handler that is over goes on without the cache, and starts only calls that
are over. -/
theorem handlerOver_handles {env : Environment} {pc pc' : Pc}
    {events : List Event} (hpc : HandlerOver pc)
    (hcalls : ∀ (k : Nat) (call : Call), fetches.calls[k]? = some call →
      CallOver call)
    (h : Handles fetches env pc pc' fetches' events) :
    HandlerOver pc' ∧ ∀ (k : Nat) (call : Call),
      fetches'.calls[k]? = some call → CallOver call := by
  cases h with
  | accept hreq | reject hreq | fresh hget | stale hget | miss hget =>
      exact hpc.elim
  | refresh => exact ⟨trivial, callsOver_enterCall hcalls (hpc env.beyond)⟩
  | call => exact ⟨trivial, callsOver_enterCall hcalls hpc⟩
  | returned hcall hreturned | failed hcall hreturned =>
      exact ⟨trivial, hcalls⟩
  | reply | close => exact ⟨trivial, hcalls⟩

/-- A quiet server stays quiet as long as nothing is submitted. -/
theorem Quiet.step {a : Serving.Action n} (h : Quiet s)
    (hpush : ∀ conn, a ≠ .pool (.submitPush conn))
    (hstep : Serving.step cJsonParse s a = some t) : Quiet t := by
  cases Serving.step_cases hstep with
  | accept hen => exact ⟨h.queue, h.handlers, h.calls⟩
  | @pool b hown hen =>
      have hno : ∀ i conn, b ≠ .dequeue i conn := by
        rintro i conn rfl
        rcases h.queue with rfl | hempty
        · exact i.elim0
        · have hhead := hen.2
          rw [hempty] at hhead
          cases hhead
      refine { queue := ?_, handlers := ?_, calls := h.calls }
      · cases b with
        | dequeue i conn => exact absurd rfl (hno i conn)
        | submitPush conn => exact absurd rfl (hpush conn)
        | submitLock conn | handle i handler => cases hown
        | notifyOne woken =>
            cases woken with
            | none | some i => exact h.queue
        | lock i | test i | block i | wake i | leave i | finish i
        | submitUnlock | dtorLock | dtorSetStop | dtorUnlock | notifyAll
        | dtorJoin => exact h.queue
      · intro i handler hworker
        rcases handling_of_next hown hen hworker with hold | ⟨conn, rfl, -⟩
        · exact h.handlers i handler hold
        · exact absurd rfl (hno i conn)
  | @fetch b fetches hown hfetch =>
      refine { queue := h.queue, handlers := h.handlers, calls := ?_ }
      intro k call hcall
      rcases Fetching.step_cases hfetch with ⟨later, rfl, -, rfl⟩ |
        ⟨request, rfl, rfl⟩ | ⟨j, upstream, moved, rfl, hmoved, hadvance⟩
      · exact h.calls k call hcall
      · cases hown
      · obtain ⟨-, -, rfl⟩ := callOver_advance (h.calls j moved hmoved) hadvance
        rw [Fetching.getElem?_setPc hmoved] at hcall
        split at hcall
        · cases hcall
          exact .inl rfl
        · exact h.calls k call hcall
  | @handle i env handler pc fetches events hworker hhandles =>
      obtain ⟨hover, hcalls⟩ := handlerOver_handles
        (h.handlers i handler hworker) h.calls hhandles
      refine { queue := h.queue, handlers := ?_, calls := hcalls }
      intro j other hj
      by_cases hji : j = i
      · subst hji
        simp only [ThreadPool.setWorker, Function.update_self] at hj
        cases hj
        exact hover
      · simp only [ThreadPool.setWorker, Function.update_of_ne hji] at hj
        exact h.handlers j other hj

/-- No step of a quiet server uses libcurl or the cache. -/
theorem Quiet.uses_nothing {a : Serving.Action n} (h : Quiet s)
    (hstep : Serving.step cJsonParse s a = some t) :
    ¬ UsesCurl s a ∧ ¬ UsesCache s a := by
  cases Serving.step_cases hstep with
  | accept hen | pool hown hen => exact ⟨id, id⟩
  | @fetch b fetches hown hfetch =>
      rcases Fetching.step_cases hfetch with ⟨later, rfl, -, -⟩ |
        ⟨request, rfl, -⟩ | ⟨k, upstream, call, rfl, hcall, hadvance⟩
      · exact ⟨id, id⟩
      · exact ⟨id, id⟩
      · obtain ⟨hentered, hkey, -⟩ :=
          callOver_advance (h.calls k call hcall) hadvance
        constructor
        · rintro ⟨other, hother, huse⟩
          cases Option.some.inj (hcall.symm.trans hother)
          rcases huse with ⟨-, hne⟩ | hpc
          · exact hne hkey
          · rw [hentered] at hpc
            cases hpc
        · rintro ⟨other, entry, hother, huse⟩
          cases Option.some.inj (hcall.symm.trans hother)
          rw [hentered] at huse
          rcases huse with hpc | hpc <;> cases hpc
  | @handle i env handler pc fetches events hworker hhandles =>
      refine ⟨id, ?_⟩
      intro hlooksUp
      have hover := h.handlers i handler hworker
      change looksUp (s.pool.workers i) = true at hlooksUp
      rw [hworker, looksUp_of_over hover] at hlooksUp
      cases hlooksUp

end Preservation

/-! ## Runs -/

section Runs

variable {cJsonParse : Bytes → Option CJson} {config : SoundConfig}
  {p q : Process n}

/-- `curl_global_cleanup` runs over a quiet server. -/
def CleansUpQuietly (p : Process n) (a : Action n) : Prop :=
  a = .curlGlobalCleanup → Quiet p.server

theorem quiet_of_reachable
    (h : (machine cJsonParse n config).ReachableIf CleansUpQuietly p) :
    p.main.isCleaned = true → Quiet p.server := by
  apply Machine.ReachableIf.invariant (I := fun p : Process n =>
    p.main.isCleaned = true → Quiet p.server) ?_ ?_ h
  · rintro p ⟨-, hmain⟩ hcleaned
    rw [hmain] at hcleaned
    cases hcleaned
  · intro p a q _ hguard hp hstep hcleaned
    rcases step_cases hstep with ⟨b, rfl, hmain, hb⟩ | ⟨-, -, rfl⟩ |
      ⟨rfl, -, rfl⟩ | ⟨-, hmain, rfl⟩ | ⟨-, -, rfl⟩
    · have hbefore := cleaned_of_mainNext hmain hcleaned
      exact (hp hbefore).step (no_push_of_cleaned hbefore hmain) hb
    · cases hcleaned
    · exact hguard rfl
    · exact hp (by rw [hmain]; rfl)
    · exact hp hcleaned

/-- **Shutdown.**  In every run in which `curl_global_cleanup` runs over a quiet
server, nothing uses libcurl or the cache after its end. -/
theorem outlived_of_quiet
    (h : (machine cJsonParse n config).ReachableIf CleansUpQuietly p) :
    Outlived cJsonParse p := by
  have hquiet := quiet_of_reachable h
  have hcleaned : p.main.isEnded = true → p.main.isCleaned = true := by
    cases p.main <;> simp [MainPc.isEnded, MainPc.isCleaned]
  refine { no_transfer := ?_, no_curl := ?_, no_cache := ?_ }
  · intro hmain k call hcall hpc
    rcases (hquiet hmain).calls k call hcall with hstatus | ⟨hentered, -⟩
    · rw [hpc] at hstatus
      cases hstatus
    · rw [hpc] at hentered
      cases hentered
  · intro hmain a q hstep
    obtain ⟨main, -, hrest⟩ := Option.bind_eq_some_iff.1 hstep
    obtain ⟨server, hserver, -⟩ := Option.map_eq_some_iff.1 hrest
    exact ((hquiet hmain).uses_nothing hserver).1
  · intro hmain a q hstep
    obtain ⟨main, -, hrest⟩ := Option.bind_eq_some_iff.1 hstep
    obtain ⟨server, hserver, -⟩ := Option.map_eq_some_iff.1 hrest
    exact ((hquiet (hcleaned hmain)).uses_nothing hserver).2

end Runs

/-- A worker that is about to send a response. -/
def isReplying : Worker Handler → Bool
  | .handling { conn := _, pc := .replying _ _ } => true
  | _ => false

theorem handlerOver_of_isReplying {handler : Handler}
    (h : isReplying (.handling handler) = true) : HandlerOver handler.pc := by
  obtain ⟨conn, pc⟩ := handler
  cases pc with
  | replying apiStatus arrivals => trivial
  | receiving | lookingUp request | hitStale request entry | missed request
  | awaiting k | closing | closed => cases h

/-- `epoll_wait` fails when the only worker has fetched and stored what its client
asks about, and has still to send it.  It sends it after the end of the cache,
and closes the connection. -/
theorem outlived_of_quiet_replying :
    ∃ p : Process 1,
      (machine sampleParse 1 sampleConfig).ReachableIf CleansUpQuietly p ∧
        p.main = .cacheEnded ∧ p.server.fetches.calls.length = 1 ∧
        (p.server.journal 0).count .closed = 1 ∧ Outlived sampleParse p := by
  let mayCleanUp (s : UdsServer 1) : Bool :=
    s.pool.taskQueue.isEmpty && isReplying (s.pool.workers 0) &&
      s.fetches.calls.all fun call => call.pc.status?.isSome
  let test (p : Process 1) : Action 1 → Bool
    | .curlGlobalCleanup => mayCleanUp p.server
    | _ => true
  have htest : ∀ p a, test p a = true → CleansUpQuietly p a := by
    rintro p _ hquiet rfl
    have hparts : mayCleanUp p.server = true := hquiet
    simp only [mayCleanUp, Bool.and_eq_true, List.all_eq_true] at hparts
    obtain ⟨⟨hqueue, hreplying⟩, hcalls⟩ := hparts
    refine
      { queue := .inr (List.isEmpty_iff.1 hqueue), handlers := ?_, calls := ?_ }
    · intro i handler hworker
      have hzero : i = 0 := Subsingleton.elim i 0
      rw [hzero] at hworker
      rw [hworker] at hreplying
      exact handlerOver_of_isReplying hreplying
    · intro k call hcall
      exact .inl (hcalls call (List.mem_of_getElem? hcall))
  obtain ⟨p, hreach, hp⟩ := Machine.exists_reachableIf_of_runIf
    (M := machine sampleParse 1 sampleConfig)
    (s := { server := sampleServer, main := .waiting }) htest
    ⟨⟨rfl, ⟨rfl, rfl⟩, rfl, rfl⟩, rfl⟩
    (l := (sampleDequeue ++ sampleFetch ++
          [Serving.Action.handle 0 sampleEnvironment]).map .server ++
        [.epollFails, .curlGlobalCleanup, .endCache] ++
        List.replicate 2 (.server (.handle 0 sampleEnvironment)))
    (p := fun p => decide (p.main = .cacheEnded ∧
      p.server.fetches.calls.length = 1 ∧
      (p.server.journal 0).count .closed = 1))
    (by decide +kernel)
  obtain ⟨hmain, hcalls, hclosed⟩ := of_decide_eq_true hp
  exact ⟨p, hreach, hmain, hcalls, hclosed, outlived_of_quiet hreach⟩

/-- A connection that is still queued when `epoll_wait` fails is looked up in
the cache after the end of its lifetime. -/
theorem not_outlived_queued :
    ¬ ∀ (cJsonParse : Bytes → Option CJson) (n : Nat) (config : SoundConfig)
        (p : Process n),
      (machine cJsonParse n config).Reachable p → Outlived cJsonParse p := by
  intro h
  obtain ⟨p, hreach, hp⟩ := Machine.exists_reachable_of_run
    (M := machine sampleParse 1 sampleConfig)
    (s := { server := sampleServer, main := .waiting })
    ⟨⟨rfl, ⟨rfl, rfl⟩, rfl, rfl⟩, rfl⟩
    (l := [.server .accept, .server (.pool (.submitPush 0)),
      .server (.pool .submitUnlock), .server (.pool (.notifyOne none)),
      .epollFails, .curlGlobalCleanup, .endCache,
      .server (.pool (.lock 0)), .server (.pool (.test 0)),
      .server (.pool (.dequeue 0 0)), .server (.handle 0 sampleEnvironment)])
    (p := fun p => p.main.isEnded &&
      (step sampleParse p (.server (.handle 0 sampleEnvironment))).isSome &&
      looksUp (p.server.pool.workers 0))
    (by decide +kernel)
  simp only [Bool.and_eq_true] at hp
  obtain ⟨⟨hended, hstep⟩, hlooksUp⟩ := hp
  obtain ⟨q, hq⟩ := Option.isSome_iff_exists.1 hstep
  exact (h _ _ _ p hreach).no_cache hended _ q hq hlooksUp

end BkkApi.Server.Shutdown
