import BkkApi.Server.Shutdown
import BkkApi.Verified.Potential

/-!
# How much work a connection costs

Everything the process does on its own is paid for by what comes from outside: a
connection that is accepted, a spurious wake-up, a failing `epoll_wait`.  A
failing `accept` is paid for by nobody: the main thread goes round at once, and
while a connection waits it does so each time that the call fails.  Such a round
is counted as an event from outside.  The rank of a state adds up what every
thread has still to do before it comes to rest, and what every queued connection
is going to cost.

* `poolRank` is the rank of a pool, for any handlers whose own work is bounded.
* `serverRank` adds the calls of `fresh_fetch_and_update_cache`, and
  `processRank` the main thread.
* `work_bounded` is the sum over a run: 21 steps a connection, on all threads
  together, and three for a worker that wakes up for nothing.
-/

namespace BkkApi.Server.Workload

open BkkApi.Verified.CData
open BkkApi.Verified.Run
open BkkApi.Verified.Tally
open BkkApi.Server.ResponseParser
open BkkApi.Server.Cache
open BkkApi.Server.Fetching (Fetches Call)
open BkkApi.Server.HandleClient
open BkkApi.Server.Workers (ThreadPool Worker Holder Destructor Handling)
open BkkApi.Server.Serving
open BkkApi.Server.Shutdown

/-! ## The pool -/

section Pool

variable {n : Nat} {Task Handler : Type} {H : Handling Task Handler}

/-- What a worker has still to do before it sleeps, when `weight` is what a call
of `handle_client` has still to do. -/
def workerRank (weight : Handler → Nat) : Worker Handler → Nat
  | .outside => 3
  | .testing => 2
  | .sleeping | .taking => 1
  | .handling handler => weight handler + 4
  | .blocked | .returned => 0

/-- What is still to be done about the task of a `submit` that holds the mutex,
when handling a task costs `budget`. -/
def holderRank (budget : Nat) : Option (Holder n Task) → Nat
  | some (.submitting _) => budget + 10
  | some .submitted => 5
  | _ => 0

/-- What is still to be done for the destructor, with `n` workers to wake. -/
def destructorRank (n : Nat) : Destructor → Nat
  | .notCalled | .joined => 0
  | .locked => 3 * n + 4
  | .stopSet => 3 * n + 3
  | .unlocked => 3 * n + 2
  | .joining => 1

/-- What is still to be done in a pool. -/
def poolRank (weight : Handler → Nat) (budget : Nat)
    (s : ThreadPool n Task Handler) : Nat :=
  total (workerRank weight) s.workers + (budget + 4) * s.taskQueue.length +
    holderRank budget s.queueMutex + 4 * s.notifying +
    destructorRank n s.destructor

/-- What a step adds to it at most. -/
def poolGain (budget : Nat) : Workers.Action n Task Handler → Nat
  | .submitLock _ => budget + 10
  | .wake _ => 3
  | .dtorLock => 3 * n + 4
  | _ => 0

/-- A step by which a pool gets on with its work: no new task, no spurious
wake-up, and no step of a handler, which has its own weight. -/
def getsOn : Workers.Action n Task Handler → Bool
  | .submitLock _ | .wake _ | .dtorLock | .handle _ _ => false
  | _ => true

variable {weight : Handler → Nat} {budget : Nat}

theorem total_move (weight : Handler → Nat) {s : ThreadPool n Task Handler} {i : Fin n}
    {w : Worker Handler} (hpc : s.workers i = w) (w' : Worker Handler) :
    total (workerRank weight) (Function.update s.workers i w') +
        workerRank weight w =
      total (workerRank weight) s.workers + workerRank weight w' := by
  subst hpc
  exact total_update _ _ _ _

theorem total_notified (weight : Handler → Nat) (f : Fin n → Worker Handler) :
    total (workerRank weight) (fun i => (f i).notified) ≤
      total (workerRank weight) f + n * 3 := by
  refine total_le_add fun i => ?_
  cases f i <;> simp [Worker.notified, workerRank]

/-- Getting on lowers the rank. -/
theorem poolRank_next_lt (hbudget : ∀ task, weight (H.enter task) ≤ budget)
    {s : ThreadPool n Task Handler} {a : Workers.Action n Task Handler}
    (hen : Workers.enabled H s a) (hgets : getsOn a = true) :
    poolRank weight budget (Workers.next H s a) < poolRank weight budget s := by
  unfold poolRank
  cases a with
  | lock i =>
      obtain ⟨hpc, hmutex⟩ := hen
      have hmove := total_move weight hpc .testing
      simp only [Workers.next, ThreadPool.setWorker, hmutex, workerRank,
        holderRank] at hmove ⊢
      omega
  | test i =>
      by_cases hready : (s.stop || !s.taskQueue.isEmpty) = true
      · have hmove := total_move weight hen .taking
        simp only [Workers.next, ThreadPool.setWorker, hready, if_true,
          workerRank] at hmove ⊢
        omega
      · have hmove := total_move weight hen .sleeping
        simp only [Workers.next, ThreadPool.setWorker, if_neg hready,
          workerRank] at hmove ⊢
        omega
  | block i =>
      have hmove := total_move weight hen .blocked
      simp only [Workers.next, ThreadPool.setWorker, workerRank,
        holderRank] at hmove ⊢
      omega
  | leave i =>
      have hmove := total_move weight hen.1 .returned
      simp only [Workers.next, ThreadPool.setWorker, workerRank,
        holderRank] at hmove ⊢
      omega
  | dequeue i task =>
      -- the queue pays for the handler that is entered
      have hmove := total_move weight hen.1
        (.handling (H.enter task))
      have hcost := hbudget task
      obtain ⟨rest, hqueue⟩ := List.head?_eq_some_iff.1 hen.2
      simp only [Workers.next, ThreadPool.setWorker, workerRank, holderRank,
        hqueue, List.tail_cons, List.length_cons, Nat.mul_succ] at hmove ⊢
      omega
  | finish i =>
      obtain ⟨handler, hpc⟩ := Worker.handling_of_isDone hen
      have hmove := total_move weight hpc .outside
      simp only [Workers.next, ThreadPool.setWorker, workerRank] at hmove ⊢
      omega
  | submitPush task =>
      simp only [Workers.enabled] at hen
      simp only [Workers.next, hen, holderRank, List.length_append,
        List.length_cons, List.length_nil, Nat.mul_add, Nat.mul_one]
      omega
  | submitUnlock =>
      simp only [Workers.enabled] at hen
      simp only [Workers.next, hen, holderRank]
      omega
  | notifyOne woken =>
      cases woken with
      | none =>
          have hpos := hen.1
          simp only [Workers.next]
          omega
      | some i =>
          obtain ⟨hpos, hpc⟩ := hen
          have hmove := total_move weight hpc .outside
          simp only [Workers.next, ThreadPool.setWorker, workerRank] at hmove ⊢
          omega
  | dtorSetStop =>
      simp only [Workers.enabled] at hen
      simp only [Workers.next, hen, destructorRank]
      omega
  | dtorUnlock =>
      simp only [Workers.enabled] at hen
      simp only [Workers.next, hen, destructorRank, holderRank]
      omega
  | notifyAll =>
      have hwoken := total_notified weight s.workers
      simp only [Workers.enabled] at hen
      simp only [Workers.next, hen, destructorRank]
      omega
  | dtorJoin =>
      simp only [Workers.enabled] at hen
      simp only [Workers.next, hen.1, destructorRank]
      omega
  | submitLock task | wake i | dtorLock | handle i handler => cases hgets

/-- A step that is not made by a handler raises the rank by its gain at most. -/
theorem poolRank_next_le (hbudget : ∀ task, weight (H.enter task) ≤ budget)
    {s : ThreadPool n Task Handler} {a : Workers.Action n Task Handler}
    (hen : Workers.enabled H s a) (hhandle : ∀ i handler, a ≠ .handle i handler) :
    poolRank weight budget (Workers.next H s a) ≤
      poolRank weight budget s + poolGain budget a := by
  by_cases hgets : getsOn a = true
  · have hlt := poolRank_next_lt hbudget hen hgets
    omega
  · unfold poolRank
    cases a with
    | submitLock task =>
        simp only [Workers.enabled] at hen
        simp only [Workers.next, hen, holderRank, poolGain]
        omega
    | wake i =>
        have hmove := total_move weight hen .outside
        simp only [Workers.next, ThreadPool.setWorker, workerRank,
          poolGain] at hmove ⊢
        omega
    | dtorLock =>
        simp only [Workers.next, hen.1, hen.2, destructorRank, holderRank,
          poolGain]
        omega
    | handle i handler => exact absurd rfl (hhandle i handler)
    | lock i | test i | block i | leave i | dequeue i task | finish i
    | submitPush task | submitUnlock | notifyOne woken | dtorSetStop
    | dtorUnlock | notifyAll | dtorJoin => exact absurd rfl hgets

/-- A handler's own steps change the rank by the handler's weight. -/
theorem poolRank_setWorker {s : ThreadPool n Task Handler} {i : Fin n}
    {handler : Handler} (hpc : s.workers i = .handling handler)
    (handler' : Handler) :
    poolRank weight budget (s.setWorker i (.handling handler')) +
        weight handler =
      poolRank weight budget s + weight handler' := by
  have hmove := total_move weight hpc (.handling handler')
  simp only [poolRank, ThreadPool.setWorker, workerRank] at hmove ⊢
  omega

end Pool

/-! ## The server -/

/-- The steps that a call of `fresh_fetch_and_update_cache` has still to take. -/
def callRank : Fetching.Pc → Nat
  | .entered => 5
  | .transferring => 4
  | .fetched _ => 3
  | .stamped _ => 2
  | .written _ => 1
  | .returned _ | .failed _ => 0

/-- The steps that a call of `handle_client` has still to take, with those of a
call that it is going to make or start. -/
def handlerRank : HandleClient.Pc → Nat
  | .receiving => 11
  | .lookingUp _ => 10
  | .missed _ => 9
  | .hitStale _ _ => 8
  | .awaiting _ => 3
  | .replying _ _ => 2
  | .closing => 1
  | .closed => 0

/-- What a call of `handle_client` has still to do. -/
def handlerWeight (handler : Handler) : Nat := handlerRank handler.pc

/-- What handling a connection costs at most. -/
def handlerBudget : Nat := 11

def callsRank (calls : List Call) : Nat :=
  (calls.map fun call => callRank call.pc).sum

/-- What is still to be done by workers, handlers and calls. -/
def serverRank {n : Nat} (s : UdsServer n) : Nat :=
  poolRank handlerWeight handlerBudget s.pool +
    callsRank s.fetches.calls

theorem callsRank_concat (calls : List Call) (call : Call) :
    callsRank (calls ++ [call]) = callsRank calls + callRank call.pc := by
  simp [callsRank]

theorem callsRank_set {calls : List Call} {k : Nat} {call : Call}
    (hcall : calls[k]? = some call) (call' : Call) :
    callsRank (calls.set k call') + callRank call.pc =
      callsRank calls + callRank call'.pc :=
  sum_map_set (fun call : Call => callRank call.pc) hcall call'

section Server

variable {cJsonParse : Bytes → Option CJson} {n : Nat} {s t : UdsServer n}
  {fetches fetches' : Fetches}

/-- A step of a call is one step less to do. -/
theorem callsRank_advance {k : Nat} {call : Call} {upstream : Fetching.Upstream}
    (hcall : fetches.calls[k]? = some call)
    (h : Fetching.Advance cJsonParse fetches k call upstream fetches') :
    callsRank fetches'.calls < callsRank fetches.calls := by
  have hmoves : ∀ pc, callRank pc < callRank call.pc →
      callsRank (fetches.calls.set k { call with pc := pc }) <
        callsRank fetches.calls := by
    intro pc hlt
    have hset := callsRank_set hcall { call with pc := pc }
    dsimp only at hset
    omega
  cases h with
  | init hpc =>
      apply hmoves
      rw [hpc]
      unfold Call.afterInit
      split
      · decide
      · split <;> decide
  | transfer hpc =>
      apply hmoves
      rw [hpc]
      unfold Call.afterTransfer
      dsimp only
      split
      · show 0 < 4
        decide
      · show 3 < 4
        decide
  | stamp hpc | write hpc | sweep hpc =>
      apply hmoves
      rw [hpc]
      exact Nat.lt_succ_self _

/-- A step of a handler is one step less to do, its new call included. -/
theorem handlerRank_handles {env : Environment} {pc pc' : Pc}
    {events : List Event} (h : Handles fetches env pc pc' fetches' events) :
    handlerRank pc' + callsRank fetches'.calls <
      handlerRank pc + callsRank fetches.calls := by
  cases h with
  | accept hreq | reject hreq | fresh hget | stale hget | miss hget
  | returned hcall hpc | failed hcall hpc | reply | close =>
      simp [handlerRank]
  | refresh | call =>
      simp only [enterCall, callsRank_concat, Call.enter, callRank, handlerRank]
      omega

theorem handlerWeight_enter (conn : Conn) :
    handlerWeight (handling.enter conn) ≤ handlerBudget :=
  Nat.le_refl _

/-- The server's own steps: all but accepting a connection, a spurious wake-up,
the beginning of the destructor, and the passing of time. -/
def serverGetsOn : Serving.Action n → Bool
  | .accept | .pool (.wake _) | .pool .dtorLock | .fetch (.tick _) => false
  | _ => true

/-- What a step adds to the rank of the server at most. -/
def serverGain : Serving.Action n → Nat
  | .accept => 21
  | .pool (.wake _) => 3
  | .pool .dtorLock => 3 * n + 4
  | _ => 0

theorem serverRank_lt {a : Serving.Action n}
    (hstep : Serving.step cJsonParse s a = some t)
    (hgets : serverGetsOn a = true) : serverRank t < serverRank s := by
  unfold serverRank
  cases Serving.step_cases hstep with
  | accept hen => cases hgets
  | @pool b hown hen =>
      have hlt := poolRank_next_lt handlerWeight_enter hen (by
        cases b with
        | wake i | dtorLock => cases hgets
        | submitLock conn | handle i handler => cases hown
        | lock i | test i | block i | leave i | dequeue i conn | finish i
        | submitPush conn | submitUnlock | notifyOne woken | dtorSetStop
        | dtorUnlock | notifyAll | dtorJoin => rfl)
      exact Nat.add_lt_add_right hlt _
  | @fetch b fetches hown hfetch =>
      rcases Fetching.step_cases hfetch with ⟨later, rfl, -, -⟩ |
        ⟨request, rfl, -⟩ | ⟨k, upstream, call, rfl, hcall, hadvance⟩
      · cases hgets
      · cases hown
      · have hlt := callsRank_advance hcall hadvance
        dsimp only
        omega
  | @handle i env handler pc fetches events hworker hhandles =>
      have hlt := handlerRank_handles hhandles
      have hmove : poolRank handlerWeight handlerBudget
            (s.pool.setWorker i (.handling { handler with pc := pc })) +
          handlerRank handler.pc =
            poolRank handlerWeight handlerBudget s.pool + handlerRank pc :=
        poolRank_setWorker hworker _
      dsimp only
      omega

theorem serverRank_le {a : Serving.Action n}
    (hstep : Serving.step cJsonParse s a = some t) :
    serverRank t ≤ serverRank s + serverGain a := by
  by_cases hgets : serverGetsOn a = true
  · have hlt := serverRank_lt hstep hgets
    omega
  · unfold serverRank
    cases Serving.step_cases hstep with
    | accept hen =>
        have hle := poolRank_next_le handlerWeight_enter hen
          (fun i handler h => by cases h)
        simp only [poolGain, handlerBudget, serverGain] at hle ⊢
        omega
    | @pool b hown hen =>
        have hle := poolRank_next_le handlerWeight_enter hen (by
          rintro i handler rfl
          cases hown)
        cases b with
        | wake i | dtorLock =>
            simp only [poolGain, serverGain] at hle ⊢
            omega
        | submitLock conn | handle i handler => cases hown
        | lock i | test i | block i | leave i | dequeue i conn | finish i
        | submitPush conn | submitUnlock | notifyOne woken | dtorSetStop
        | dtorUnlock | notifyAll | dtorJoin => exact absurd rfl hgets
    | @fetch b fetches hown hfetch =>
        rcases Fetching.step_cases hfetch with ⟨later, rfl, -, rfl⟩ |
          ⟨request, rfl, -⟩ | ⟨k, upstream, call, rfl, -⟩
        · exact Nat.le_refl _
        · cases hown
        · exact absurd rfl hgets
    | handle hworker hhandles => exact absurd rfl hgets

end Server

/-! ## The process -/

/-- What the main thread has still to do on its way out. -/
def mainRank {n : Nat} (p : Process n) : Nat :=
  match p.main with
  | .waiting | .submitting | .exited => 0
  | .failed => 3 * n + 7
  | .curlCleaned => 3 * n + 6
  | .cacheEnded =>
      if p.server.pool.destructor = .notCalled then 3 * n + 5 else 0

/-- What is still to be done in the process. -/
def processRank {n : Nat} (p : Process n) : Nat :=
  serverRank p.server + mainRank p

/-- The process's own steps.  The others come from outside: a connection to be
accepted, a spurious wake-up, the passing of time, a failure of `accept` or of
`epoll_wait`. -/
def isOwn {n : Nat} : Shutdown.Action n → Bool
  | .server .accept | .server (.pool (.wake _)) | .server (.fetch (.tick _))
  | .acceptFails | .epollFails => false
  | _ => true

/-- What a step adds to the rank of the process at most. -/
def gain {n : Nat} : Shutdown.Action n → Nat
  | .server .accept => 21
  | .server (.pool (.wake _)) => 3
  | .epollFails => 3 * n + 7
  | _ => 0

section Process

variable {cJsonParse : Bytes → Option CJson} {config : SoundConfig} {n : Nat}
  {p q : Process n}

/-- The destructor does not go back to where it has not been called. -/
theorem notCalled_of_step {s t : UdsServer n} {a : Serving.Action n}
    (hstep : Serving.step cJsonParse s a = some t)
    (h : t.pool.destructor = .notCalled) : s.pool.destructor = .notCalled := by
  cases Serving.step_cases hstep with
  | accept hen | fetch hown hfetch | handle hworker hhandles => exact h
  | @pool b hown hen =>
      cases b with
      | dtorLock | dtorSetStop | dtorUnlock | notifyAll | dtorJoin => cases h
      | notifyOne woken =>
          cases woken with
          | none | some i => exact h
      | lock i | test i | block i | wake i | leave i | dequeue i conn
      | handle i handler | finish i | submitLock conn | submitPush conn
      | submitUnlock => exact h

/-- A step of the server costs the main thread nothing. -/
theorem mainRank_le {b : Serving.Action n}
    (hmain : mainNext p.main b = some q.main)
    (hstep : Serving.step cJsonParse p.server b = some q.server) :
    mainRank q ≤ mainRank p := by
  have hkept := notCalled_of_step hstep
  have hcases : q.main = p.main ∨ mainRank q = 0 := by
    unfold mainNext at hmain
    split at hmain <;> grind [mainRank]
  rcases hcases with hsame | hzero
  · unfold mainRank
    rw [hsame]
    cases p.main with
    | cacheEnded =>
        dsimp only
        by_cases hcalled : q.server.pool.destructor = .notCalled
        · rw [if_pos hcalled, if_pos (hkept hcalled)]
        · rw [if_neg hcalled]
          exact Nat.zero_le _
    | waiting | submitting | failed | curlCleaned | exited =>
        exact Nat.le_refl _
  · omega

/-- The destructor begins when the main thread has come to it. -/
theorem mainRank_dtorLock
    (hmain : mainNext (n := n) p.main (.pool .dtorLock) = some q.main)
    (hstep : Serving.step cJsonParse p.server (.pool .dtorLock) =
      some q.server) :
    mainRank q + (3 * n + 5) = mainRank p := by
  have hended : p.main = .cacheEnded := by
    by_contra hne
    simp [mainNext, hne] at hmain
  have hnext : q.main = .cacheEnded := by
    rw [hended] at hmain
    exact (Option.some.inj hmain).symm
  cases hserver : q.server with
  | mk pool fetches accepted journal =>
      rw [hserver] at hstep
      cases Serving.step_cases hstep with
      | pool hown hen =>
          have hbefore : p.server.pool.destructor = .notCalled := hen.1
          have hafter : q.server.pool.destructor = .locked := by rw [hserver]; rfl
          simp [mainRank, hended, hnext, hbefore, hafter]

theorem processPotential :
    Machine.Potential (Shutdown.machine cJsonParse n config) (fun _ _ => True)
      isOwn processRank gain where
  pays p a q _ _ hown hstep := by
    unfold processRank
    rcases Shutdown.step_cases hstep with ⟨b, rfl, hmain, hb⟩ | ⟨rfl, -, -⟩ |
      ⟨-, hmain, rfl⟩ | ⟨-, hmain, rfl⟩ | ⟨rfl, -, -⟩
    · by_cases hgets : serverGetsOn b = true
      · have hlt := serverRank_lt hb hgets
        have hle := mainRank_le hmain hb
        omega
      · -- the beginning of the destructor is paid for by the main thread
        have hlock : b = .pool .dtorLock := by
          unfold serverGetsOn at hgets
          split at hgets <;> simp_all [isOwn]
        subst hlock
        have hgain := serverRank_le hb
        have hpaid := mainRank_dtorLock hmain hb
        simp only [serverGain] at hgain
        omega
    · cases hown
    · simp only [mainRank, hmain]
      omega
    · simp only [mainRank, hmain]
      split <;> omega
    · cases hown
  gains p a q _ _ hown hstep := by
    unfold processRank
    rcases Shutdown.step_cases hstep with ⟨b, rfl, hmain, hb⟩ |
      ⟨rfl, hmain, rfl⟩ | ⟨rfl, -, -⟩ | ⟨rfl, -, -⟩ | ⟨-, -, rfl⟩
    · have hgain := serverRank_le hb
      have hle := mainRank_le hmain hb
      have hsame : serverGain b = gain (.server b) := by
        unfold isOwn at hown
        split at hown <;> simp_all [serverGain, gain]
      omega
    · simp only [mainRank, hmain, gain]
      omega
    · cases hown
    · cases hown
    · exact Nat.le_add_right _ _

/-! ## Runs -/

/-- A connection is accepted. -/
def isAccept : Shutdown.Action n → Bool
  | .server .accept => true
  | _ => false

/-- A worker wakes up spuriously. -/
def isWake : Shutdown.Action n → Bool
  | .server (.pool (.wake _)) => true
  | _ => false

/-- `epoll_wait` fails. -/
def isFailure : Shutdown.Action n → Bool
  | .epollFails => true
  | _ => false

theorem gain_eq (a : Shutdown.Action n) :
    gain a = 21 * (isAccept a).toNat + 3 * (isWake a).toNat +
      (3 * n + 7) * (isFailure a).toNat := by
  unfold gain
  split
  · rfl
  · rfl
  · simp [isAccept, isWake, isFailure]
  · rename_i haccept hwake hfails
    have h₁ : isAccept a = false := by
      unfold isAccept
      split <;> simp_all
    have h₂ : isWake a = false := by
      unfold isWake
      split <;> simp_all
    have h₃ : isFailure a = false := by
      unfold isFailure
      split <;> simp_all
    rw [h₁, h₂, h₃]
    rfl

theorem sum_gain (l : List (Shutdown.Action n)) :
    (l.map gain).sum = 21 * l.countP isAccept + 3 * l.countP isWake +
      (3 * n + 7) * l.countP isFailure := by
  induction l with
  | nil => rfl
  | cons a l ih =>
      have hcount : ∀ p : Shutdown.Action n → Bool,
          (a :: l).countP p = l.countP p + (p a).toNat := by
        intro p
        rw [List.countP_cons]
        cases p a <;> rfl
      rw [List.map_cons, List.sum_cons, ih, gain_eq, hcount, hcount, hcount]
      simp only [Nat.mul_add]
      omega

theorem processRank_init (hinit : (Shutdown.machine cJsonParse n config).init p) :
    processRank p = 3 * n := by
  obtain ⟨⟨hpool, ⟨-, hcalls⟩, -⟩, hmain⟩ := hinit
  have htotal : total (workerRank handlerWeight)
      (fun _ : Fin n => Worker.outside) = n * 3 :=
    total_const fun _ => rfl
  simp [processRank, serverRank, mainRank, poolRank, hpool, hcalls, hmain,
    ThreadPool.new, holderRank, destructorRank, callsRank, htotal,
    Nat.mul_comm]

/-- Every accepted connection has its number, and `epoll_wait` fails once at
most. -/
theorem counts_of_path {l : List (Shutdown.Action n)}
    (hinit : (Shutdown.machine cJsonParse n config).init p)
    (hpath : (Shutdown.machine cJsonParse n config).Path (fun _ _ => True)
      p l q) :
    l.countP isAccept = q.server.accepted ∧
      (l.countP isFailure = 0 ∨
        l.countP isFailure = 1 ∧ q.main ≠ .waiting ∧ q.main ≠ .submitting) := by
  induction hpath with
  | nil => exact ⟨hinit.1.2.2.1.symm, .inl rfl⟩
  | @snoc l q r a hpath _ hstep ih =>
      obtain ⟨haccepted, hfailed⟩ := ih
      rw [List.countP_append, List.countP_append, List.countP_singleton,
        List.countP_singleton]
      rcases Shutdown.step_cases hstep with ⟨b, rfl, hmain, hb⟩ |
        ⟨rfl, hmain, rfl⟩ | ⟨rfl, -, rfl⟩ | ⟨rfl, -, rfl⟩ | ⟨rfl, -, rfl⟩
      · constructor
        · cases hserver : r.server with
          | mk pool fetches accepted journal =>
              rw [hserver] at hb
              cases Serving.step_cases hb with
              | accept hen => rw [haccepted]; rfl
              | pool hown hen | fetch hown hfetch | handle hworker hhandles =>
                  exact haccepted
        · have hstays : q.main ≠ .waiting ∧ q.main ≠ .submitting →
              r.main ≠ .waiting ∧ r.main ≠ .submitting := by
            unfold mainNext at hmain
            split at hmain <;> grind
          rw [if_neg (by simp [isFailure])]
          exact hfailed.imp id fun h => ⟨h.1, hstays h.2⟩
      · refine ⟨by simpa [isAccept] using haccepted, .inr ⟨?_, by simp⟩⟩
        rcases hfailed with hnone | ⟨-, hne, -⟩
        · rw [hnone]
          rfl
        · exact absurd hmain hne
      · exact ⟨by simpa [isAccept] using haccepted,
          by simpa [isFailure] using hfailed.imp id fun h => h.1⟩
      · exact ⟨by simpa [isAccept] using haccepted,
          by simpa [isFailure] using hfailed.imp id fun h => h.1⟩
      · exact ⟨by simpa [isAccept] using haccepted,
          by simpa [isFailure] using hfailed⟩

/-- **The work of a run.**  Whatever the order of its steps, the process takes at
most 21 own steps for each connection it has accepted, on all its threads
together, three for each spurious wake-up, three for each worker on its way to
its first sleep, and as many again and seven on its way out.  It takes none for
an `accept` that fails but the call itself. -/
theorem work_bounded {l : List (Shutdown.Action n)}
    (hinit : (Shutdown.machine cJsonParse n config).init p)
    (hpath : (Shutdown.machine cJsonParse n config).Path (fun _ _ => True)
      p l q) :
    l.countP isOwn + processRank q ≤
        3 * n + 21 * q.server.accepted + 3 * l.countP isWake +
          (3 * n + 7) * l.countP isFailure ∧
      l.countP isFailure ≤ 1 := by
  have hwork := processPotential.work_le (.start hinit) hpath
  have hcounts := counts_of_path hinit hpath
  rw [processRank_init hinit, sum_gain, hcounts.1] at hwork
  constructor
  · omega
  · rcases hcounts.2 with hnone | ⟨hone, -⟩ <;> omega

end Process

/-- One worker goes to sleep, is woken for a connection whose request misses the
cache, answers it, and goes to sleep again: that costs as much as it may. -/
theorem work_bounded_attained :
    ∃ (q : Process 1) (l : List (Shutdown.Action 1)),
      (Shutdown.machine Fetching.sampleParse 1 Fetching.sampleConfig).Path
          (fun _ _ => True) { server := sampleServer, main := .waiting } l q ∧
        l.countP isOwn = 3 * 1 + 21 * q.server.accepted ∧
        l.countP isOwn + processRank q ≤
          3 * 1 + 21 * q.server.accepted + 3 * l.countP isWake +
            (3 * 1 + 7) * l.countP isFailure := by
  let serverSteps : List (Serving.Action 1) :=
    [.pool (.lock 0), .pool (.test 0), .pool (.block 0), .accept,
      .pool (.submitPush 0), .pool .submitUnlock, .pool (.notifyOne (some 0)),
      .pool (.lock 0), .pool (.test 0), .pool (.dequeue 0 0)] ++ sampleFetch ++
      List.replicate 3 (.handle 0 sampleEnvironment) ++
      [.pool (.finish 0), .pool (.lock 0), .pool (.test 0), .pool (.block 0)]
  have hday : ((Shutdown.machine Fetching.sampleParse 1
      Fetching.sampleConfig).run { server := sampleServer, main := .waiting }
        (serverSteps.map .server)).map (fun q => decide
          ((serverSteps.map .server).countP isOwn =
            3 * 1 + 21 * q.server.accepted)) = some true := by
    decide +kernel
  obtain ⟨q, hrun, hq⟩ := Option.map_eq_some_iff.1 hday
  have hpath := (Machine.Path.nil (M := Shutdown.machine Fetching.sampleParse 1
    Fetching.sampleConfig)).append_run hrun
  exact ⟨q, _, hpath, of_decide_eq_true hq,
    (work_bounded ⟨⟨rfl, ⟨rfl, rfl⟩, rfl, rfl⟩, rfl⟩ hpath).1⟩

end BkkApi.Server.Workload
