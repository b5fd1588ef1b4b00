import BkkApi.Server.Workload
import BkkApi.Server.Wakeups

/-!
# Nobody waits for ever, but for silent clients

`recv` has no timeout, so a client that connects and never sends keeps a worker
to itself.  That is the only thing the server can be kept waiting by:

* when no step is left but those of silent clients, every other connection has
  been handled, as long as there are fewer silent clients than workers
  (`served_of_stalled`), and from every reachable state in which `epoll_wait` has
  not failed the process comes to that point in whatever order its threads go on
  (`service_completes`);
* as many silent clients as workers stop it for good (`starved_forever`), and
  they can, for every number of workers (`silent_clients_starve`).

The argument looks at a stalled state.  Whoever held the mutex could go on
(`HolderActive`), so it is free; a worker awake in the loop could take it, so
there is none; and the wake-up invariant then says that the queue is empty.
-/

namespace BkkApi.Server.Progress

open BkkApi.Verified.CData
open BkkApi.Verified.Run
open BkkApi.Verified.Tally
open BkkApi.Server.ResponseParser
open BkkApi.Server.Cache
open BkkApi.Server.Fetching (Fetches Call)
open BkkApi.Server.HandleClient
open BkkApi.Server.Workers (ThreadPool Worker Holder Destructor Handling
  Exclusive worker_cases exclusive_of_reachable)
open BkkApi.Server.Conservation
open BkkApi.Server.Transcript
open BkkApi.Server.Serving
open BkkApi.Server.Shutdown
open BkkApi.Server.Workload

/-! ## Who holds the mutex -/

section Pool

variable {n : Nat} {Task Handler : Type} {H : Handling Task Handler}

/-- The holder of the mutex is between lock and unlock. -/
structure HolderActive (s : ThreadPool n Task Handler) : Prop where
  worker : ∀ i, s.queueMutex = some (.worker i) →
    (s.workers i).inSection = true
  destructor : s.queueMutex = some .destructor →
    s.destructor = .locked ∨ s.destructor = .stopSet

/-- A worker stays in its section, or gives the mutex back. -/
theorem inSection_next {s : ThreadPool n Task Handler}
    {a : Workers.Action n Task Handler} (hen : Workers.enabled H s a)
    {j : Fin n} (hj : (s.workers j).inSection = true) :
    ((Workers.next H s a).workers j).inSection = true ∨
      (Workers.next H s a).queueMutex = none := by
  rcases worker_cases hen j with hsame | hmoved
  · exact .inl (hsame ▸ hj)
  · generalize hold : s.workers j = old at hmoved hj
    generalize hnew : (Workers.next H s a).workers j = new at hmoved
    cases hmoved with
    | lock | wake | handle htask | finish hfinished | notifyOne | notifyAll =>
        cases hj
    | found | notFound => exact .inl rfl
    | block | leave | dequeue task => exact .inr rfl

theorem HolderActive.next {s : ThreadPool n Task Handler}
    {a : Workers.Action n Task Handler} (h : HolderActive s)
    (hen : Workers.enabled H s a) : HolderActive (Workers.next H s a) := by
  constructor
  · intro j hj
    by_cases hbefore : s.queueMutex = some (.worker j)
    · rcases inSection_next hen (h.worker j hbefore) with hstays | hfree
      · exact hstays
      · rw [hfree] at hj
        cases hj
    · -- only locking makes a worker the holder
      cases a with
      | lock i =>
          have hij : i = j := Holder.worker.inj (Option.some.inj hj)
          subst hij
          simp [Workers.next, ThreadPool.setWorker, Worker.inSection]
      | block i | leave i | dequeue i task | submitLock task | submitPush task
      | submitUnlock | dtorLock | dtorUnlock => cases hj
      | notifyOne woken =>
          cases woken with
          | none | some i => exact absurd hj hbefore
      | test i | wake i | handle i handler | finish i | dtorSetStop | notifyAll
      | dtorJoin => exact absurd hj hbefore
  · intro hd
    have hdestructor := h.destructor
    cases a with
    | dtorLock => exact .inl rfl
    | dtorSetStop => exact .inr rfl
    | lock i | block i | leave i | dequeue i task | submitLock task
    | submitPush task | submitUnlock | dtorUnlock => cases hd
    | notifyAll | dtorJoin =>
        simp only [Workers.enabled, Workers.next] at hen hd
        grind
    | notifyOne woken =>
        cases woken with
        | none | some i => exact hdestructor hd
    | test i | wake i | handle i handler | finish i => exact hdestructor hd

theorem holderActive_of_reachable [DecidableEq Task] [DecidableEq Handler]
    {guard : ThreadPool n Task Handler → Workers.Action n Task Handler → Prop}
    {s : ThreadPool n Task Handler}
    (h : (Workers.machine H).ReachableIf guard s) : HolderActive s := by
  apply Machine.guarded_invariant ?_ ?_ h
  · rintro _ rfl
    constructor
    · intro i hi
      cases hi
    · intro hd
      cases hd
  · intro s a _ _ hs hen
    exact hs.next hen

/-- `submit` calls that have locked the mutex and not yet returned. -/
def underWay (s : ThreadPool n Task Handler) : Nat :=
  s.notifying +
    match s.queueMutex with
    | some (.submitting _) | some .submitted => 1
    | _ => 0

end Pool

/-! ## The main thread in the pool -/

section Main

variable {cJsonParse : Bytes → Option CJson} {config : SoundConfig} {n : Nat}
  {p q : Process n}

/-- What the main thread is about shows in the pool. -/
structure MainTracks (p : Process n) : Prop where
  submitting : underWay p.server.pool = if p.main = .submitting then 1 else 0
  exited : p.main = .exited ↔ p.server.pool.destructor = .joined
  pushed : ∀ conn < p.server.accepted, conn ∈ p.server.pool.submitted ∨
    p.server.pool.queueMutex = some (.submitting conn)

/-- A step of the pool that is not the main thread's leaves it in its submit. -/
theorem underWay_next {pool : ThreadPool n Conn Handler}
    {b : Workers.Action n Conn Handler} (hexcl : Exclusive pool)
    (hen : Workers.enabled handling pool b) {main main' : MainPc}
    (hmain : mainNext main (.pool b) = some main')
    (h : underWay pool = if main = .submitting then 1 else 0)
    (hown : ownPoolStep b = true) :
    underWay (Workers.next handling pool b) =
      if main' = .submitting then 1 else 0 := by
  unfold underWay at h ⊢
  cases b with
  | lock i =>
      obtain ⟨-, hmutex⟩ := hen
      cases hmain
      simp only [Workers.next, ThreadPool.setWorker, hmutex] at h ⊢
      exact h
  | block i =>
      have hmutex := hexcl.worker_holds i (by rw [hen]; rfl)
      cases hmain
      simp only [Workers.next, ThreadPool.setWorker, hmutex] at h ⊢
      exact h
  | leave i | dequeue i conn =>
      have hmutex := hexcl.worker_holds i (by rw [hen.1]; rfl)
      cases hmain
      simp only [Workers.next, ThreadPool.setWorker, hmutex] at h ⊢
      exact h
  | test i | wake i | finish i =>
      cases hmain
      exact h
  | submitPush conn =>
      have hmutex : pool.queueMutex = some (.submitting conn) := hen
      rw [hmutex] at h
      simp only [Workers.next, mainNext] at hmain h ⊢
      grind
  | submitUnlock =>
      have hmutex : pool.queueMutex = some .submitted := hen
      rw [hmutex] at h
      simp only [Workers.next, mainNext] at hmain h ⊢
      grind
  | notifyOne woken =>
      have hpos : 0 < pool.notifying := by
        cases woken with
        | none | some i => exact hen.1
      simp only [mainNext] at hmain
      cases woken with
      | none | some i =>
          simp only [Workers.next, ThreadPool.setWorker] at h ⊢
          grind
  | dtorLock =>
      obtain ⟨-, hmutex⟩ := hen
      rw [hmutex] at h
      simp only [Workers.next, mainNext] at hmain h ⊢
      grind
  | dtorUnlock =>
      have hmutex := hexcl.destructor_holds (.inr hen)
      rw [hmutex] at h
      simp only [Workers.next, mainNext] at hmain h ⊢
      grind
  | dtorSetStop | notifyAll | dtorJoin =>
      simp only [Workers.next, mainNext] at hmain h ⊢
      grind
  | submitLock conn | handle i handler => cases hown

/-- The destructor and the main thread come to their ends together. -/
theorem joined_next {pool : ThreadPool n Conn Handler}
    {b : Workers.Action n Conn Handler} (hen : Workers.enabled handling pool b)
    {main main' : MainPc} (hmain : mainNext main (.pool b) = some main')
    (h : main = .exited ↔ pool.destructor = .joined)
    (hown : ownPoolStep b = true) :
    main' = .exited ↔ (Workers.next handling pool b).destructor = .joined := by
  cases b with
  | dtorLock | dtorSetStop | dtorUnlock | notifyAll | dtorJoin | submitPush conn
  | submitUnlock =>
      simp only [Workers.enabled, Workers.next, mainNext] at hen hmain ⊢
      grind
  | notifyOne woken =>
      simp only [mainNext] at hmain
      cases woken with
      | none | some i =>
          simp only [Workers.next, ThreadPool.setWorker]
          grind
  | lock i | test i | block i | wake i | leave i | dequeue i conn | finish i =>
      cases hmain
      exact h
  | submitLock conn | handle i handler => cases hown

/-- A connection stays where `submit` has put it. -/
theorem pushed_next {pool : ThreadPool n Conn Handler}
    {b : Workers.Action n Conn Handler} (hexcl : Exclusive pool)
    (hen : Workers.enabled handling pool b) {conn : Conn}
    (h : conn ∈ pool.submitted ∨ pool.queueMutex = some (.submitting conn))
    (hown : ownPoolStep b = true) :
    conn ∈ (Workers.next handling pool b).submitted ∨
      (Workers.next handling pool b).queueMutex = some (.submitting conn) := by
  rcases h with hmem | hmutex
  · cases b with
    | submitPush other => exact .inl (List.mem_append_left _ hmem)
    | notifyOne woken =>
        cases woken with
        | none | some i => exact .inl hmem
    | lock i | test i | block i | wake i | leave i | dequeue i other
    | handle i handler | finish i | submitLock other | submitUnlock | dtorLock
    | dtorSetStop | dtorUnlock | notifyAll | dtorJoin => exact .inl hmem
  · cases b with
    | submitPush other =>
        have hsame : pool.queueMutex = some (.submitting other) := hen
        rw [hmutex] at hsame
        cases hsame
        exact .inl (List.mem_append_right _ List.mem_cons_self)
    | block i =>
        have hother := hexcl.worker_holds i (by rw [hen]; rfl)
        rw [hmutex] at hother
        cases hother
    | leave i | dequeue i other =>
        have hother := hexcl.worker_holds i (by rw [hen.1]; rfl)
        rw [hmutex] at hother
        cases hother
    | dtorUnlock =>
        have hother := hexcl.destructor_holds (.inr hen)
        rw [hmutex] at hother
        cases hother
    | lock i | dtorLock =>
        have hfree := hen.2
        rw [hmutex] at hfree
        cases hfree
    | submitUnlock =>
        have hother : pool.queueMutex = some .submitted := hen
        rw [hmutex] at hother
        cases hother
    | notifyOne woken =>
        cases woken with
        | none | some i => exact .inr hmutex
    | test i | wake i | finish i | dtorSetStop | notifyAll | dtorJoin =>
        exact .inr hmutex
    | submitLock other | handle i handler => cases hown

/-- On its way from the loop to the destructor the main thread leaves the pool
alone. -/
theorem MainTracks.leave (h : MainTracks p) {main : MainPc}
    (hbefore : p.main ≠ .submitting ∧ p.main ≠ .exited)
    (hafter : main ≠ .submitting ∧ main ≠ .exited) :
    MainTracks { p with main := main } where
  submitting := by
    have hnone := h.submitting
    rw [if_neg hbefore.1] at hnone
    rw [if_neg hafter.1]
    exact hnone
  exited := iff_of_false hafter.2 (mt h.exited.2 hbefore.2)
  pushed := h.pushed

theorem MainTracks.step {a : Shutdown.Action n} (h : MainTracks p)
    (hexcl : Exclusive p.server.pool)
    (hstep : Shutdown.step cJsonParse p a = some q) : MainTracks q := by
  rcases Shutdown.step_cases hstep with ⟨b, rfl, hmain, hb⟩ | ⟨-, hmain, rfl⟩ |
    ⟨-, hmain, rfl⟩ | ⟨-, hmain, rfl⟩ | ⟨-, -, rfl⟩
  · obtain ⟨server, main⟩ := q
    dsimp only at hmain hb
    cases Serving.step_cases hb with
    | accept hen =>
        have hmutex : p.server.pool.queueMutex = none := hen
        have hwaiting : p.main = .waiting ∧ main = .submitting := by
          simp only [mainNext] at hmain
          grind
        have hnone := h.submitting
        have hexited := h.exited
        rw [hwaiting.1] at hnone hexited
        refine { submitting := ?_, exited := ?_, pushed := ?_ }
        · rw [hwaiting.2]
          simp only [underWay, Workers.next, hmutex] at hnone ⊢
          simpa using hnone
        · rw [hwaiting.2]
          exact iff_of_false (by simp) fun hjoined => by
            simpa using hexited.2 hjoined
        · intro conn hlt
          rcases Nat.lt_succ_iff_lt_or_eq.1 hlt with hold | rfl
          · rcases h.pushed conn hold with hmem | hother
            · exact .inl hmem
            · rw [hmutex] at hother
              cases hother
          · exact .inr rfl
    | pool hown hen =>
        exact
          { submitting := underWay_next hexcl hen hmain h.submitting hown
            exited := joined_next hen hmain h.exited hown
            pushed := fun conn hlt =>
              pushed_next hexcl hen (h.pushed conn hlt) hown }
    | fetch hown hfetch | handle hworker hhandles =>
        cases hmain
        exact ⟨h.submitting, h.exited, h.pushed⟩
  · exact h.leave (by simp [hmain]) (by simp)
  · exact h.leave (by simp [hmain]) (by simp)
  · exact h.leave (by simp [hmain]) (by simp)
  · exact h

/-- The pool of a process. -/
theorem pool_reachable_of_process
    (h : (Shutdown.machine cJsonParse n config).Reachable p) :
    (Workers.machine handling).Reachable p.server.pool :=
  pool_reachable (server_reachable h)

theorem mainTracks_of_reachable
    (h : (Shutdown.machine cJsonParse n config).Reachable p) :
    MainTracks p := by
  apply Machine.ReachableIf.invariant ?_ ?_ h
  · rintro p ⟨⟨hpool, -, haccepted, -⟩, hmain⟩
    refine { submitting := ?_, exited := ?_, pushed := ?_ }
    · rw [hpool, hmain]
      rfl
    · rw [hpool, hmain]
      exact iff_of_false (by simp) (by simp [ThreadPool.new])
    · intro conn hlt
      rw [haccepted] at hlt
      exact absurd hlt (Nat.not_lt_zero _)
  · intro p a q hreach _ hp hstep
    exact hp.step (exclusive_of_reachable (pool_reachable_of_process hreach))
      hstep

end Main

/-! ## Stalled processes -/

section Stalled

variable {cJsonParse : Bytes → Option CJson} {config : SoundConfig} {n : Nat}
  {p q : Process n} {silent : Conn → Bool}

/-- The worker is in `recv` on a connection whose client does not send. -/
def keptWaiting (silent : Conn → Bool) : Worker Handler → Bool
  | .handling { conn := conn, pc := .receiving } => silent conn
  | _ => false

/-- An own step of the process, for which no silent client has to send. -/
def MayStep (silent : Conn → Bool) (p : Process n) (a : Shutdown.Action n) :
    Prop :=
  isOwn a = true ∧ ∀ i env, a = .server (.handle i env) →
    keptWaiting silent (p.server.pool.workers i) = false

/-- Nothing is left to do but for silent clients. -/
def Stalled (cJsonParse : Bytes → Option CJson) (config : SoundConfig)
    (silent : Conn → Bool) (p : Process n) : Prop :=
  (Shutdown.machine cJsonParse n config).Stalled (MayStep silent) p

/-- A step of the pool that is possible and nobody else's is taken. -/
theorem Stalled.not_enabled (h : Stalled cJsonParse config silent p)
    {b : Workers.Action n Conn Handler} (main : MainPc)
    (hown : ownPoolStep b = true) (hgets : ∀ i, b ≠ .wake i)
    (hmain : mainNext p.main (.pool b) = some main) :
    ¬ Workers.enabled handling p.server.pool b := by
  intro hen
  have hpool : (Workers.machine handling).step p.server.pool b =
      some (Workers.next handling p.server.pool b) :=
    Machine.guarded_step_iff.2 ⟨hen, rfl⟩
  have hmay : MayStep silent p (.server (.pool b)) := by
    refine ⟨?_, fun i env heq => by cases heq⟩
    cases b with
    | wake i => exact absurd rfl (hgets i)
    | lock i | test i | block i | leave i | dequeue i conn | handle i handler
    | finish i | submitLock conn | submitPush conn | submitUnlock
    | notifyOne woken | dtorLock | dtorSetStop | dtorUnlock | notifyAll
    | dtorJoin => rfl
  have hnone := h _ hmay
  simp only [Shutdown.machine, Shutdown.step, hmain, Option.bind_some,
    Serving.step, hown, if_true, hpool, Option.map_some] at hnone
  cases hnone

/-- The same for the steps of the workers, which the main thread leaves alone. -/
theorem Stalled.worker_not_enabled (h : Stalled cJsonParse config silent p)
    (i : Fin n) :
    ¬ Workers.enabled handling p.server.pool (.lock i) ∧
      ¬ Workers.enabled handling p.server.pool (.test i) ∧
      ¬ Workers.enabled handling p.server.pool (.block i) ∧
      ¬ Workers.enabled handling p.server.pool (.leave i) ∧
      (∀ conn, ¬ Workers.enabled handling p.server.pool (.dequeue i conn)) ∧
      ¬ Workers.enabled handling p.server.pool (.finish i) :=
  ⟨h.not_enabled _ rfl (by simp) rfl, h.not_enabled _ rfl (by simp) rfl,
    h.not_enabled _ rfl (by simp) rfl, h.not_enabled _ rfl (by simp) rfl,
    fun _ => h.not_enabled _ rfl (by simp) rfl, h.not_enabled _ rfl (by simp) rfl⟩

/-- Every call has ended: nobody else's step could keep it from going on. -/
theorem Stalled.call_ended (h : Stalled cJsonParse config silent p) {k : Nat}
    {call : Call} (hcall : p.server.fetches.calls[k]? = some call) :
    call.pc.status?.isSome = true := by
  have hnone := h (.server (.fetch (.advance k Fetching.sampleUpstream)))
    ⟨rfl, fun i env heq => by cases heq⟩
  simp only [Shutdown.machine, Shutdown.step, mainNext, Option.bind_some,
    Serving.step, ownFetchStep, if_true, Fetching.step, hcall,
    Option.map_eq_none_iff] at hnone
  cases hpc : call.pc with
  | returned entry | failed status => rfl
  | entered | transferring | fetched arrivals | stamped entry | written entry =>
      simp [Fetching.advance, hpc] at hnone

/-- A handler that can go on goes on, unless it waits for a silent client. -/
theorem Stalled.handleNext_eq_none (h : Stalled cJsonParse config silent p)
    {i : Fin n} {handler : Handler}
    (hworker : p.server.pool.workers i = .handling handler)
    (hwaits : keptWaiting silent (.handling handler) = false)
    (env : Environment) :
    handleNext p.server.fetches env handler.pc = none := by
  have hnone := h (.server (.handle i env)) ⟨rfl, by
    intro j env' heq
    cases heq
    rw [hworker]
    exact hwaits⟩
  simpa [Shutdown.machine, Shutdown.step, mainNext, Serving.step, hworker]
    using hnone

/-- The mutex is free: its holder could go on. -/
theorem Stalled.mutex_free (h : Stalled cJsonParse config silent p)
    (hreach : (Shutdown.machine cJsonParse n config).Reachable p) :
    p.server.pool.queueMutex = none := by
  have hpool := pool_reachable_of_process hreach
  have hactive := holderActive_of_reachable hpool
  have htracks := mainTracks_of_reachable hreach
  have hsubmits : ∀ holder, p.server.pool.queueMutex = some holder →
      (holder = .submitted ∨ ∃ conn, holder = .submitting conn) →
      p.main = .submitting := by
    intro holder hmutex hholder
    by_contra hne
    have hcount := htracks.submitting
    rw [if_neg hne, underWay, hmutex] at hcount
    rcases hholder with rfl | ⟨conn, rfl⟩ <;> simp at hcount
  by_contra hheld
  obtain ⟨holder, hmutex⟩ := Option.ne_none_iff_exists'.1 hheld
  cases holder with
  | worker i =>
      have hsection := hactive.worker i hmutex
      obtain ⟨-, htest, hblock, hleave, hdequeue, -⟩ := h.worker_not_enabled i
      cases hworker : p.server.pool.workers i with
      | testing => exact htest hworker
      | sleeping => exact hblock hworker
      | taking =>
          rcases Workers.leave_or_dequeue_enabled hpool hworker with hen | hen
          · exact hleave hen
          · obtain ⟨conn, hen⟩ := hen
            exact hdequeue conn hen
      | outside | blocked | handling handler | returned =>
          rw [hworker] at hsection
          cases hsection
  | submitting conn =>
      have hmain := hsubmits _ hmutex (.inr ⟨conn, rfl⟩)
      exact h.not_enabled (b := .submitPush conn) .submitting rfl
        (by simp) (by simp [mainNext, hmain]) hmutex
  | submitted =>
      have hmain := hsubmits _ hmutex (.inl rfl)
      exact h.not_enabled (b := .submitUnlock) .submitting rfl
        (by simp) (by simp [mainNext, hmain]) hmutex
  | destructor =>
      have hended : p.main = .cacheEnded := by
        have hnot := destructor_of_reachable hreach
        have hexited := htracks.exited
        rcases hactive.destructor hmutex with hd | hd <;>
          rw [hd] at hnot hexited <;>
          cases hmain : p.main <;> simp_all [MainPc.isEnded]
      rcases hactive.destructor hmutex with hd | hd
      · exact h.not_enabled (b := .dtorSetStop) .cacheEnded rfl
          (by simp) (by simp [mainNext, hended]) hd
      · exact h.not_enabled (b := .dtorUnlock) .cacheEnded rfl
          (by simp) (by simp [mainNext, hended]) hd

/-- The main thread is in `epoll_wait`, has exited, or joins the workers. -/
theorem Stalled.main_rests (h : Stalled cJsonParse config silent p)
    (hreach : (Shutdown.machine cJsonParse n config).Reachable p) :
    p.main = .waiting ∨ p.main = .exited ∨
      p.main = .cacheEnded ∧ p.server.pool.destructor = .joining := by
  have hmutex := h.mutex_free hreach
  have htracks := mainTracks_of_reachable hreach
  cases hmain : p.main with
  | waiting => exact .inl rfl
  | exited => exact .inr (.inl rfl)
  | submitting =>
      -- the mutex is free, so the `submit` has only to notify
      have hcount := htracks.submitting
      rw [if_pos hmain, underWay, hmutex] at hcount
      dsimp only at hcount
      have hpos : 0 < p.server.pool.notifying := by omega
      exfalso
      by_cases hblocked : ∃ i, p.server.pool.workers i = .blocked
      · obtain ⟨i, hi⟩ := hblocked
        exact h.not_enabled (b := .notifyOne (some i)) .waiting rfl
          (by simp) (by simp [mainNext, hmain]) ⟨hpos, hi⟩
      · refine h.not_enabled (b := .notifyOne none) .waiting rfl
          (by simp) (by simp [mainNext, hmain]) ⟨hpos, fun i => ?_⟩
        cases hi : p.server.pool.workers i with
        | blocked => exact absurd ⟨i, hi⟩ hblocked
        | outside | testing | sleeping | taking | handling handler
        | returned => rfl
  | failed =>
      have hnone := h .curlGlobalCleanup ⟨rfl, fun i env heq => by cases heq⟩
      simp [Shutdown.machine, Shutdown.step, hmain] at hnone
  | curlCleaned =>
      have hnone := h .endCache ⟨rfl, fun i env heq => by cases heq⟩
      simp [Shutdown.machine, Shutdown.step, hmain] at hnone
  | cacheEnded =>
      refine .inr (.inr ⟨rfl, ?_⟩)
      have hnotified : mainNext (n := n) p.main (.pool .dtorLock) =
          some .cacheEnded := by
        simp [mainNext, hmain]
      cases hd : p.server.pool.destructor with
      | joining => rfl
      | notCalled =>
          exact absurd ⟨hd, hmutex⟩
            (h.not_enabled (b := .dtorLock) _ rfl (by simp) hnotified)
      | locked =>
          exact absurd hd (h.not_enabled (b := .dtorSetStop)
            .cacheEnded rfl (by simp) (by simp [mainNext, hmain]))
      | stopSet =>
          exact absurd hd (h.not_enabled (b := .dtorUnlock)
            .cacheEnded rfl (by simp) (by simp [mainNext, hmain]))
      | unlocked =>
          exact absurd hd (h.not_enabled (b := .notifyAll)
            .cacheEnded rfl (by simp) (by simp [mainNext, hmain]))
      | joined =>
          have hexited := htracks.exited.2 hd
          rw [hmain] at hexited
          cases hexited

/-- Every worker sleeps, has returned, or waits for a silent client. -/
theorem Stalled.worker_rests (h : Stalled cJsonParse config silent p)
    (hreach : (Shutdown.machine cJsonParse n config).Reachable p) (i : Fin n) :
    p.server.pool.workers i = .blocked ∨
      p.server.pool.workers i = .returned ∨
      keptWaiting silent (p.server.pool.workers i) = true := by
  have hmutex := h.mutex_free hreach
  obtain ⟨hlock, -, -, -, -, hfinish⟩ := h.worker_not_enabled i
  have hsection : (p.server.pool.workers i).inSection = false := by
    by_contra hin
    have hheld := (exclusive_of_reachable
      (pool_reachable_of_process hreach)).worker_holds i
      (Bool.not_eq_false _ ▸ hin)
    rw [hmutex] at hheld
    cases hheld
  cases hworker : p.server.pool.workers i with
  | outside => exact absurd ⟨hworker, hmutex⟩ hlock
  | testing | sleeping | taking => rw [hworker] at hsection; cases hsection
  | blocked => exact .inl rfl
  | returned => exact .inr (.inl rfl)
  | handling handler =>
      refine .inr (.inr ?_)
      by_contra hwaits
      have hnone := h.handleNext_eq_none hworker (Bool.not_eq_true _ ▸ hwaits)
        { packet := none, beyond := [], delivered := true }
      cases hpc : handler.pc with
      | receiving | lookingUp request | hitStale request arrivals
      | missed request | replying apiStatus arrivals | closing =>
          rw [hpc] at hnone
          cases hnone
      | awaiting k =>
          -- the call that it waits for has ended
          have hfits := (recorded_of_reachable (server_reachable hreach)).handled
            i handler hworker
          rw [hpc] at hfits hnone
          generalize p.server.journal handler.conn = events at hfits
          cases hfits with
          | @awaiting packet request now k call hreq hcall hstop =>
              have hended := h.call_ended hcall
              simp only [handleNext, hcall, Option.map_some] at hnone
              cases hcallPc : call.pc with
              | returned entry | failed status => simp [hcallPc] at hnone
              | entered | transferring | fetched arrivals | stamped entry
              | written entry => rw [hcallPc] at hended; cases hended
      | closed =>
          apply hfinish
          show (p.server.pool.workers i).isDone handling = true
          rw [hworker]
          exact decide_eq_true hpc

/-! ## Few silent clients -/

/-- The connection that a worker keeps open for a silent client. -/
def keptOpen (silent : Conn → Bool) (w : Worker Handler) : Option Conn :=
  match w with
  | .handling handler =>
      if keptWaiting silent (.handling handler) then some handler.conn else none
  | _ => none

theorem keptOpen_eq_some {w : Worker Handler} {conn : Conn}
    (h : keptOpen silent w = some conn) :
    ∃ handler, w = .handling handler ∧ handler.conn = conn ∧
      silent conn = true := by
  cases w with
  | handling handler =>
      unfold keptOpen at h
      dsimp only at h
      split at h
      · rename_i hkept
        obtain ⟨conn', pc⟩ := handler
        cases h
        refine ⟨_, rfl, rfl, ?_⟩
        cases pc with
        | receiving => exact hkept
        | lookingUp request | hitStale request arrivals | missed request
        | awaiting k | replying apiStatus arrivals | closing | closed =>
            cases hkept
      · cases h
  | outside | testing | sleeping | blocked | taking | returned => cases h

theorem keptWaiting_eq_any (w : Worker Handler) :
    keptWaiting silent w = (keptOpen silent w).any silent := by
  cases w with
  | handling handler =>
      obtain ⟨conn, pc⟩ := handler
      cases pc with
      | receiving =>
          cases hsilent : silent conn <;>
            simp [keptOpen, keptWaiting, hsilent]
      | lookingUp request | hitStale request arrivals | missed request
      | awaiting k | replying apiStatus arrivals | closing | closed => rfl
  | outside | testing | sleeping | blocked | taking | returned => rfl

theorem handling_of_keptWaiting {w : Worker Handler}
    (h : keptWaiting silent w = true) :
    ∃ handler, w = .handling handler ∧ silent handler.conn = true := by
  rw [keptWaiting_eq_any] at h
  obtain ⟨conn, hconn, hsilent⟩ := (Option.any_eq_true _ _).1 h
  obtain ⟨handler, hhandler, rfl, -⟩ := keptOpen_eq_some hconn
  exact ⟨handler, hhandler, hsilent⟩

/-- No more workers are kept waiting than there are silent connections. -/
theorem tally_keptWaiting_le {guard : UdsServer n → Serving.Action n → Prop}
    {s : UdsServer n} (silent : Conn → Bool)
    (h : (Serving.machine cJsonParse n config).ReachableIf guard s) :
    tally (keptWaiting silent) s.pool.workers ≤
      Nat.count (fun conn => silent conn = true) s.accepted := by
  have hnum := numbered_of_reachable h
  have hfifo := fifo_of_reachable (pool_reachable h)
  have hlt : ∀ i conn, keptOpen silent (s.pool.workers i) = some conn →
      conn < s.accepted := by
    intro i conn hconn
    obtain ⟨handler, hworker, rfl, -⟩ := keptOpen_eq_some hconn
    have howned := owned_of_handling h hnum hworker
    apply hnum.lt_accepted
    rw [hfifo]
    exact List.mem_append_left _ howned.dequeued
  have hone : ∀ i j conn, keptOpen silent (s.pool.workers i) = some conn →
      keptOpen silent (s.pool.workers j) = some conn → i = j := by
    intro i j conn hi hj
    obtain ⟨handler, hworker, rfl, -⟩ := keptOpen_eq_some hi
    obtain ⟨other, hother, hsame, -⟩ := keptOpen_eq_some hj
    exact ((owned_of_handling h hnum hworker).unique j other hother hsame).symm
  have hheld := tally_held_add silent hlt hone
  have hsame : tally (keptWaiting silent) s.pool.workers =
      tally (fun conn? => conn?.any silent)
        (fun i => keptOpen silent (s.pool.workers i)) := by
    simp only [tally, keptWaiting_eq_any]
  rw [hsame, ← hheld]
  exact Nat.le_add_right _ _

/-- Everybody has been served but the silent clients, and the main thread is in
`epoll_wait` again. -/
structure Served (silent : Conn → Bool) (p : Process n) : Prop where
  queue : p.server.pool.taskQueue = []
  handled : ∀ conn < p.server.accepted, silent conn = false →
    conn ∈ p.server.pool.finished ∧
      (p.server.journal conn).count .closed = 1
  fetched : ∀ (k : Nat) (call : Call),
    p.server.fetches.calls[k]? = some call → call.pc.status?.isSome = true
  main : p.main = .waiting

/-- A worker that is not kept waiting rests over an empty queue. -/
theorem Stalled.taskQueue_eq_nil (h : Stalled cJsonParse config silent p)
    (hreach : (Shutdown.machine cJsonParse n config).Reachable p) {i : Fin n}
    (hi : keptWaiting silent (p.server.pool.workers i) = false) :
    p.server.pool.taskQueue = [] := by
  rcases h.worker_rests hreach i with hblocked | hreturned | hkept
  · have hcovered := Wakeups.covered_of_reachable
      (pool_reachable_of_process hreach)
    have hmutex := h.mutex_free hreach
    have hnobody : p.server.pool.awakeCount = 0 := by
      refine tally_eq_zero_iff.2 fun j => ?_
      rcases h.worker_rests hreach j with hj | hj | hj
      · rw [hj]
        rfl
      · rw [hj]
        rfl
      · obtain ⟨handler, hhandler, -⟩ := handling_of_keptWaiting hj
        rw [hhandler]
        rfl
    have hnotified : p.server.pool.notifying = 0 := by
      have hcount := (mainTracks_of_reachable hreach).submitting
      have hmain : p.main ≠ .submitting := by
        rcases h.main_rests hreach with hm | hm | ⟨hm, -⟩ <;> simp [hm]
      rw [if_neg hmain, underWay] at hcount
      omega
    have hsleeps : 0 < p.server.pool.blockedCount :=
      tally_pos (i := i) (by rw [hblocked]; rfl)
    have hlen := hcovered hsleeps
    rw [hnobody, ThreadPool.pushedNotNotified, hnotified, hmutex] at hlen
    dsimp only at hlen
    exact List.length_eq_zero_iff.1 (by omega)
  · exact taskQueue_of_returned hreach hreturned
  · rw [hi] at hkept
    cases hkept

/-- **Where the server comes to rest.**  With fewer silent clients than workers,
nothing else is left undone in a stalled state of a server that runs. -/
theorem served_of_stalled
    (hreach : (Shutdown.machine cJsonParse n config).Reachable p)
    (hruns : p.main = .waiting ∨ p.main = .submitting)
    (hfew : Nat.count (fun conn => silent conn = true) p.server.accepted < n)
    (h : Stalled cJsonParse config silent p) : Served silent p := by
  have hserver := server_reachable hreach
  have hpool := pool_reachable hserver
  have htally := tally_keptWaiting_le silent hserver
  have hsum := tally_add_tally_not (keptWaiting silent) p.server.pool.workers
  obtain ⟨i, hi⟩ := exists_of_tally_pos
    (p := fun w => !keptWaiting silent w) (f := p.server.pool.workers)
    (by omega)
  have hqueue := h.taskQueue_eq_nil hreach (i := i) (by simpa using hi)
  have hmutex := h.mutex_free hreach
  refine { queue := hqueue, handled := ?_, fetched := ?_, main := ?_ }
  · intro conn hlt hspeaks
    have hsubmitted : conn ∈ p.server.pool.submitted := by
      rcases (mainTracks_of_reachable hreach).pushed conn hlt with hmem | hheld
      · exact hmem
      · rw [hmutex] at hheld
        cases hheld
    have hnobody : tally (holds handling conn) p.server.pool.workers = 0 := by
      refine tally_eq_zero_iff.2 fun j => decide_eq_false fun hmem => ?_
      rcases h.worker_rests hreach j with hj | hj | hj
      · rw [hj] at hmem
        cases hmem
      · rw [hj] at hmem
        cases hmem
      · obtain ⟨handler, hhandler, hsilent⟩ := handling_of_keptWaiting hj
        rw [hhandler] at hmem
        have hsame : conn = handler.conn := List.mem_singleton.1 hmem
        rw [hsame, hsilent] at hspeaks
        cases hspeaks
    have hcount := count_submitted hpool conn
    have hpos := List.count_pos_iff.2 hsubmitted
    rw [hqueue, hnobody, List.count_nil] at hcount
    have hfinished : conn ∈ p.server.pool.finished :=
      List.count_pos_iff.1 (by omega)
    exact ⟨hfinished, Connections.closed_once_of_fits
      ((recorded_of_reachable hserver).finished conn hfinished)⟩
  · intro k call hcall
    exact h.call_ended hcall
  · rcases h.main_rests hreach with hmain | hmain | ⟨hmain, -⟩
    · exact hmain
    · rcases hruns with hruns | hruns <;> rw [hmain] at hruns <;> cases hruns
    · rcases hruns with hruns | hruns <;> rw [hmain] at hruns <;> cases hruns

/-- An own step accepts no connection. -/
theorem accepted_of_mayStep {a : Shutdown.Action n} (hmay : MayStep silent p a)
    (hstep : Shutdown.step cJsonParse p a = some q) :
    q.server.accepted = p.server.accepted := by
  refine accepted_eq ?_ hstep
  rintro rfl
  cases hmay.1

theorem accepted_of_leadsTo
    (hlead : (Shutdown.machine cJsonParse n config).LeadsTo (MayStep silent)
      p q) : q.server.accepted = p.server.accepted := by
  induction hlead with
  | refl => rfl
  | step _ hmay hstep ih => exact (accepted_of_mayStep hmay hstep).trans ih

/-- The server goes on running: `epoll_wait` fails in no own step. -/
theorem runs_of_leadsTo
    (hlead : (Shutdown.machine cJsonParse n config).LeadsTo (MayStep silent)
      p q) (hruns : p.main = .waiting ∨ p.main = .submitting) :
    q.main = .waiting ∨ q.main = .submitting := by
  induction hlead with
  | refl => exact hruns
  | step _ hmay hstep ih =>
      refine Shutdown.main_stays ?_ hstep ih
      rintro rfl
      cases hmay.1

/-- **The service completes.**  A server that runs, left alone with fewer silent
clients than workers, comes to rest after a bounded number of steps, in whatever
order its threads go on, and then everybody else has been served. -/
theorem service_completes
    (hreach : (Shutdown.machine cJsonParse n config).Reachable p)
    (hruns : p.main = .waiting ∨ p.main = .submitting)
    (hfew : Nat.count (fun conn => silent conn = true) p.server.accepted < n) :
    (∃ q, (Shutdown.machine cJsonParse n config).LeadsTo (MayStep silent) p q ∧
        Served silent q) ∧
      ∀ l q, (Shutdown.machine cJsonParse n config).Path (MayStep silent)
          p l q →
        l.length ≤ processRank p ∧
          (Stalled cJsonParse config silent q → Served silent q) := by
  have hown : ∀ (s : Process n) a, MayStep silent s a →
      True ∧ isOwn a = true := fun s a h => ⟨trivial, h.1⟩
  have hserved : ∀ q, (Shutdown.machine cJsonParse n config).LeadsTo
      (MayStep silent) p q → Stalled cJsonParse config silent q →
      Served silent q := by
    intro q hlead hstalled
    have haccepted := accepted_of_leadsTo hlead
    exact served_of_stalled (hreach.trans (hlead.mono fun _ _ _ => trivial))
      (runs_of_leadsTo hlead hruns) (haccepted ▸ hfew) hstalled
  refine ⟨?_, ?_⟩
  · obtain ⟨q, hlead, hstalled⟩ :=
      processPotential.exists_stalled hown hreach
    exact ⟨q, hlead, hserved q hlead hstalled⟩
  · intro l q hpath
    have hlen := processPotential.length_le hown hreach hpath
    exact ⟨by omega, hserved q hpath.leadsTo⟩

end Stalled

/-! ## Many silent clients -/

section Starved

variable {cJsonParse : Bytes → Option CJson} {config : SoundConfig} {n : Nat}
  {p q : Process n} {silent : Conn → Bool}

/-- Any step, as long as the silent clients are silent. -/
def StaysSilent (silent : Conn → Bool) (p : Process n)
    (a : Shutdown.Action n) : Prop :=
  ∀ i env, a = .server (.handle i env) →
    keptWaiting silent (p.server.pool.workers i) = false

/-- Every worker is kept waiting, no connection has been dequeued since `p`, what
was queued is queued still, and nothing has been recorded on any connection. -/
structure Starved (silent : Conn → Bool) (p q : Process n) : Prop where
  workers : ∀ i, keptWaiting silent (q.server.pool.workers i) = true
  dequeued : q.server.pool.dequeued = p.server.pool.dequeued
  queued : p.server.pool.taskQueue <+: q.server.pool.taskQueue
  journal : q.server.journal = p.server.journal

/-- A worker that is kept waiting is in `recv` whatever the pool does. -/
theorem keptWaiting_next {pool : ThreadPool n Conn Handler}
    {b : Workers.Action n Conn Handler} (hown : ownPoolStep b = true)
    (hen : Workers.enabled handling pool b) {j : Fin n}
    (hj : keptWaiting silent (pool.workers j) = true) :
    (Workers.next handling pool b).workers j = pool.workers j := by
  rcases worker_cases hen j with hsame | hmoved
  · exact hsame
  · exfalso
    generalize hold : pool.workers j = old at hmoved hj
    generalize (Workers.next handling pool b).workers j = new at hmoved
    cases hmoved with
    | handle htask => cases hown
    | @finish handler hfinished =>
        obtain ⟨conn, pc⟩ := handler
        have hclosed : pc = .closed := of_decide_eq_true hfinished
        rw [hclosed] at hj
        cases hj
    | lock | found | notFound | block | wake | leave | dequeue task
    | notifyOne | notifyAll => cases hj

/-- Only dequeuing takes a connection from the queue. -/
theorem queue_kept_next (pool : ThreadPool n Conn Handler)
    {b : Workers.Action n Conn Handler} (h : ∀ i conn, b ≠ .dequeue i conn) :
    (Workers.next handling pool b).dequeued = pool.dequeued ∧
      pool.taskQueue <+: (Workers.next handling pool b).taskQueue := by
  cases b with
  | dequeue i conn => exact absurd rfl (h i conn)
  | submitPush conn => exact ⟨rfl, List.prefix_append _ _⟩
  | notifyOne woken =>
      cases woken with
      | none | some i => exact ⟨rfl, List.prefix_rfl⟩
  | lock i | test i | block i | wake i | leave i | handle i handler | finish i
  | submitLock conn | submitUnlock | dtorLock | dtorSetStop | dtorUnlock
  | notifyAll | dtorJoin => exact ⟨rfl, List.prefix_rfl⟩

theorem Starved.step {r : Process n} {a : Shutdown.Action n}
    (h : Starved silent p q) (hsilent : StaysSilent silent q a)
    (hstep : Shutdown.step cJsonParse q a = some r) :
    Starved silent p r := by
  have hsame : Starved silent p { r with server := q.server } :=
    ⟨h.workers, h.dequeued, h.queued, h.journal⟩
  rcases Shutdown.step_cases hstep with ⟨b, rfl, -, hb⟩ | ⟨-, -, rfl⟩ |
    ⟨-, -, rfl⟩ | ⟨-, -, rfl⟩ | ⟨-, -, rfl⟩
  · obtain ⟨server, main⟩ := r
    dsimp only at hb
    cases Serving.step_cases hb with
    | accept hen | fetch hown hfetch =>
        exact ⟨h.workers, h.dequeued, h.queued, h.journal⟩
    | @pool b hown hen =>
        have hother : ∀ i conn, b ≠ .dequeue i conn := by
          rintro i conn rfl
          have hi := h.workers i
          rw [hen.1] at hi
          cases hi
        obtain ⟨hdequeued, hqueued⟩ := queue_kept_next q.server.pool hother
        refine
          { workers := ?_, dequeued := hdequeued.trans h.dequeued
            queued := h.queued.trans hqueued, journal := h.journal }
        intro i
        show keptWaiting silent
          ((Workers.next handling q.server.pool b).workers i) = true
        rw [keptWaiting_next hown hen (h.workers i)]
        exact h.workers i
    | @handle i env handler pc fetches events hworker hhandles =>
        have hi := hsilent i env rfl
        rw [h.workers i] at hi
        cases hi
  all_goals exact hsame

/-- **The service stops.**  While every worker waits for a silent client, nothing
is dequeued and nothing happens to any connection, whatever else goes on. -/
theorem starved_forever
    (h : ∀ i, keptWaiting silent (p.server.pool.workers i) = true)
    (hlead : (Shutdown.machine cJsonParse n config).LeadsTo
      (StaysSilent silent) p q) : Starved silent p q := by
  induction hlead with
  | refl => exact ⟨h, rfl, List.prefix_rfl, rfl⟩
  | step _ hsilent hstep ih => exact ih.step hsilent hstep

/-! ## How that comes about -/

/-- The first `k` connections are in the hands of the first `k` workers, who wait
for their requests. -/
def occupied (config : SoundConfig) (n k : Nat) : Process n where
  server :=
    { pool :=
        { queueMutex := none
          taskQueue := []
          stop := false
          workers := fun i =>
            if i.val < k then .handling { conn := i.val, pc := .receiving }
            else .outside
          notifying := 0
          destructor := .notCalled
          submitted := List.range k
          dequeued := List.range k
          finished := [] }
      fetches :=
        { now := Fetching.sampleStart.now
          cache := UdsCache.new (some config.toCacheConfig)
          calls := [] }
      accepted := k
      journal := fun _ => [] }
  main := .waiting

/-- A step of the pool that is possible for the process. -/
theorem process_step {b : Workers.Action n Conn Handler} {main : MainPc}
    (hown : ownPoolStep b = true)
    (hmain : mainNext p.main (.pool b) = some main)
    (hen : Workers.enabled handling p.server.pool b) :
    (Shutdown.machine cJsonParse n config).step p (.server (.pool b)) =
      some { server := { p.server with
          pool := Workers.next handling p.server.pool b }, main := main } := by
  have hpool : (Workers.machine handling).step p.server.pool b =
      some (Workers.next handling p.server.pool b) :=
    Machine.guarded_step_iff.2 ⟨hen, rfl⟩
  simp only [Shutdown.machine, Shutdown.step, hmain, Option.bind_some,
    Serving.step, hown, if_true, hpool, Option.map_some]

/-- The main thread accepts a connection. -/
theorem accept_step (hmain : p.main = .waiting)
    (hen : Workers.enabled handling p.server.pool
      (.submitLock p.server.accepted)) :
    (Shutdown.machine cJsonParse n config).step p (.server .accept) =
      some { server := { p.server with
          pool := Workers.next handling p.server.pool
            (.submitLock p.server.accepted)
          accepted := p.server.accepted + 1 }, main := .submitting } := by
  have hpool : (Workers.machine handling).step p.server.pool
      (.submitLock p.server.accepted) =
        some (Workers.next handling p.server.pool
          (.submitLock p.server.accepted)) :=
    Machine.guarded_step_iff.2 ⟨hen, rfl⟩
  simp only [Shutdown.machine, Shutdown.step, mainNext, hmain, if_true,
    Option.bind_some, Serving.step, hpool, Option.map_some]

/-- The state after a connection has been submitted over workers none of whom
sleeps. -/
def submitted (p : Process n) : Process n where
  server := { p.server with
    pool := { p.server.pool with
      taskQueue := p.server.pool.taskQueue ++ [p.server.accepted]
      submitted := p.server.pool.submitted ++ [p.server.accepted] }
    accepted := p.server.accepted + 1 }
  main := .waiting

theorem submitted_reachable
    (h : (Shutdown.machine cJsonParse n config).Reachable p)
    (hmain : p.main = .waiting) (hmutex : p.server.pool.queueMutex = none)
    (hnotifying : p.server.pool.notifying = 0)
    (hawake : ∀ i, (p.server.pool.workers i).isBlocked = false) :
    (Shutdown.machine cJsonParse n config).Reachable (submitted p) := by
  obtain ⟨⟨pool, fetches, accepted, journal⟩, main⟩ := p
  obtain ⟨queueMutex, taskQueue, stop, workers, notifying, destructor, pushed,
    dequeued, finished⟩ := pool
  cases hmutex
  cases hnotifying
  have haccepted := h.step (accept_step hmain rfl)
  have hpushed := haccepted.step
    (process_step (b := .submitPush accepted) rfl rfl rfl)
  have hunlocked := hpushed.step (process_step (b := .submitUnlock) rfl rfl rfl)
  exact hunlocked.step
    (process_step (b := .notifyOne none) rfl rfl ⟨Nat.one_pos, hawake⟩)

/-- The state after worker `i` has taken the only queued connection. -/
def taken (p : Process n) (i : Fin n) (conn : Conn) : Process n where
  server := { p.server with
    pool := { p.server.pool with
      taskQueue := []
      workers := Function.update p.server.pool.workers i
        (.handling { conn := conn, pc := .receiving })
      dequeued := p.server.pool.dequeued ++ [conn] } }
  main := p.main

theorem taken_reachable
    (h : (Shutdown.machine cJsonParse n config).Reachable p)
    (hmutex : p.server.pool.queueMutex = none) {i : Fin n} {conn : Conn}
    (houtside : p.server.pool.workers i = .outside)
    (hqueue : p.server.pool.taskQueue = [conn]) :
    (Shutdown.machine cJsonParse n config).Reachable (taken p i conn) := by
  obtain ⟨⟨pool, fetches, accepted, journal⟩, main⟩ := p
  obtain ⟨queueMutex, taskQueue, stop, workers, notifying, destructor, pushed,
    dequeued, finished⟩ := pool
  cases hmutex
  cases hqueue
  have hlocked := h.step
    (process_step (b := .lock i) rfl rfl ⟨houtside, rfl⟩)
  have htested := hlocked.step
    (process_step (b := .test i) rfl rfl (Function.update_self _ _ _))
  have hready : (stop || !([conn] : List Conn).isEmpty) = true := by simp
  have htaken := htested.step (process_step (b := .dequeue i conn) rfl rfl
    ⟨(Function.update_self _ _ _).trans (if_pos hready), rfl⟩)
  simp only [Workers.next, ThreadPool.setWorker, Function.update_idem]
    at htaken
  exact htaken

/-- One more worker waits for a request. -/
theorem occupied_succ {k : Nat} (hk : k < n)
    (h : (Shutdown.machine cJsonParse n config).Reachable
      (occupied config n k)) :
    (Shutdown.machine cJsonParse n config).Reachable
      (occupied config n (k + 1)) := by
  have hawake : ∀ j, ((occupied config n k).server.pool.workers j).isBlocked =
      false := by
    intro j
    simp only [occupied]
    split <;> rfl
  have houtside : (occupied config n k).server.pool.workers ⟨k, hk⟩ =
      .outside :=
    if_neg (Nat.lt_irrefl k)
  have htaken := taken_reachable
    (submitted_reachable h rfl rfl rfl hawake) rfl houtside rfl
  have hworkers : (fun i : Fin n =>
        if i.val < k + 1 then
          Worker.handling { conn := i.val, pc := .receiving }
        else .outside) =
      Function.update (occupied config n k).server.pool.workers ⟨k, hk⟩
        (.handling { conn := k, pc := .receiving }) := by
    funext j
    by_cases hj : j = ⟨k, hk⟩
    · subst hj
      rw [Function.update_self, if_pos (Nat.lt_succ_self k)]
    · rw [Function.update_of_ne hj]
      have hne : j.val ≠ k := fun heq => hj (Fin.ext heq)
      have hiff : j.val < k + 1 ↔ j.val < k := by omega
      simp only [occupied, hiff]
  simp only [occupied, List.range_succ, hworkers]
  exact htaken

theorem occupied_reachable {k : Nat} (hk : k ≤ n) :
    (Shutdown.machine cJsonParse n config).Reachable
      (occupied config n k) := by
  induction k with
  | zero => exact .start ⟨⟨rfl, ⟨rfl, rfl⟩, rfl, rfl⟩, rfl⟩
  | succ k ih => exact occupied_succ hk (ih (Nat.le_of_lt hk))

/-- **As many silent clients as workers are enough.**  For every number of
workers there is a run after which the connection of a further client stays in
the queue for ever, if the others stay silent: whatever else goes on, nothing is
dequeued any more and nothing is recorded on any connection. -/
theorem silent_clients_starve (cJsonParse : Bytes → Option CJson)
    (config : SoundConfig) (n : Nat) :
    ∃ p : Process n,
      (Shutdown.machine cJsonParse n config).Reachable p ∧
        p.main = .waiting ∧ p.server.accepted = n + 1 ∧
        n ∈ p.server.pool.taskQueue ∧
        ∀ q, (Shutdown.machine cJsonParse n config).LeadsTo
            (StaysSilent fun conn => decide (conn < n)) p q →
          Starved (fun conn => decide (conn < n)) p q := by
  let silent : Conn → Bool := fun conn => decide (conn < n)
  have hoccupied : (Shutdown.machine cJsonParse n config).Reachable
      (occupied config n n) :=
    occupied_reachable (Nat.le_refl n)
  have hworkers : ∀ i : Fin n, (occupied config n n).server.pool.workers i =
      .handling { conn := i.val, pc := .receiving } := fun i => if_pos i.isLt
  have hreach := submitted_reachable hoccupied rfl rfl rfl fun i => by
    rw [hworkers i]
    rfl
  have hkept : ∀ i, keptWaiting silent
      ((submitted (occupied config n n)).server.pool.workers i) = true := by
    intro i
    show keptWaiting silent ((occupied config n n).server.pool.workers i) = true
    rw [hworkers i]
    exact decide_eq_true i.isLt
  exact ⟨_, hreach, rfl, rfl, List.mem_append_right _ List.mem_cons_self,
    fun q hlead => starved_forever hkept hlead⟩

end Starved

/-- A connection in the queue of a server with one worker, which has time. -/
theorem service_completes_queued :
    ∃ p q : Process 1,
      (Shutdown.machine Fetching.sampleParse 1 Fetching.sampleConfig).Reachable
          p ∧
        p.server.pool.taskQueue = [0] ∧
        (Shutdown.machine Fetching.sampleParse 1 Fetching.sampleConfig).LeadsTo
          (MayStep fun _ => false) p q ∧
        Served (fun _ => false) q := by
  have hoccupied : (Shutdown.machine Fetching.sampleParse 1
      Fetching.sampleConfig).Reachable (occupied Fetching.sampleConfig 1 0) :=
    occupied_reachable (Nat.zero_le 1)
  have hreach := submitted_reachable hoccupied rfl rfl rfl fun i => rfl
  have hfew : Nat.count (fun conn => (fun _ : Conn => false) conn = true)
      (submitted (occupied Fetching.sampleConfig 1 0)).server.accepted < 1 := by
    decide
  obtain ⟨q, hlead, hserved⟩ := (service_completes hreach (.inl rfl) hfew).1
  exact ⟨_, q, hreach, rfl, hlead, hserved⟩

end BkkApi.Server.Progress
