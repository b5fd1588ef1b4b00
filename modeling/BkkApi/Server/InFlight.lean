import BkkApi.Server.Transcript

/-!
# Upstream fetches in progress

A worker that misses waits for its own fetch, so misses alone keep at most as
many fetches in progress as there are workers.  A stale hit does not wait: its
fetch goes on in a detached thread, and the worker takes the next connection.

Every fetch in progress has one worker that waits for it, or none and then runs
in a detached thread (`waiting_add_refreshing`).  While no worker goes on after a
stale hit there are none of the latter (`allAwaited_of_reachable`), and the
workers bound the fetches (`inFlight_le_of_noRefresh`).
-/

namespace BkkApi.Server.InFlight

open BkkApi.Verified.CData
open BkkApi.Verified.Run
open BkkApi.Verified.Tally
open BkkApi.Server.Protocol
open BkkApi.Server.ResponseParser
open BkkApi.Server.Cache
open BkkApi.Server.Fetching (Fetches Call Advance)
open BkkApi.Server.HandleClient
open BkkApi.Server.Workers (ThreadPool Worker)
open BkkApi.Server.Serving
open BkkApi.Server.Transcript

variable {n : Nat}

/-! ## Counting fetches -/

/-- From the beginning of `fresh_fetch_and_update_cache` to the return of
`get_arrivals_for_station`. -/
def isFetching (call : Call) : Bool :=
  match call.pc with
  | .entered | .transferring => true
  | _ => false

/-- Fetches in progress, by workers and in detached threads. -/
def inFlight (fetches : Fetches) : Nat :=
  fetches.calls.countP isFetching

/-- Call `k` is a fetch in progress. -/
def fetchingAt (fetches : Fetches) (k : Nat) : Bool :=
  (fetches.calls[k]?).any isFetching

/-- The call that a worker waits for. -/
def awaited : Worker Handler → Option Nat
  | .handling { pc := .awaiting k, .. } => some k
  | _ => none

/-- The worker waits for a fetch in progress. -/
def isWaiting (fetches : Fetches) (w : Worker Handler) : Bool :=
  (awaited w).any (fetchingAt fetches)

/-- Workers that wait for a fetch in progress. -/
def waiting (s : UdsServer n) : Nat :=
  tally (isWaiting s.fetches) s.pool.workers

/-- Fetches in progress in detached threads, for which no worker waits. -/
def refreshing (s : UdsServer n) : Nat :=
  Nat.count (fun k => fetchingAt s.fetches k = true ∧
    ∀ i, awaited (s.pool.workers i) ≠ some k) s.fetches.calls.length

/-! ## Who waits for what -/

/-- Workers wait for calls that there are, and no two for the same one. -/
structure AwaitsAlone (s : UdsServer n) : Prop where
  lt : ∀ i k, awaited (s.pool.workers i) = some k →
    k < s.fetches.calls.length
  unique : ∀ i j k, awaited (s.pool.workers i) = some k →
    awaited (s.pool.workers j) = some k → i = j

/-- Every fetch in progress is waited for by a worker or by none. -/
theorem waiting_add_refreshing {s : UdsServer n} (h : AwaitsAlone s) :
    waiting s + refreshing s = inFlight s.fetches := by
  unfold inFlight
  rw [countP_eq_count]
  exact tally_held_add (fetchingAt s.fetches) h.lt h.unique

/-- No more workers wait than there are. -/
theorem waiting_le (s : UdsServer n) : waiting s ≤ n := by
  have hworkers := tally_add_tally_not (isWaiting s.fetches) s.pool.workers
  unfold waiting
  omega

theorem handling_of_awaited {w : Worker Handler} {k : Nat}
    (h : awaited w = some k) :
    ∃ conn, w = .handling { conn := conn, pc := .awaiting k } := by
  cases w with
  | handling handler =>
      obtain ⟨conn, pc⟩ := handler
      cases pc with
      | awaiting j => cases h; exact ⟨conn, rfl⟩
      | receiving | lookingUp | hitStale | missed | replying | closing
      | closed => cases h
  | outside | testing | sleeping | blocked | taking | returned => cases h

/-- No step of the pool makes a worker wait for a call. -/
theorem awaited_of_next {p : ThreadPool n Conn Handler}
    {b : Workers.Action n Conn Handler} (hown : ownPoolStep b = true)
    (hen : Workers.enabled handling p b) {i : Fin n} {k : Nat}
    (h : awaited ((Workers.next handling p b).workers i) = some k) :
    awaited (p.workers i) = some k := by
  obtain ⟨conn, hworker⟩ := handling_of_awaited h
  rcases handling_of_next hown hen hworker with hold | ⟨conn', rfl, hentered⟩
  · rw [hold]
    rfl
  · cases hentered

/-- A handler begins to wait by entering the last call. -/
theorem length_of_awaiting {fetches fetches' : Fetches} {env : Environment}
    {pc : Pc} {k : Nat} {events : List Event}
    (h : Handles fetches env pc (.awaiting k) fetches' events) :
    k = fetches.calls.length ∧
      fetches'.calls.length = fetches.calls.length + 1 := by
  cases h with
  | call => exact ⟨rfl, List.length_append⟩

section Machine

variable {cJsonParse : Bytes → Option CJson} {config : SoundConfig}
  {s t : UdsServer n}

/-- Calls are never taken back. -/
theorem length_le_of_step {a : Action n} (h : step cJsonParse s a = some t) :
    s.fetches.calls.length ≤ t.fetches.calls.length := by
  by_contra hlt
  obtain ⟨call', hcall', -⟩ := extends_of_step h t.fetches.calls.length _
    (List.getElem?_eq_getElem (Nat.lt_of_not_le hlt))
  have := (List.getElem?_eq_some_iff.1 hcall').1
  omega

/-- Whom a step makes wait, and for what. -/
theorem awaited_of_step {a : Action n} (hstep : step cJsonParse s a = some t)
    {i : Fin n} {k : Nat} (h : awaited (t.pool.workers i) = some k) :
    awaited (s.pool.workers i) = some k ∨
      (∃ env, a = .handle i env) ∧ k = s.fetches.calls.length ∧
        k < t.fetches.calls.length := by
  cases step_cases hstep with
  | accept hen => exact .inl h
  | pool hown hen => exact .inl (awaited_of_next hown hen h)
  | fetch hown hfetch => exact .inl h
  | @handle j env handler pc fetches events hworker hhandles =>
      by_cases hij : i = j
      · subst hij
        simp only [ThreadPool.setWorker, Function.update_self] at h
        obtain ⟨conn, hnext⟩ := handling_of_awaited h
        cases hnext
        obtain ⟨hk, hlen⟩ := length_of_awaiting hhandles
        refine .inr ⟨⟨env, rfl⟩, hk, ?_⟩
        show k < fetches.calls.length
        omega
      · simp only [ThreadPool.setWorker, Function.update_of_ne hij] at h
        exact .inl h

theorem AwaitsAlone.step {a : Action n} (h : AwaitsAlone s)
    (hstep : step cJsonParse s a = some t) : AwaitsAlone t := by
  constructor
  · intro i k hk
    rcases awaited_of_step hstep hk with hold | ⟨-, -, hlt⟩
    · exact Nat.lt_of_lt_of_le (h.lt i k hold) (length_le_of_step hstep)
    · exact hlt
  · intro i j k hi hj
    rcases awaited_of_step hstep hi with hi | ⟨⟨env, rfl⟩, hk, -⟩
    · rcases awaited_of_step hstep hj with hj | ⟨-, hk, -⟩
      · exact h.unique i j k hi hj
      · exact absurd (h.lt i k hi) (by omega)
    · rcases awaited_of_step hstep hj with hj | ⟨⟨env', hsame⟩, -, -⟩
      · exact absurd (h.lt j k hj) (by omega)
      · cases hsame
        rfl

theorem awaitsAlone_of_reachable {guard : UdsServer n → Action n → Prop}
    (h : (machine cJsonParse n config).ReachableIf guard s) :
    AwaitsAlone s := by
  apply Machine.ReachableIf.invariant ?_ ?_ h
  · rintro s ⟨hpool, -, -, -⟩
    constructor
    · intro i k hk
      rw [hpool] at hk
      cases hk
    · intro i j k hi
      rw [hpool] at hi
      cases hi
  · intro s a t _ _ hs hstep
    exact hs.step hstep

end Machine

/-! ## Misses alone -/

/-- The handler has told its worker of a stale hit. -/
def isStaleHit : Worker Handler → Bool
  | .handling { pc := .hitStale _ _, .. } => true
  | _ => false

/-- In this step a worker goes on after a stale hit: it starts a thread for the
fetch, and detaches it. -/
def refreshes (s : UdsServer n) : Action n → Bool
  | .handle i _ => isStaleHit (s.pool.workers i)
  | _ => false

/-- No worker goes on after a stale hit. -/
def NoRefresh (s : UdsServer n) (a : Action n) : Prop := refreshes s a = false

instance (s : UdsServer n) (a : Action n) : Decidable (NoRefresh s a) :=
  inferInstanceAs (Decidable (_ = _))

/-- Some worker waits for every fetch in progress. -/
def AllAwaited (s : UdsServer n) : Prop :=
  ∀ k, fetchingAt s.fetches k = true →
    ∃ i, awaited (s.pool.workers i) = some k

theorem refreshing_eq_zero {s : UdsServer n} (h : AllAwaited s) :
    refreshing s = 0 := by
  unfold refreshing
  rw [Nat.count_iff_forall_not]
  intro k _ hk
  obtain ⟨i, hi⟩ := h k hk.1
  exact hk.2 i hi

/-- No step of the pool makes a worker stop waiting. -/
theorem awaited_next {p : ThreadPool n Conn Handler}
    {b : Workers.Action n Conn Handler} (hown : ownPoolStep b = true)
    (hen : Workers.enabled handling p b) {i : Fin n} {k : Nat}
    (h : awaited (p.workers i) = some k) :
    awaited ((Workers.next handling p b).workers i) = some k := by
  obtain ⟨conn, hworker⟩ := handling_of_awaited h
  rcases Workers.worker_cases hen i with hsame | hmoved
  · rw [hsame, h]
  · rw [hworker] at hmoved
    generalize (Workers.next handling p b).workers i = w at hmoved ⊢
    cases hmoved with
    | handle htask => cases hown
    | finish hfinished => cases hfinished

/-- A handler goes on waiting while its fetch is in progress. -/
theorem not_fetching_of_handles {fetches fetches' : Fetches}
    {env : Environment} {pc : Pc} {k : Nat} {events : List Event}
    (h : Handles fetches env (.awaiting k) pc fetches' events) :
    fetchingAt fetches k = false := by
  cases h with
  | returned hcall hpc | failed hcall hpc =>
      rw [fetchingAt, hcall, Option.any_some, isFetching, hpc]

/-- A handler that begins a fetch other than after a stale hit waits for it. -/
theorem awaiting_of_handles {fetches fetches' : Fetches} {env : Environment}
    {pc pc' : Pc} {events : List Event}
    (h : Handles fetches env pc pc' fetches' events)
    (hmiss : ∀ request arrivals, pc ≠ .hitStale request arrivals) :
    fetches' = fetches ∨ ∃ request, fetches' = enterCall fetches request ∧
      pc' = .awaiting fetches.calls.length := by
  cases h with
  | refresh => exact absurd rfl (hmiss _ _)
  | call => exact .inr ⟨_, rfl, rfl⟩
  | accept | reject | fresh | stale | miss | returned | failed | reply
  | close => exact .inl rfl

section Machine

variable {cJsonParse : Bytes → Option CJson} {config : SoundConfig}
  {s t : UdsServer n}

/-- A worker goes on waiting while its fetch is in progress. -/
theorem awaited_stays {a : Action n} (hstep : step cJsonParse s a = some t)
    {i : Fin n} {k : Nat} (h : awaited (s.pool.workers i) = some k)
    (hfetching : fetchingAt s.fetches k = true) :
    awaited (t.pool.workers i) = some k := by
  cases step_cases hstep with
  | accept hen => exact h
  | pool hown hen => exact awaited_next hown hen h
  | fetch hown hfetch => exact h
  | @handle j env handler pc fetches events hworker hhandles =>
      by_cases hij : i = j
      · subst hij
        obtain ⟨conn, hwaits⟩ := handling_of_awaited h
        cases hworker.symm.trans hwaits
        rw [not_fetching_of_handles hhandles] at hfetching
        cases hfetching
      · simp only [ThreadPool.setWorker, Function.update_of_ne hij]
        exact h

/-- A call that moves and is a fetch in progress afterwards was one before. -/
theorem isFetching_of_advance {k : Nat} {call : Call}
    {upstream : Fetching.Upstream} {fetches fetches' : Fetches}
    (h : Advance cJsonParse fetches k call upstream fetches') :
    ∃ pc, fetches'.calls = fetches.calls.set k { call with pc := pc } ∧
      (isFetching { call with pc := pc } = true → isFetching call = true) := by
  cases h with
  | init hpc | transfer hpc =>
      refine ⟨_, rfl, fun _ => ?_⟩
      rw [isFetching, hpc]
  | stamp hpc | write hpc | sweep hpc => exact ⟨_, rfl, fun h => by cases h⟩

/-- A step of a call or of the clock leaves no call in progress that was not. -/
theorem fetchingAt_of_fetch {a : Fetching.Action} {fetches fetches' : Fetches}
    (hown : ownFetchStep a = true)
    (hstep : Fetching.step cJsonParse fetches a = some fetches') {k : Nat}
    (h : fetchingAt fetches' k = true) : fetchingAt fetches k = true := by
  rcases Fetching.step_cases hstep with ⟨later, rfl, -, rfl⟩ |
    ⟨request, rfl, rfl⟩ | ⟨j, upstream, call, rfl, hcall, hadvance⟩
  · exact h
  · cases hown
  · obtain ⟨pc, hcalls, hkept⟩ := isFetching_of_advance hadvance
    unfold fetchingAt at h ⊢
    rw [hcalls, List.getElem?_set] at h
    by_cases hjk : j = k
    · subst hjk
      rw [if_pos rfl, if_pos (List.getElem?_eq_some_iff.1 hcall).1] at h
      rw [hcall]
      exact hkept h
    · rw [if_neg hjk] at h
      exact h

/-- Entering a call leaves the others as they are. -/
theorem fetchingAt_enterCall {fetches : Fetches} {request : RequestInMemory}
    {k : Nat} (hne : k ≠ fetches.calls.length) :
    fetchingAt (enterCall fetches request) k = fetchingAt fetches k := by
  unfold fetchingAt enterCall
  rcases Nat.lt_or_gt_of_ne hne with hlt | hgt
  · rw [List.getElem?_append_left hlt]
  · rw [List.getElem?_eq_none (Nat.le_of_lt hgt), List.getElem?_eq_none]
    rw [List.length_append, List.length_singleton]
    exact hgt

theorem AllAwaited.step {a : Action n} (h : AllAwaited s)
    (hmiss : NoRefresh s a) (hstep : step cJsonParse s a = some t) :
    AllAwaited t := by
  intro k hk
  have hstays : fetchingAt s.fetches k = true →
      ∃ i, awaited (t.pool.workers i) = some k := by
    intro hold
    obtain ⟨i, hi⟩ := h k hold
    exact ⟨i, awaited_stays hstep hi hold⟩
  cases step_cases hstep with
  | accept hen => exact hstays hk
  | pool hown hen => exact hstays hk
  | fetch hown hfetch => exact hstays (fetchingAt_of_fetch hown hfetch hk)
  | @handle i env handler pc fetches events hworker hhandles =>
      have hother : ∀ request arrivals,
          handler.pc ≠ .hitStale request arrivals := by
        intro request arrivals hpc
        obtain ⟨conn, handlerPc⟩ := handler
        dsimp only at hpc
        subst hpc
        simp only [NoRefresh, refreshes, hworker] at hmiss
        cases hmiss
      rcases awaiting_of_handles hhandles hother with rfl |
        ⟨request, rfl, rfl⟩
      · exact hstays hk
      · by_cases hnew : k = s.fetches.calls.length
        · refine ⟨i, ?_⟩
          show awaited (Function.update s.pool.workers i _ i) = some k
          rw [Function.update_self, hnew]
          rfl
        · exact hstays (fetchingAt_enterCall hnew ▸ hk)

theorem allAwaited_of_reachable
    (h : (machine cJsonParse n config).ReachableIf NoRefresh s) :
    AllAwaited s := by
  apply Machine.ReachableIf.invariant ?_ ?_ h
  · rintro s ⟨-, ⟨-, hnil⟩, -, -⟩ k hk
    rw [fetchingAt, hnil] at hk
    cases hk
  · intro s a t _ hmiss hs hstep
    exact hs.step hmiss hstep

end Machine

/-! ## The bound -/

/-- As long as no worker goes on after a stale hit, at most as many fetches are in
progress as the pool has workers. -/
theorem inFlight_le_of_noRefresh {cJsonParse : Bytes → Option CJson}
    {config : SoundConfig} {s : UdsServer n}
    (h : (machine cJsonParse n config).ReachableIf NoRefresh s) :
    inFlight s.fetches ≤ n := by
  have hnone := refreshing_eq_zero (allAwaited_of_reachable h)
  have hsum := waiting_add_refreshing (awaitsAlone_of_reachable h)
  have hworkers := waiting_le s
  omega

/-- Two workers, each of them in the transfer for a connection that has missed. -/
theorem inFlight_le_of_noRefresh_two_misses :
    ∃ s : UdsServer 2,
      (machine Fetching.sampleParse 2 Fetching.sampleConfig).ReachableIf
        NoRefresh s ∧
      inFlight s.fetches = 2 ∧ inFlight s.fetches ≤ 2 := by
  let submitted (conn : Conn) (worker : Fin 2) : List (Action 2) :=
    [.accept, .pool (.submitPush conn), .pool .submitUnlock,
      .pool (.notifyOne none), .pool (.lock worker), .pool (.test worker),
      .pool (.dequeue worker conn)]
  let misses (worker : Fin 2) (k : Nat) : List (Action 2) :=
    List.replicate 3 (.handle worker sampleEnvironment) ++
      [.fetch (.advance k Fetching.sampleUpstream)]
  obtain ⟨s, hreach, hs⟩ := Machine.exists_reachableIf_of_runIf
    (M := machine Fetching.sampleParse 2 Fetching.sampleConfig)
    (s :=
      { pool := ThreadPool.new
        fetches := Fetching.sampleStart
        accepted := 0
        journal := fun _ => [] })
    (fun s a => of_decide_eq_true (p := NoRefresh s a))
    ⟨rfl, ⟨rfl, rfl⟩, rfl, rfl⟩
    (l := submitted 0 0 ++ submitted 1 1 ++ misses 0 0 ++ misses 1 1)
    (p := fun s => decide (inFlight s.fetches = 2))
    (by decide +kernel)
  exact ⟨s, hreach, of_decide_eq_true hs, inFlight_le_of_noRefresh hreach⟩

/-- After two stale hits, two transfers go on at once with a pool of one. -/
theorem stale_hits_exceed_pool :
    ∃ s : UdsServer 1,
      (machine Fetching.sampleParse 1 Fetching.sampleConfig).Reachable s ∧
      1 < inFlight s.fetches ∧
      ∀ k ∈ [1, 2],
        (s.fetches.calls[k]?).map Call.pc = some .transferring := by
  obtain ⟨s, hreach, hs⟩ := Machine.exists_reachable_of_run
    (M := machine Fetching.sampleParse 1 Fetching.sampleConfig)
    (s := sampleServer) ⟨rfl, ⟨rfl, rfl⟩, rfl, rfl⟩
    (l := sampleStale ++ sampleHit 1 ++ sampleHit 2 ++
      [.fetch (.advance 1 Fetching.sampleUpstream),
        .fetch (.advance 2 Fetching.sampleUpstream)])
    (p := fun s => decide (1 < inFlight s.fetches ∧ ∀ k ∈ [1, 2],
      (s.fetches.calls[k]?).map Call.pc = some .transferring))
    (by decide +kernel)
  exact ⟨s, hreach, of_decide_eq_true hs⟩

end BkkApi.Server.InFlight
