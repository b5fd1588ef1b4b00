import BkkApi.Server.Workers

/-!
# No lost wake-up

A request is stranded when it sits in the queue beside a worker that sleeps and
nobody is on the way to take it.  `Covered` counts who is on the way: the
workers awake in the loop, and the `submit` calls that have pushed but not yet
notified.  While a worker sleeps there are at least as many of these as queued
requests.

Each step moves at most one worker, so `tally_update` says what it does to both
counts.  The step that looks dangerous, a worker going to sleep, is harmless
because it still holds the mutex under which it saw the queue empty.
-/

namespace BkkApi.Server.Wakeups

open BkkApi.Verified.Run
open BkkApi.Verified.Tally
open BkkApi.Server.Workers

variable {n : Nat} {Task Handler : Type} {H : Handling Task Handler}

/-- While a worker sleeps, every queued request has somebody on the way. -/
def Covered (s : ThreadPool n Task Handler) : Prop :=
  0 < s.blockedCount →
    s.taskQueue.length ≤ s.awakeCount + s.pushedNotNotified

/-- What moving one worker from `w` to `w'` does to the two counts. -/
theorem counts_move {s : ThreadPool n Task Handler} {i : Fin n}
    {w : Worker Handler} (hpc : s.workers i = w) (w' : Worker Handler) :
    tally Worker.isAwake (Function.update s.workers i w') + w.isAwake.toNat =
        tally Worker.isAwake s.workers + w'.isAwake.toNat ∧
      tally Worker.isBlocked (Function.update s.workers i w') +
          w.isBlocked.toNat =
        tally Worker.isBlocked s.workers + w'.isBlocked.toNat := by
  subst hpc
  exact ⟨tally_update _ _ _ _, tally_update _ _ _ _⟩

/-- A step of the pool keeps every queued request covered. -/
theorem Covered.next {s : ThreadPool n Task Handler}
    {a : Action n Task Handler} (h : Covered s) (hexcl : Exclusive s)
    (hpred : PredicateHeld s) (hen : enabled H s a) :
    Covered (next H s a) := by
  unfold Covered ThreadPool.blockedCount ThreadPool.awakeCount
    ThreadPool.pushedNotNotified at h ⊢
  cases a with
  | lock i =>
      obtain ⟨hpc, hmutex⟩ := hen
      obtain ⟨ha, hb⟩ := counts_move hpc .testing
      simp only [Workers.next, ThreadPool.setWorker, hmutex, Worker.isAwake,
        Worker.isBlocked] at h ha hb ⊢
      omega
  | test i =>
      by_cases hready : (s.stop || !s.taskQueue.isEmpty) = true
      · obtain ⟨ha, hb⟩ := counts_move hen .taking
        simp only [Workers.next, ThreadPool.setWorker, hready, if_true,
          Worker.isAwake, Worker.isBlocked] at ha hb ⊢
        omega
      · obtain ⟨ha, hb⟩ := counts_move hen .sleeping
        simp only [Workers.next, ThreadPool.setWorker, if_neg hready,
          Worker.isAwake, Worker.isBlocked] at ha hb ⊢
        omega
  | block i =>
      -- the queue was empty under the mutex, which is still held
      have hempty : s.taskQueue = [] := (hpred.sleeping i hen).1
      simp only [Workers.next, ThreadPool.setWorker, hempty, List.length_nil]
      omega
  | wake i =>
      obtain ⟨ha, hb⟩ := counts_move hen .outside
      simp only [Workers.next, ThreadPool.setWorker, Worker.isAwake,
        Worker.isBlocked, Bool.toNat_true, Bool.toNat_false] at ha hb ⊢
      omega
  | leave i =>
      obtain ⟨hpc, -, hempty⟩ := hen
      simp only [Workers.next, ThreadPool.setWorker, hempty, List.length_nil]
      omega
  | dequeue i task =>
      -- one request fewer, and one worker fewer in the loop
      obtain ⟨hpc, hhead⟩ := hen
      have hmutex := hexcl.worker_holds i (by rw [hpc]; rfl)
      obtain ⟨ha, hb⟩ := counts_move hpc (.handling (H.enter task))
      simp only [Workers.next, ThreadPool.setWorker, hmutex, Worker.isAwake,
        Worker.isBlocked, Bool.toNat_true, Bool.toNat_false,
        List.length_tail] at h ha hb ⊢
      omega
  | handle i handler =>
      obtain ⟨old, hpc⟩ := Worker.handling_of_held hen
      obtain ⟨ha, hb⟩ := counts_move hpc (.handling handler)
      simp only [Workers.next, ThreadPool.setWorker, Worker.isAwake,
        Worker.isBlocked] at ha hb ⊢
      omega
  | finish i =>
      obtain ⟨old, hpc⟩ := Worker.handling_of_isDone hen
      obtain ⟨ha, hb⟩ := counts_move hpc .outside
      simp only [Workers.next, ThreadPool.setWorker, Worker.isAwake,
        Worker.isBlocked, Bool.toNat_true, Bool.toNat_false] at ha hb ⊢
      omega
  | submitLock task =>
      simp only [enabled] at hen
      simp only [Workers.next, hen] at h ⊢
      exact h
  | submitPush task =>
      -- one request more, and one `submit` more that has yet to notify
      simp only [enabled] at hen
      simp only [Workers.next, hen, List.length_append, List.length_cons,
        List.length_nil] at h ⊢
      omega
  | submitUnlock =>
      simp only [enabled] at hen
      simp only [Workers.next, hen] at h ⊢
      omega
  | notifyOne woken =>
      cases woken with
      | none =>
          have hnone := tally_eq_zero_iff.2 hen.2
          simp only [Workers.next]
          omega
      | some i =>
          -- the `submit` hands its request over to the woken worker
          obtain ⟨hpos, hpc⟩ := hen
          obtain ⟨ha, hb⟩ := counts_move hpc .outside
          simp only [Workers.next, ThreadPool.setWorker, Worker.isAwake,
            Worker.isBlocked, Bool.toNat_true, Bool.toNat_false] at ha hb ⊢
          omega
  | dtorLock =>
      simp only [Workers.next, hen.2] at h ⊢
      exact h
  | dtorSetStop => exact h
  | dtorUnlock =>
      have hmutex := hexcl.destructor_holds (.inr hen)
      simp only [Workers.next, hmutex] at h ⊢
      exact h
  | notifyAll =>
      have hnone : tally Worker.isBlocked
          (fun i => (s.workers i).notified) = 0 :=
        tally_eq_zero_iff.2 fun i => Worker.isBlocked_notified _
      simp only [Workers.next]
      omega
  | dtorJoin => exact h

/-- After `notify_all` nobody sleeps. -/
def NotifiedAll (s : ThreadPool n Task Handler) : Prop :=
  s.destructor = .joining ∨ s.destructor = .joined →
    ∀ i, (s.workers i).isBlocked = false

/-- A step keeps everybody awake after `notify_all`: falling asleep takes a
false predicate, and `stop` makes it true. -/
theorem NotifiedAll.next {s : ThreadPool n Task Handler}
    {a : Action n Task Handler} (h : NotifiedAll s) (hpred : PredicateHeld s)
    (hstop : StopSet s) (hen : enabled H s a) :
    NotifiedAll (next H s a) := by
  intro hd j
  cases a with
  | block i =>
      have hset : s.stop = true := by
        change s.destructor = .joining ∨ s.destructor = .joined at hd
        rcases hd with hd | hd <;> exact hstop.2 ⟨by simp [hd], by simp [hd]⟩
      have hunset := (hpred.sleeping i hen).2
      rw [hset] at hunset
      cases hunset
  | notifyAll => exact Worker.isBlocked_notified _
  | lock i | test i | wake i | leave i | dequeue i task | handle i handler
  | finish i =>
      have hold := h hd j
      simp only [Workers.next, ThreadPool.setWorker]
      grind
  | notifyOne woken =>
      cases woken with
      | none => exact h hd j
      | some i =>
          have hold := h hd j
          simp only [Workers.next, ThreadPool.setWorker]
          grind
  | submitLock task | submitPush task | submitUnlock => exact h hd j
  | dtorLock | dtorSetStop | dtorUnlock => rcases hd with hd | hd <;> cases hd
  | dtorJoin => exact h (.inl hen.1) j

/-! ## Runs -/

section Runs

variable [DecidableEq Task] [DecidableEq Handler]
  {s : ThreadPool n Task Handler}

theorem covered_of_reachable (h : (machine H).Reachable s) : Covered s := by
  apply Machine.guarded_invariant ?_ ?_ h
  · rintro _ rfl _
    exact Nat.zero_le _
  · intro s a hreach _ hs hen
    exact hs.next (exclusive_of_reachable hreach)
      (predicateHeld_of_reachable hreach) hen

theorem notifiedAll_of_reachable (h : (machine H).Reachable s) :
    NotifiedAll s := by
  apply Machine.guarded_invariant ?_ ?_ h
  · rintro _ rfl _ _
    rfl
  · intro s a hreach _ hs hen
    exact hs.next (predicateHeld_of_reachable hreach)
      (stopSet_of_reachable hreach) hen

/-- The destructor does not go back behind its `notify_all`. -/
theorem notified_of_leadsTo {t : ThreadPool n Task Handler}
    (h : (machine H).Reachable s)
    (hd : s.destructor = .joining ∨ s.destructor = .joined)
    (hlead : (machine H).LeadsTo (fun _ _ => True) s t) :
    t.destructor = .joining ∨ t.destructor = .joined := by
  apply hlead.preserves
    (I := fun t => t.destructor = .joining ∨ t.destructor = .joined) ?_ h hd
  intro t a u _ _ ht hstep
  obtain ⟨hen, rfl⟩ := Machine.guarded_step_iff.1 hstep
  cases a with
  | dtorJoin => exact .inr rfl
  | dtorLock | dtorSetStop | dtorUnlock | notifyAll =>
      simp only [enabled] at hen
      simp [hen] at ht
  | notifyOne woken =>
      cases woken with
      | none | some i => exact ht
  | lock i | test i | block i | wake i | leave i | dequeue i task
  | handle i handler | finish i | submitLock task | submitPush task
  | submitUnlock => exact ht

/-- **No lost wake-up.**  In every reachable state of a pool of any size:

* while a worker is blocked, there are no more queued requests than workers
  awake in the loop and `submit` calls that have pushed but not yet notified;
* while a worker is blocked although `stop` is set, the destructor's
  `notify_all` is still to come;
* once `notify_all` has taken effect no worker is blocked, then or later. -/
theorem no_lost_wakeup (h : (machine H).Reachable s) :
    (0 < s.blockedCount →
        s.taskQueue.length ≤ s.awakeCount + s.pushedNotNotified) ∧
      (s.stop = true → 0 < s.blockedCount →
        s.destructor = .stopSet ∨ s.destructor = .unlocked) ∧
      (s.destructor = .joining ∨ s.destructor = .joined →
        ∀ t, (machine H).LeadsTo (fun _ _ => True) s t →
          t.blockedCount = 0) := by
  refine ⟨covered_of_reachable h, ?_, ?_⟩
  · intro hstop hblocked
    obtain ⟨i, hi⟩ := exists_of_tally_pos hblocked
    have hset := (stopSet_of_reachable h).1 hstop
    have hall := notifiedAll_of_reachable h
    cases hd : s.destructor with
    | notCalled => exact absurd hd hset.1
    | locked => exact absurd hd hset.2
    | stopSet => exact .inl rfl
    | unlocked => exact .inr rfl
    | joining => rw [hall (.inl hd) i] at hi; cases hi
    | joined => rw [hall (.inr hd) i] at hi; cases hi
  · intro hd t hlead
    exact tally_eq_zero_iff.2
      (notifiedAll_of_reachable (h.trans hlead) (notified_of_leadsTo h hd hlead))

end Runs

/-- Handlers that are their task and can return at any time. -/
private def bare : Handling Nat Nat where
  enter := id
  task := id
  finished := fun _ => true
  task_enter := fun _ => rfl

/-- One worker has gone to sleep, one request has been pushed beside it, and the
`notify_one` is still to come. -/
theorem no_lost_wakeup_asleep :
    ∃ s : ThreadPool 1 Nat Nat, (machine bare).Reachable s ∧
      (0 < s.blockedCount ∧ s.taskQueue = [7] ∧ s.awakeCount = 0) ∧
      (0 < s.blockedCount →
        s.taskQueue.length ≤ s.awakeCount + s.pushedNotNotified) := by
  obtain ⟨s, hreach, hs⟩ := Machine.exists_reachable_of_run
    (M := machine bare) (s := (ThreadPool.new : ThreadPool 1 Nat Nat)) rfl
    (l := [.lock 0, .test 0, .block 0, .submitLock 7, .submitPush 7])
    (p := fun s => decide
      (0 < s.blockedCount ∧ s.taskQueue = [7] ∧ s.awakeCount = 0)) (by decide)
  exact ⟨s, hreach, of_decide_eq_true hs, (no_lost_wakeup hreach).1⟩

end BkkApi.Server.Wakeups
