import BkkApi.Verified.Run
import BkkApi.Verified.Tally

/-!
# The thread pool

`ThreadPool` of `bkk_thread_pool.cpp` as a machine over `n` worker threads, any
number of concurrent `submit` calls, and the destructor.  The mutex is explicit:
its holder is part of the state, so that a `notify` can fall between a worker's
test of the predicate and its going to sleep exactly when the source lets it.

`cv` has the standard meaning.  `block` unlocks and blocks in one step,
`notifyOne` unblocks one blocked worker if there is one, `notifyAll` unblocks
all, and `wake` is a spurious wake-up.  An unblocked worker wants the mutex
again and then tests the predicate, which is where a worker at the top of the
loop is as well.

What `handle_client` does with a task is left open here: `Handling` only says
that a handler is entered with its task, keeps it, and is finished at some
point.
-/

namespace BkkApi.Server.Workers

open BkkApi.Verified.Run
open BkkApi.Verified.Tally

/-! ## States -/

/-- What a worker calls for a dequeued task. -/
structure Handling (Task Handler : Type) where
  enter : Task → Handler
  task : Handler → Task
  finished : Handler → Bool
  task_enter : ∀ task', task (enter task') = task'

/-- A worker in `thread_function`. -/
inductive Worker (Handler : Type)
  /-- Wants `queue_mutex`: at the top of the loop, or woken inside `cv.wait`. -/
  | outside
  /-- Holds the mutex and is about to test the predicate. -/
  | testing
  /-- Holds the mutex, has found the predicate false, and is about to block. -/
  | sleeping
  /-- Blocked in `cv.wait`. -/
  | blocked
  /-- Holds the mutex and has found the predicate true. -/
  | taking
  /-- In `handle_client`. -/
  | handling (handler : Handler)
  /-- Has returned from `thread_function`. -/
  | returned
  deriving DecidableEq

/-- Who holds `queue_mutex`. -/
inductive Holder (n : Nat) (Task : Type)
  | worker (i : Fin n)
  /-- A `submit` before its push. -/
  | submitting (task : Task)
  /-- A `submit` after its push. -/
  | submitted
  | destructor
  deriving DecidableEq

/-- Where `~ThreadPool` is. -/
inductive Destructor
  | notCalled
  | locked
  | stopSet
  /-- Has unlocked and is about to call `notify_all`. -/
  | unlocked
  | joining
  | joined
  deriving DecidableEq, Repr

/-- A pool of `n` workers.  The last three fields are history: the tasks pushed,
taken, and finished so far. -/
structure ThreadPool (n : Nat) (Task Handler : Type) where
  queueMutex : Option (Holder n Task)
  taskQueue : List Task
  stop : Bool
  workers : Fin n → Worker Handler
  /-- Calls of `submit` that have unlocked and are about to notify. -/
  notifying : Nat
  destructor : Destructor
  submitted : List Task
  dequeued : List Task
  finished : List Task

variable {n : Nat} {Task Handler : Type}

/-- The task in hand, as a list of at most one. -/
def Worker.held (H : Handling Task Handler) : Worker Handler → List Task
  | .handling handler => [H.task handler]
  | _ => []

/-- Awake in the loop of `thread_function` and not in `handle_client`. -/
def Worker.isAwake : Worker Handler → Bool
  | .outside | .testing | .sleeping | .taking => true
  | _ => false

/-- Blocked in `cv.wait`. -/
def Worker.isBlocked : Worker Handler → Bool
  | .blocked => true
  | _ => false

/-- Between locking the mutex and unlocking it. -/
def Worker.inSection : Worker Handler → Bool
  | .testing | .sleeping | .taking => true
  | _ => false

/-- In a call of `handle_client` that is about to return. -/
def Worker.isDone (H : Handling Task Handler) : Worker Handler → Bool
  | .handling handler => H.finished handler
  | _ => false

/-- What `notify_all` does to one worker. -/
def Worker.notified : Worker Handler → Worker Handler
  | .blocked => .outside
  | w => w

attribute [grind] Worker.isAwake Worker.isBlocked Worker.inSection Worker.isDone

attribute [grind =] Function.update_apply

@[simp, grind =] theorem Worker.isBlocked_notified (w : Worker Handler) :
    w.notified.isBlocked = false := by
  cases w <;> rfl

@[simp, grind =] theorem Worker.held_notified (H : Handling Task Handler)
    (w : Worker Handler) : w.notified.held H = w.held H := by
  cases w <;> rfl

/-- Only a worker in `handle_client` has a task in hand. -/
theorem Worker.handling_of_held {H : Handling Task Handler}
    {w : Worker Handler} {task : Task} (h : w.held H = [task]) :
    ∃ handler, w = .handling handler := by
  cases w with
  | handling handler => exact ⟨handler, rfl⟩
  | outside | testing | sleeping | blocked | taking | returned => cases h

/-- Only a worker in `handle_client` can return from it. -/
theorem Worker.handling_of_isDone {H : Handling Task Handler}
    {w : Worker Handler} (h : w.isDone H = true) :
    ∃ handler, w = .handling handler := by
  cases w with
  | handling handler => exact ⟨handler, rfl⟩
  | outside | testing | sleeping | blocked | taking | returned => cases h

namespace ThreadPool

/-- After the constructor: every worker is on its way into the loop. -/
def new : ThreadPool n Task Handler where
  queueMutex := none
  taskQueue := []
  stop := false
  workers := fun _ => .outside
  notifying := 0
  destructor := .notCalled
  submitted := []
  dequeued := []
  finished := []

/-- Worker `i` goes on to `w`. -/
def setWorker (s : ThreadPool n Task Handler) (i : Fin n)
    (w : Worker Handler) : ThreadPool n Task Handler :=
  { s with workers := Function.update s.workers i w }

/-- Workers blocked in `cv.wait`. -/
def blockedCount (s : ThreadPool n Task Handler) : Nat :=
  tally Worker.isBlocked s.workers

/-- Workers awake in the loop and not in `handle_client`. -/
def awakeCount (s : ThreadPool n Task Handler) : Nat :=
  tally Worker.isAwake s.workers

/-- Calls of `submit` that have pushed and not yet notified. -/
def pushedNotNotified (s : ThreadPool n Task Handler) : Nat :=
  s.notifying +
    match s.queueMutex with
    | some .submitted => 1
    | _ => 0

end ThreadPool

/-! ## Steps -/

/-- One atomic step of one thread. -/
inductive Action (n : Nat) (Task Handler : Type)
  /-- A worker locks the mutex. -/
  | lock (i : Fin n)
  /-- A worker evaluates the predicate of `cv.wait`. -/
  | test (i : Fin n)
  /-- A worker unlocks and blocks. -/
  | block (i : Fin n)
  /-- A spurious wake-up. -/
  | wake (i : Fin n)
  /-- A worker finds `stop && task_queue.empty()` and returns. -/
  | leave (i : Fin n)
  /-- A worker pops the front task, unlocks, and enters `handle_client`. -/
  | dequeue (i : Fin n) (task : Task)
  /-- A step inside `handle_client`. -/
  | handle (i : Fin n) (handler : Handler)
  /-- `handle_client` returns. -/
  | finish (i : Fin n)
  | submitLock (task : Task)
  | submitPush (task : Task)
  | submitUnlock
  /-- `cv.notify_one()`, with the worker it unblocks. -/
  | notifyOne (woken : Option (Fin n))
  | dtorLock
  | dtorSetStop
  | dtorUnlock
  | notifyAll
  /-- All `join`s have returned. -/
  | dtorJoin

section Steps

variable (H : Handling Task Handler)

/-- When a step is possible. -/
def enabled (s : ThreadPool n Task Handler) :
    Action n Task Handler → Prop
  | .lock i => s.workers i = .outside ∧ s.queueMutex = none
  | .test i => s.workers i = .testing
  | .block i => s.workers i = .sleeping
  | .wake i => s.workers i = .blocked
  | .leave i => s.workers i = .taking ∧ s.stop = true ∧ s.taskQueue = []
  | .dequeue i task => s.workers i = .taking ∧ s.taskQueue.head? = some task
  | .handle i handler => (s.workers i).held H = [H.task handler]
  | .finish i => (s.workers i).isDone H = true
  | .submitLock _ => s.queueMutex = none
  | .submitPush task => s.queueMutex = some (.submitting task)
  | .submitUnlock => s.queueMutex = some .submitted
  | .notifyOne (some i) => 0 < s.notifying ∧ s.workers i = .blocked
  | .notifyOne none => 0 < s.notifying ∧ ∀ i, (s.workers i).isBlocked = false
  | .dtorLock => s.destructor = .notCalled ∧ s.queueMutex = none
  | .dtorSetStop => s.destructor = .locked
  | .dtorUnlock => s.destructor = .stopSet
  | .notifyAll => s.destructor = .unlocked
  | .dtorJoin => s.destructor = .joining ∧ ∀ i, s.workers i = .returned

/-- What a step does. -/
def next (s : ThreadPool n Task Handler) :
    Action n Task Handler → ThreadPool n Task Handler
  | .lock i =>
      { s.setWorker i .testing with queueMutex := some (.worker i) }
  | .test i =>
      s.setWorker i (if s.stop || !s.taskQueue.isEmpty then .taking
        else .sleeping)
  | .block i => { s.setWorker i .blocked with queueMutex := none }
  | .wake i => s.setWorker i .outside
  | .leave i => { s.setWorker i .returned with queueMutex := none }
  | .dequeue i task =>
      { s.setWorker i (.handling (H.enter task)) with
        queueMutex := none
        taskQueue := s.taskQueue.tail
        dequeued := s.dequeued ++ [task] }
  | .handle i handler => s.setWorker i (.handling handler)
  | .finish i =>
      { s.setWorker i .outside with
        finished := s.finished ++ (s.workers i).held H }
  | .submitLock task => { s with queueMutex := some (.submitting task) }
  | .submitPush task =>
      { s with
        queueMutex := some .submitted
        taskQueue := s.taskQueue ++ [task]
        submitted := s.submitted ++ [task] }
  | .submitUnlock =>
      { s with queueMutex := none, notifying := s.notifying + 1 }
  | .notifyOne (some i) =>
      { s.setWorker i .outside with notifying := s.notifying - 1 }
  | .notifyOne none => { s with notifying := s.notifying - 1 }
  | .dtorLock =>
      { s with queueMutex := some .destructor, destructor := .locked }
  | .dtorSetStop => { s with stop := true, destructor := .stopSet }
  | .dtorUnlock => { s with queueMutex := none, destructor := .unlocked }
  | .notifyAll =>
      { s with
        workers := fun i => (s.workers i).notified
        destructor := .joining }
  | .dtorJoin => { s with destructor := .joined }

variable [DecidableEq Task] [DecidableEq Handler]

instance (s : ThreadPool n Task Handler) (a : Action n Task Handler) :
    Decidable (enabled H s a) :=
  match a with
  | .lock _ => inferInstanceAs (Decidable (_ ∧ _))
  | .test _ => inferInstanceAs (Decidable (_ = _))
  | .block _ => inferInstanceAs (Decidable (_ = _))
  | .wake _ => inferInstanceAs (Decidable (_ = _))
  | .leave _ => inferInstanceAs (Decidable (_ ∧ _ ∧ _))
  | .dequeue _ _ => inferInstanceAs (Decidable (_ ∧ _))
  | .handle _ _ => inferInstanceAs (Decidable (_ = _))
  | .finish _ => inferInstanceAs (Decidable (_ = _))
  | .submitLock _ => inferInstanceAs (Decidable (_ = _))
  | .submitPush _ => inferInstanceAs (Decidable (_ = _))
  | .submitUnlock => inferInstanceAs (Decidable (_ = _))
  | .notifyOne (some _) => inferInstanceAs (Decidable (_ ∧ _))
  | .notifyOne none => inferInstanceAs (Decidable (_ ∧ ∀ _, _))
  | .dtorLock => inferInstanceAs (Decidable (_ ∧ _))
  | .dtorSetStop => inferInstanceAs (Decidable (_ = _))
  | .dtorUnlock => inferInstanceAs (Decidable (_ = _))
  | .notifyAll => inferInstanceAs (Decidable (_ = _))
  | .dtorJoin => inferInstanceAs (Decidable (_ ∧ ∀ _, _))

/-- The pool in all its interleavings. -/
def machine : Machine (ThreadPool n Task Handler) (Action n Task Handler) :=
  Machine.guarded (fun s => s = ThreadPool.new) (enabled H) (next H)

end Steps

/-! ## What a step does to one worker -/

variable {H : Handling Task Handler}

/-- What a step can do to worker `i`. -/
inductive WorkerMoves (H : Handling Task Handler) (i : Fin n) :
    Action n Task Handler → Worker Handler → Worker Handler → Prop
  | lock : WorkerMoves H i (.lock i) .outside .testing
  | found : WorkerMoves H i (.test i) .testing .taking
  | notFound : WorkerMoves H i (.test i) .testing .sleeping
  | block : WorkerMoves H i (.block i) .sleeping .blocked
  | wake : WorkerMoves H i (.wake i) .blocked .outside
  | leave : WorkerMoves H i (.leave i) .taking .returned
  | dequeue (task : Task) :
      WorkerMoves H i (.dequeue i task) .taking (.handling (H.enter task))
  | handle {handler handler' : Handler}
      (htask : H.task handler = H.task handler') :
      WorkerMoves H i (.handle i handler') (.handling handler)
        (.handling handler')
  | finish {handler : Handler} (hfinished : H.finished handler = true) :
      WorkerMoves H i (.finish i) (.handling handler) .outside
  | notifyOne : WorkerMoves H i (.notifyOne (some i)) .blocked .outside
  | notifyAll : WorkerMoves H i .notifyAll .blocked .outside

/-- A step leaves a worker where it is, or moves it. -/
theorem worker_cases {s : ThreadPool n Task Handler}
    {a : Action n Task Handler} (hen : enabled H s a) (j : Fin n) :
    (next H s a).workers j = s.workers j ∨
      WorkerMoves H j a (s.workers j) ((next H s a).workers j) := by
  have hset : ∀ (i : Fin n) (w : Worker Handler),
      WorkerMoves H i a (s.workers i) w →
      Function.update s.workers i w j = s.workers j ∨
        WorkerMoves H j a (s.workers j)
          (Function.update s.workers i w j) := by
    intro i w hmoves
    by_cases hij : j = i
    · rw [hij, Function.update_self]
      exact .inr hmoves
    · exact .inl (Function.update_of_ne hij _ _)
  cases a with
  | lock i =>
      apply hset i
      rw [hen.1]
      exact .lock
  | test i =>
      apply hset i
      rw [hen]
      split
      · exact .found
      · exact .notFound
  | block i =>
      apply hset i
      rw [hen]
      exact .block
  | wake i =>
      apply hset i
      rw [hen]
      exact .wake
  | leave i =>
      apply hset i
      rw [hen.1]
      exact .leave
  | dequeue i task =>
      apply hset i
      rw [hen.1]
      exact .dequeue task
  | handle i handler =>
      obtain ⟨old, hpc⟩ := Worker.handling_of_held hen
      simp only [enabled, hpc] at hen
      apply hset i
      rw [hpc]
      exact .handle (List.cons.inj hen).1
  | finish i =>
      obtain ⟨old, hpc⟩ := Worker.handling_of_isDone hen
      simp only [enabled, hpc] at hen
      apply hset i
      rw [hpc]
      exact .finish hen
  | notifyOne woken =>
      cases woken with
      | none => exact .inl rfl
      | some i =>
          apply hset i
          rw [hen.2]
          exact .notifyOne
  | notifyAll =>
      show (s.workers j).notified = _ ∨
        WorkerMoves H j _ _ (s.workers j).notified
      cases s.workers j with
      | blocked => exact .inr .notifyAll
      | outside | testing | sleeping | taking | handling handler | returned =>
          exact .inl rfl
  | submitLock task | submitPush task | submitUnlock | dtorLock | dtorSetStop
  | dtorUnlock | dtorJoin => exact .inl rfl

/-- A worker that has returned from `thread_function` stays so. -/
theorem returned_next {s : ThreadPool n Task Handler}
    {a : Action n Task Handler} (hen : enabled H s a) {i : Fin n}
    (h : s.workers i = .returned) : (next H s a).workers i = .returned := by
  rcases worker_cases hen i with hsame | hmoved
  · exact hsame.trans h
  · rw [h] at hmoved
    generalize (next H s a).workers i = w at hmoved
    cases hmoved

/-! ## Mutual exclusion -/

/-- Whoever is between lock and unlock is the holder of the mutex. -/
structure Exclusive (s : ThreadPool n Task Handler) : Prop where
  worker_holds : ∀ i, (s.workers i).inSection = true →
    s.queueMutex = some (.worker i)
  destructor_holds : s.destructor = .locked ∨ s.destructor = .stopSet →
    s.queueMutex = some .destructor

/-- No two workers are in the section. -/
theorem Exclusive.eq_of_inSection {s : ThreadPool n Task Handler}
    (h : Exclusive s) {i j : Fin n} (hi : (s.workers i).inSection = true)
    (hj : (s.workers j).inSection = true) : i = j := by
  have hholder := h.worker_holds i hi
  rw [h.worker_holds j hj] at hholder
  exact (Holder.worker.inj (Option.some.inj hholder)).symm

/-- The mutex stays with a worker until that worker leaves the section. -/
theorem mutex_kept {s : ThreadPool n Task Handler}
    {a : Action n Task Handler} (hexcl : Exclusive s) (hen : enabled H s a)
    {j : Fin n} (hj : (s.workers j).inSection = true) :
    (next H s a).queueMutex = s.queueMutex ∨
      ((next H s a).workers j).inSection = false := by
  have hmutex := hexcl.worker_holds j hj
  have hleaves : ∀ (i : Fin n) (w : Worker Handler),
      (s.workers i).inSection = true → w.inSection = false →
        (Function.update s.workers i w j).inSection = false := by
    intro i w hi hw
    rw [hexcl.eq_of_inSection hi hj, Function.update_self]
    exact hw
  cases a with
  | block i =>
      have hpc : s.workers i = .sleeping := hen
      exact Or.inr (hleaves i .blocked (by rw [hpc]; rfl) rfl)
  | leave i => exact Or.inr (hleaves i .returned (by rw [hen.1]; rfl) rfl)
  | dequeue i task =>
      exact Or.inr (hleaves i (.handling (H.enter task)) (by rw [hen.1]; rfl) rfl)
  | lock i | submitLock task | submitPush task | submitUnlock | dtorLock =>
      -- the mutex is free, or a `submit` holds it
      simp only [enabled, hmutex] at hen
      grind
  | dtorUnlock =>
      have hother := hexcl.destructor_holds (Or.inr hen)
      rw [hmutex] at hother
      cases hother
  | notifyOne woken =>
      cases woken with
      | none | some i => exact Or.inl rfl
  | test i | wake i | handle i handler | finish i | dtorSetStop | notifyAll
  | dtorJoin => exact Or.inl rfl

theorem Exclusive.next {s : ThreadPool n Task Handler}
    {a : Action n Task Handler} (h : Exclusive s) (hen : enabled H s a) :
    Exclusive (next H s a) := by
  constructor
  · intro j hj
    rcases worker_cases hen j with hsame | hmoved
    · rw [hsame] at hj
      rcases mutex_kept h hen hj with hkept | hleft
      · rw [hkept]
        exact h.worker_holds j hj
      · rw [hsame, hj] at hleft
        cases hleft
    · generalize hold : s.workers j = old at hmoved
      generalize (Workers.next H s a).workers j = new at hmoved hj
      cases hmoved with
      | lock => rfl
      | found | notFound => exact h.worker_holds j (by rw [hold]; rfl)
      | block | wake | leave | dequeue task | handle htask | finish hfinished
      | notifyOne | notifyAll => cases hj
  · intro hd
    have hdestructor := h.destructor_holds
    cases a with
    | lock i | test i | block i | wake i | leave i | dequeue i task
    | handle i handler | finish i =>
        have hown := h.worker_holds i
        simp only [enabled, Workers.next, ThreadPool.setWorker] at hen hd ⊢
        grind
    | dtorLock => rfl
    | submitLock task | submitPush task | submitUnlock | dtorSetStop
    | dtorUnlock | notifyAll | dtorJoin =>
        simp only [enabled, Workers.next] at hen hd ⊢
        grind
    | notifyOne woken =>
        cases woken with
        | none | some i => exact hdestructor hd

/-- The verdict of the predicate is still right when it is acted on. -/
structure PredicateHeld (s : ThreadPool n Task Handler) : Prop where
  sleeping : ∀ i, s.workers i = .sleeping → s.taskQueue = [] ∧ s.stop = false
  taking : ∀ i, s.workers i = .taking → s.stop = true ∨ s.taskQueue ≠ []

/-- While a worker is between lock and unlock, what the predicate reads changes only
where that worker dequeues: everyone else would have to hold the mutex as well. -/
theorem predicate_unchanged {s : ThreadPool n Task Handler}
    {a : Action n Task Handler} (hexcl : Exclusive s) (hen : enabled H s a)
    {j : Fin n} (hj : (s.workers j).inSection = true) :
    ((next H s a).taskQueue = s.taskQueue ∧ (next H s a).stop = s.stop) ∨
      ∃ task, a = .dequeue j task := by
  have hmutex := hexcl.worker_holds j hj
  cases a with
  | dequeue i task =>
      have htaking : (s.workers i).inSection = true := by
        rw [hen.1]
        rfl
      have hij : i = j := hexcl.eq_of_inSection htaking hj
      exact Or.inr ⟨task, by rw [hij]⟩
  | submitPush task =>
      have hother : s.queueMutex = some (.submitting task) := hen
      rw [hmutex] at hother
      cases hother
  | dtorSetStop =>
      have hother := hexcl.destructor_holds (Or.inl hen)
      rw [hmutex] at hother
      cases hother
  | notifyOne woken =>
      cases woken with
      | none | some i => exact Or.inl ⟨rfl, rfl⟩
  | lock i | test i | block i | wake i | leave i | handle i handler | finish i
  | submitLock task | submitUnlock | dtorLock | dtorUnlock | notifyAll
  | dtorJoin => exact Or.inl ⟨rfl, rfl⟩

/-- What the predicate has shown the worker that evaluates it. -/
theorem workers_test (s : ThreadPool n Task Handler) (j : Fin n) :
    (next H s (.test j)).workers j =
      if s.stop || !s.taskQueue.isEmpty then .taking else .sleeping :=
  Function.update_self _ _ _

theorem PredicateHeld.next {s : ThreadPool n Task Handler}
    {a : Action n Task Handler} (h : PredicateHeld s) (hexcl : Exclusive s)
    (hen : enabled H s a) : PredicateHeld (next H s a) := by
  constructor
  · intro j hj
    rcases worker_cases hen j with hsame | hmoved
    · have hold : s.workers j = .sleeping := hsame.symm.trans hj
      rcases predicate_unchanged hexcl hen (j := j) (by rw [hold]; rfl) with
        hkept | ⟨task, ha⟩
      · rw [hkept.1, hkept.2]
        exact h.sleeping j hold
      · rw [ha] at hen
        have htaking := hen.1
        rw [hold] at htaking
        cases htaking
    · rw [hj] at hmoved
      generalize s.workers j = w at hmoved
      cases hmoved with
      | notFound =>
          rw [workers_test] at hj
          show s.taskQueue = [] ∧ s.stop = false
          grind
  · intro j hj
    rcases worker_cases hen j with hsame | hmoved
    · have hold : s.workers j = .taking := hsame.symm.trans hj
      rcases predicate_unchanged hexcl hen (j := j) (by rw [hold]; rfl) with
        hkept | ⟨task, ha⟩
      · rw [hkept.1, hkept.2]
        exact h.taking j hold
      · -- the worker that dequeues is not taking any more
        rw [ha] at hj
        have hleft := (Function.update_self j _ _).symm.trans hj
        cases hleft
    · rw [hj] at hmoved
      generalize s.workers j = w at hmoved
      cases hmoved with
      | found =>
          rw [workers_test] at hj
          show s.stop = true ∨ s.taskQueue ≠ []
          grind

/-- `stop` is set exactly from the destructor's critical section on. -/
def StopSet (s : ThreadPool n Task Handler) : Prop :=
  s.stop = true ↔ s.destructor ≠ .notCalled ∧ s.destructor ≠ .locked

theorem StopSet.next {s : ThreadPool n Task Handler}
    {a : Action n Task Handler} (h : StopSet s) (hen : enabled H s a) :
    StopSet (next H s a) := by
  unfold StopSet at h ⊢
  cases a with
  | lock i | test i | block i | wake i | leave i | dequeue i task
  | handle i handler | finish i | submitLock task | submitPush task
  | submitUnlock => exact h
  | notifyOne woken =>
      cases woken with
      | none | some i => exact h
  | dtorLock | dtorSetStop | dtorUnlock | notifyAll | dtorJoin =>
      simp only [enabled, Workers.next] at hen ⊢
      grind

/-! ## Reachable pools -/

section Reachable

variable [DecidableEq Task] [DecidableEq Handler]
  {guard : ThreadPool n Task Handler → Action n Task Handler → Prop}
  {s : ThreadPool n Task Handler}

theorem exclusive_of_reachable (h : (machine H).ReachableIf guard s) :
    Exclusive s := by
  apply Machine.guarded_invariant ?_ ?_ h
  · rintro _ rfl
    constructor
    · intro i hi
      cases hi
    · intro hd
      rcases hd with hd | hd <;> cases hd
  · intro s a _ _ hs hen
    exact hs.next hen

theorem predicateHeld_of_reachable (h : (machine H).ReachableIf guard s) :
    PredicateHeld s := by
  apply Machine.guarded_invariant ?_ ?_ h
  · rintro _ rfl
    constructor
    · intro i hi
      cases hi
    · intro i hi
      cases hi
  · intro s a hreach _ hs hen
    exact hs.next (exclusive_of_reachable hreach) hen

theorem stopSet_of_reachable (h : (machine H).ReachableIf guard s) :
    StopSet s := by
  apply Machine.guarded_invariant ?_ ?_ h
  · rintro _ rfl
    exact iff_of_false (by simp [ThreadPool.new]) (by simp [ThreadPool.new])
  · intro s a _ _ hs hen
    exact hs.next hen

/-- `task_queue.front()` is never evaluated on an empty queue: a worker that has
found the predicate true can return or dequeue. -/
theorem leave_or_dequeue_enabled (h : (machine H).ReachableIf guard s)
    {i : Fin n} (hi : s.workers i = .taking) :
    enabled H s (.leave i) ∨ ∃ task, enabled H s (.dequeue i task) := by
  cases hqueue : s.taskQueue with
  | nil =>
      rcases (predicateHeld_of_reachable h).taking i hi with hstop | hne
      · exact .inl ⟨hi, hstop, hqueue⟩
      · exact absurd hqueue hne
  | cons task rest => exact .inr ⟨task, hi, by rw [hqueue]; rfl⟩

end Reachable

end BkkApi.Server.Workers
