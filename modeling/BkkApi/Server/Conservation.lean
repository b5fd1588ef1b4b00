import BkkApi.Server.Workers

/-!
# Every submitted task is in one place

The pool neither loses nor duplicates a task: the tasks pushed so far are those
dequeued so far followed by the queue (`Fifo`), and the dequeued ones are in
some worker's hands or finished, each as often as it was dequeued
(`Accounted`).  When no push follows the setting of `stop`, a worker that
returns leaves an empty queue behind it for good (`Drained`).
-/

namespace BkkApi.Server.Conservation

open BkkApi.Verified.Run
open BkkApi.Verified.Tally
open BkkApi.Server.Workers

variable {n : Nat} {Task Handler : Type} {H : Handling Task Handler}

/-! ## Order -/

/-- Tasks leave the queue in the order they entered it. -/
def Fifo (s : ThreadPool n Task Handler) : Prop :=
  s.submitted = s.dequeued ++ s.taskQueue

theorem Fifo.next {s : ThreadPool n Task Handler}
    {a : Action n Task Handler} (h : Fifo s) (hen : enabled H s a) :
    Fifo (next H s a) := by
  cases a with
  | submitPush task =>
      show s.submitted ++ [task] = s.dequeued ++ (s.taskQueue ++ [task])
      rw [h, List.append_assoc]
  | dequeue i task =>
      show s.submitted = (s.dequeued ++ [task]) ++ s.taskQueue.tail
      rw [h, List.append_assoc, List.singleton_append,
        List.cons_head?_tail (Option.mem_def.2 hen.2)]
  | notifyOne woken =>
      cases woken with
      | none | some i => exact h
  | lock i | test i | block i | wake i | leave i | handle i handler | finish i
  | submitLock task | submitUnlock | dtorLock | dtorSetStop | dtorUnlock
  | notifyAll | dtorJoin => exact h

/-! ## Number -/

section Number

variable [DecidableEq Task]

/-- The task is in this worker's hands. -/
def holds (H : Handling Task Handler) (task : Task) (w : Worker Handler) :
    Bool :=
  decide (task ∈ w.held H)

theorem tally_holds_eq_zero {s : ThreadPool n Task Handler} {task : Task}
    (hnone : tally (holds H task) s.workers = 0) (i : Fin n) :
    task ∉ (s.workers i).held H :=
  of_decide_eq_false (tally_eq_zero_iff.1 hnone i)

/-- A task submitted once has one holder at most. -/
theorem holder_unique {s : ThreadPool n Task Handler} {task : Task}
    (hone : tally (holds H task) s.workers ≤ 1) {i j : Fin n}
    (hi : task ∈ (s.workers i).held H) (hj : task ∈ (s.workers j).held H) :
    i = j := by
  by_contra hij
  have htwo := tally_two_le (p := holds H task) (f := s.workers) hij
    (decide_eq_true hi) (decide_eq_true hj)
  omega

/-- A dequeued task is in some worker's hands or finished. -/
def Accounted (H : Handling Task Handler) (s : ThreadPool n Task Handler) :
    Prop :=
  ∀ task, s.dequeued.count task =
    tally (holds H task) s.workers + s.finished.count task

/-- Moving one worker moves its task with it. -/
theorem holders_move {s : ThreadPool n Task Handler} {i : Fin n}
    {w : Worker Handler} (hpc : s.workers i = w) (w' : Worker Handler)
    (task : Task) :
    tally (holds H task) (Function.update s.workers i w') +
        (holds H task w).toNat =
      tally (holds H task) s.workers + (holds H task w').toNat := by
  subst hpc
  exact tally_update _ _ _ _

/-- Whoever moves between two conditions without a task in hand, or keeps the
task it has, changes no count. -/
theorem Accounted.setWorker {s t : ThreadPool n Task Handler}
    (h : Accounted H s) {i : Fin n} {w' : Worker Handler}
    (hheld : w'.held H = (s.workers i).held H)
    (hworkers : t.workers = Function.update s.workers i w')
    (hdequeued : t.dequeued = s.dequeued) (hfinished : t.finished = s.finished) :
    Accounted H t := by
  intro task
  have hmove := holders_move (H := H) (s := s) (i := i) rfl w' task
  have hsame : holds H task w' = holds H task (s.workers i) := by
    rw [holds, hheld, holds]
  rw [hsame] at hmove
  rw [hworkers, hdequeued, hfinished, h task]
  omega

theorem Accounted.next {s : ThreadPool n Task Handler}
    {a : Action n Task Handler} (h : Accounted H s) (hen : enabled H s a) :
    Accounted H (next H s a) := by
  have hcount : ∀ task' task : Task, [task'].count task =
      (decide (task ∈ [task'])).toNat := by
    intro task' task
    by_cases heq : task = task'
    · simp [heq]
    · simp [heq, Ne.symm heq]
  cases a with
  | lock i => exact h.setWorker (by rw [hen.1]; rfl) rfl rfl rfl
  | test i =>
      refine h.setWorker ?_ rfl rfl rfl
      rw [hen]
      cases s.stop || !s.taskQueue.isEmpty <;> rfl
  | block i | wake i => exact h.setWorker (by rw [hen]; rfl) rfl rfl rfl
  | leave i => exact h.setWorker (by rw [hen.1]; rfl) rfl rfl rfl
  | handle i handler =>
      have hheld : (Worker.handling handler).held H = (s.workers i).held H :=
        hen.symm
      exact h.setWorker hheld rfl rfl rfl
  | dequeue i task' =>
      -- one more dequeued, one more in hand
      intro task
      have hmove := holders_move (H := H) hen.1 (.handling (H.enter task')) task
      have hnew : holds H task (.handling (H.enter task')) =
          decide (task ∈ [task']) := by
        rw [holds, Worker.held, H.task_enter]
      rw [hnew, ← hcount] at hmove
      change _ + 0 = _ at hmove
      show (s.dequeued ++ [task']).count task =
        tally (holds H task) (Function.update s.workers i _) +
          s.finished.count task
      rw [List.count_append, h task]
      omega
  | finish i =>
      -- one less in hand, one more finished
      intro task
      obtain ⟨handler, hpc⟩ := Worker.handling_of_isDone hen
      have hmove := holders_move (H := H) hpc .outside task
      have hold : holds H task (.handling handler) =
          decide (task ∈ [H.task handler]) := rfl
      rw [hold, ← hcount] at hmove
      show s.dequeued.count task =
        tally (holds H task) (Function.update s.workers i .outside) +
          (s.finished ++ (s.workers i).held H).count task
      rw [List.count_append, h task, hpc]
      change _ = _ + 0 at hmove
      show _ = _ + (_ + [H.task handler].count task)
      omega
  | notifyOne woken =>
      cases woken with
      | none => exact h
      | some i => exact h.setWorker (by rw [hen.2]; rfl) rfl rfl rfl
  | notifyAll =>
      intro task
      have hsame : tally (holds H task) (fun i => (s.workers i).notified) =
          tally (holds H task) s.workers :=
        tally_congr fun i => by simp only [holds, Worker.held_notified]
      exact hsame ▸ h task
  | submitLock task | submitPush task | submitUnlock | dtorLock | dtorSetStop
  | dtorUnlock | dtorJoin => exact h

end Number

/-! ## Shutdown -/

/-- No push follows the setting of `stop`. -/
def NoPushAfterStop (s : ThreadPool n Task Handler) :
    Action n Task Handler → Prop
  | .submitPush _ => s.stop = false
  | _ => True

/-- Some worker has returned, and the queue is empty for good. -/
structure Drained (s : ThreadPool n Task Handler) (i : Fin n) : Prop where
  returned : s.workers i = .returned
  stop : s.stop = true
  empty : s.taskQueue = []

theorem Drained.next {s : ThreadPool n Task Handler}
    {a : Action n Task Handler} {i : Fin n} (h : Drained s i)
    (hguard : NoPushAfterStop s a) (hen : enabled H s a) :
    Drained (next H s a) i := by
  obtain ⟨hreturned, hstop, hempty⟩ := h
  have hstays := returned_next hen hreturned
  cases a with
  | dequeue j task =>
      have hhead := hen.2
      rw [hempty] at hhead
      cases hhead
  | submitPush task => exact absurd (hstop.symm.trans hguard) (by simp)
  | notifyOne woken =>
      cases woken with
      | none | some j => exact ⟨hstays, hstop, hempty⟩
  | dtorSetStop => exact ⟨hstays, rfl, hempty⟩
  | lock j | test j | block j | wake j | leave j | handle j handler | finish j
  | notifyAll | submitLock task | submitUnlock | dtorLock | dtorUnlock
  | dtorJoin => exact ⟨hstays, hstop, hempty⟩

/-! ## Runs -/

section Runs

variable [DecidableEq Task] [DecidableEq Handler]
  {guard : ThreadPool n Task Handler → Action n Task Handler → Prop}
  {s : ThreadPool n Task Handler}

theorem fifo_of_reachable (h : (machine H).ReachableIf guard s) : Fifo s := by
  apply Machine.guarded_invariant ?_ ?_ h
  · rintro _ rfl
    rfl
  · intro s a _ _ hs hen
    exact hs.next hen

theorem accounted_of_reachable (h : (machine H).ReachableIf guard s) :
    Accounted H s := by
  apply Machine.guarded_invariant ?_ ?_ h
  · rintro _ rfl task
    have hnone : tally (holds H task)
        (ThreadPool.new : ThreadPool n Task Handler).workers = 0 :=
      tally_eq_zero_iff.2 fun i => rfl
    rw [hnone]
    rfl
  · intro s a _ _ hs hen
    exact hs.next hen

/-- Each submitted task is queued, in hand, or finished, as often in total as it
was submitted. -/
theorem count_submitted (h : (machine H).ReachableIf guard s) (task : Task) :
    s.submitted.count task =
      s.taskQueue.count task + tally (holds H task) s.workers +
        s.finished.count task := by
  rw [fifo_of_reachable h, List.count_append, accounted_of_reachable h task]
  omega

/-- Exactly one place: once in the queue, in one worker's hands, or finished. -/
def OnePlace (H : Handling Task Handler) (s : ThreadPool n Task Handler)
    (task : Task) : Prop :=
  (s.taskQueue.count task = 1 ∧ (∀ i, task ∉ (s.workers i).held H) ∧
      task ∉ s.finished) ∨
    (task ∉ s.taskQueue ∧ (∃! i, task ∈ (s.workers i).held H) ∧
      task ∉ s.finished) ∨
    (task ∉ s.taskQueue ∧ (∀ i, task ∉ (s.workers i).held H) ∧
      s.finished.count task = 1)

/-- A task submitted once is in exactly one place. -/
theorem onePlace_of_count (h : (machine H).ReachableIf guard s) {task : Task}
    (hone : s.submitted.count task = 1) : OnePlace H s task := by
  have hcount := count_submitted h task
  rw [hone] at hcount
  by_cases hqueue : s.taskQueue.count task = 0
  · have hout : task ∉ s.taskQueue := List.count_eq_zero.1 hqueue
    by_cases hheld : tally (holds H task) s.workers = 0
    · refine .inr (.inr ⟨hout, tally_holds_eq_zero hheld, ?_⟩)
      omega
    · obtain ⟨i, hi⟩ := exists_of_tally_pos (Nat.pos_of_ne_zero hheld)
      refine .inr (.inl ⟨hout, ⟨i, of_decide_eq_true hi, fun j hj => ?_⟩, ?_⟩)
      · exact holder_unique (by omega) hj (of_decide_eq_true hi)
      · exact List.count_eq_zero.1 (by omega)
  · refine .inl ⟨by omega, tally_holds_eq_zero (by omega), ?_⟩
    exact List.count_eq_zero.1 (by omega)

/-- A worker only returns when the queue is empty and `stop` is set, and then
both stay so. -/
theorem drained_of_reachable (h : (machine H).ReachableIf NoPushAfterStop s) :
    ∀ i, s.workers i = .returned → Drained s i := by
  apply Machine.guarded_invariant (I := fun s =>
    ∀ i, s.workers i = .returned → Drained s i) ?_ ?_ h
  · rintro _ rfl i hi
    cases hi
  · intro s a _ hguard hs hen i hi
    by_cases hbefore : s.workers i = .returned
    · exact (hs i hbefore).next hguard hen
    · rcases worker_cases hen i with hsame | hmoved
      · exact absurd (hsame.symm.trans hi) hbefore
      · rw [hi] at hmoved
        generalize s.workers i = old at hmoved
        cases hmoved with
        | leave => exact ⟨hi, hen.2.1, hen.2.2⟩

/-- A queue found empty by a returned worker stays empty. -/
theorem drained_of_leadsTo {t : ThreadPool n Task Handler} {i : Fin n}
    (h : (machine H).ReachableIf NoPushAfterStop s) (hs : Drained s i)
    (hlead : (machine H).LeadsTo NoPushAfterStop s t) : Drained t i := by
  apply hlead.preserves (I := fun t => Drained t i) ?_ h hs
  intro s a t _ hguard hs hstep
  obtain ⟨hen, rfl⟩ := Machine.guarded_step_iff.1 hstep
  exact hs.next hguard hen

end Runs

end BkkApi.Server.Conservation
