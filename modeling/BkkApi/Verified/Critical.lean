import Mathlib.Logic.Function.Basic
import Mathlib.Order.Defs.PartialOrder
import BkkApi.Verified.Potential

/-!
# Critical sections are atomic

Threads that share data behind one mutex, down to the single instruction.  A
`Section` is the code between lock and unlock: what it is entered with, what one
instruction does to the data and to the thread's locals, and which section the
thread goes on to afterwards.  Instructions of different threads, and the passing
of time, interleave in any order; only the mutex keeps them apart.

`log` lists the completed sections in the order of their last instructions, and
so agrees with the order of calls that do not overlap.  `atomic_of_reachable` is
the reduction: when one section run on its own does what `atomic` says, at one
moment while it runs, then every log of an interleaving is the log of a run that
performs whole sections one after the other (`AtomicRun`), and every thread has
got what is logged.

`idle_of_stalled` is the progress half: sections that always have a next
instruction end, and where no thread can move, all calls have returned.
-/

namespace BkkApi.Verified.Critical

open BkkApi.Verified.Run

/-! ## Sections -/

/-- The code of the sections of one mutex.  `Env` is read by instructions and
changes by itself, `Choice` is what an instruction leaves open. -/
structure Section (Env Choice Data Local Input Output : Type) where
  enter : Input → Local
  /-- One instruction: it goes on with other locals, or ends the section. -/
  instr : Env → Choice → Data → Local → Option (Data × (Local ⊕ Output))
  /-- The section that the thread enters next, if it does not return. -/
  andThen : Input → Option Input
  /-- The sections that a call begins with. -/
  isEntry : Input → Bool

/-- Where a thread is. -/
inductive At (Env Local Input Output : Type)
  | outside
  | locking (input : Input)
  | inside (input : Input) (entered : Env) (locals : Local)
  /-- The section has ended and its unlock is next. -/
  | leaving (input : Input) (output : Output)
  | returned (input : Input) (output : Output)
  deriving DecidableEq

/-- A completed section, and when it was entered and ended. -/
structure Entry (Thread Env Input Output : Type) where
  thread : Thread
  input : Input
  output : Output
  entered : Env
  ended : Env

/-- Threads, the mutex, and what it protects. -/
structure State (Thread Env Data Local Input Output : Type) where
  env : Env
  data : Data
  mutex : Option Thread
  threads : Thread → At Env Local Input Output
  log : List (Entry Thread Env Input Output)

/-- One step of one thread, or of the environment. -/
inductive Action (Thread Env Choice Input : Type)
  | tick (later : Env)
  | call (t : Thread) (input : Input)
  | lock (t : Thread)
  | instr (t : Thread) (choice : Choice)
  | unlock (t : Thread)

variable {Thread Env Choice Data Local Input Output : Type}

section Machine

variable [DecidableEq Thread] [Preorder Env] [DecidableLE Env]
  (S : Section Env Choice Data Local Input Output)

/-- One step. -/
def step (s : State Thread Env Data Local Input Output) :
    Action Thread Env Choice Input →
      Option (State Thread Env Data Local Input Output)
  | .tick later =>
      if s.env ≤ later then some { s with env := later } else none
  | .call t input =>
      match s.threads t with
      | .outside | .returned _ _ =>
          if S.isEntry input then
            some { s with
              threads := Function.update s.threads t (.locking input) }
          else none
      | _ => none
  | .lock t =>
      match s.threads t, s.mutex with
      | .locking input, none =>
          some { s with
            mutex := some t
            threads := Function.update s.threads t
              (.inside input s.env (S.enter input)) }
      | _, _ => none
  | .instr t choice =>
      match s.threads t with
      | .inside input entered locals =>
          (S.instr s.env choice s.data locals).map fun
            | (data, .inl locals') =>
                { s with
                  data := data
                  threads := Function.update s.threads t
                    (.inside input entered locals') }
            | (data, .inr output) =>
                { s with
                  data := data
                  threads := Function.update s.threads t
                    (.leaving input output)
                  log := s.log ++ [⟨t, input, output, entered, s.env⟩] }
      | _ => none
  | .unlock t =>
      match s.threads t with
      | .leaving input output =>
          some { s with
            mutex := none
            threads := Function.update s.threads t
              (match S.andThen input with
              | some next => .locking next
              | none => .returned input output) }
      | _ => none

/-- All interleavings, from the given data. -/
def machine (Thread : Type) [DecidableEq Thread] (data : Data) :
    Machine (State Thread Env Data Local Input Output)
      (Action Thread Env Choice Input) where
  init s := s.data = data ∧ s.mutex = none ∧ (s.threads = fun _ => .outside) ∧
    s.log = []
  step := step S

/-- What one step can be. -/
inductive Step (s : State Thread Env Data Local Input Output) :
    Action Thread Env Choice Input →
      State Thread Env Data Local Input Output → Prop
  | tick {later : Env} (hle : s.env ≤ later) :
      Step s (.tick later) { s with env := later }
  | call {t : Thread} {input : Input}
      (ht : s.threads t = .outside ∨
        ∃ before output, s.threads t = .returned before output)
      (hentry : S.isEntry input = true) :
      Step s (.call t input)
        { s with threads := Function.update s.threads t (.locking input) }
  | lock {t : Thread} {input : Input} (ht : s.threads t = .locking input)
      (hfree : s.mutex = none) :
      Step s (.lock t)
        { s with
          mutex := some t
          threads := Function.update s.threads t
            (.inside input s.env (S.enter input)) }
  | goesOn {t : Thread} {choice : Choice} {input : Input} {entered : Env}
      {locals locals' : Local} {data : Data}
      (ht : s.threads t = .inside input entered locals)
      (hinstr : S.instr s.env choice s.data locals = some (data, .inl locals')) :
      Step s (.instr t choice)
        { s with
          data := data
          threads := Function.update s.threads t
            (.inside input entered locals') }
  | ends {t : Thread} {choice : Choice} {input : Input} {entered : Env}
      {locals : Local} {output : Output} {data : Data}
      (ht : s.threads t = .inside input entered locals)
      (hinstr : S.instr s.env choice s.data locals = some (data, .inr output)) :
      Step s (.instr t choice)
        { s with
          data := data
          threads := Function.update s.threads t (.leaving input output)
          log := s.log ++ [⟨t, input, output, entered, s.env⟩] }
  | unlock {t : Thread} {input : Input} {output : Output}
      (ht : s.threads t = .leaving input output) (after : At Env Local Input Output)
      (hafter : (∃ next, S.andThen input = some next ∧ after = .locking next) ∨
        after = .returned input output) :
      Step s (.unlock t)
        { s with
          mutex := none
          threads := Function.update s.threads t after }

variable {S} {s s' : State Thread Env Data Local Input Output}

theorem step_cases {a : Action Thread Env Choice Input}
    (h : step S s a = some s') : Step S s a s' := by
  cases a with
  | tick later =>
      simp only [step, Option.ite_none_right_eq_some] at h
      obtain ⟨hle, hsame⟩ := h
      exact Option.some.inj hsame ▸ .tick hle
  | call t input =>
      simp only [step] at h
      split at h
      · rename_i ht
        rw [Option.ite_none_right_eq_some] at h
        exact Option.some.inj h.2 ▸ .call (.inl ht) h.1
      · rename_i before output ht
        rw [Option.ite_none_right_eq_some] at h
        exact Option.some.inj h.2 ▸ .call (.inr ⟨before, output, ht⟩) h.1
      · cases h
  | lock t =>
      simp only [step] at h
      split at h
      · rename_i input ht hfree
        exact Option.some.inj h ▸ .lock ht hfree
      · cases h
  | instr t choice =>
      simp only [step] at h
      split at h
      · rename_i input entered locals ht
        obtain ⟨⟨data, result⟩, hinstr, hsame⟩ := Option.map_eq_some_iff.1 h
        cases result with
        | inl locals' => exact hsame ▸ .goesOn ht hinstr
        | inr output => exact hsame ▸ .ends ht hinstr
      · cases h
  | unlock t =>
      simp only [step] at h
      split at h
      · rename_i input output ht
        refine Option.some.inj h ▸ .unlock ht _ ?_
        cases hnext : S.andThen input with
        | some next => exact .inl ⟨next, rfl, rfl⟩
        | none => exact .inr rfl
      · cases h

end Machine

/-! ## One section on its own -/

section Alone

variable [Preorder Env] (S : Section Env Choice Data Local Input Output)

/-- Instructions of one section, while nobody else touches the data and time
passes. -/
inductive Steps (env : Env) (data : Data) (locals : Local) :
    Env → Data → Local → Prop
  | refl {env' : Env} (hle : env ≤ env') : Steps env data locals env' data locals
  | instr {env₁ env₂ : Env} {data₁ data₂ : Data} {locals₁ locals₂ : Local}
      {choice : Choice} (hsteps : Steps env data locals env₁ data₁ locals₁)
      (hinstr : S.instr env₁ choice data₁ locals₁ = some (data₂, .inl locals₂))
      (hle : env₁ ≤ env₂) : Steps env data locals env₂ data₂ locals₂

/-- A whole section. -/
def Performs (env : Env) (data : Data) (input : Input) (env' : Env)
    (data' : Data) (output : Output) : Prop :=
  ∃ data₁ locals choice, Steps S env data (S.enter input) env' data₁ locals ∧
    S.instr env' choice data₁ locals = some (data', .inr output)

/-- On its own every section does what `atomic` says, at one moment while it
runs. -/
def IsAtomic (atomic : Env → Data → Input → Data × Output) : Prop :=
  ∀ env data input env' data' output,
    Performs S env data input env' data' output →
    ∃ now, env ≤ now ∧ now ≤ env' ∧ atomic now data input = (data', output)

variable {S}

theorem Steps.later {env env₁ env₂ : Env} {data data₁ : Data}
    {locals locals₁ : Local} (h : Steps S env data locals env₁ data₁ locals₁)
    (hle : env₁ ≤ env₂) : Steps S env data locals env₂ data₁ locals₁ := by
  cases h with
  | refl hfirst => exact .refl (le_trans hfirst hle)
  | instr hsteps hinstr hlast => exact .instr hsteps hinstr (le_trans hlast hle)

/-- Induction over the instructions of a section. -/
theorem Steps.invariant {env : Env} {data : Data} {locals : Local}
    {I : Env → Data → Local → Prop} (hstart : I env data locals)
    (hlater : ∀ env₁ env₂ data₁ locals₁, I env₁ data₁ locals₁ → env₁ ≤ env₂ →
      I env₂ data₁ locals₁)
    (hinstr : ∀ env₁ data₁ locals₁ choice data₂ locals₂, I env₁ data₁ locals₁ →
      S.instr env₁ choice data₁ locals₁ = some (data₂, .inl locals₂) →
      I env₁ data₂ locals₂) {env' : Env} {data' : Data} {locals' : Local}
    (h : Steps S env data locals env' data' locals') : I env' data' locals' := by
  induction h with
  | refl hle => exact hlater _ _ _ _ hstart hle
  | instr _ hstep hle ih =>
      exact hlater _ _ _ _ (hinstr _ _ _ _ _ _ ih hstep) hle

end Alone

/-! ## Whole sections, one after the other -/

/-- The log of a run in which every section is performed at one moment between
its entry and its end, and none is entered before the one before it has ended. -/
inductive AtomicRun [Preorder Env] (atomic : Env → Data → Input → Data × Output)
    (start : Data) : List (Entry Thread Env Input Output) → Env → Data → Prop
  | start {env : Env} : AtomicRun atomic start [] env start
  | perform {log : List (Entry Thread Env Input Output)}
      {env entered now ended : Env} {data data' : Data} {t : Thread}
      {input : Input} {output : Output}
      (hrun : AtomicRun atomic start log env data) (hle : env ≤ entered)
      (hbefore : entered ≤ now) (hafter : now ≤ ended)
      (hatomic : atomic now data input = (data', output)) :
      AtomicRun atomic start (log ++ [⟨t, input, output, entered, ended⟩])
        ended data'

/-- Two kinds of data that a section finds and leaves related, and answers alike,
have the same logs. -/
theorem AtomicRun.simulate [Preorder Env] {Data' : Type}
    {atomic : Env → Data → Input → Data × Output}
    {atomic' : Env → Data' → Input → Data' × Output} {start : Data}
    {start' : Data'} {R : Env → Data → Data' → Prop}
    (hstart : ∀ env, R env start start')
    (hlater : ∀ env now data data', R env data data' → env ≤ now →
      R now data data')
    (hatomic : ∀ now data data' input, R now data data' →
      R now (atomic now data input).1 (atomic' now data' input).1 ∧
        (atomic now data input).2 = (atomic' now data' input).2)
    {log : List (Entry Thread Env Input Output)} {env : Env} {data : Data}
    (h : AtomicRun atomic start log env data) :
    ∃ data', AtomicRun atomic' start' log env data' ∧ R env data data' := by
  induction h with
  | start => exact ⟨start', .start, hstart _⟩
  | @perform log env entered now ended data data₁ t input output _ hle hbefore
      hafter hstep ih =>
      obtain ⟨data', hrun, hrel⟩ := ih
      have hnow := hlater env now data data' hrel (le_trans hle hbefore)
      obtain ⟨hrel', hsame⟩ := hatomic now data data' input hnow
      rw [hstep] at hrel' hsame
      have hpair : atomic' now data' input =
          ((atomic' now data' input).1, output) := Prod.ext rfl hsame.symm
      exact ⟨_, hrun.perform hle hbefore hafter hpair,
        hlater now ended _ _ hrel' hafter⟩

/-! ## The reduction -/

section Reduction

variable [DecidableEq Thread] [Preorder Env] [DecidableLE Env]
  {S : Section Env Choice Data Local Input Output}
  {atomic : Env → Data → Input → Data × Output} {start : Data}
  {s s' : State Thread Env Data Local Input Output}

/-- A thread between lock and unlock. -/
def At.holds : At Env Local Input Output → Bool
  | .inside _ _ _ | .leaving _ _ => true
  | _ => false

/-- What a thread has got from its last section. -/
def At.answer? : At Env Local Input Output → Option (Input × Output)
  | .leaving input output | .returned input output => some (input, output)
  | _ => none

/-- The last completed section of a thread. -/
def lastOf (t : Thread) (log : List (Entry Thread Env Input Output)) :
    Option (Input × Output) :=
  (log.reverse.find? fun e => e.thread = t).map fun e => (e.input, e.output)

/-- The holder's section so far, on top of the sections completed. -/
inductive Holder (S : Section Env Choice Data Local Input Output)
    (atomic : Env → Data → Input → Data × Output) (start : Data)
    (s : State Thread Env Data Local Input Output) :
    At Env Local Input Output → Prop
  | inside {input : Input} {entered : Env} {locals : Local} {env : Env}
      {base : Data} (hrun : AtomicRun atomic start s.log env base)
      (hle : env ≤ entered)
      (hsteps : Steps S entered base (S.enter input) s.env s.data locals) :
      Holder S atomic start s (.inside input entered locals)
  | leaving {input : Input} {output : Output} {env : Env}
      (hrun : AtomicRun atomic start s.log env s.data) (hle : env ≤ s.env) :
      Holder S atomic start s (.leaving input output)

/-- The state is that of whole sections and at most one under way. -/
structure Reduced (S : Section Env Choice Data Local Input Output)
    (atomic : Env → Data → Input → Data × Output) (start : Data)
    (s : State Thread Env Data Local Input Output) : Prop where
  exclusive : ∀ t, (s.threads t).holds = true → s.mutex = some t
  free : s.mutex = none → ∃ env, AtomicRun atomic start s.log env s.data ∧
    env ≤ s.env
  held : ∀ t, s.mutex = some t → Holder S atomic start s (s.threads t)
  answers : ∀ t answer, (s.threads t).answer? = some answer →
    lastOf t s.log = some answer

omit [Preorder Env] [DecidableLE Env] in
theorem lastOf_concat (t : Thread) (log : List (Entry Thread Env Input Output))
    (e : Entry Thread Env Input Output) :
    lastOf t (log ++ [e]) =
      if e.thread = t then some (e.input, e.output) else lastOf t log := by
  unfold lastOf
  rw [List.reverse_concat, List.find?_cons]
  by_cases h : e.thread = t <;> simp [h]

omit [Preorder Env] [DecidableLE Env] in
/-- Thread `t` moves. -/
theorem Reduced.exclusive_update {t : Thread} {mutex : Option Thread}
    (h : ∀ u, u ≠ t → (s.threads u).holds = true → mutex = some u)
    {place : At Env Local Input Output} (ht : place.holds = true → mutex = some t) :
    ∀ u, (Function.update s.threads t place u).holds = true → mutex = some u :=
  (Function.forall_update_iff s.threads fun u place =>
    place.holds = true → mutex = some u).2 ⟨ht, h⟩

omit [Preorder Env] [DecidableLE Env] in
theorem Reduced.answers_update {t : Thread}
    {log : List (Entry Thread Env Input Output)} {place : At Env Local Input Output}
    (ht : ∀ answer, place.answer? = some answer → lastOf t log = some answer)
    (h : ∀ u, u ≠ t → ∀ answer, (s.threads u).answer? = some answer →
      lastOf u log = some answer) :
    ∀ u answer, (Function.update s.threads t place u).answer? = some answer →
      lastOf u log = some answer :=
  (Function.forall_update_iff s.threads fun u place =>
    ∀ answer, place.answer? = some answer → lastOf u log = some answer).2 ⟨ht, h⟩

theorem Reduced.step (hS : IsAtomic S atomic) (h : Reduced S atomic start s)
    {a : Action Thread Env Choice Input} (hstep : Critical.step S s a = some s') :
    Reduced S atomic start s' := by
  cases step_cases hstep with
  | tick hle =>
      refine { exclusive := h.exclusive, free := ?_, held := ?_, answers := h.answers }
      · intro hfree
        obtain ⟨env, hrun, hbefore⟩ := h.free hfree
        exact ⟨env, hrun, le_trans hbefore hle⟩
      · intro t ht
        show Holder S atomic start _ (s.threads t)
        have hholder := h.held t ht
        generalize s.threads t = place at hholder
        cases hholder with
        | inside hrun hentered hsteps =>
            exact .inside hrun hentered (hsteps.later hle)
        | leaving hrun hbefore => exact .leaving hrun (le_trans hbefore hle)
  | @call t input ht hentry =>
      refine
        { exclusive := Reduced.exclusive_update (fun u _ => h.exclusive u)
            (fun hholds => by cases hholds)
          free := h.free
          held := ?_
          answers := Reduced.answers_update (fun answer hanswer => by cases hanswer)
            fun u _ => h.answers u }
      intro u hu
      have hholder := h.held u hu
      have hne : u ≠ t := by
        rintro rfl
        rcases ht with ht | ⟨before, output, ht⟩ <;> rw [ht] at hholder <;>
          cases hholder
      dsimp only
      rw [Function.update_of_ne hne]
      generalize s.threads u = place at hholder
      cases hholder with
      | inside hrun hentered hsteps => exact .inside hrun hentered hsteps
      | leaving hrun hle => exact .leaving hrun hle
  | @lock t input ht hfree =>
      obtain ⟨env, hrun, hle⟩ := h.free hfree
      refine
        { exclusive := Reduced.exclusive_update ?_ fun _ => rfl
          free := fun hnone => (by cases hnone)
          held := ?_
          answers := Reduced.answers_update (fun answer hanswer => by cases hanswer)
            fun u _ => h.answers u }
      · intro u _ hu
        have hmutex := h.exclusive u hu
        rw [hfree] at hmutex
        cases hmutex
      · intro u hu
        cases hu
        dsimp only
        rw [Function.update_self]
        exact .inside hrun hle (.refl (le_refl _))
  | @goesOn t choice input entered locals locals' data ht hinstr =>
      have hmutex := h.exclusive t (by rw [ht]; rfl)
      have hholder := h.held t hmutex
      rw [ht] at hholder
      refine
        { exclusive := Reduced.exclusive_update (fun u _ => h.exclusive u)
            fun _ => hmutex
          free := ?_
          held := ?_
          answers := Reduced.answers_update (fun answer hanswer => by cases hanswer)
            fun u _ => h.answers u }
      · intro hnone
        rw [hmutex] at hnone
        cases hnone
      · intro u hu
        rw [hmutex] at hu
        cases hu
        dsimp only
        rw [Function.update_self]
        cases hholder with
        | inside hrun hentered hsteps =>
            exact .inside hrun hentered (hsteps.instr hinstr (le_refl _))
  | @ends t choice input entered locals output data ht hinstr =>
      have hmutex := h.exclusive t (by rw [ht]; rfl)
      have hholder := h.held t hmutex
      rw [ht] at hholder
      refine
        { exclusive := Reduced.exclusive_update (fun u _ => h.exclusive u)
            fun _ => hmutex
          free := ?_
          held := ?_
          answers := Reduced.answers_update ?_ ?_ }
      · intro hnone
        rw [hmutex] at hnone
        cases hnone
      · -- the whole section is performed at its moment
        intro u hu
        rw [hmutex] at hu
        cases hu
        dsimp only
        rw [Function.update_self]
        cases hholder with
        | inside hrun hentered hsteps =>
            obtain ⟨now, hbefore, hafter, hatomic⟩ :=
              hS _ _ _ _ _ _ ⟨_, _, _, hsteps, hinstr⟩
            exact .leaving (hrun.perform hentered hbefore hafter hatomic)
              (le_refl _)
      · intro answer hanswer
        rw [lastOf_concat, if_pos rfl]
        exact hanswer
      · intro u hne answer hanswer
        rw [lastOf_concat, if_neg (Ne.symm hne)]
        exact h.answers u answer hanswer
  | @unlock t input output ht after hafter =>
      have hmutex := h.exclusive t (by rw [ht]; rfl)
      have hholder := h.held t hmutex
      rw [ht] at hholder
      refine
        { exclusive := Reduced.exclusive_update ?_ ?_
          free := ?_
          held := fun u hu => (by cases hu)
          answers := Reduced.answers_update ?_ fun u _ => h.answers u }
      · intro u hne hu
        have hother := h.exclusive u hu
        rw [hmutex] at hother
        exact absurd (Option.some.inj hother).symm hne
      · intro hholds
        rcases hafter with ⟨next, -, rfl⟩ | rfl <;> cases hholds
      · intro _
        cases hholder with
        | leaving hrun hle => exact ⟨_, hrun, hle⟩
      · intro answer hanswer
        rcases hafter with ⟨next, -, rfl⟩ | rfl
        · cases hanswer
        · exact h.answers t answer (by rw [ht]; exact hanswer)

/-- **Sections are atomic.**  Every interleaving has the log of a run that
performs whole sections one after the other. -/
theorem reduced_of_reachable (hS : IsAtomic S atomic)
    (h : (machine S Thread start).Reachable s) : Reduced S atomic start s := by
  apply Machine.ReachableIf.invariant ?_ ?_ h
  · rintro s ⟨hdata, hmutex, hthreads, hlog⟩
    refine { exclusive := ?_, free := ?_, held := ?_, answers := ?_ }
    · intro t ht
      rw [hthreads] at ht
      cases ht
    · intro _
      refine ⟨s.env, ?_, le_refl _⟩
      rw [hlog, hdata]
      exact .start
    · intro t ht
      rw [hmutex] at ht
      cases ht
    · intro t answer ht
      rw [hthreads] at ht
      cases ht
  · intro s a s' _ _ hs hstep
    exact hs.step hS hstep

theorem atomic_of_reachable (hS : IsAtomic S atomic)
    (h : (machine S Thread start).Reachable s) :
    ∃ env data, AtomicRun atomic start s.log env data := by
  have hreduced := reduced_of_reachable hS h
  cases hmutex : s.mutex with
  | none =>
      obtain ⟨env, hrun, -⟩ := hreduced.free hmutex
      exact ⟨env, s.data, hrun⟩
  | some t =>
      have hholder := hreduced.held t hmutex
      generalize s.threads t = place at hholder
      cases hholder with
      | inside hrun hentered hsteps => exact ⟨_, _, hrun⟩
      | leaving hrun hle => exact ⟨_, _, hrun⟩

/-- What has been logged stays, so the log keeps the order of calls that do not
overlap. -/
theorem log_prefix {guard : State Thread Env Data Local Input Output →
      Action Thread Env Choice Input → Prop}
    (h : (machine S Thread start).LeadsTo guard s s') : s.log <+: s'.log := by
  induction h with
  | refl => exact List.prefix_rfl
  | step _ _ hstep ih =>
      refine ih.trans ?_
      cases step_cases hstep with
      | ends ht hinstr => exact List.prefix_append _ _
      | tick hle | call ht hentry | lock ht hfree | goesOn ht hinstr
      | unlock ht hafter => exact List.prefix_rfl

/-! ## Where nothing moves -/

/-- A thread between its calls. -/
def At.idle : At Env Local Input Output → Bool
  | .outside | .returned _ _ => true
  | _ => false

/-- A step of a thread in the middle of a call. -/
def Action.isOwn : Action Thread Env Choice Input → Bool
  | .lock _ | .instr _ _ | .unlock _ => true
  | .tick _ | .call _ _ => false

/-- Wherever a section is, it has a next instruction. -/
def IsLive (S : Section Env Choice Data Local Input Output) : Prop :=
  ∀ env data input env' data' locals,
    Steps S env data (S.enter input) env' data' locals →
    ∃ choice result, S.instr env' choice data' locals = some result

/-- Nobody waits for ever: with nothing left to do for the threads, every call
has returned. -/
theorem idle_of_stalled (hS : IsAtomic S atomic) (hlive : IsLive S)
    (h : (machine S Thread start).Reachable s)
    (hstalled : (machine S Thread start).Stalled (fun _ a => a.isOwn = true) s)
    (t : Thread) : (s.threads t).idle = true := by
  have hreduced := reduced_of_reachable hS h
  have hnone : ∀ a, a.isOwn = true → Critical.step S s a = none := hstalled
  have hfree : s.mutex = none := by
    cases hmutex : s.mutex with
    | none => rfl
    | some u =>
        exfalso
        have hholder := hreduced.held u hmutex
        cases hplace : s.threads u with
        | inside input entered locals =>
            rw [hplace] at hholder
            cases hholder with
            | inside hrun hentered hsteps =>
                obtain ⟨choice, ⟨data, result⟩, hinstr⟩ := hlive _ _ _ _ _ _ hsteps
                have hstuck := hnone (.instr u choice) rfl
                simp [step, hplace, hinstr] at hstuck
        | leaving input output =>
            have hstuck := hnone (.unlock u) rfl
            simp [step, hplace] at hstuck
        | outside | locking input | returned input output =>
            rw [hplace] at hholder
            cases hholder
  cases hplace : s.threads t with
  | outside | returned input output => rfl
  | locking input =>
      have hstuck := hnone (.lock t) rfl
      simp [step, hplace, hfree] at hstuck
  | inside input entered locals | leaving input output =>
      have hmutex := hreduced.exclusive t (by rw [hplace]; rfl)
      rw [hfree] at hmutex
      cases hmutex

end Reduction

end BkkApi.Verified.Critical
