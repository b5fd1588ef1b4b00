import Mathlib.Init

/-!
# Runs of labelled machines

A `Machine` is a set of initial states and a partial step function.  The
action of a step carries everything the step reads from outside (the choice
of the scheduler, a packet, a clock reading), so one step function covers
every interleaving: a run is an arbitrary list of actions.

* `ReachableIf guard` collects the states of the runs whose every step
  satisfies `guard`; `Reachable` is the unguarded case.
* `ReachableIf.invariant` is the induction over runs, packaged once: what holds
  at the start and survives a step holds in every state.  The step premise
  may use that the state before the step is itself reachable, so invariants
  already proved are available for the next one.
* `LeadsTo` is the continuation of a run, for facts that stay true.
* `runIf` executes a list of actions under an executable guard, so that a
  concrete run is evidence for a reachable state.
* `guarded` is the machine of a list of guarded commands: when an action is
  possible, and what it then does.
* `Projection` says that a component of a larger machine takes only steps of
  its own machine, so that every theorem about the component lifts.
-/

namespace BkkApi.Verified.Run

/-- A machine with partial, labelled steps. -/
structure Machine (State Action : Type) where
  init : State → Prop
  step : State → Action → Option State

namespace Machine

variable {State Action : Type} (M : Machine State Action)

/-- States of the runs whose every step satisfies `guard`. -/
inductive ReachableIf (guard : State → Action → Prop) : State → Prop
  | start {s : State} (hinit : M.init s) : ReachableIf guard s
  | step {s t : State} {a : Action} (hreach : ReachableIf guard s)
      (hguard : guard s a) (hstep : M.step s a = some t) : ReachableIf guard t

/-- States of arbitrary runs. -/
abbrev Reachable : State → Prop := M.ReachableIf fun _ _ => True

/-- `t` continues a run that has reached `s`. -/
inductive LeadsTo (guard : State → Action → Prop) (s : State) : State → Prop
  | refl : LeadsTo guard s s
  | step {t u : State} {a : Action} (hlead : LeadsTo guard s t)
      (hguard : guard t a) (hstep : M.step t a = some u) : LeadsTo guard s u

variable {M} {guard : State → Action → Prop}

theorem Reachable.step {s t : State} {a : Action} (hreach : M.Reachable s)
    (hstep : M.step s a = some t) : M.Reachable t :=
  ReachableIf.step hreach trivial hstep

/-- Dropping the guard keeps a state reachable. -/
theorem ReachableIf.reachable {s : State} (h : M.ReachableIf guard s) :
    M.Reachable s := by
  induction h with
  | start hinit => exact .start hinit
  | step _ _ hstep ih => exact ih.step hstep

/-- Induction over runs: an invariant holds initially and survives every step
taken from a reachable state. -/
theorem ReachableIf.invariant {I : State → Prop}
    (hinit : ∀ s, M.init s → I s)
    (hstep : ∀ s a t, M.ReachableIf guard s → guard s a → I s →
      M.step s a = some t → I t) :
    ∀ {s : State}, M.ReachableIf guard s → I s := by
  intro s h
  induction h with
  | start h0 => exact hinit _ h0
  | step hreach hguard hs ih => exact hstep _ _ _ hreach hguard ih hs

theorem ReachableIf.trans {s t : State} (h : M.ReachableIf guard s)
    (hlead : M.LeadsTo guard s t) : M.ReachableIf guard t := by
  induction hlead with
  | refl => exact h
  | step _ hguard hstep ih => exact .step ih hguard hstep

/-- A property that survives every step from a reachable state survives every
continuation of a run. -/
theorem LeadsTo.preserves {I : State → Prop}
    (hstep : ∀ s a t, M.ReachableIf guard s → guard s a → I s →
      M.step s a = some t → I t)
    {s t : State} (h : M.ReachableIf guard s) (hs : I s)
    (hlead : M.LeadsTo guard s t) : I t := by
  induction hlead with
  | refl => exact hs
  | step hprev hguard hnext ih =>
      exact hstep _ _ _ (h.trans hprev) hguard ih hnext

/-- Executing a list of actions; `none` as soon as one is not enabled, or does
not pass the test. -/
def runIf (M : Machine State Action) (test : State → Action → Bool) (s : State) :
    List Action → Option State
  | [] => some s
  | a :: l =>
      if test s a then (M.step s a).bind fun t => M.runIf test t l else none

/-- Executing a list of actions; `none` as soon as one is not enabled. -/
def run (M : Machine State Action) (s : State) (l : List Action) : Option State :=
  M.runIf (fun _ _ => true) s l

/-- An executed list of actions continues a run, guarded by whatever the test
implies. -/
theorem LeadsTo.of_runIf {test : State → Action → Bool}
    (htest : ∀ s a, test s a = true → guard s a) {s t u : State}
    {l : List Action} (hlead : M.LeadsTo guard s t)
    (hrun : M.runIf test t l = some u) : M.LeadsTo guard s u := by
  induction l generalizing t with
  | nil => exact Option.some.inj hrun ▸ hlead
  | cons a l ih =>
      rw [runIf, Option.ite_none_right_eq_some] at hrun
      obtain ⟨hpass, hrest⟩ := hrun
      obtain ⟨v, hstep, hrest⟩ := Option.bind_eq_some_iff.1 hrest
      exact ih (hlead.step (htest t a hpass) hstep) hrest

/-- A test passed by the last state of an executed list of actions is passed by
a reachable state. -/
theorem exists_reachableIf_of_runIf {test : State → Action → Bool}
    (htest : ∀ s a, test s a = true → guard s a) {s : State}
    (hinit : M.init s) {l : List Action} {p : State → Bool}
    (h : (M.runIf test s l).map p = some true) :
    ∃ t, M.ReachableIf guard t ∧ p t = true := by
  obtain ⟨t, hrun, hp⟩ := Option.map_eq_some_iff.1 h
  exact ⟨t, (ReachableIf.start hinit).trans (.of_runIf htest .refl hrun), hp⟩

theorem exists_reachable_of_run {s : State} (hinit : M.init s)
    {l : List Action} {p : State → Bool}
    (h : (M.run s l).map p = some true) : ∃ t, M.Reachable t ∧ p t = true :=
  exists_reachableIf_of_runIf (fun _ _ _ => trivial) hinit h

end Machine

/-! ## Guarded commands -/

section Guarded

variable {State Action : Type} {init : State → Prop}
  {enabled : State → Action → Prop} [∀ s a, Decidable (enabled s a)]
  {next : State → Action → State}

/-- The machine that does `next s a` when `enabled s a`, and nothing else. -/
def Machine.guarded (init : State → Prop) (enabled : State → Action → Prop)
    [∀ s a, Decidable (enabled s a)] (next : State → Action → State) :
    Machine State Action where
  init := init
  step s a := if enabled s a then some (next s a) else none

theorem Machine.guarded_step_iff {s t : State} {a : Action} :
    (Machine.guarded init enabled next).step s a = some t ↔
      enabled s a ∧ next s a = t := by
  simp [Machine.guarded]

/-- Induction over the runs of guarded commands. -/
theorem Machine.guarded_invariant {guard : State → Action → Prop}
    {I : State → Prop} (hinit : ∀ s, init s → I s)
    (hnext : ∀ s a, (Machine.guarded init enabled next).ReachableIf guard s →
      guard s a → I s → enabled s a → I (next s a)) {s : State}
    (h : (Machine.guarded init enabled next).ReachableIf guard s) : I s := by
  apply Machine.ReachableIf.invariant hinit ?_ h
  intro s a t hreach hguard hs hstep
  obtain ⟨hen, rfl⟩ := Machine.guarded_step_iff.1 hstep
  exact hnext s a hreach hguard hs hen

end Guarded

/-! ## Components -/

/-- `view` extracts a component of `M` that only ever takes steps of `N`, each
allowed by `N`'s guard, or stands still. -/
structure Projection {State Action State' Action' : Type}
    (M : Machine State Action) (N : Machine State' Action')
    (guard : State → Action → Prop) (guard' : State' → Action' → Prop)
    (view : State → State') : Prop where
  init : ∀ s, M.init s → N.init (view s)
  step : ∀ s a t, guard s a → M.step s a = some t →
    view t = view s ∨
      ∃ b, guard' (view s) b ∧ N.step (view s) b = some (view t)

namespace Projection

variable {State Action State' Action' : Type}
  {M : Machine State Action} {N : Machine State' Action'}
  {guard : State → Action → Prop} {guard' : State' → Action' → Prop}
  {view : State → State'}

/-- Every reachable state of the whole shows a reachable state of the
component. -/
theorem reachable (P : Projection M N guard guard' view) {s : State}
    (h : M.ReachableIf guard s) : N.ReachableIf guard' (view s) := by
  induction h with
  | start hinit => exact .start (P.init _ hinit)
  | step _ hguard hstep ih =>
      rcases P.step _ _ _ hguard hstep with heq | ⟨b, hb, hview⟩
      · exact heq ▸ ih
      · exact .step ih hb hview

/-- A continuation of the whole shows a continuation of the component. -/
theorem leadsTo (P : Projection M N guard guard' view) {s t : State}
    (h : M.LeadsTo guard s t) : N.LeadsTo guard' (view s) (view t) := by
  induction h with
  | refl => exact .refl
  | step _ hguard hstep ih =>
      rcases P.step _ _ _ hguard hstep with heq | ⟨b, hb, hview⟩
      · exact heq ▸ ih
      · exact .step ih hb hview

end Projection

end BkkApi.Verified.Run
