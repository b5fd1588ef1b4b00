import BkkApi.Verified.Run

/-!
# Two runs side by side

A statement about two runs at once, such as that one cannot be told from the other,
is about the pairs of states that they come to when each step of the one goes with
a step of the other.  `Paired` collects these pairs, and `Lockstep` is what a
relation between the states has to satisfy to hold of all of them.
-/

namespace BkkApi.Verified.Run.Machine

variable {State Action State' Action' : Type}

/-- The states that two runs come to, one step with one step.  `Start` says which
beginnings go together, and `Goes` which steps. -/
inductive Paired (M : Machine State Action) (N : Machine State' Action')
    (Start : State → State' → Prop)
    (Goes : State → State' → Action → Action' → Prop) : State → State' → Prop
  | start {s : State} {s' : State'} (hinit : M.init s) (hinit' : N.init s')
      (hstart : Start s s') : Paired M N Start Goes s s'
  | step {s t : State} {s' t' : State'} {a : Action} {a' : Action'}
      (hpaired : Paired M N Start Goes s s') (hgoes : Goes s s' a a')
      (hstep : M.step s a = some t) (hstep' : N.step s' a' = some t') :
      Paired M N Start Goes t t'

/-- A relation that each pair of steps keeps, where the second machine is never
held up. -/
structure Lockstep (M : Machine State Action) (N : Machine State' Action')
    (Start : State → State' → Prop)
    (Goes : State → State' → Action → Action' → Prop)
    (R : State → State' → Prop) : Prop where
  start : ∀ s s', M.init s → N.init s' → Start s s' → R s s'
  step : ∀ s s' a a' t, R s s' → Goes s s' a a' → M.step s a = some t →
    ∃ t', N.step s' a' = some t' ∧ R t t'

variable {M : Machine State Action} {N : Machine State' Action'}
  {Start : State → State' → Prop}
  {Goes : State → State' → Action → Action' → Prop} {R : State → State' → Prop}
  {s t : State} {s' t' : State'}

/-- The induction over two runs. -/
theorem Lockstep.related (hlock : Lockstep M N Start Goes R)
    (h : Paired M N Start Goes s s') : R s s' := by
  induction h with
  | start hinit hinit' hstart => exact hlock.start _ _ hinit hinit' hstart
  | @step s t s' t' a a' _ hgoes hstep hstep' ih =>
      obtain ⟨u', hu', hrelated⟩ := hlock.step s s' a a' t ih hgoes hstep
      rw [hstep'] at hu'
      cases hu'
      exact hrelated

/-- The second run goes on as the first does. -/
theorem Lockstep.follows (hlock : Lockstep M N Start Goes R)
    (h : Paired M N Start Goes s s') {a : Action} {a' : Action'}
    (hgoes : Goes s s' a a') (hstep : M.step s a = some t) :
    ∃ t', N.step s' a' = some t' ∧ Paired M N Start Goes t t' := by
  obtain ⟨t', hstep', -⟩ :=
    hlock.step s s' a a' t (hlock.related h) hgoes hstep
  exact ⟨t', hstep', h.step hgoes hstep hstep'⟩

/-- Two executed lists of actions that go together in any states. -/
theorem Paired.of_run {l : List Action} {f : Action → Action'}
    (hgoes : ∀ a ∈ l, ∀ s s', Goes s s' a (f a))
    (h : Paired M N Start Goes s s') (hrun : M.run s l = some t)
    (hrun' : N.run s' (l.map f) = some t') : Paired M N Start Goes t t' := by
  induction l generalizing s s' with
  | nil =>
      cases hrun
      cases hrun'
      exact h
  | cons a l ih =>
      obtain ⟨u, hstep, hrest⟩ := Option.bind_eq_some_iff.1 hrun
      obtain ⟨u', hstep', hrest'⟩ := Option.bind_eq_some_iff.1 hrun'
      have hfirst := hgoes a List.mem_cons_self s s'
      exact ih (fun b hb => hgoes b (List.mem_cons_of_mem a hb))
        (h.step hfirst hstep hstep') hrest hrest'

end BkkApi.Verified.Run.Machine
