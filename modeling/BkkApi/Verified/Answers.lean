import Mathlib.Init

/-!
# Machines that answer, and equality of what they answer

A `Transducer` is a deterministic machine whose every step also returns an
answer.  `answers` runs a list of actions and collects the answers; it is
`none` when some action is not enabled.  Two transducers over different state
types are compared by nothing but their answers: `answers_eq_of_simulation`
turns a relation that is preserved step by step, with equal answers, into
equality of the answers of every run of any length.
-/

namespace BkkApi.Verified.Answers

/-- A deterministic machine whose steps return answers. -/
structure Transducer (State Action Answer : Type) where
  start : State
  step : State → Action → Option (State × Answer)

namespace Transducer

variable {State State' Action Answer : Type}

/-- The answers of the run of `as` from `s`. -/
def answersFrom (T : Transducer State Action Answer) (s : State) :
    List Action → Option (List Answer)
  | [] => some []
  | a :: as => (T.step s a).bind fun (t, o) => (T.answersFrom t as).map (o :: ·)

/-- The answers of the run of `as` from the start. -/
def answers (T : Transducer State Action Answer) (as : List Action) :
    Option (List Answer) :=
  T.answersFrom T.start as

/-- `R` relates the states of two transducers so that related states enable
the same actions, answer them alike, and stay related. -/
structure Simulation (T : Transducer State Action Answer)
    (T' : Transducer State' Action Answer) (R : State → State' → Prop) :
    Prop where
  start : R T.start T'.start
  disabled : ∀ {s s' a}, R s s' → (T.step s a = none ↔ T'.step s' a = none)
  enabled : ∀ {s s' a t o t' o'}, R s s' → T.step s a = some (t, o) →
    T'.step s' a = some (t', o') → R t t' ∧ o = o'

/-- Related states answer every list of actions alike. -/
theorem answersFrom_eq_of_simulation {T : Transducer State Action Answer}
    {T' : Transducer State' Action Answer} {R : State → State' → Prop}
    (hsim : Simulation T T' R) :
    ∀ (as : List Action) (s : State) (s' : State'), R s s' →
      T.answersFrom s as = T'.answersFrom s' as := by
  intro as
  induction as with
  | nil => intro s s' _; rfl
  | cons a as ih =>
      intro s s' hR
      simp only [answersFrom]
      cases hT : T.step s a with
      | none => rw [(hsim.disabled hR).1 hT]; rfl
      | some r =>
          obtain ⟨t, o⟩ := r
          cases hT' : T'.step s' a with
          | none =>
              have hnone := (hsim.disabled hR).2 hT'
              rw [hnone] at hT
              cases hT
          | some r' =>
              obtain ⟨t', o'⟩ := r'
              obtain ⟨hnext, rfl⟩ := hsim.enabled hR hT hT'
              simp only [Option.bind_some, ih t t' hnext]

/-- A simulation equates the answers of all runs. -/
theorem answers_eq_of_simulation {T : Transducer State Action Answer}
    {T' : Transducer State' Action Answer} {R : State → State' → Prop}
    (hsim : Simulation T T' R) (as : List Action) :
    T.answers as = T'.answers as :=
  answersFrom_eq_of_simulation hsim as _ _ hsim.start

end Transducer

end BkkApi.Verified.Answers
