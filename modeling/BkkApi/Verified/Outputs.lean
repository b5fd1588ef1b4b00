import Mathlib.Data.List.Forall2
import BkkApi.Verified.Run

/-!
# What a run puts out

Some steps of a machine hand something to the outside world.  `Emits out s l t`
says that a run from `s` to `t` has put out `l`, in this order, when `out` says
what a step puts out.

`Emits.invariant` is the induction: a relation between the state and everything
put out so far.

`exists_causes` attributes outputs to causes: when no cause has two outputs, the
causes of different outputs are different.
-/

namespace BkkApi.Verified.Run.Machine

variable {State Action Output : Type} (M : Machine State Action)

/-- A run has put out a list on its way from `s` to `t`. -/
inductive Emits (out : State → Action → Option Output) (s : State) :
    List Output → State → Prop
  | nil : Emits out s [] s
  | snoc {l : List Output} {t u : State} {a : Action} (hrun : Emits out s l t)
      (hstep : M.step t a = some u) : Emits out s (l ++ (out t a).toList) u

/-- Executing a list of actions, with what they put out. -/
def emit (M : Machine State Action) (out : State → Action → Option Output)
    (s : State) : List Action → Option (List Output × State)
  | [] => some ([], s)
  | a :: l =>
      (M.step s a).bind fun t =>
        (M.emit out t l).map fun (rest, u) => ((out s a).toList ++ rest, u)

variable {M} {out : State → Action → Option Output} {s t u : State}
  {l l' : List Output}

theorem Emits.reachable (hinit : M.init s) (h : M.Emits out s l t) :
    M.Reachable t := by
  induction h with
  | nil => exact .start hinit
  | snoc _ hstep ih => exact ih.step hstep

/-- Induction over runs with what they have put out. -/
theorem Emits.invariant {I : State → List Output → Prop}
    (hinit : M.init s) (hstart : I s [])
    (hstep : ∀ l t a u, M.Reachable t → I t l → M.step t a = some u →
      I u (l ++ (out t a).toList))
    (h : M.Emits out s l t) : I t l := by
  induction h with
  | nil => exact hstart
  | @snoc l t u a hrun hnext ih =>
      exact hstep l t a u (hrun.reachable hinit) ih hnext

theorem Emits.append_emit (h : M.Emits out s l t) {actions : List Action}
    (hemit : M.emit out t actions = some (l', u)) :
    M.Emits out s (l ++ l') u := by
  induction actions generalizing l l' t with
  | nil =>
      cases hemit
      rw [List.append_nil]
      exact h
  | cons a actions ih =>
      obtain ⟨v, hstep, hrest⟩ := Option.bind_eq_some_iff.1 hemit
      obtain ⟨⟨rest, u'⟩, hrest, hboth⟩ := Option.map_eq_some_iff.1 hrest
      cases hboth
      rw [← List.append_assoc]
      exact ih (h.snoc hstep) hrest

/-- An executed list of actions is a run with what it has put out. -/
theorem exists_emits_of_emit (out : State → Action → Option Output)
    {l : List Action} {p : List Output × State → Bool}
    (h : (M.emit out s l).map p = some true) :
    ∃ outputs t, M.Emits out s outputs t ∧ p (outputs, t) = true := by
  obtain ⟨⟨outputs, t⟩, hemit, hp⟩ := Option.map_eq_some_iff.1 h
  have hrun : M.Emits out s ([] ++ outputs) t := Emits.nil.append_emit hemit
  exact ⟨outputs, t, hrun, hp⟩

/-! ## Components -/

/-- What a component puts out is what the whole does, when each step of the whole
leaves the component alone or is one of its own steps. -/
theorem Emits.project {State' Action' : Type} {N : Machine State' Action'}
    {out' : State' → Action' → Option Output} {v : State → State'}
    (hstep : ∀ t a u, M.step t a = some u →
      v u = v t ∧ out t a = none ∨
        ∃ b, N.step (v t) b = some (v u) ∧ out t a = out' (v t) b)
    (h : M.Emits out s l t) : N.Emits out' (v s) l (v t) := by
  induction h with
  | nil => exact .nil
  | @snoc l t u a _ hnext ih =>
      rcases hstep t a u hnext with ⟨hview, hsilent⟩ | ⟨b, hb, hsame⟩
      · rw [hsilent, hview]
        show N.Emits out' (v s) (l ++ []) (v t)
        rw [List.append_nil]
        exact ih
      · rw [hsame]
        exact ih.snoc hb

/-! ## Causes -/

theorem exists_output_of_cause {Cause : Type} {R : Cause → Output → Prop}
    {causes : List Cause} (h : List.Forall₂ R causes l) {c : Cause}
    (hc : c ∈ causes) : ∃ o ∈ l, R c o := by
  induction h with
  | nil => cases hc
  | @cons c' o causes l hrel hrest ih =>
      rcases List.mem_cons.1 hc with rfl | hmem
      · exact ⟨o, List.mem_cons_self, hrel⟩
      · obtain ⟨o', ho', hrel'⟩ := ih hmem
        exact ⟨o', List.mem_cons_of_mem o ho', hrel'⟩

/-- Where a cause determines its output by a key that tells the outputs apart, the
outputs have different causes. -/
theorem exists_causes {Cause Key : Type} {R : Cause → Output → Prop}
    {key : Output → Key} (hkeys : (l.map key).Nodup)
    (hone : ∀ c o o', R c o → R c o' → key o = key o')
    (hcaused : ∀ o ∈ l, ∃ c, R c o) :
    ∃ causes : List Cause, causes.Nodup ∧ List.Forall₂ R causes l := by
  induction l with
  | nil => exact ⟨[], List.nodup_nil, .nil⟩
  | cons o l ih =>
      rw [List.map_cons, List.nodup_cons] at hkeys
      obtain ⟨causes, hnodup, hall⟩ :=
        ih hkeys.2 fun o' ho' => hcaused o' (List.mem_cons_of_mem o ho')
      obtain ⟨c, hc⟩ := hcaused o List.mem_cons_self
      have hfresh : c ∉ causes := by
        intro hmem
        obtain ⟨o', ho', hc'⟩ := exists_output_of_cause hall hmem
        refine hkeys.1 ?_
        rw [hone c o o' hc hc']
        exact List.mem_map_of_mem ho'
      exact ⟨c :: causes, List.nodup_cons.2 ⟨hfresh, hnodup⟩, .cons hc hall⟩

end BkkApi.Verified.Run.Machine
