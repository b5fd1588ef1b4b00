import Mathlib.Algebra.Ring.Nat
import Mathlib.Data.Nat.Cast.Basic
import BkkApi.Verified.Run
import BkkApi.Verified.Tally

/-!
# Work paid for in advance

A machine's actions are its own or its environment's.  A `Potential` is a rank
on states that every own step lowers and that an action of the environment
raises by no more than its `gain`.  Along any run the own steps are then paid
for by the environment (`Potential.work_le`), so a program that has one neither
spins nor livelocks: left alone it comes to a halt, whatever the order of its
steps (`Potential.exists_stalled`).

`Stalled` says that a given kind of step is not possible any more, and is where
a progress argument starts: what is left to do in such a state is what the
program can be kept waiting for.

`total` adds up a weight over the parties of a machine, with the same update
rule as `tally`.
-/

namespace BkkApi.Verified.Run.Machine

variable {State Action : Type} (M : Machine State Action)

/-! ## Runs with their actions -/

/-- `t` continues a run from `s` by these actions, in this order. -/
inductive Path (guard : State → Action → Prop) (s : State) :
    List Action → State → Prop
  | nil : Path guard s [] s
  | snoc {l : List Action} {t u : State} {a : Action} (hpath : Path guard s l t)
      (hguard : guard t a) (hstep : M.step t a = some u) :
      Path guard s (l ++ [a]) u

variable {M} {guard guard' : State → Action → Prop} {s t u : State}

theorem Path.leadsTo {l : List Action} (h : M.Path guard s l t) :
    M.LeadsTo guard s t := by
  induction h with
  | nil => exact .refl
  | snoc _ hguard hstep ih => exact ih.step hguard hstep

/-- An executed list of actions is the path of its actions. -/
theorem Path.append_runIf {test : State → Action → Bool}
    (htest : ∀ s a, test s a = true → guard s a) {l l' : List Action}
    (h : M.Path guard s l t) (hrun : M.runIf test t l' = some u) :
    M.Path guard s (l ++ l') u := by
  induction l' generalizing l t with
  | nil =>
      rw [List.append_nil]
      exact Option.some.inj hrun ▸ h
  | cons a l' ih =>
      rw [runIf, Option.ite_none_right_eq_some] at hrun
      obtain ⟨hpass, hrest⟩ := hrun
      obtain ⟨v, hv, hrest⟩ := Option.bind_eq_some_iff.1 hrest
      rw [List.append_cons]
      exact ih (h.snoc (htest t a hpass) hv) hrest

theorem Path.append_run {l l' : List Action} (h : M.Path (fun _ _ => True) s l t)
    (hrun : M.run t l' = some u) : M.Path (fun _ _ => True) s (l ++ l') u :=
  h.append_runIf (fun _ _ _ => trivial) hrun

theorem LeadsTo.trans (h : M.LeadsTo guard s t) (h' : M.LeadsTo guard t u) :
    M.LeadsTo guard s u := by
  induction h' with
  | refl => exact h
  | step _ hguard hstep ih => exact ih.step hguard hstep

theorem LeadsTo.mono (hmono : ∀ s a, guard s a → guard' s a)
    (h : M.LeadsTo guard s t) : M.LeadsTo guard' s t := by
  induction h with
  | refl => exact .refl
  | step _ hguard hstep ih => exact ih.step (hmono _ _ hguard) hstep

theorem Path.mono (hmono : ∀ s a, guard s a → guard' s a) {l : List Action}
    (h : M.Path guard s l t) : M.Path guard' s l t := by
  induction h with
  | nil => exact .nil
  | snoc _ hguard hstep ih => exact ih.snoc (hmono _ _ hguard) hstep

/-! ## Potentials -/

/-- No step of the given kind is possible. -/
def Stalled (M : Machine State Action) (may : State → Action → Prop)
    (s : State) : Prop :=
  ∀ a, may s a → M.step s a = none

/-- Own steps lower the rank, and the environment's steps raise it by their gain
at most. -/
structure Potential (M : Machine State Action) (guard : State → Action → Prop)
    (own : Action → Bool) (rank : State → Nat) (gain : Action → Nat) : Prop where
  pays : ∀ s a t, M.ReachableIf guard s → guard s a → own a = true →
    M.step s a = some t → rank t < rank s
  gains : ∀ s a t, M.ReachableIf guard s → guard s a → own a = false →
    M.step s a = some t → rank t ≤ rank s + gain a

namespace Potential

variable {own : Action → Bool} {rank : State → Nat} {gain : Action → Nat}

/-- Own steps are paid for by the rank at the start and by the environment. -/
theorem work_le (P : Potential M guard own rank gain)
    (hreach : M.ReachableIf guard s) {l : List Action}
    (hpath : M.Path guard s l t) :
    l.countP own + rank t ≤ rank s + (l.map gain).sum := by
  induction hpath with
  | nil => simp
  | @snoc l t u a hpath hguard hstep ih =>
      have hbefore := hreach.trans hpath.leadsTo
      rw [List.countP_append, List.countP_singleton, List.map_append,
        List.sum_append, List.map_singleton, List.sum_singleton]
      by_cases hown : own a = true
      · have hlt := P.pays t a u hbefore hguard hown hstep
        rw [if_pos hown]
        omega
      · have hle := P.gains t a u hbefore hguard (Bool.not_eq_true _ ▸ hown)
          hstep
        rw [if_neg hown]
        omega

/-- No path of own steps is longer than the rank at its start. -/
theorem length_le (P : Potential M guard own rank gain)
    {may : State → Action → Prop}
    (hmay : ∀ s a, may s a → guard s a ∧ own a = true)
    (hreach : M.ReachableIf guard s) {l : List Action}
    (hpath : M.Path may s l t) : l.length + rank t ≤ rank s := by
  induction hpath with
  | nil => exact Nat.le_of_eq (Nat.zero_add _)
  | @snoc l t u a hpath ha hstep ih =>
      have hlead := (hpath.mono fun s a h => (hmay s a h).1).leadsTo
      have hlt := P.pays t a u (hreach.trans hlead) (hmay t a ha).1
        (hmay t a ha).2 hstep
      rw [List.length_append, List.length_singleton]
      omega

/-- Left alone, a machine halts: any kind of own step is exhausted after finitely
many of them, from every state that can be reached. -/
theorem exists_stalled (P : Potential M guard own rank gain)
    {may : State → Action → Prop}
    (hmay : ∀ s a, may s a → guard s a ∧ own a = true)
    (hreach : M.ReachableIf guard s) :
    ∃ t, M.LeadsTo may s t ∧ M.Stalled may t := by
  generalize hrank : rank s = r
  induction r using Nat.strongRecOn generalizing s with
  | ind r ih =>
      by_cases hstalled : M.Stalled may s
      · exact ⟨s, .refl, hstalled⟩
      · unfold Stalled at hstalled
        push Not at hstalled
        obtain ⟨a, ha, hstep⟩ := hstalled
        obtain ⟨t, ht⟩ := Option.ne_none_iff_exists'.1 hstep
        obtain ⟨hguard, hown⟩ := hmay s a ha
        have hlt := P.pays s a t hreach hguard hown ht
        obtain ⟨u, hlead, hu⟩ :=
          ih (rank t) (hrank ▸ hlt) (hreach.step hguard ht) rfl
        have hfirst : M.LeadsTo may s t := LeadsTo.refl.step ha ht
        exact ⟨u, hfirst.trans hlead, hu⟩

end Potential

end BkkApi.Verified.Run.Machine

/-! ## Weights of parties -/

namespace BkkApi.Verified.Tally

variable {n : Nat} {α : Type}

/-- The weight of all parties together. -/
def total (w : α → Nat) (f : Fin n → α) : Nat := ∑ i, w (f i)

/-- Moving party `i` to `x` trades its old weight for its new one. -/
theorem total_update (w : α → Nat) (f : Fin n → α) (i : Fin n) (x : α) :
    total w (Function.update f i x) + w (f i) = total w f + w x := by
  unfold total
  have hnew := Finset.add_sum_erase Finset.univ
    (fun j => w (Function.update f i x j)) (Finset.mem_univ i)
  have hold := Finset.add_sum_erase Finset.univ
    (fun j => w (f j)) (Finset.mem_univ i)
  have hrest : ∑ j ∈ Finset.univ.erase i, w (Function.update f i x j) =
      ∑ j ∈ Finset.univ.erase i, w (f j) := by
    refine Finset.sum_congr rfl fun j hj => ?_
    rw [Function.update_of_ne (Finset.ne_of_mem_erase hj)]
  simp only [Function.update_self] at hnew
  omega

theorem total_const {w : α → Nat} {f : Fin n → α} {c : Nat}
    (h : ∀ i, w (f i) = c) : total w f = n * c := by
  simp [total, h]

/-- The weight after a step that moves every party, each by a bounded amount. -/
theorem total_le_add {w w' : α → Nat} {f g : Fin n → α} {c : Nat}
    (h : ∀ i, w (f i) ≤ w' (g i) + c) : total w f ≤ total w' g + n * c := by
  unfold total
  have hsum := Finset.sum_le_sum (s := Finset.univ) fun i _ => h i
  rw [Finset.sum_add_distrib] at hsum
  simpa using hsum

/-- The same trade in a list of parties. -/
theorem sum_map_set (w : α → Nat) {l : List α} {k : Nat} {x : α}
    (hx : l[k]? = some x) (y : α) :
    ((l.set k y).map w).sum + w x = (l.map w).sum + w y := by
  induction l generalizing k with
  | nil => simp at hx
  | cons first rest ih =>
      cases k with
      | zero =>
          have hfirst : first = x := by simpa using hx
          simp only [List.set_cons_zero, List.map_cons, List.sum_cons, hfirst]
          omega
      | succ k =>
          have hrest := ih (k := k) (by simpa using hx)
          simp only [List.set_cons_succ, List.map_cons, List.sum_cons]
          omega

end BkkApi.Verified.Tally
