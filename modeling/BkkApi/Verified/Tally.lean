import Mathlib.Algebra.BigOperators.Group.Finset.Piecewise
import Mathlib.Algebra.Order.BigOperators.Group.Finset
import Mathlib.Data.Nat.Count

/-!
# Counting the parties in a given condition

`tally p f` is the number of indices `i` with `p (f i)`.  A step of a machine
that moves one party is a `Function.update`, and `tally_update` says what such
a step does to every count at once: the moved party leaves the count of its
old value and enters that of its new one.

Parties may hold one numbered thing each.  When nothing is held by two of them,
`tally_held_add` counts the things in a given condition by who holds them: each
is held by one party, or by nobody.
-/

namespace BkkApi.Verified.Tally

variable {n : Nat} {α : Type}

/-- How many parties `i` have `p (f i)`. -/
def tally (p : α → Bool) (f : Fin n → α) : Nat :=
  ∑ i, (p (f i)).toNat

/-- Moving party `i` to `x` trades its old contribution for its new one. -/
theorem tally_update (p : α → Bool) (f : Fin n → α) (i : Fin n) (x : α) :
    tally p (Function.update f i x) + (p (f i)).toNat =
      tally p f + (p x).toNat := by
  unfold tally
  have hnew : (∑ j, (p (Function.update f i x j)).toNat) =
      (p x).toNat + ∑ j ∈ Finset.univ.erase i, (p (f j)).toNat := by
    rw [← Finset.add_sum_erase _ _ (Finset.mem_univ i)]
    congr 1
    · simp
    · refine Finset.sum_congr rfl fun j hj => ?_
      rw [Function.update_of_ne (Finset.ne_of_mem_erase hj)]
  have hold : (∑ j, (p (f j)).toNat) =
      (p (f i)).toNat + ∑ j ∈ Finset.univ.erase i, (p (f j)).toNat :=
    (Finset.add_sum_erase _ _ (Finset.mem_univ i)).symm
  rw [hnew, hold]
  omega

/-- A party in the condition is counted. -/
theorem tally_pos {p : α → Bool} {f : Fin n → α} {i : Fin n}
    (hi : p (f i) = true) : 0 < tally p f := by
  unfold tally
  refine Finset.sum_pos' (fun _ _ => Nat.zero_le _) ⟨i, Finset.mem_univ i, ?_⟩
  simp [hi]

/-- The count is zero exactly when no party is in the condition. -/
theorem tally_eq_zero_iff {p : α → Bool} {f : Fin n → α} :
    tally p f = 0 ↔ ∀ i, p (f i) = false := by
  constructor
  · intro h i
    by_contra hi
    have := tally_pos (p := p) (f := f) (i := i) (by simpa using hi)
    omega
  · intro h
    simp [tally, h]

theorem exists_of_tally_pos {p : α → Bool} {f : Fin n → α}
    (h : 0 < tally p f) : ∃ i, p (f i) = true := by
  by_contra hno
  have hzero : tally p f = 0 :=
    tally_eq_zero_iff.2 fun i => by
      by_contra hi
      exact hno ⟨i, by simpa using hi⟩
  omega

/-- Two different parties in the condition count twice. -/
theorem tally_two_le {p : α → Bool} {f : Fin n → α} {i j : Fin n}
    (hij : i ≠ j) (hi : p (f i) = true) (hj : p (f j) = true) :
    2 ≤ tally p f := by
  unfold tally
  rw [← Finset.add_sum_erase _ _ (Finset.mem_univ i)]
  have hj' : j ∈ Finset.univ.erase i :=
    Finset.mem_erase.2 ⟨hij.symm, Finset.mem_univ j⟩
  have hle := Finset.single_le_sum
    (f := fun k => (p (f k)).toNat) (fun _ _ => Nat.zero_le _) hj'
  simp only [hi, hj, Bool.toNat_true] at hle ⊢
  omega

/-- Counts agree when each party answers both tests alike. -/
theorem tally_congr {p q : α → Bool} {f g : Fin n → α}
    (h : ∀ i, p (f i) = q (g i)) : tally p f = tally q g := by
  simp [tally, h]

/-- Every party is in the condition or not. -/
theorem tally_add_tally_not (p : α → Bool) (f : Fin n → α) :
    tally p f + tally (fun x => !p x) f = n := by
  unfold tally
  rw [← Finset.sum_add_distrib]
  have hone : ∀ i : Fin n, (p (f i)).toNat + (!p (f i)).toNat = 1 := by
    intro i
    cases p (f i) <;> rfl
  simp [hone]

/-! ## Numbered things -/

theorem tally_eq_card (p : α → Bool) (f : Fin n → α) :
    tally p f = (Finset.univ.filter fun i => p (f i) = true).card := by
  unfold tally
  rw [Finset.card_filter]
  refine Finset.sum_congr rfl fun i _ => ?_
  cases p (f i) <;> rfl

/-- The elements of a list in a condition, counted by their numbers. -/
theorem countP_eq_count (p : α → Bool) (l : List α) :
    l.countP p = Nat.count (fun k => (l[k]?).any p = true) l.length := by
  induction l using List.reverseRecOn with
  | nil => rfl
  | append_singleton l x ih =>
      have hold : Nat.count (fun k => ((l ++ [x])[k]?).any p = true) l.length =
          l.countP p := by
        rw [ih, Nat.count_eq_card_filter_range, Nat.count_eq_card_filter_range]
        congr 1
        refine Finset.filter_congr fun k hk => ?_
        rw [List.getElem?_append_left (Finset.mem_range.1 hk)]
      rw [List.length_append, List.length_singleton, Nat.count_succ, hold,
        List.countP_append, List.getElem?_concat_length, List.countP_singleton,
        Option.any_some]

/-- Of the things in a condition, those held by somebody and those held by
nobody. -/
theorem tally_held_add {held : Fin n → Option Nat} {m : Nat} (p : Nat → Bool)
    (hlt : ∀ i k, held i = some k → k < m)
    (hone : ∀ i j k, held i = some k → held j = some k → i = j) :
    tally (fun k? => k?.any p) held +
        Nat.count (fun k => p k = true ∧ ∀ i, held i ≠ some k) m =
      Nat.count (fun k => p k = true) m := by
  -- a party and what it holds correspond
  have hheld : tally (fun k? => k?.any p) held =
      (((Finset.range m).filter fun k => p k = true).filter fun k =>
        ∃ i, held i = some k).card := by
    rw [tally_eq_card]
    refine Finset.card_bij (fun i _ => (held i).getD 0) ?_ ?_ ?_
    · intro i hi
      obtain ⟨k, hk, hp⟩ := (Option.any_eq_true _ _).1 (Finset.mem_filter.1 hi).2
      rw [hk, Option.getD_some, Finset.mem_filter, Finset.mem_filter]
      exact ⟨⟨Finset.mem_range.2 (hlt i k hk), hp⟩, i, hk⟩
    · intro i hi j hj hij
      obtain ⟨k, hk, -⟩ := (Option.any_eq_true _ _).1 (Finset.mem_filter.1 hi).2
      obtain ⟨l, hl, -⟩ := (Option.any_eq_true _ _).1 (Finset.mem_filter.1 hj).2
      have hkl : k = l := by simpa [hk, hl] using hij
      exact hone i j k hk (hkl ▸ hl)
    · intro k hk
      obtain ⟨hcond, i, hi⟩ := Finset.mem_filter.1 hk
      have hp := (Finset.mem_filter.1 hcond).2
      refine ⟨i, Finset.mem_filter.2 ⟨Finset.mem_univ i, ?_⟩, by rw [hi]; rfl⟩
      rw [hi]
      exact hp
  have hnobody : Nat.count (fun k => p k = true ∧ ∀ i, held i ≠ some k) m =
      (((Finset.range m).filter fun k => p k = true).filter fun k =>
        ¬ ∃ i, held i = some k).card := by
    rw [Nat.count_eq_card_filter_range, Finset.filter_filter]
    simp only [not_exists, ne_eq]
  rw [hheld, hnobody, Finset.card_filter_add_card_filter_not,
    Nat.count_eq_card_filter_range]

end BkkApi.Verified.Tally
