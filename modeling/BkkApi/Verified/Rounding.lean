import Mathlib.Algebra.Order.Floor.Ring
import Mathlib.Tactic.Linarith
import Mathlib.Tactic.Ring

/-!
# Truncating and rounding

The two ways of C to make an integer of a number, over any ordered field:
`IsTruncation`, which is what a conversion keeps, and `IsNearest`, which is what
`round` gives.  Each is described by how far the integer is from the number and
on which side it lies, and each is shown to be met by exactly one integer.  For
a number that is not negative it is given by a floor; the other half follows by
reflection.
-/

namespace BkkApi.Verified.Rounding

variable {K : Type*} [Field K] [LinearOrder K]

/-- `n` is `x` without its fraction: less than one away from it, and not farther
from zero. -/
structure IsTruncation (x : K) (n : ℤ) : Prop where
  near : |x - n| < 1
  towardZero : |(n : K)| ≤ |x|

/-- `n` is an integer nearest to `x`, and of two such the one away from zero. -/
structure IsNearest (x : K) (n : ℤ) : Prop where
  near : |x - n| ≤ 1 / 2
  awayFromZero : |x - n| = 1 / 2 → |x| < |(n : K)|

/-! ## Reflection -/

theorem IsTruncation.neg {x : K} {n : ℤ} (h : IsTruncation x n) :
    IsTruncation (-x) (-n) := by
  have hdiff : -x - ((-n : ℤ) : K) = -(x - n) := by
    push_cast
    ring
  constructor
  · rw [hdiff, abs_neg]
    exact h.near
  · rw [Int.cast_neg, abs_neg, abs_neg]
    exact h.towardZero

theorem IsNearest.neg {x : K} {n : ℤ} (h : IsNearest x n) :
    IsNearest (-x) (-n) := by
  have hdiff : -x - ((-n : ℤ) : K) = -(x - n) := by
    push_cast
    ring
  constructor
  · rw [hdiff, abs_neg]
    exact h.near
  · rw [hdiff, abs_neg, Int.cast_neg, abs_neg, abs_neg]
    exact h.awayFromZero

/-! ## Floors -/

section Floor

variable [IsStrictOrderedRing K] [FloorRing K]

theorem isTruncation_iff_floor {x : K} (hx : 0 ≤ x) {n : ℤ} :
    IsTruncation x n ↔ n = ⌊x⌋ := by
  have hfloor := Int.floor_le x
  have hlt := Int.lt_floor_add_one x
  constructor
  · intro h
    have hside := h.towardZero
    have hnear := abs_lt.1 h.near
    rw [abs_of_nonneg hx] at hside
    have hle := (abs_le.1 hside).2
    symm
    rw [Int.floor_eq_iff]
    constructor
    · exact hle
    · linarith
  · intro h
    subst h
    have hnonneg : (0 : K) ≤ ⌊x⌋ := by exact_mod_cast Int.floor_nonneg.2 hx
    constructor
    · rw [abs_lt]
      constructor <;> linarith
    · rw [abs_of_nonneg hx, abs_of_nonneg hnonneg]
      exact hfloor

theorem isNearest_iff_floor {x : K} (hx : 0 ≤ x) {n : ℤ} :
    IsNearest x n ↔ n = ⌊x + 1 / 2⌋ := by
  have hfloor := Int.floor_le (x + 1 / 2)
  have hlt := Int.lt_floor_add_one (x + 1 / 2)
  have hnonneg : (0 : K) ≤ ⌊x + 1 / 2⌋ := by
    exact_mod_cast Int.floor_nonneg.2 (by linarith)
  constructor
  · intro h
    have hnear := abs_le.1 h.near
    symm
    rw [Int.floor_eq_iff]
    constructor
    · linarith
    · -- at the tie above, the integer would be the nearer one to zero
      by_contra hnot
      have htie : x - n = 1 / 2 := by linarith
      have hside := h.awayFromZero (by rw [htie, abs_of_pos (by norm_num)])
      rw [abs_of_nonneg hx] at hside
      rcases le_total (0 : K) n with hn | hn
      · rw [abs_of_nonneg hn] at hside
        linarith
      · rw [abs_of_nonpos hn] at hside
        have hlow : ((-1 : ℤ) : K) < n := by
          push_cast
          linarith
        have hhigh : (n : K) ≤ ((0 : ℤ) : K) := by
          push_cast
          exact hn
        have hzero : n = 0 := by
          have h₁ : -1 < n := Int.cast_lt.1 hlow
          have h₂ : n ≤ 0 := Int.cast_le.1 hhigh
          omega
        rw [hzero, Int.cast_zero, neg_zero] at hside
        linarith
  · intro h
    subst h
    constructor
    · rw [abs_le]
      constructor <;> linarith
    · intro htie
      rw [abs_of_nonneg hx, abs_of_nonneg hnonneg]
      rcases (abs_eq (by norm_num)).1 htie with hup | hdown
      · linarith
      · linarith

/-! ## Existence and uniqueness -/

/-- A number that is negative is the reflection of one that is not. -/
theorem isTruncation_iff {x : K} {n : ℤ} :
    IsTruncation x n ↔ n = if 0 ≤ x then ⌊x⌋ else -⌊-x⌋ := by
  by_cases hx : 0 ≤ x
  · rw [if_pos hx]
    exact isTruncation_iff_floor hx
  · have hneg : 0 ≤ -x := by linarith
    rw [if_neg hx]
    constructor
    · intro h
      have hfloor := (isTruncation_iff_floor hneg).1 h.neg
      omega
    · intro h
      have hfloor := ((isTruncation_iff_floor hneg).2 rfl).neg
      rw [neg_neg] at hfloor
      rw [h]
      exact hfloor

theorem isNearest_iff {x : K} {n : ℤ} :
    IsNearest x n ↔ n = if 0 ≤ x then ⌊x + 1 / 2⌋ else -⌊-x + 1 / 2⌋ := by
  by_cases hx : 0 ≤ x
  · rw [if_pos hx]
    exact isNearest_iff_floor hx
  · have hneg : 0 ≤ -x := by linarith
    rw [if_neg hx]
    constructor
    · intro h
      have hfloor := (isNearest_iff_floor hneg).1 h.neg
      omega
    · intro h
      have hfloor := ((isNearest_iff_floor hneg).2 rfl).neg
      rw [neg_neg] at hfloor
      rw [h]
      exact hfloor

/-- Numbers that are close to each other have one nearest integer, unless they
are as close to the middle between two. -/
theorem IsNearest.eq_of_near {x y ε : K} {n m : ℤ} (hx : IsNearest x n)
    (hy : IsNearest y m) (hnear : |x - y| ≤ ε)
    (hfar : ∀ k : ℤ, ε < |x - (k + 1 / 2)|) : m = n := by
  have hn := abs_le.1 hx.near
  have hm := abs_le.1 hy.near
  have hxy := abs_le.1 hnear
  have hbelow : ¬m < n := by
    intro hlt
    have hcast : (m : K) ≤ (n : K) - 1 := by
      exact_mod_cast Int.le_sub_one_of_lt hlt
    have hmiddle := hfar (n - 1)
    push_cast at hmiddle
    rw [abs_of_nonneg (by linarith)] at hmiddle
    linarith
  have habove : ¬n < m := by
    intro hlt
    have hcast : (n : K) + 1 ≤ (m : K) := by exact_mod_cast hlt
    have hmiddle := hfar n
    rw [abs_of_nonpos (by linarith)] at hmiddle
    linarith
  omega

end Floor

end BkkApi.Verified.Rounding
