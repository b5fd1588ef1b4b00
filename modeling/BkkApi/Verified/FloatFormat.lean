import Mathlib.Data.Int.Log
import Mathlib.Data.Rat.Floor
import Mathlib.Tactic.Linarith
import Mathlib.Tactic.Ring

/-!
# Binary floating point

Arithmetic of a binary floating point format, on exact numbers: an operation is
the exact one followed by `Format.round`, which goes to the nearest number of
the format and, between two of them, to the one with the even significand.  A
format has a smallest exponent and no largest one, so the results described are
the finite ones.

`abs_sub_round_le` is what an error analysis needs of one operation: a half of
the last place, which is relative to the number as long as it is not among the
smallest of the format.
-/

namespace BkkApi.Verified.FloatFormat

/-- How many bits a significand has, and the exponent of the last place of the
smallest numbers. -/
structure Format where
  precision : Nat
  minExponent : Int

/-- The format of `double`. -/
def binary64 : Format := ⟨53, -1074⟩

variable {K : Type*} [Field K] [LinearOrder K] [FloorRing K]

/-- The nearest integer, and of two such the even one. -/
def roundEven (x : K) : Int :=
  if x - ⌊x⌋ < 1 / 2 then ⌊x⌋
  else if 1 / 2 < x - ⌊x⌋ then ⌊x⌋ + 1
  else if ⌊x⌋ % 2 = 0 then ⌊x⌋
  else ⌊x⌋ + 1

section Format

variable [IsStrictOrderedRing K]

/-- The exponent of the last place of a number as large as `x`. -/
def Format.lastPlace (F : Format) (x : K) : Int :=
  max (Int.log 2 |x| + 1 - F.precision) F.minExponent

/-- The number of the format that an operation with the exact result `x`
gives. -/
def Format.round (F : Format) (x : K) : K :=
  roundEven (x / 2 ^ F.lastPlace x) * 2 ^ F.lastPlace x

end Format

/-! ## How far rounding goes -/

variable [IsStrictOrderedRing K]

theorem abs_sub_roundEven_le (x : K) : |x - roundEven x| ≤ 1 / 2 := by
  have hfloor := Int.floor_le x
  have hlt := Int.lt_floor_add_one x
  unfold roundEven
  rw [abs_le]
  split
  · constructor <;> linarith
  · split
    · push_cast
      constructor <;> linarith
    · split
      · constructor <;> linarith
      · push_cast
        constructor <;> linarith

/-- Rounding goes no farther than half of the last place. -/
theorem abs_sub_round_le_half (F : Format) (x : K) :
    |x - F.round x| ≤ 2 ^ F.lastPlace x / 2 := by
  have hunit : (0 : K) < 2 ^ F.lastPlace x := zpow_pos (by norm_num) _
  have hnear := abs_sub_roundEven_le (x / 2 ^ F.lastPlace x)
  have hscaled : x - F.round x =
      (x / 2 ^ F.lastPlace x - roundEven (x / 2 ^ F.lastPlace x)) *
        2 ^ F.lastPlace x := by
    unfold Format.round
    rw [sub_mul, div_mul_cancel₀ x hunit.ne']
  rw [hscaled, abs_mul, abs_of_pos hunit]
  calc |x / 2 ^ F.lastPlace x - roundEven (x / 2 ^ F.lastPlace x)| *
        2 ^ F.lastPlace x
      ≤ 1 / 2 * 2 ^ F.lastPlace x :=
        mul_le_mul_of_nonneg_right hnear hunit.le
    _ = 2 ^ F.lastPlace x / 2 := by ring

/-- The last place of a number is relative to it, down to the smallest. -/
theorem two_zpow_lastPlace_le (F : Format) {x : K} (hx : x ≠ 0) :
    (2 : K) ^ F.lastPlace x ≤
      |x| * 2 ^ (1 - (F.precision : Int)) + 2 ^ F.minExponent := by
  have htwo : (2 : K) ≠ 0 := by norm_num
  have hrel : (0 : K) ≤ |x| * 2 ^ (1 - (F.precision : Int)) :=
    mul_nonneg (abs_nonneg x) (zpow_pos (by norm_num) _).le
  have hmin : (0 : K) < 2 ^ F.minExponent := zpow_pos (by norm_num) _
  unfold Format.lastPlace
  rcases max_choice (Int.log 2 |x| + 1 - (F.precision : Int)) F.minExponent
    with hlarge | hsmall
  · rw [hlarge]
    have hlog : ((2 : Nat) : K) ^ Int.log 2 |x| ≤ |x| :=
      Int.zpow_log_le_self (by norm_num) (abs_pos.2 hx)
    push_cast at hlog
    calc (2 : K) ^ (Int.log 2 |x| + 1 - (F.precision : Int))
        = 2 ^ Int.log 2 |x| * 2 ^ (1 - (F.precision : Int)) := by
          rw [← zpow_add₀ htwo, add_sub_assoc]
      _ ≤ |x| * 2 ^ (1 - (F.precision : Int)) :=
          mul_le_mul_of_nonneg_right hlog (zpow_pos (by norm_num) _).le
      _ ≤ _ := by linarith
  · rw [hsmall]
    linarith

/-- The error of one operation. -/
theorem abs_sub_round_le (F : Format) (x : K) :
    |x - F.round x| ≤
      (|x| * 2 ^ (1 - (F.precision : Int)) + 2 ^ F.minExponent) / 2 := by
  by_cases hx : x = 0
  · have hmin : (0 : K) < 2 ^ F.minExponent := zpow_pos (by norm_num) _
    have hround : F.round (0 : K) = 0 := by
      simp [Format.round, roundEven]
    rw [hx, hround, sub_zero, abs_zero, zero_mul, zero_add]
    linarith
  · have hhalf := abs_sub_round_le_half F x
    have hplace := two_zpow_lastPlace_le F hx
    linarith

end BkkApi.Verified.FloatFormat
