import Mathlib.Data.List.TakeWhile
import BkkApi.Verified.CData

/-!
# Reading numbers with `strtol`

`strtol` in base ten, with a `long` of 64 bits, in the "C" locale.  White space
is skipped, then a sign is taken, then as many digits as there are.  A number
that no `long` holds is reported as a range error, and without a digit there is
no conversion and the whole text is left.

`Decimal` is the notation of a number that was not negative and was read to the
end of the text: `decimal_of_strtol` and `strtol_of_decimal` are the two
directions.
-/

namespace BkkApi.Verified.Strtol

open BkkApi.Verified.CData

/-! ## The function -/

/-- `isspace` in the "C" locale. -/
def isSpace (b : UInt8) : Bool :=
  decide (b.toNat = 32 ∨ (9 ≤ b.toNat ∧ b.toNat ≤ 13))

/-- `isdigit`. -/
def isDigit (b : UInt8) : Bool := decide (48 ≤ b.toNat ∧ b.toNat ≤ 57)

/-- The number that a row of digits denotes. -/
def digitsValue (digits : Bytes) : Nat :=
  digits.foldl (fun value b => 10 * value + (b.toNat - 48)) 0

/-- `LONG_MAX`. -/
def longMax : Int := 2 ^ 63 - 1

/-- `LONG_MIN`. -/
def longMin : Int := -2 ^ 63

/-- What a call leaves: the value returned, the text at `*endptr`, and whether
`errno` is `ERANGE`. -/
structure Conversion where
  value : Int
  endptr : Bytes
  erange : Bool

/-- The sign at the head of a text, `true` for a minus, and what follows it. -/
def splitSign : Bytes → Bool × Bytes
  | [] => (false, [])
  | b :: rest =>
      if b = 45 then (true, rest)
      else if b = 43 then (false, rest)
      else (false, b :: rest)

/-- `strtol(text, &endptr, 10)`. -/
def strtol (text : Bytes) : Conversion :=
  let signed := splitSign (text.dropWhile isSpace)
  let digits := signed.2.takeWhile isDigit
  if digits = [] then { value := 0, endptr := text, erange := false }
  else
    let magnitude : Int := digitsValue digits
    let value := if signed.1 then -magnitude else magnitude
    let endptr := signed.2.dropWhile isDigit
    if longMax < value then { value := longMax, endptr := endptr, erange := true }
    else if value < longMin then
      { value := longMin, endptr := endptr, erange := true }
    else { value := value, endptr := endptr, erange := false }

/-! ## The notation -/

/-- White space, a plus sign or none, and digits, which denote `n`. -/
structure Decimal (text : Bytes) (n : Nat) : Prop where
  parts : ∃ spaces sign digits, text = spaces ++ (sign ++ digits) ∧
    (∀ b ∈ spaces, isSpace b = true) ∧ (sign = [] ∨ sign = [43]) ∧
    digits ≠ [] ∧ (∀ b ∈ digits, isDigit b = true) ∧ n = digitsValue digits

/-- A digit is not white space, and no sign. -/
theorem isSpace_of_isDigit {b : UInt8} (h : isDigit b = true) :
    isSpace b = false := by
  simp only [isDigit, isSpace, decide_eq_true_eq, decide_eq_false_iff_not] at h ⊢
  omega

theorem ne_sign_of_isDigit {b : UInt8} (h : isDigit b = true) :
    b ≠ 45 ∧ b ≠ 43 := by
  simp only [isDigit, decide_eq_true_eq] at h
  constructor
  · intro heq
    rw [heq] at h
    exact absurd h.1 (by decide)
  · intro heq
    rw [heq] at h
    exact absurd h.1 (by decide)

/-- What `strtol` makes of the parts of a text. -/
theorem strtol_of_digits {text digits : Bytes} {negative : Bool}
    (hsign : splitSign (text.dropWhile isSpace) = (negative, digits))
    (hne : digits ≠ []) (hdigits : ∀ b ∈ digits, isDigit b = true)
    (hmax : (digitsValue digits : Int) ≤ longMax) :
    strtol text =
      { value := if negative then -(digitsValue digits : Int) else digitsValue digits
        endptr := []
        erange := false } := by
  have htake : digits.takeWhile isDigit = digits :=
    List.takeWhile_eq_self_iff.2 hdigits
  have hdrop : digits.dropWhile isDigit = [] := List.dropWhile_eq_nil_iff.2 hdigits
  unfold strtol
  simp only [hsign, htake, hdrop, if_neg hne]
  unfold longMax at hmax
  rw [if_neg, if_neg]
  · unfold longMin
    split <;> omega
  · unfold longMax
    split <;> omega

/-- The sign is taken off a notation, and the digits are left. -/
theorem splitSign_of_parts {spaces sign digits : Bytes}
    (hspaces : ∀ b ∈ spaces, isSpace b = true) (hsign : sign = [] ∨ sign = [43])
    (hne : digits ≠ []) (hdigits : ∀ b ∈ digits, isDigit b = true) :
    splitSign ((spaces ++ (sign ++ digits)).dropWhile isSpace) =
      (false, digits) := by
  rw [List.dropWhile_append_of_pos hspaces]
  rcases hsign with hnone | hplus
  · rw [hnone, List.nil_append]
    cases digits with
    | nil => exact absurd rfl hne
    | cons b rest =>
        have hdigit := hdigits b List.mem_cons_self
        have hspace : ¬isSpace b = true := by simp [isSpace_of_isDigit hdigit]
        obtain ⟨hminus, hplus⟩ := ne_sign_of_isDigit hdigit
        rw [List.dropWhile_cons_of_neg hspace]
        simp [splitSign, hminus, hplus]
  · rw [hplus]
    rfl

/-- Such a notation is read to its end, and as its value. -/
theorem strtol_of_decimal {text : Bytes} {n : Nat} (h : Decimal text n)
    (hmax : (n : Int) ≤ longMax) :
    strtol text = { value := n, endptr := [], erange := false } := by
  obtain ⟨spaces, sign, digits, htext, hspaces, hsign, hne, hdigits, hn⟩ := h.parts
  have hsplit := splitSign_of_parts hspaces hsign hne hdigits
  rw [← htext] at hsplit
  rw [hn] at hmax ⊢
  exact strtol_of_digits hsplit hne hdigits hmax

/-- A text splits into white space, a sign and the rest. -/
theorem exists_parts (text : Bytes) : ∃ spaces sign rest,
    text = spaces ++ (sign ++ rest) ∧ (∀ b ∈ spaces, isSpace b = true) ∧
      ((splitSign (text.dropWhile isSpace) = (true, rest) ∧ sign = [45]) ∨
        (splitSign (text.dropWhile isSpace) = (false, rest) ∧
          (sign = [] ∨ sign = [43]))) := by
  have hspaces : ∀ b ∈ text.takeWhile isSpace, isSpace b = true :=
    fun b hb => List.mem_takeWhile_imp hb
  have hsplit := List.takeWhile_append_dropWhile (p := isSpace) (l := text)
  cases hrest : text.dropWhile isSpace with
  | nil =>
      rw [hrest] at hsplit
      exact ⟨_, [], [], hsplit.symm, hspaces, Or.inr ⟨rfl, Or.inl rfl⟩⟩
  | cons b rest =>
      rw [hrest] at hsplit
      by_cases hminus : b = 45
      · refine ⟨_, [45], rest, ?_, hspaces, Or.inl ⟨?_, rfl⟩⟩
        · rw [hminus] at hsplit
          exact hsplit.symm
        · rw [splitSign, if_pos hminus]
      · by_cases hplus : b = 43
        · refine ⟨_, [43], rest, ?_, hspaces, Or.inr ⟨?_, Or.inr rfl⟩⟩
          · rw [hplus] at hsplit
            exact hsplit.symm
          · rw [splitSign, if_neg hminus, if_pos hplus]
        · refine ⟨_, [], b :: rest, hsplit.symm, hspaces, Or.inr ⟨?_, Or.inl rfl⟩⟩
          rw [splitSign, if_neg hminus, if_neg hplus]

/-- A conversion that is neither refused nor out of range. -/
theorem strtol_converted {text rest : Bytes} {negative : Bool}
    (hsign : splitSign (text.dropWhile isSpace) = (negative, rest))
    (hne : (strtol text).endptr ≠ text) (hrange : (strtol text).erange = false) :
    rest.takeWhile isDigit ≠ [] ∧
      (strtol text).endptr = rest.dropWhile isDigit ∧
      (strtol text).value =
        if negative then -(digitsValue (rest.takeWhile isDigit) : Int)
        else digitsValue (rest.takeWhile isDigit) := by
  unfold strtol at hne hrange ⊢
  simp only [hsign] at hne hrange ⊢
  generalize (if negative = true then -(digitsValue (rest.takeWhile isDigit) : Int)
    else digitsValue (rest.takeWhile isDigit)) = value at hne hrange ⊢
  by_cases hdigits : rest.takeWhile isDigit = []
  · rw [if_pos hdigits] at hne
    exact absurd rfl hne
  · rw [if_neg hdigits] at hrange ⊢
    by_cases hmax : longMax < value
    · rw [if_pos hmax] at hrange
      cases hrange
    · by_cases hmin : value < longMin
      · rw [if_neg hmax, if_pos hmin] at hrange
        cases hrange
      · rw [if_neg hmax, if_neg hmin]
        exact ⟨hdigits, rfl, rfl⟩

/-- A text that is read to its end, without a range error, as a positive number
is such a notation of the number. -/
theorem decimal_of_strtol {text : Bytes} (hne : (strtol text).endptr ≠ text)
    (hend : (strtol text).endptr = []) (hrange : (strtol text).erange = false)
    (hpos : 0 < (strtol text).value) :
    ∃ n : Nat, (strtol text).value = n ∧ Decimal text n := by
  obtain ⟨spaces, sign, rest, htext, hspaces, hsign⟩ := exists_parts text
  rcases hsign with ⟨hsplit, -⟩ | ⟨hsplit, hplus⟩
  · -- a number behind a minus sign is not positive
    obtain ⟨-, -, hvalue⟩ := strtol_converted hsplit hne hrange
    rw [if_pos rfl] at hvalue
    omega
  · obtain ⟨hdigits, hrest, hvalue⟩ := strtol_converted hsplit hne hrange
    rw [hend] at hrest
    have hall : ∀ b ∈ rest, isDigit b = true :=
      List.dropWhile_eq_nil_iff.1 hrest.symm
    have htake : rest.takeWhile isDigit = rest :=
      List.takeWhile_eq_self_iff.2 hall
    rw [htake] at hdigits hvalue
    exact ⟨digitsValue rest, hvalue,
      ⟨spaces, sign, rest, htext, hspaces, hplus, hdigits, hall, rfl⟩⟩

end BkkApi.Verified.Strtol
