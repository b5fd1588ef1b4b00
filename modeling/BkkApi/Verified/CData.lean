import Mathlib.Algebra.Ring.Int.Defs
import Mathlib.Algebra.Ring.Nat
import Mathlib.Data.List.TakeWhile

/-!
# C data: bytes, strings in memory, and fixed-width integers

* A C string is read from memory up to its first NUL byte (`cString`), and
  `terminatedCopy` is the buffer left by zeroing it, copying at most all but
  its last byte with `strncpy`, and terminating it.
* `int32` and `int64` are the two's complement readings of an integer.
  `int64_of_range` is the no-wrap rule: inside the range nothing changes.
-/

namespace BkkApi.Verified.CData

/-- A run of bytes. -/
abbrev Bytes := List UInt8

/-- The bytes of an ASCII literal. -/
def bytesOf (text : String) : Bytes :=
  text.toList.map fun c => UInt8.ofNat c.toNat

/-! ## Strings in memory -/

/-- The C string starting at `memory`: everything before the first NUL. -/
def cString (memory : Bytes) : Bytes := memory.takeWhile (· != 0)

/-- A string that ends inside its own buffer does not depend on what follows
the buffer. -/
theorem cString_append_of_mem {buffer : Bytes} (h : 0 ∈ buffer)
    (rest : Bytes) : cString (buffer ++ rest) = cString buffer := by
  unfold cString
  induction buffer with
  | nil => simp at h
  | cons b buffer ih =>
      by_cases hb : b = 0
      · subst hb
        simp
      · have htail : 0 ∈ buffer := by
          rcases List.mem_cons.1 h with h0 | h0
          · exact absurd h0.symm hb
          · exact h0
        simp only [List.cons_append, List.takeWhile_cons]
        simp [hb, ih htail]

/-- A buffer without a NUL is read whole, and the reading goes on behind it. -/
theorem cString_append_of_not_mem {buffer : Bytes} (h : 0 ∉ buffer)
    (rest : Bytes) : cString (buffer ++ rest) = buffer ++ cString rest := by
  unfold cString
  refine List.takeWhile_append_of_pos fun b hb => ?_
  have hne : b ≠ 0 := fun h0 => h (h0 ▸ hb)
  simpa using hne

/-- What a zeroed buffer of `size` bytes holds after `strncpy` of `size - 1`
bytes and a terminator in its last byte. -/
def terminatedCopy (size : Nat) (text : Bytes) : Vector UInt8 size :=
  Vector.ofFn fun i =>
    if i.val + 1 < size then (cString text).getD i.val 0 else 0

/-- The copy is the text, cut to leave room for a terminator, and then only
terminators. -/
theorem terminatedCopy_toList {size : Nat} (hsize : 0 < size) (text : Bytes) :
    ∃ count, (terminatedCopy size text).toList =
      (cString text).take (size - 1) ++ List.replicate (count + 1) 0 := by
  have hle : ((cString text).take (size - 1)).length ≤ size - 1 :=
    List.length_take_le _ _
  refine ⟨size - 1 - ((cString text).take (size - 1)).length, ?_⟩
  apply List.ext_getElem
  · simp only [Vector.length_toList, List.length_append, List.length_replicate]
    omega
  · intro i h₁ h₂
    have hcell : (terminatedCopy size text).toList[i] =
        if i + 1 < size then (cString text).getD i 0 else 0 := by
      simp [terminatedCopy]
    rw [hcell]
    by_cases hi : i < ((cString text).take (size - 1)).length
    · have hin : i + 1 < size ∧ i < (cString text).length := by
        rw [List.length_take] at hi
        omega
      rw [List.getElem_append_left hi, if_pos hin.1, List.getElem_take]
      simp [List.getD_eq_getElem?_getD, List.getElem?_eq_getElem hin.2]
    · rw [List.getElem_append_right (Nat.le_of_not_lt hi),
        List.getElem_replicate]
      by_cases hroom : i + 1 < size
      · have hout : (cString text).length ≤ i := by
          rw [List.length_take] at hi
          omega
        rw [if_pos hroom]
        simp [List.getD_eq_getElem?_getD, List.getElem?_eq_none hout]
      · rw [if_neg hroom]

theorem zero_not_mem_cString (memory : Bytes) : 0 ∉ cString memory := by
  intro h
  have hne := List.mem_takeWhile_imp h
  simp at hne

/-- A terminated copy reads as the text, cut to the room before the
terminator. -/
theorem cString_terminatedCopy {size : Nat} (hsize : 0 < size) (text : Bytes) :
    cString (terminatedCopy size text).toList =
      (cString text).take (size - 1) := by
  obtain ⟨count, hlist⟩ := terminatedCopy_toList hsize text
  have hzero : 0 ∉ (cString text).take (size - 1) := fun h =>
    zero_not_mem_cString text (List.mem_of_mem_take h)
  rw [hlist, cString_append_of_not_mem hzero]
  simp [cString, List.replicate_succ]

/-- The field of a struct holds a text: it is terminated inside its array, and
reads as a prefix of the text. -/
structure StoredPrefix {size : Nat} (field : Vector UInt8 size)
    (text : Bytes) : Prop where
  terminated : 0 ∈ field.toList
  isPrefix : cString field.toList <+: text

theorem storedPrefix_terminatedCopy {size : Nat} (hsize : 0 < size)
    (text : Bytes) : StoredPrefix (terminatedCopy size text) text := by
  obtain ⟨count, hlist⟩ := terminatedCopy_toList hsize text
  constructor
  · rw [hlist]
    simp
  · rw [cString_terminatedCopy hsize]
    exact (List.take_prefix _ _).trans (List.takeWhile_prefix _)

/-- Two copies into fields of one size are equal exactly when the texts agree as
far as they are copied. -/
theorem terminatedCopy_inj {size : Nat} (hsize : 0 < size) {text text' : Bytes} :
    terminatedCopy size text = terminatedCopy size text' ↔
      (cString text).take (size - 1) = (cString text').take (size - 1) := by
  constructor
  · intro h
    rw [← cString_terminatedCopy hsize, h, cString_terminatedCopy hsize]
  · intro h
    obtain ⟨count, hlist⟩ := terminatedCopy_toList hsize text
    obtain ⟨count', hlist'⟩ := terminatedCopy_toList hsize text'
    rw [← h] at hlist'
    have hcount : count = count' := by
      have hlen := congrArg List.length hlist
      have hlen' := congrArg List.length hlist'
      simp only [Vector.length_toList, List.length_append,
        List.length_replicate] at hlen hlen'
      omega
    subst hcount
    exact Vector.toList_inj.1 (hlist.trans hlist'.symm)

/-- Behind its text a field is zero. -/
def Padded {size : Nat} (field : Vector UInt8 size) : Prop :=
  terminatedCopy size (cString field.toList) = field

theorem cString_cString (memory : Bytes) :
    cString (cString memory) = cString memory := by
  have h := cString_append_of_not_mem (zero_not_mem_cString memory) []
  rw [List.append_nil] at h
  rw [h]
  exact List.append_nil _

theorem padded_terminatedCopy {size : Nat} (hsize : 0 < size) (text : Bytes) :
    Padded (terminatedCopy size text) := by
  unfold Padded
  rw [terminatedCopy_inj hsize, cString_cString, cString_terminatedCopy hsize,
    List.take_take, Nat.min_self]

theorem padded_replicate (size : Nat) :
    Padded (Vector.replicate size (0 : UInt8)) := by
  have htext : cString (Vector.replicate size (0 : UInt8)).toList = [] := by
    rw [Vector.toList_replicate]
    cases size with
    | zero => rfl
    | succ size => rfl
  unfold Padded
  rw [htext]
  ext i hi
  simp [terminatedCopy, cString]

/-- A padded field is determined by its text. -/
theorem Padded.eq_of_text {size : Nat} {field field' : Vector UInt8 size}
    (h : Padded field) (h' : Padded field')
    (htext : cString field.toList = cString field'.toList) : field = field' := by
  unfold Padded at h h'
  rw [← h, ← h', htext]

/-! ## Fixed-width integers -/

/-- The largest `int`. -/
def intMax : Int := 2 ^ 31 - 1

/-- The value a 32-bit signed integer keeps of `x`. -/
def int32 (x : Int) : Int := x.bmod (2 ^ 32)

/-- The value a 64-bit signed integer keeps of `x`. -/
def int64 (x : Int) : Int := x.bmod (2 ^ 64)

/-- No wrap inside the 32-bit range. -/
theorem int32_of_range {x : Int} (hlo : -2 ^ 31 ≤ x) (hhi : x < 2 ^ 31) :
    int32 x = x := by
  apply Int.bmod_eq_of_le ?_ ?_ <;> omega

/-- No wrap inside the 64-bit range. -/
theorem int64_of_range {x : Int} (hlo : -2 ^ 63 ≤ x) (hhi : x < 2 ^ 63) :
    int64 x = x := by
  apply Int.bmod_eq_of_le ?_ ?_ <;> omega

theorem int32_lt (x : Int) : int32 x ≤ intMax := by
  have h := Int.bmod_lt (x := x) (m := 2 ^ 32) (by decide)
  unfold int32 intMax
  omega

end BkkApi.Verified.CData
