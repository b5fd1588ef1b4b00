import Mathlib.Data.List.TakeWhile
import BkkApi.Verified.CData

/-!
# Query strings: what a server reads out of `k=v&k=v`

`decodeUntil` is the standard reading of the query part of a URL: drop
everything from the first ending byte, split at `&`, split each piece at its
first `=`, percent-decode both halves.  `joinParams` is the writer that puts
names and values between the separators *as they are*, with no encoding.

The reading is a left inverse of this writer exactly on the *plain* values:
`decodeUntil_joinParams_iff`.  One direction is the usual round trip; the
other says that a single separator, ending byte or percent escape in a value
is always visible in the result.  The reason is one length argument: the value
read back for a parameter is never longer than the part of the written value
before its first separator or ending byte, and an escape makes it shorter.
-/

namespace BkkApi.Verified.Query

open BkkApi.Verified.CData

/-- `&`. -/
def ampersand : UInt8 := 38

/-- `=`. -/
def equalsSign : UInt8 := 61

/-- `%`. -/
def percentSign : UInt8 := 37

/-- `#`. -/
def hashSign : UInt8 := 35

/-! ## Percent decoding -/

/-- The value of a hexadecimal digit. -/
def hexDigit? (b : UInt8) : Option UInt8 :=
  if 48 ≤ b ∧ b ≤ 57 then some (b - 48)
  else if 65 ≤ b ∧ b ≤ 70 then some (b - 55)
  else if 97 ≤ b ∧ b ≤ 102 then some (b - 87)
  else none

/-- The byte written as the escape `b h l`, when these are an escape. -/
def escapedByte? (b h l : UInt8) : Option UInt8 :=
  if b = percentSign then
    (hexDigit? h).bind fun x => (hexDigit? l).map fun y => 16 * x + y
  else none

/-- Percent decoding; a `%` that starts no escape stands for itself. -/
def percentDecode : Bytes → Bytes
  | b :: h :: l :: rest =>
      match escapedByte? b h l with
      | some x => x :: percentDecode rest
      | none => b :: percentDecode (h :: l :: rest)
  | short => short

/-- Does an escape occur anywhere? -/
def hasEscape : Bytes → Bool
  | b :: h :: l :: rest =>
      (escapedByte? b h l).isSome || hasEscape (h :: l :: rest)
  | _ => false

theorem percentDecode_length_le (bs : Bytes) :
    (percentDecode bs).length ≤ bs.length := by
  fun_induction percentDecode bs with
  | case1 b h l rest x hx ih =>
      simp only [List.length_cons]
      omega
  | case2 b h l rest hx ih =>
      simp only [List.length_cons] at ih ⊢
      omega
  | case3 short => exact Nat.le_refl _

/-- An escape shortens the text. -/
theorem percentDecode_length_lt {bs : Bytes} (hesc : hasEscape bs = true) :
    (percentDecode bs).length < bs.length := by
  fun_induction percentDecode bs with
  | case1 b h l rest x hx ih =>
      have hle := percentDecode_length_le rest
      simp only [List.length_cons]
      omega
  | case2 b h l rest hx ih =>
      rw [hasEscape, hx] at hesc
      have hlt := ih (by simpa using hesc)
      simp only [List.length_cons] at hlt ⊢
      omega
  | case3 short hshort =>
      rw [hasEscape] at hesc
      · simp at hesc
      · exact hshort

/-- Decoding changes exactly the texts that hold an escape. -/
theorem percentDecode_eq_self_iff (bs : Bytes) :
    percentDecode bs = bs ↔ hasEscape bs = false := by
  constructor
  · intro heq
    by_contra hesc
    have hlt := percentDecode_length_lt (Bool.not_eq_false _ ▸ hesc)
    rw [heq] at hlt
    exact Nat.lt_irrefl _ hlt
  · intro hesc
    fun_induction percentDecode bs with
    | case1 b h l rest x hx ih =>
        rw [hasEscape, hx] at hesc
        simp at hesc
    | case2 b h l rest hx ih =>
        rw [hasEscape, hx] at hesc
        rw [ih (by simpa using hesc)]
    | case3 short => rfl

/-! ## Writing and reading parameters -/

/-- Names and values spliced between the separators as they are. -/
def joinParams : List (Bytes × Bytes) → Bytes
  | [] => []
  | [p] => p.1 ++ equalsSign :: p.2
  | p :: q :: ps => p.1 ++ equalsSign :: p.2 ++ ampersand :: joinParams (q :: ps)

/-- One piece, split at its first `=` and percent-decoded. -/
def decodePiece (piece : Bytes) : Bytes × Bytes :=
  (percentDecode (piece.takeWhile (· != equalsSign)),
    percentDecode ((piece.dropWhile (· != equalsSign)).drop 1))

/-- The parameters of a query that ends at the first byte in `ends`. -/
def decodeUntil (ends : UInt8 → Bool) (query : Bytes) : List (Bytes × Bytes) :=
  ((query.takeWhile fun b => !ends b).splitOn ampersand).map decodePiece

/-- The parameters of the query part of a URL: the fragment is dropped. -/
def decodeQuery (query : Bytes) : List (Bytes × Bytes) :=
  decodeUntil (· == hashSign) query

/-- Reading a query out of memory ends at the terminator as well. -/
theorem decodeQuery_cString (memory : Bytes) :
    decodeQuery (cString memory) =
      decodeUntil (fun b => b == 0 || b == hashSign) memory := by
  have htake : (cString memory).takeWhile (fun b => !(b == hashSign)) =
      memory.takeWhile fun b => !(b == 0 || b == hashSign) := by
    rw [cString, List.takeWhile_takeWhile]
    congr 1
    funext b
    by_cases h0 : b = 0 <;> by_cases hh : b = hashSign <;> simp [h0, hh]
  simp only [decodeQuery, decodeUntil, htake]

/-- Text that survives the splicing and the reading unchanged. -/
structure Plain (ends : UInt8 → Bool) (text : Bytes) : Prop where
  no_separator : ampersand ∉ text
  no_end : ∀ b ∈ text, ends b = false
  no_escape : hasEscape text = false

instance (ends : UInt8 → Bool) (text : Bytes) : Decidable (Plain ends text) :=
  decidable_of_iff
    (ampersand ∉ text ∧ (text.all fun b => !ends b) = true ∧
      hasEscape text = false)
    ⟨fun h => ⟨h.1, by simpa using h.2.1, h.2.2⟩,
      fun h => ⟨h.no_separator, by simpa using h.no_end, h.no_escape⟩⟩

/-- A name is plain when it also has no `=`. -/
structure PlainName (ends : UInt8 → Bool) (name : Bytes) : Prop
    extends Plain ends name where
  no_equals : equalsSign ∉ name

section Reading

variable {ends : UInt8 → Bool}

/-- The piece `name=value` is split back at its first `=`. -/
theorem decodePiece_pair {name value : Bytes} (hname : PlainName ends name) :
    decodePiece (name ++ equalsSign :: value) = (name, percentDecode value) := by
  have hall : ∀ b ∈ name, (b != equalsSign) = true := by
    intro b hb
    simpa using fun h : b = equalsSign => hname.no_equals (h ▸ hb)
  have htake : (name ++ equalsSign :: value).takeWhile (· != equalsSign) =
      name := by
    rw [List.takeWhile_append_of_pos hall]
    simp
  have hdrop : (name ++ equalsSign :: value).dropWhile (· != equalsSign) =
      equalsSign :: value := by
    rw [List.dropWhile_append_of_pos hall]
    simp
  rw [decodePiece, htake, hdrop, (percentDecode_eq_self_iff name).2
    hname.no_escape]
  rfl

/-- Reading stops at an ending byte. -/
private theorem decodeUntil_end {front : Bytes} {b : UInt8} (rest : Bytes)
    (hends : ∀ c ∈ front, ends c = false) (hb : ends b = true)
    (hsep : ampersand ∉ front) :
    decodeUntil ends (front ++ b :: rest) = [decodePiece front] := by
  have htake : (front ++ b :: rest).takeWhile (fun c => !ends c) = front := by
    rw [List.takeWhile_append_of_pos (by simpa using hends)]
    simp [hb]
  rw [decodeUntil, htake, List.splitOn,
    List.splitOnP_eq_singleton fun c hc => by
      simpa using fun h : c = ampersand => hsep (h ▸ hc)]
  rfl

/-- Reading without any separator or ending byte gives one piece. -/
private theorem decodeUntil_single {front : Bytes}
    (hends : ∀ c ∈ front, ends c = false) (hsep : ampersand ∉ front) :
    decodeUntil ends front = [decodePiece front] := by
  have htake : front.takeWhile (fun c => !ends c) = front :=
    List.takeWhile_eq_self_iff.2 (by simpa using hends)
  rw [decodeUntil, htake, List.splitOn,
    List.splitOnP_eq_singleton fun c hc => by
      simpa using fun h : c = ampersand => hsep (h ▸ hc)]
  rfl

/-- A separator closes a piece and the reading goes on behind it. -/
private theorem decodeUntil_separator {front : Bytes} (rest : Bytes)
    (hamp : ends ampersand = false) (hends : ∀ c ∈ front, ends c = false)
    (hsep : ampersand ∉ front) :
    decodeUntil ends (front ++ ampersand :: rest) =
      decodePiece front :: decodeUntil ends rest := by
  have htake : (front ++ ampersand :: rest).takeWhile (fun c => !ends c) =
      front ++ ampersand :: rest.takeWhile fun c => !ends c := by
    rw [List.takeWhile_append_of_pos (by simpa using hends),
      List.takeWhile_cons_of_pos (by simp [hamp])]
  rw [decodeUntil, htake, List.splitOn,
    List.splitOnP_append_cons_of_forall_mem (fun c hc => by
      simpa using fun h : c = ampersand => hsep (h ▸ hc)) _ (by simp)]
  rfl

/-- `name=value` holds no separator and no ending byte unless the value does. -/
private theorem pair_clean (heq : ends equalsSign = false) {name value : Bytes}
    (hname : PlainName ends name) (hsep : ampersand ∉ value)
    (hends : ∀ b ∈ value, ends b = false) :
    ampersand ∉ name ++ equalsSign :: value ∧
      ∀ b ∈ name ++ equalsSign :: value, ends b = false := by
  constructor
  · intro h
    rcases List.mem_append.1 h with h | h
    · exact hname.no_separator h
    · rcases List.mem_cons.1 h with h | h
      · exact absurd h (by decide)
      · exact hsep h
  · intro b hb
    rcases List.mem_append.1 hb with hb | hb
    · exact hname.no_end b hb
    · rcases List.mem_cons.1 hb with hb | hb
      · exact hb ▸ heq
      · exact hends b hb

/-- Text with a separator or an ending byte, cut before the first one. -/
private theorem exists_first_break {value : Bytes}
    (h : ¬ (ampersand ∉ value ∧ ∀ b ∈ value, ends b = false)) :
    ∃ front b rest, value = front ++ b :: rest ∧
      ampersand ∉ front ∧ (∀ c ∈ front, ends c = false) ∧
      (b = ampersand ∨ ends b = true) := by
  induction value with
  | nil => simp at h
  | cons b value ih =>
      by_cases hb : b = ampersand ∨ ends b = true
      · exact ⟨[], b, value, rfl, by simp, by simp, hb⟩
      · obtain ⟨hsep, hend⟩ := not_or.1 hb
        have htail : ¬ (ampersand ∉ value ∧ ∀ c ∈ value, ends c = false) := by
          rintro ⟨h1, h2⟩
          refine h ⟨?_, ?_⟩
          · simpa [h1] using fun h0 : ampersand = b => hsep h0.symm
          · intro c hc
            rcases List.mem_cons.1 hc with hc | hc
            · simpa [hc] using hend
            · exact h2 c hc
        obtain ⟨front, c, rest, rfl, h1, h2, h3⟩ := ih htail
        refine ⟨b :: front, c, rest, rfl, ?_, ?_, h3⟩
        · simpa [h1] using fun h0 : ampersand = b => hsep h0.symm
        · intro d hd
          rcases List.mem_cons.1 hd with hd | hd
          · simpa [hd] using hend
          · exact h2 d hd

/-- The parameters behind the first one, with their leading separator. -/
private def joinTail : List (Bytes × Bytes) → Bytes
  | [] => []
  | p :: ps => ampersand :: joinParams (p :: ps)

private theorem joinParams_cons (p : Bytes × Bytes) (ps : List (Bytes × Bytes)) :
    joinParams (p :: ps) = (p.1 ++ equalsSign :: p.2) ++ joinTail ps := by
  cases ps with
  | nil => simp [joinParams, joinTail]
  | cons q ps => simp [joinParams, joinTail]

private theorem decodeUntil_plain_cons (hamp : ends ampersand = false)
    (heq : ends equalsSign = false) {name value : Bytes}
    (hname : PlainName ends name) (hsep : ampersand ∉ value)
    (hends : ∀ b ∈ value, ends b = false) (ps : List (Bytes × Bytes)) :
    decodeUntil ends ((name ++ equalsSign :: value) ++ joinTail ps) =
      (name, percentDecode value) ::
        if ps = [] then [] else decodeUntil ends (joinParams ps) := by
  obtain ⟨hclean, hcleanEnds⟩ := pair_clean heq hname hsep hends
  cases ps with
  | nil =>
      rw [joinTail, List.append_nil, decodeUntil_single hcleanEnds hclean,
        decodePiece_pair hname]
      rfl
  | cons q ps =>
      rw [joinTail, decodeUntil_separator _ hamp hcleanEnds hclean,
        decodePiece_pair hname]
      rfl

/-- When the first parameter is read back unchanged, its value was plain. -/
private theorem plain_of_decodeUntil (hamp : ends ampersand = false)
    (heq : ends equalsSign = false) {name value : Bytes}
    (hname : PlainName ends name) {ps more : List (Bytes × Bytes)}
    (hdec : decodeUntil ends ((name ++ equalsSign :: value) ++ joinTail ps) =
      (name, value) :: more) : Plain ends value := by
  by_cases hbreak : ampersand ∉ value ∧ ∀ b ∈ value, ends b = false
  · obtain ⟨hsep, hends⟩ := hbreak
    rw [decodeUntil_plain_cons hamp heq hname hsep hends] at hdec
    have hval : percentDecode value = value :=
      congrArg Prod.snd (List.cons.inj hdec).1
    exact ⟨hsep, hends, (percentDecode_eq_self_iff value).1 hval⟩
  · -- the value read back is no longer than the part before the break
    obtain ⟨front, b, rest, rfl, hsep, hends, hb⟩ := exists_first_break hbreak
    obtain ⟨hclean, hcleanEnds⟩ := pair_clean heq hname hsep hends
    have hhead : ∃ tail, decodeUntil ends
        ((name ++ equalsSign :: front) ++ b :: (rest ++ joinTail ps)) =
          (name, percentDecode front) :: tail := by
      by_cases hend : ends b = true
      · rw [decodeUntil_end _ hcleanEnds hend hclean, decodePiece_pair hname]
        exact ⟨[], rfl⟩
      · have hsepb : b = ampersand := hb.resolve_right hend
        rw [hsepb, decodeUntil_separator _ hamp hcleanEnds hclean,
          decodePiece_pair hname]
        exact ⟨_, rfl⟩
    obtain ⟨tail, htail⟩ := hhead
    have hval : percentDecode front = front ++ b :: rest := by
      have hsame : (name, percentDecode front) :: tail =
          (name, front ++ b :: rest) :: more := by
        rw [← htail, ← hdec]
        simp
      exact congrArg Prod.snd (List.cons.inj hsame).1
    have hle := percentDecode_length_le front
    rw [hval, List.length_append, List.length_cons] at hle
    omega

/-- Spliced parameters are read back unchanged exactly when every value is
plain. -/
theorem decodeUntil_joinParams_iff (hamp : ends ampersand = false)
    (heq : ends equalsSign = false) (params : List (Bytes × Bytes))
    (hne : params ≠ []) (hnames : ∀ p ∈ params, PlainName ends p.1) :
    decodeUntil ends (joinParams params) = params ↔
      ∀ p ∈ params, Plain ends p.2 := by
  induction params with
  | nil => exact absurd rfl hne
  | cons p ps ih =>
      have hname : PlainName ends p.1 := hnames p (by simp)
      have hrest : ∀ q ∈ ps, PlainName ends q.1 := fun q hq =>
        hnames q (by simp [hq])
      rw [joinParams_cons, List.forall_mem_cons]
      by_cases hplain : Plain ends p.2
      · rw [decodeUntil_plain_cons hamp heq hname hplain.no_separator
          hplain.no_end, (percentDecode_eq_self_iff p.2).2 hplain.no_escape]
        by_cases hps : ps = []
        · subst hps
          simp [hplain]
        · simp only [hps, if_false, List.cons.injEq, true_and, hplain]
          exact ih hps hrest
      · constructor
        · intro hdec
          exact absurd (plain_of_decodeUntil hamp heq hname hdec) hplain
        · intro h
          exact absurd h.1 hplain

end Reading

end BkkApi.Verified.Query
