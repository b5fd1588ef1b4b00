import Mathlib.Data.List.Basic

/-!
# UTF-8 texts as bytes

A text that is cut after some number of bytes keeps whole characters, and of the
next one at most its first bytes.  `cut_encode` says so, and `validUtf8_take_iff`
says when nothing of the next character is kept: when the text is not cut at all,
or the first byte that is left out begins a character.

A text is found among the bytes of another one only where its characters are
(`infix_encode_iff`): no character begins inside another.

The encoding of a character is the one of Lean's own strings.
-/

namespace BkkApi.Verified.Utf8

/-- The UTF-8 bytes of a text. -/
def encode (chars : List Char) : List UInt8 :=
  chars.flatMap String.utf8EncodeChar

/-- The bytes are those of some text. -/
def ValidUtf8 (bytes : List UInt8) : Prop := ∃ chars, bytes = encode chars

theorem encode_cons (c : Char) (chars : List Char) :
    encode (c :: chars) = String.utf8EncodeChar c ++ encode chars :=
  List.flatMap_cons

/-- Bytes that begin with a character begin with that character alone. -/
theorem utf8EncodeChar_append_inj {c d : Char} {rest rest' : List UInt8}
    (h : String.utf8EncodeChar c ++ rest = String.utf8EncodeChar d ++ rest') :
    c = d ∧ rest = rest' := by
  have hdecode : ∀ (e : Char) (tail : List UInt8),
      (String.utf8EncodeChar e ++ tail).toByteArray.utf8DecodeChar? 0 = some e := by
    intro e tail
    rw [List.toByteArray_append]
    exact ByteArray.utf8DecodeChar?_utf8EncodeChar_append
  have hc := hdecode c rest
  rw [h, hdecode d rest'] at hc
  have hsame : d = c := Option.some.inj hc
  subst hsame
  exact ⟨rfl, List.append_cancel_left h⟩

/-- Whole characters, and a part of one more: `bytes` is what a cut leaves of
`text`. -/
inductive Cut (text : List UInt8) : List UInt8 → Prop
  | between (whole rest : List Char) (htext : text = encode (whole ++ rest)) :
      Cut text (encode whole)
  | inside (whole rest : List Char) (c : Char) (count : Nat)
      (htext : text = encode (whole ++ c :: rest)) (hpos : 0 < count)
      (hlt : count < (String.utf8EncodeChar c).length) :
      Cut text (encode whole ++ (String.utf8EncodeChar c).take count)

/-! ## What a cut leaves -/

theorem length_utf8EncodeChar_pos (c : Char) :
    0 < (String.utf8EncodeChar c).length := by
  rw [String.length_utf8EncodeChar]
  exact c.utf8Size_pos

/-- A character in front of the text stays whole. -/
theorem Cut.cons {text bytes : List UInt8} (c : Char) (h : Cut text bytes) :
    Cut (String.utf8EncodeChar c ++ text) (String.utf8EncodeChar c ++ bytes) := by
  cases h with
  | between whole rest htext =>
      have hcut : Cut (String.utf8EncodeChar c ++ text) (encode (c :: whole)) :=
        Cut.between _ rest (by rw [htext, List.cons_append, encode_cons])
      rw [encode_cons] at hcut
      exact hcut
  | inside whole rest d count htext hpos hlt =>
      have hcut : Cut (String.utf8EncodeChar c ++ text)
          (encode (c :: whole) ++ (String.utf8EncodeChar d).take count) :=
        Cut.inside _ rest d count
          (by rw [htext, List.cons_append, encode_cons]) hpos hlt
      rw [encode_cons, List.append_assoc] at hcut
      exact hcut

theorem take_append_of_le {bytes rest : List UInt8} {n : Nat}
    (h : bytes.length ≤ n) :
    (bytes ++ rest).take n = bytes ++ rest.take (n - bytes.length) := by
  rw [List.take_append, List.take_of_length_le h]

/-- A cut by bytes leaves whole characters and a part of at most one. -/
theorem cut_encode (chars : List Char) :
    ∀ n, Cut (encode chars) ((encode chars).take n) := by
  induction chars with
  | nil =>
      intro n
      have hnil : (encode []).take n = encode [] := by simp [encode]
      rw [hnil]
      exact Cut.between [] [] rfl
  | cons c chars ih =>
      intro n
      rw [encode_cons]
      by_cases hn : n < (String.utf8EncodeChar c).length
      · rw [List.take_append_of_le_length (Nat.le_of_lt hn)]
        by_cases hzero : n = 0
        · subst hzero
          exact Cut.between [] (c :: chars) rfl
        · exact Cut.inside [] chars c n rfl (by omega) hn
      · rw [take_append_of_le (Nat.le_of_not_lt hn)]
        exact (ih _).cons c

/-! ## When nothing of the next character is left -/

theorem validUtf8_nil : ValidUtf8 [] := ⟨[], rfl⟩

theorem validUtf8_cons_iff (c : Char) (bytes : List UInt8) :
    ValidUtf8 (String.utf8EncodeChar c ++ bytes) ↔ ValidUtf8 bytes := by
  constructor
  · intro h
    obtain ⟨chars, hchars⟩ := h
    cases chars with
    | nil =>
        have hlen := congrArg List.length hchars
        have hpos := length_utf8EncodeChar_pos c
        rw [List.length_append] at hlen
        have hnil : (encode []).length = 0 := rfl
        omega
    | cons d chars =>
        rw [encode_cons] at hchars
        exact ⟨chars, (utf8EncodeChar_append_inj hchars).2⟩
  · intro h
    obtain ⟨chars, hchars⟩ := h
    exact ⟨c :: chars, by rw [hchars, encode_cons]⟩

/-- A part of a character is no text. -/
theorem not_validUtf8_part {c : Char} {n : Nat} (hpos : 0 < n)
    (hlt : n < (String.utf8EncodeChar c).length) :
    ¬ValidUtf8 ((String.utf8EncodeChar c).take n) := by
  intro h
  obtain ⟨chars, hchars⟩ := h
  have hlen : ((String.utf8EncodeChar c).take n).length = n := by
    rw [List.length_take]
    omega
  cases chars with
  | nil =>
      rw [hchars] at hlen
      simp [encode] at hlen
      omega
  | cons d chars =>
      rw [encode_cons] at hchars
      have hwhole : String.utf8EncodeChar d ++
          (encode chars ++ (String.utf8EncodeChar c).drop n) =
            String.utf8EncodeChar c ++ [] := by
        rw [← List.append_assoc, ← hchars, List.take_append_drop,
          List.append_nil]
      have hrest := (utf8EncodeChar_append_inj hwhole).2
      have hdrop := (List.append_eq_nil_iff.1 hrest).2
      have hle := List.drop_eq_nil_iff.1 hdrop
      omega

/-- The bytes before a cut are a text exactly when the cut is at the end, or
before the first byte of a character. -/
theorem validUtf8_take_encode_iff (chars : List Char) :
    ∀ n, ValidUtf8 ((encode chars).take n) ↔
      ∀ b, (encode chars)[n]? = some b → b.IsUTF8FirstByte := by
  induction chars with
  | nil =>
      intro n
      simp [encode, validUtf8_nil]
  | cons c chars ih =>
      intro n
      rw [encode_cons]
      by_cases hn : n < (String.utf8EncodeChar c).length
      · have hbyte : (String.utf8EncodeChar c ++ encode chars)[n]? =
            some (String.utf8EncodeChar c)[n] := by
          rw [List.getElem?_append_left hn, List.getElem?_eq_getElem hn]
        rw [List.take_append_of_le_length (Nat.le_of_lt hn), hbyte]
        by_cases hzero : n = 0
        · subst hzero
          simp [validUtf8_nil]
        · have hpart := not_validUtf8_part (Nat.pos_of_ne_zero hzero) hn
          simp [hpart, hzero]
      · have hle : (String.utf8EncodeChar c).length ≤ n := Nat.le_of_not_lt hn
        rw [take_append_of_le hle, validUtf8_cons_iff, List.getElem?_append_right hle]
        exact ih _

theorem validUtf8_take_iff {text : List UInt8} (h : ValidUtf8 text) (n : Nat) :
    ValidUtf8 (text.take n) ↔ ∀ b, text[n]? = some b → b.IsUTF8FirstByte := by
  obtain ⟨chars, hchars⟩ := h
  rw [hchars]
  exact validUtf8_take_encode_iff chars n

theorem cut_take {text : List UInt8} (h : ValidUtf8 text) (n : Nat) :
    Cut text (text.take n) := by
  obtain ⟨chars, hchars⟩ := h
  rw [hchars]
  exact cut_encode chars n

/-! ## Finding one text in another -/

theorem encode_append (chars chars' : List Char) :
    encode (chars ++ chars') = encode chars ++ encode chars' :=
  List.flatMap_append

theorem encode_cons_ne_nil (c : Char) (chars : List Char) :
    encode (c :: chars) ≠ [] := by
  intro hnil
  have hlen := congrArg List.length hnil
  have hpos := length_utf8EncodeChar_pos c
  rw [encode_cons, List.length_append, List.length_nil] at hlen
  omega

/-- A text whose bytes begin another one begins it with its characters. -/
theorem prefix_encode_iff {chars text : List Char} :
    encode chars <+: encode text ↔ chars <+: text := by
  constructor
  · intro h
    induction chars generalizing text with
    | nil => exact List.nil_prefix
    | cons c chars ih =>
        obtain ⟨back, hback⟩ := h
        cases text with
        | nil =>
            have hnil := (List.append_eq_nil_iff.1 hback).1
            exact absurd hnil (encode_cons_ne_nil c chars)
        | cons d text =>
            rw [encode_cons, encode_cons, List.append_assoc] at hback
            obtain ⟨hchar, hrest⟩ := utf8EncodeChar_append_inj hback
            rw [hchar]
            exact (List.prefix_cons_inj d).2 (ih ⟨back, hrest⟩)
  · rintro ⟨back, rfl⟩
    exact ⟨encode back, (encode_append chars back).symm⟩

/-- What comes before the bytes of a text inside another one are whole
characters. -/
theorem validUtf8_front {front back : List UInt8} {c : Char}
    {chars text : List Char}
    (h : front ++ (encode (c :: chars) ++ back) = encode text) :
    ValidUtf8 front := by
  have hfirst : (encode text)[front.length]? = (String.utf8EncodeChar c)[0]? := by
    have hpos := length_utf8EncodeChar_pos c
    rw [← h, List.getElem?_append_right (Nat.le_refl _), Nat.sub_self,
      encode_cons, List.append_assoc, List.getElem?_append_left hpos]
  have htake : (encode text).take front.length = front := by
    rw [← h]
    exact List.take_left
  rw [← htake, validUtf8_take_encode_iff]
  intro b hb
  rw [hfirst, List.getElem?_eq_getElem (length_utf8EncodeChar_pos c)] at hb
  rw [← Option.some.inj hb]
  simp

/-- The bytes of a text are found in those of another one exactly if its characters
are. -/
theorem infix_encode_iff {chars text : List Char} :
    encode chars <:+: encode text ↔ chars <:+: text := by
  constructor
  · intro h
    cases chars with
    | nil => exact List.nil_infix
    | cons c chars =>
        obtain ⟨front, back, hbytes⟩ := h
        rw [List.append_assoc] at hbytes
        obtain ⟨before, rfl⟩ := validUtf8_front hbytes
        have hbefore : before <+: text :=
          prefix_encode_iff.1 ⟨_, hbytes⟩
        obtain ⟨rest, rfl⟩ := hbefore
        rw [encode_append] at hbytes
        have hrest := List.append_cancel_left hbytes
        have hprefix : c :: chars <+: rest := prefix_encode_iff.1 ⟨back, hrest⟩
        exact hprefix.isInfix.trans (List.suffix_append before rest).isInfix
  · rintro ⟨front, back, rfl⟩
    rw [encode_append, encode_append]
    exact ⟨encode front, encode back, rfl⟩

end BkkApi.Verified.Utf8
