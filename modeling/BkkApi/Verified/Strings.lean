import Mathlib.Data.List.DropRight
import Mathlib.Data.List.Infix
import BkkApi.Verified.CData

/-!
# Searching, splitting and trimming texts

`strstr` looks for a C string in another one: it finds one exactly where the one
is an infix of the other.

A text is cut into lines at its line breaks, which are white space.  `cleanLines`
are the lines that are not blank, without the white space around them, and
`firstLine` is the first of them.  `takeWhile_trim_eq_iff` compares it with what
a program has that trims the text as a whole and reads the result up to a
terminator: the two agree exactly if there is no terminator in the text and no
second line that is not blank.
-/

namespace BkkApi.Verified.Strings

open BkkApi.Verified.CData

/-! ## Searching -/

/-- `strstr`: what is left of the first string from the first place where the
second one occurs. -/
def strstr (haystack needle : Bytes) : Option Bytes :=
  (cString haystack).tails.find? fun rest => (cString needle).isPrefixOf rest

theorem strstr_ne_none_iff {haystack needle : Bytes} :
    strstr haystack needle ≠ none ↔ cString needle <:+: cString haystack := by
  rw [strstr, Option.ne_none_iff_isSome, List.find?_isSome,
    List.infix_iff_prefix_suffix]
  constructor
  · intro h
    obtain ⟨rest, hmem, hfront⟩ := h
    exact ⟨rest, List.isPrefixOf_iff_prefix.1 hfront, (List.mem_tails _ _).1 hmem⟩
  · intro h
    obtain ⟨rest, hfront, hback⟩ := h
    exact ⟨rest, (List.mem_tails _ _).2 hback, List.isPrefixOf_iff_prefix.2 hfront⟩

/-! ## Trimming -/

section Lines

variable {α : Type}

/-- A text without the white space at both ends. -/
def trim (space : α → Bool) (text : List α) : List α :=
  (text.dropWhile space).rdropWhile space

theorem mem_of_mem_trim {space : α → Bool} {text : List α} {a : α}
    (h : a ∈ trim space text) : a ∈ text :=
  (List.dropWhile_suffix space).mem ((List.rdropWhile_prefix space _).mem h)

/-- Nothing is left at the front of a trimmed text. -/
theorem head?_trim {space : α → Bool} {text : List α} {a : α}
    (h : (trim space text).head? = some a) : ¬space a = true := by
  have hfront : (text.dropWhile space).head? = some a := by
    obtain ⟨back, hback⟩ := List.rdropWhile_prefix space (text.dropWhile space)
    unfold trim at h
    rw [← hback, List.head?_append, h, Option.some_or]
  intro hspace
  have hstop := List.head?_dropWhile_not space text
  rw [hfront] at hstop
  simp [hspace] at hstop

/-- Nothing is left at its end. -/
theorem getLast?_trim {space : α → Bool} {text : List α} {a : α}
    (h : (trim space text).getLast? = some a) : ¬space a = true := by
  have hne : trim space text ≠ [] := by
    intro hnil
    rw [hnil] at h
    cases h
  have hlast := List.rdropWhile_last_not space (text.dropWhile space) hne
  rw [List.getLast?_eq_some_getLast hne] at h
  rw [← Option.some.inj h]
  exact hlast

/-- White space at the end is dropped together with what it is appended to. -/
theorem rdropWhile_append_of_pos {p : α → Bool} {back : List α}
    (h : ∀ a ∈ back, p a = true) (front : List α) :
    (front ++ back).rdropWhile p = front.rdropWhile p := by
  unfold List.rdropWhile
  rw [List.reverse_append, List.dropWhile_append_of_pos]
  intro a ha
  exact h a (List.mem_reverse.1 ha)

/-- Where something of the end stays, all before it does. -/
theorem rdropWhile_append_of_ne {p : α → Bool} {back : List α}
    (h : back.rdropWhile p ≠ []) (front : List α) :
    (front ++ back).rdropWhile p = front ++ back.rdropWhile p := by
  have hstays : back.reverse.dropWhile p ≠ [] := by
    intro hnil
    exact h (by rw [List.rdropWhile, hnil, List.reverse_nil])
  unfold List.rdropWhile
  rw [List.reverse_append, List.dropWhile_append, if_neg (by simpa using hstays)]
  simp

/-! ## Lines -/

/-- The lines of a text. -/
def lines (brk : α → Bool) (text : List α) : List (List α) := text.splitOnP brk

/-- A line of white space. -/
def blank (space : α → Bool) (line : List α) : Bool := line.all space

/-- The lines that are not blank, trimmed. -/
def cleanLines (brk space : α → Bool) (text : List α) : List (List α) :=
  ((lines brk text).filter fun line => !blank space line).map (trim space)

/-- The first line that is not blank, trimmed; nothing if all are. -/
def firstLine (brk space : α → Bool) (text : List α) : List α :=
  (cleanLines brk space text).headD []

theorem lines_cons_of_pos {brk : α → Bool} {a : α} (h : brk a = true)
    (rest : List α) : lines brk (a :: rest) = [] :: lines brk rest := by
  unfold lines
  rw [List.splitOnP_cons_eq_if_modifyHead, if_pos h]

/-- Anything else belongs to the first line. -/
theorem exists_lines_cons_of_neg {brk : α → Bool} {a : α} (h : ¬brk a = true)
    (rest : List α) : ∃ first later, lines brk rest = first :: later ∧
      lines brk (a :: rest) = (a :: first) :: later := by
  have hne : lines brk rest ≠ [] := List.splitOnP_ne_nil _ _
  obtain ⟨first, later, hrest⟩ := List.exists_cons_of_ne_nil hne
  refine ⟨first, later, hrest, ?_⟩
  unfold lines at hrest ⊢
  rw [List.splitOnP_cons_eq_if_modifyHead, if_neg h, hrest, List.modifyHead_cons]

/-- The elements that are no breaks. -/
def noBreak (brk : α → Bool) (a : α) : Bool := !brk a

/-- A text without a break is one line. -/
theorem lines_of_dropWhile_nil {brk : α → Bool} {text : List α}
    (h : text.dropWhile (noBreak brk) = []) :
    lines brk text = [text.takeWhile (noBreak brk)] := by
  have hall := List.dropWhile_eq_nil_iff.1 h
  rw [List.takeWhile_eq_self_iff.2 hall]
  apply List.splitOnP_eq_singleton
  intro a ha
  simpa [noBreak] using hall a ha

theorem brk_of_dropWhile_cons {brk : α → Bool} {text rest : List α} {b : α}
    (h : text.dropWhile (noBreak brk) = b :: rest) : brk b = true := by
  have hne : text.dropWhile (noBreak brk) ≠ [] := by simp [h]
  have hhead := List.head_dropWhile_not (p := noBreak brk) hne
  simpa [h, noBreak] using hhead

/-- The first line goes to the first break, and the others are those of what
follows it. -/
theorem lines_of_dropWhile_cons {brk : α → Bool} {text rest : List α} {b : α}
    (h : text.dropWhile (noBreak brk) = b :: rest) :
    lines brk text = text.takeWhile (noBreak brk) :: lines brk rest := by
  have hsplit : text = text.takeWhile (noBreak brk) ++ b :: rest := by
    rw [← h, List.takeWhile_append_dropWhile]
  unfold lines
  conv => lhs; rw [hsplit]
  apply List.splitOnP_append_cons_of_forall_mem
  · intro a ha
    simpa [noBreak] using List.mem_takeWhile_imp ha
  · exact brk_of_dropWhile_cons h

/-- There is no break inside a line. -/
theorem brk_of_mem_lines {brk : α → Bool} {text line : List α}
    (hline : line ∈ lines brk text) {a : α} (ha : a ∈ line) : brk a = false := by
  induction text generalizing line a with
  | nil =>
      have hnil : line = [] := List.mem_singleton.1 hline
      rw [hnil] at ha
      cases ha
  | cons c rest ih =>
      by_cases hbrk : brk c = true
      · rw [lines_cons_of_pos hbrk] at hline
        rcases List.mem_cons.1 hline with hfirst | hlater
        · rw [hfirst] at ha
          cases ha
        · exact ih hlater ha
      · obtain ⟨first, later, hrest, hlines⟩ := exists_lines_cons_of_neg hbrk rest
        rw [hlines] at hline
        rw [hrest] at ih
        rcases List.mem_cons.1 hline with hfirst | hlater
        · rw [hfirst] at ha
          rcases List.mem_cons.1 ha with heq | hmem
          · rw [heq]
            exact Bool.eq_false_iff.2 hbrk
          · exact ih List.mem_cons_self hmem
        · exact ih (List.mem_cons_of_mem _ hlater) ha

theorem firstLine_cases (brk space : α → Bool) (text : List α) :
    firstLine brk space text = [] ∨
      ∃ line ∈ lines brk text, firstLine brk space text = trim space line := by
  unfold firstLine
  cases hclean : cleanLines brk space text with
  | nil => exact Or.inl rfl
  | cons first later =>
      have hmem : first ∈ cleanLines brk space text := by
        rw [hclean]
        exact List.mem_cons_self
      obtain ⟨line, hline, htrim⟩ := List.mem_map.1 hmem
      exact Or.inr ⟨line, List.mem_of_mem_filter hline, htrim.symm⟩

/-! ## White space in front -/

/-- White space in front of a text does not change its clean lines: it is a blank
line of its own, or belongs to the first line. -/
theorem cleanLines_cons_of_space {brk space : α → Bool} {a : α}
    (ha : space a = true) (rest : List α) :
    cleanLines brk space (a :: rest) = cleanLines brk space rest := by
  unfold cleanLines
  by_cases hbrk : brk a = true
  · rw [lines_cons_of_pos hbrk, List.filter_cons_of_neg (by simp [blank])]
  · obtain ⟨first, later, hrest, hlines⟩ := exists_lines_cons_of_neg hbrk rest
    have hblank : blank space (a :: first) = blank space first := by
      simp [blank, ha]
    have htrim : trim space (a :: first) = trim space first := by
      rw [trim, trim, List.dropWhile_cons_of_pos ha]
    rw [hlines, hrest, List.filter_cons, List.filter_cons, hblank]
    split
    · rw [List.map_cons, List.map_cons, htrim]
    · rfl

/-- A line that starts with something else is not blank, and goes to the first
break. -/
theorem cleanLines_of_head {brk space : α → Bool} {a : α}
    (ha : ¬space a = true) {rest : List α} {later : List (List α)}
    (hrest : lines brk (a :: rest) =
      (a :: rest.takeWhile (noBreak brk)) :: later) :
    cleanLines brk space (a :: rest) =
      (a :: rest.takeWhile (noBreak brk)).rdropWhile space ::
        (later.filter fun line => !blank space line).map (trim space) := by
  have htrim : ∀ line : List α,
      trim space (a :: line) = (a :: line).rdropWhile space := by
    intro line
    rw [trim, List.dropWhile_cons_of_neg ha]
  unfold cleanLines
  rw [hrest, List.filter_cons_of_pos (by simp [blank, ha]), List.map_cons, htrim]

section Breaks

variable {brk space : α → Bool} (hsub : ∀ a, brk a = true → space a = true)
include hsub

/-- The clean lines of a text that starts with something else: its first line, and
those of what follows the break behind it, if there is one. -/
theorem cleanLines_cons_of_not_space {a : α} (ha : ¬space a = true)
    (rest : List α) : ∃ later,
      cleanLines brk space (a :: rest) =
        (a :: rest.takeWhile (noBreak brk)).rdropWhile space :: later ∧
      ((∃ b tail, rest.dropWhile (noBreak brk) = b :: tail ∧ brk b = true ∧
          later = cleanLines brk space tail) ∨
        (rest.dropWhile (noBreak brk) = [] ∧ later = [])) := by
  have hkeep : noBreak brk a = true := by
    have hbrk : ¬brk a = true := fun h => ha (hsub a h)
    simpa [noBreak] using hbrk
  have hdrop : (a :: rest).dropWhile (noBreak brk) =
      rest.dropWhile (noBreak brk) := List.dropWhile_cons_of_pos hkeep
  have htake : (a :: rest).takeWhile (noBreak brk) =
      a :: rest.takeWhile (noBreak brk) := List.takeWhile_cons_of_pos hkeep
  cases hmore : rest.dropWhile (noBreak brk) with
  | nil =>
      have hlines := lines_of_dropWhile_nil (hdrop.trans hmore)
      rw [htake] at hlines
      exact ⟨[], cleanLines_of_head ha hlines, Or.inr ⟨rfl, rfl⟩⟩
  | cons b tail =>
      have hlines := lines_of_dropWhile_cons (hdrop.trans hmore)
      rw [htake] at hlines
      exact ⟨_, cleanLines_of_head ha hlines,
        Or.inl ⟨b, tail, rfl, brk_of_dropWhile_cons hmore, rfl⟩⟩

/-- There are no clean lines exactly in a text of white space. -/
theorem cleanLines_eq_nil_iff {text : List α} :
    cleanLines brk space text = [] ↔ ∀ a ∈ text, space a = true := by
  induction text with
  | nil => simp [cleanLines, lines, blank]
  | cons a rest ih =>
      by_cases ha : space a = true
      · rw [cleanLines_cons_of_space ha, ih]
        simp [ha]
      · obtain ⟨later, hlines, -⟩ := cleanLines_cons_of_not_space hsub ha rest
        rw [hlines]
        simp [ha]

end Breaks

/-! ## The first line and the whole text -/

section Reading

variable {space keep : α → Bool} (hkeep : ∀ a, space a = true → keep a = true)

/-- A reading that goes on behind a text does not give the text. -/
theorem takeWhile_append_cons_ne {c : α} (hc : keep c = true)
    (front back : List α) : (front ++ c :: back).takeWhile keep ≠ front := by
  intro heq
  have hall : ∀ a ∈ front, keep a = true := by
    intro a ha
    rw [← heq] at ha
    exact List.mem_takeWhile_imp ha
  rw [List.takeWhile_append_of_pos hall, List.takeWhile_cons_of_pos hc] at heq
  simpa using congrArg List.length heq

include hkeep

/-- With only white space behind it, a text is read as trimmed exactly if all of it
is kept. -/
theorem takeWhile_rdropWhile_eq_iff {front back : List α}
    (hback : ∀ a ∈ back, space a = true) :
    ((front ++ back).rdropWhile space).takeWhile keep = front.rdropWhile space ↔
      ∀ a ∈ front ++ back, keep a = true := by
  rw [rdropWhile_append_of_pos hback, List.takeWhile_eq_self_iff]
  constructor
  · intro hall a ha
    have hparts := List.rdropWhile_append_rtakeWhile (p := space) (l := front)
    rw [← hparts, List.append_assoc] at ha
    rcases List.mem_append.1 ha with hkept | hdropped
    · exact hall a hkept
    · apply hkeep
      rcases List.mem_append.1 hdropped with hspace | hspace
      · exact List.mem_rtakeWhile_imp hspace
      · exact hback a hspace
  · intro hall a ha
    have hmem : a ∈ front := List.IsPrefix.mem ha (List.rdropWhile_prefix _ _)
    exact hall a (List.mem_append_left _ hmem)

/-- With white space and then something else behind it, a text is read further than
its own end. -/
theorem takeWhile_rdropWhile_ne (front : List α) {back : List α} {b : α}
    (hb : space b = true) (hback : ¬∀ a ∈ back, space a = true) :
    ((front ++ b :: back).rdropWhile space).takeWhile keep ≠
      front.rdropWhile space := by
  have hstays : back.rdropWhile space ≠ [] := by
    intro hnil
    exact hback (List.rdropWhile_eq_nil_iff.1 hnil)
  have htail : (b :: back).rdropWhile space = b :: back.rdropWhile space :=
    rdropWhile_append_of_ne hstays [b]
  have hfront : front ++ b :: back.rdropWhile space = front.rdropWhile space ++
      (front.rtakeWhile space ++ b :: back.rdropWhile space) := by
    rw [← List.append_assoc, List.rdropWhile_append_rtakeWhile]
  rw [rdropWhile_append_of_ne (by rw [htail]; simp), htail, hfront]
  -- the white space behind the trimmed text, or else the break, is read on
  cases hspaces : front.rtakeWhile space with
  | nil => exact takeWhile_append_cons_ne (hkeep b hb) _ _
  | cons c spaces =>
      have hmem : c ∈ front.rtakeWhile space := by simp [hspaces]
      have hc : space c = true := List.mem_rtakeWhile_imp hmem
      exact takeWhile_append_cons_ne (hkeep c hc) _ _

/-- What is read of a trimmed text, up to the first element not to keep, is its
first line exactly if all of the text is kept and it has no second line. -/
theorem takeWhile_trim_eq_iff {brk : α → Bool}
    (hsub : ∀ a, brk a = true → space a = true) {text : List α} :
    (trim space text).takeWhile keep = firstLine brk space text ↔
      (∀ a ∈ text, keep a = true) ∧ (cleanLines brk space text).length ≤ 1 := by
  unfold firstLine
  induction text with
  | nil => simp [trim, cleanLines, lines, blank]
  | cons a rest ih =>
      by_cases ha : space a = true
      · have htrim : trim space (a :: rest) = trim space rest := by
          rw [trim, trim, List.dropWhile_cons_of_pos ha]
        rw [htrim, cleanLines_cons_of_space ha, ih]
        simp [hkeep a ha]
      · obtain ⟨later, hlines, hlater⟩ := cleanLines_cons_of_not_space hsub ha rest
        have hsplit : a :: rest = (a :: rest.takeWhile (noBreak brk)) ++
            rest.dropWhile (noBreak brk) := by
          rw [List.cons_append, List.takeWhile_append_dropWhile]
        rw [hlines, trim, List.dropWhile_cons_of_neg ha, hsplit, List.headD_cons,
          List.length_cons]
        rcases hlater with ⟨b, tail, hdrop, hbrk, htail⟩ | ⟨hdrop, hnil⟩
        · have hb := hsub b hbrk
          rw [hdrop, htail]
          by_cases hblank : ∀ c ∈ tail, space c = true
          · have hback : ∀ c ∈ b :: tail, space c = true := by
              simpa [hb] using hblank
            rw [takeWhile_rdropWhile_eq_iff hkeep hback,
              (cleanLines_eq_nil_iff hsub).2 hblank]
            simp
          · have hmore : cleanLines brk space tail ≠ [] := by
              intro hnone
              exact hblank ((cleanLines_eq_nil_iff hsub).1 hnone)
            have hlen := List.length_pos_iff.2 hmore
            have hne := takeWhile_rdropWhile_ne hkeep
              (a :: rest.takeWhile (noBreak brk)) hb hblank
            constructor
            · intro heq
              exact absurd heq hne
            · intro hboth
              omega
        · rw [hdrop, hnil, takeWhile_rdropWhile_eq_iff hkeep (by simp)]
          simp

end Reading

end Lines

end BkkApi.Verified.Strings
