import Mathlib.Data.List.DropRight

/-!
# Blocks of memory, and lists collected in two passes

A block has a cell for every element it has room for, and nothing is in a cell
before something is written to it.  A write outside the block is undefined, and so
is a read outside it or of a cell with nothing in it: both give `none`.

Three ways to go over a list or a block come with their rules.

* `countPass` and `fillPass`: the elements that match are counted, a block of so
  many cells is taken, and a second pass writes the index of each match.
  `fillPass_fresh` is the rule: the second pass stays inside, fills the block, and
  leaves the indices in it.
* `skipForward` and `skipBack`: an index moves past the elements that match, from
  the front or from the back.  `skipForward_filled` and `skipBack_filled` are the
  rules: no read leaves the block, and what is left is `dropWhile` and
  `rdropWhile`.
* `rounds`: a loop with a counter, each round of which gives something or is
  undefined.  `rounds_eq_some_iff` is the rule: the loop is defined if its rounds
  are, and gives what they give, in order.
-/

namespace BkkApi.Verified.Buffer

variable {α : Type}

/-! ## Blocks -/

/-- The cells of a block. -/
abbrev Block (α : Type) := List (Option α)

/-- A block nothing has been written to. -/
def Block.fresh (size : Nat) : Block α := List.replicate size none

/-- Cells that hold these values. -/
def Block.filled (values : List α) : Block α := values.map some

/-- `block[i] = a`. -/
def Block.write (block : Block α) (i : Nat) (a : α) : Option (Block α) :=
  if i < block.length then some (block.set i (some a)) else none

/-- `block[i]`. -/
def Block.read (block : Block α) (i : Nat) : Option α := block[i]?.join

/-- `memcpy(block, source + start, count)`. -/
def Block.copy (block source : Block α) (start count : Nat) : Option (Block α) :=
  if count ≤ block.length ∧ start + count ≤ source.length then
    some ((source.drop start).take count ++ block.drop count)
  else none

/-- What is read from the front of a block up to an element that ends it. -/
def Block.readUntil (stop : α → Bool) : Block α → Option (List α)
  | [] => none
  | none :: _ => none
  | some a :: rest =>
      if stop a then some [] else (Block.readUntil stop rest).map (a :: ·)

@[simp] theorem Block.length_fresh (size : Nat) :
    (Block.fresh size : Block α).length = size := List.length_replicate

@[simp] theorem Block.length_filled (values : List α) :
    (Block.filled values).length = values.length := List.length_map _

/-- The cell behind those already filled is the next to be filled. -/
theorem Block.write_next (done : List α) (cell : Option α) (room : Block α)
    (a : α) : (Block.filled done ++ cell :: room).write done.length a =
      some (Block.filled (done ++ [a]) ++ room) := by
  have hin : done.length < (Block.filled done ++ cell :: room).length := by
    simp
  unfold Block.write
  rw [if_pos hin, List.set_append_right _ _ (by simp)]
  simp [Block.filled]

/-- Inside the filled cells a read gives the value. -/
theorem Block.read_filled {values : List α} {i : Nat} (hi : i < values.length)
    (room : Block α) : (Block.filled values ++ room).read i = some values[i] := by
  unfold Block.read Block.filled
  rw [List.getElem?_append_left (by simpa using hi), List.getElem?_map,
    List.getElem?_eq_getElem hi]
  rfl

/-- Filled cells can be copied to a fresh block with room for them. -/
theorem Block.copy_filled {values : List α} {start count : Nat}
    (h : start + count ≤ values.length) (room : Block α) (more : Nat) :
    (Block.fresh (count + more)).copy (Block.filled values ++ room) start count =
      some (Block.filled ((values.drop start).take count) ++ Block.fresh more) := by
  have hstart : start ≤ (values.map some).length := by
    rw [List.length_map]
    omega
  have hcount : count ≤ ((values.drop start).map some).length := by
    rw [List.length_map, List.length_drop]
    omega
  have hcells : ((Block.filled values ++ room).drop start).take count =
      Block.filled ((values.drop start).take count) := by
    unfold Block.filled
    rw [List.drop_append_of_le_length hstart, ← List.map_drop,
      List.take_append_of_le_length hcount, List.map_take]
  have hrest : (Block.fresh (count + more) : Block α).drop count =
      Block.fresh more := by
    unfold Block.fresh
    rw [List.drop_replicate, Nat.add_sub_cancel_left]
  unfold Block.copy
  rw [if_pos, hcells, hrest]
  rw [Block.length_fresh, List.length_append, Block.length_filled]
  omega

/-- A reading ends at the first element that ends it. -/
theorem Block.readUntil_filled {stop : α → Bool} {values : List α} {last : α}
    (hlast : stop last = true) (room : Block α) :
    (Block.filled (values ++ [last]) ++ room).readUntil stop =
      some (values.takeWhile fun a => !stop a) := by
  induction values with
  | nil =>
      show (if stop last = true then some [] else _) = _
      rw [if_pos hlast]
      rfl
  | cons a rest ih =>
      show (if stop a = true then some [] else
        (Block.readUntil stop (Block.filled (rest ++ [last]) ++ room)).map
          (a :: ·)) = _
      by_cases hstop : stop a = true
      · rw [if_pos hstop, List.takeWhile_cons_of_neg (by simp [hstop])]
      · rw [if_neg hstop, ih, List.takeWhile_cons_of_pos (by simp [hstop])]
        rfl

/-! ## Two passes -/

/-- The first pass: the matches in the rest of the list are added to `count`. -/
def countPass (p : α → Bool) : List α → Nat → Nat
  | [], count => count
  | item :: rest, count => countPass p rest (if p item then count + 1 else count)

/-- The second pass: from index `i` on, the index of each match goes to the cell
`idx`, and then to the one behind it.  The cells written and the block are left. -/
def fillPass (p : α → Bool) : List α → Nat → Nat → Block Nat →
    Option (Nat × Block Nat)
  | [], _, idx, block => some (idx, block)
  | item :: rest, i, idx, block =>
      if p item then
        match block.write idx i with
        | none => none
        | some block' => fillPass p rest (i + 1) (idx + 1) block'
      else fillPass p rest (i + 1) idx block

theorem countPass_eq (p : α → Bool) (items : List α) (count : Nat) :
    countPass p items count = count + items.countP p := by
  induction items generalizing count with
  | nil => rfl
  | cons item rest ih =>
      show countPass p rest (if p item then count + 1 else count) = _
      rw [ih]
      by_cases hp : p item = true
      · rw [if_pos hp, List.countP_cons_of_pos hp]
        omega
      · rw [if_neg hp, List.countP_cons_of_neg hp]

/-- What a pass does that has `done` behind it and room for the matches before
it. -/
theorem fillPass_eq (p : α → Bool) (items : List α) (i : Nat) (done : List Nat)
    (room : Block Nat) (h : items.countP p ≤ room.length) :
    fillPass p items i done.length (Block.filled done ++ room) =
      some (done.length + items.countP p,
        Block.filled (done ++ items.findIdxs p i) ++
          room.drop (items.countP p)) := by
  induction items generalizing i done room with
  | nil => simp [fillPass]
  | cons item rest ih =>
      by_cases hp : p item = true
      · rw [List.countP_cons_of_pos hp] at h ⊢
        cases room with
        | nil => simp at h
        | cons cell room =>
            have hroom : rest.countP p ≤ room.length := by
              simp only [List.length_cons] at h
              omega
            have hlater := ih (i + 1) (done ++ [i]) room hroom
            rw [List.length_append, List.length_singleton] at hlater
            rw [fillPass, if_pos hp, Block.write_next]
            show fillPass p rest (i + 1) (done.length + 1) _ = _
            rw [hlater, List.findIdxs_cons, if_pos hp, List.drop_succ_cons,
              List.append_assoc, List.singleton_append]
            have hcells : done.length + 1 + rest.countP p =
                done.length + (rest.countP p + 1) := by omega
            rw [hcells]
      · rw [List.countP_cons_of_neg hp] at h ⊢
        rw [fillPass, if_neg hp, ih (i + 1) done room h, List.findIdxs_cons,
          if_neg hp]

/-- A block of as many cells as the first pass has counted is filled by the second
one, with the indices of the matches. -/
theorem fillPass_fresh (p : α → Bool) (items : List α) :
    fillPass p items 0 0 (Block.fresh (countPass p items 0)) =
      some (items.countP p, Block.filled (items.findIdxs p)) := by
  have hcount : countPass p items 0 = items.countP p := by
    rw [countPass_eq, Nat.zero_add]
  have hpass := fillPass_eq p items 0 [] (Block.fresh (items.countP p)) (by simp)
  rw [hcount]
  simpa [Block.filled, Block.fresh] using hpass

/-! ## Scans from both ends -/

/-- `while(i < limit && p(block[i])) i++`. -/
def skipForward (p : α → Bool) (block : Block α) (limit i : Nat) : Option Nat :=
  if i < limit then
    match block.read i with
    | none => none
    | some a => if p a then skipForward p block limit (i + 1) else some i
  else some i
termination_by limit - i

/-- `while(i > limit && p(block[i - 1])) i--`. -/
def skipBack (p : α → Bool) (block : Block α) (limit : Nat) : Nat → Option Nat
  | 0 => some 0
  | i + 1 =>
      if limit < i + 1 then
        match block.read i with
        | none => none
        | some a => if p a then skipBack p block limit i else some (i + 1)
      else some (i + 1)

/-- The scan from the front stays among the filled cells, and drops what
matches. -/
theorem skipForward_filled (p : α → Bool) (values : List α) (room : Block α)
    (i : Nat) (hi : i ≤ values.length) :
    ∃ j, skipForward p (Block.filled values ++ room) values.length i = some j ∧
      j ≤ values.length ∧ values.drop j = (values.drop i).dropWhile p := by
  fun_induction skipForward p (Block.filled values ++ room) values.length i with
  | case1 i hlt hread =>
      rw [Block.read_filled hlt] at hread
      cases hread
  | case2 i hlt a hread hp ih =>
      rw [Block.read_filled hlt] at hread
      have ha : values[i] = a := Option.some.inj hread
      rw [List.drop_eq_getElem_cons hlt, ha, List.dropWhile_cons_of_pos hp]
      exact ih (by omega)
  | case3 i hlt a hread hp =>
      rw [Block.read_filled hlt] at hread
      have ha : values[i] = a := Option.some.inj hread
      have hstop : (values.drop i).dropWhile p = values.drop i := by
        rw [List.drop_eq_getElem_cons hlt, ha, List.dropWhile_cons_of_neg hp]
      exact ⟨i, rfl, hi, hstop.symm⟩
  | case4 i hlt =>
      have hnil : values.drop i = [] := List.drop_eq_nil_of_le (by omega)
      exact ⟨i, rfl, hi, by rw [hnil, List.dropWhile_nil]⟩

/-- The scan from the back stays among the filled cells too, and drops what matches
at the end. -/
theorem skipBack_filled (p : α → Bool) (values : List α) (room : Block α)
    (limit i : Nat) (hlimit : limit ≤ i) (hi : i ≤ values.length) :
    ∃ j, skipBack p (Block.filled values ++ room) limit i = some j ∧
      limit ≤ j ∧ j ≤ i ∧
      (values.take j).drop limit = ((values.take i).drop limit).rdropWhile p := by
  induction i with
  | zero =>
      have hzero : limit = 0 := by omega
      exact ⟨0, rfl, hlimit, Nat.le_refl 0, by simp⟩
  | succ i ih =>
      have hlt : i < values.length := by omega
      by_cases hmore : limit < i + 1
      · have hsplit : (values.take (i + 1)).drop limit =
            (values.take i).drop limit ++ [values[i]] := by
          rw [List.take_succ_eq_append_getElem hlt, List.drop_append_of_le_length]
          rw [List.length_take]
          omega
        rw [skipBack, if_pos hmore, Block.read_filled hlt, hsplit]
        dsimp only
        by_cases hp : p values[i] = true
        · rw [if_pos hp, List.rdropWhile_concat_pos _ _ _ hp]
          obtain ⟨j, hscan, hge, hle, hcut⟩ := ih (by omega) (by omega)
          exact ⟨j, hscan, hge, by omega, hcut⟩
        · rw [if_neg hp, List.rdropWhile_concat_neg _ _ _ hp]
          exact ⟨i + 1, rfl, hlimit, Nat.le_refl _, hsplit⟩
      · have hnil : (values.take (i + 1)).drop limit = [] :=
          List.drop_eq_nil_of_le (by rw [List.length_take]; omega)
        rw [skipBack, if_neg hmore]
        exact ⟨i + 1, rfl, hlimit, Nat.le_refl _, by rw [hnil, List.rdropWhile_nil]⟩

/-- Both scans over filled cells, the second one back to where the first one has
stopped. -/
theorem skip_filled (p : α → Bool) (values : List α) (room : Block α) :
    ∃ start stop,
      skipForward p (Block.filled values ++ room) values.length 0 = some start ∧
      skipBack p (Block.filled values ++ room) start values.length = some stop ∧
      start ≤ stop ∧ stop ≤ values.length ∧
      (values.drop start).take (stop - start) =
        (values.dropWhile p).rdropWhile p := by
  obtain ⟨start, hforward, hstart, hdrop⟩ :=
    skipForward_filled p values room 0 (Nat.zero_le _)
  obtain ⟨stop, hback, hge, hle, hcut⟩ :=
    skipBack_filled p values room start values.length hstart (Nat.le_refl _)
  refine ⟨start, stop, hforward, hback, hge, hle, ?_⟩
  rw [List.take_length, hdrop, List.drop_zero] at hcut
  rw [← List.drop_take]
  exact hcut

/-! ## Rounds of a loop -/

/-- `for(i = start; i < start + count; i++)`, with what the rounds give. -/
def rounds {β : Type} (body : Nat → Option (List β)) :
    Nat → Nat → Option (List β)
  | _, 0 => some []
  | start, count + 1 => do
      let first ← body start
      let rest ← rounds body (start + 1) count
      some (first ++ rest)

theorem rounds_eq_some_iff {β : Type} {body : Nat → Option (List β)}
    {start count : Nat} {out : List β} :
    rounds body start count = some out ↔
      (∀ i ∈ List.range' start count, (body i).isSome = true) ∧
        out = (List.range' start count).flatMap fun i => (body i).getD [] := by
  induction count generalizing start out with
  | zero =>
      show some [] = some out ↔ _
      rw [Option.some.injEq]
      constructor
      · intro h
        exact ⟨by simp, h.symm⟩
      · intro h
        exact h.2.symm
  | succ count ih =>
      rw [List.range'_succ, List.flatMap_cons, List.forall_mem_cons]
      show ((body start).bind fun first =>
        (rounds body (start + 1) count).bind fun rest => some (first ++ rest)) =
          some out ↔ _
      cases body start with
      | none => simp
      | some first =>
          simp only [Option.bind_some, Option.isSome_some, true_and,
            Option.getD_some, Option.bind_eq_some_iff, ih, Option.some.injEq]
          constructor
          · intro h
            obtain ⟨rest, ⟨hall, hrest⟩, hout⟩ := h
            exact ⟨hall, by rw [← hout, hrest]⟩
          · intro h
            exact ⟨_, ⟨h.1, rfl⟩, h.2.symm⟩

theorem rounds_isSome_iff {β : Type} {body : Nat → Option (List β)}
    {start count : Nat} : (rounds body start count).isSome = true ↔
      ∀ i ∈ List.range' start count, (body i).isSome = true := by
  rw [Option.isSome_iff_exists]
  simp only [rounds_eq_some_iff]
  exact ⟨fun h => h.elim fun _ h => h.1, fun h => ⟨_, h, rfl⟩⟩

/-- Where every round of a loop over a list picks one thing for its element, the
loop picks those of the list. -/
theorem filterMap_rounds {β γ δ : Type} {body : Nat → Option (List β)}
    {pick : β → Option δ} {g : γ → δ} {items : List γ} {start : Nat}
    {out : List β}
    (hbody : ∀ i item given, items[i]? = some item →
      body (start + i) = some given → given.filterMap pick = [g item])
    (h : rounds body start items.length = some out) :
    out.filterMap pick = items.map g := by
  induction items generalizing start out with
  | nil =>
      cases h
      rfl
  | cons item rest ih =>
      obtain ⟨first, hfirst, h⟩ := Option.bind_eq_some_iff.1 h
      obtain ⟨later, hlater, h⟩ := Option.bind_eq_some_iff.1 h
      cases h
      have hhead := hbody 0 item first rfl hfirst
      have htail : later.filterMap pick = rest.map g := by
        refine ih (fun i next given hnext hgiven => ?_) hlater
        refine hbody (i + 1) next given hnext ?_
        rw [← hgiven]
        congr 1
        omega
      rw [List.filterMap_append, hhead, htail]
      rfl

end BkkApi.Verified.Buffer
