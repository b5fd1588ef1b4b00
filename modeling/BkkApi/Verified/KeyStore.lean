import Mathlib.Data.List.AList

/-!
# Key-value stores that drop entries by their value

A `Store` is Mathlib's association list with one entry a key.  `retain` is the
sweep of such a store: it erases exactly the entries whose value fails a test,
and acts on every key separately (`lookup_retain`).  `restrict` is the same with a
test of the key too, as a sweep leaves it half way; erasing a key is one more such
test (`kerase_eq_filter`, `erase_restrict`).
-/

namespace BkkApi.Verified.KeyStore

/-- A finite map with one value a key. -/
abbrev Store (Key Value : Type) := AList fun _ : Key => Value

variable {Key Value : Type}

/-- The number of keys. -/
def size (s : Store Key Value) : Nat := s.entries.length

/-- Erase every entry whose value fails the test. -/
def retain (keep : Value → Bool) (s : Store Key Value) : Store Key Value where
  entries := s.entries.filter fun e => keep e.2
  nodupKeys := s.nodupKeys.sublist List.filter_sublist

variable [DecidableEq Key]

/-- A sweep keeps the entry of a key or erases it, whatever the other keys
hold. -/
@[simp] theorem lookup_retain (keep : Value → Bool) (s : Store Key Value)
    (k : Key) : (retain keep s).lookup k = (s.lookup k).filter keep := by
  obtain ⟨entries, hnodup⟩ := s
  simp only [retain, AList.lookup]
  induction entries with
  | nil => rfl
  | cons e entries ih =>
      obtain ⟨hfresh, htail⟩ := List.nodupKeys_cons.1 hnodup
      by_cases hk : k = e.1
      · subst hk
        have hnone : (entries.filter fun e => keep e.2).dlookup e.1 = none := by
          rw [List.dlookup_eq_none]
          intro hmem
          exact hfresh (List.Sublist.subset (List.filter_sublist.map _) hmem)
        by_cases hv : keep e.2
        · rw [List.filter_cons_of_pos (by simpa using hv), List.dlookup_cons_eq,
            List.dlookup_cons_eq, Option.filter_some, if_pos hv]
        · rw [List.filter_cons_of_neg (by simpa using hv), List.dlookup_cons_eq,
            Option.filter_some, if_neg hv, hnone]
      · rw [List.dlookup_cons_ne entries e hk, ← ih htail]
        by_cases hv : keep e.2
        · rw [List.filter_cons_of_pos (by simpa using hv),
            List.dlookup_cons_ne _ e hk]
        · rw [List.filter_cons_of_neg (by simpa using hv)]

/-! ## Erasing key by key -/

/-- Erase every entry that fails a test of key and value. -/
def restrict (keep : Key → Value → Bool) (s : Store Key Value) :
    Store Key Value where
  entries := s.entries.filter fun e => keep e.1 e.2
  nodupKeys := s.nodupKeys.sublist List.filter_sublist

theorem kerase_eq_filter (k : Key) :
    ∀ entries : List (Sigma fun _ : Key => Value), entries.NodupKeys →
      entries.kerase k = entries.filter fun e => decide (e.1 ≠ k) := by
  intro entries
  induction entries with
  | nil => intro _; rfl
  | cons e entries ih =>
      intro hnodup
      obtain ⟨hfresh, htail⟩ := List.nodupKeys_cons.1 hnodup
      by_cases hk : k = e.1
      · subst hk
        rw [List.kerase_cons_eq rfl, List.filter_cons_of_neg (by simp)]
        refine (List.filter_eq_self.2 fun e' he => ?_).symm
        have hne : e'.1 ≠ e.1 := fun h0 =>
          hfresh (h0 ▸ List.mem_keys_of_mem he)
        exact decide_eq_true hne
      · rw [List.kerase_cons_ne hk, ih htail,
          List.filter_cons_of_pos (by simpa using Ne.symm hk)]

/-- Erasing a key is one more test. -/
theorem erase_restrict (keep : Key → Value → Bool) (s : Store Key Value)
    (k : Key) :
    (restrict keep s).erase k =
      restrict (fun k' v => decide (k' ≠ k) && keep k' v) s := by
  apply AList.ext
  have hfilter := kerase_eq_filter k _ (restrict keep s).nodupKeys
  exact hfilter.trans List.filter_filter

/-- Tests that agree on what is stored keep the same. -/
theorem restrict_congr {keep keep' : Key → Value → Bool} {s : Store Key Value}
    (h : ∀ k v, s.lookup k = some v → keep k v = keep' k v) :
    restrict keep s = restrict keep' s := by
  apply AList.ext
  refine List.filter_congr fun e he => h e.1 e.2 ?_
  exact AList.mem_lookup_iff.2 he

theorem restrict_eq_self {keep : Key → Value → Bool} {s : Store Key Value}
    (h : ∀ k v, s.lookup k = some v → keep k v = true) : restrict keep s = s := by
  apply AList.ext
  refine List.filter_eq_self.2 fun e he => h e.1 e.2 ?_
  exact AList.mem_lookup_iff.2 he

/-- A key that passes with any value is found as before. -/
theorem lookup_restrict_of_keep {keep : Key → Value → Bool}
    {s : Store Key Value} {k : Key} (h : ∀ v, keep k v = true) :
    (restrict keep s).lookup k = s.lookup k := by
  refine Option.ext fun v => ?_
  show v ∈ (restrict keep s).lookup k ↔ v ∈ s.lookup k
  rw [AList.mem_lookup_iff, AList.mem_lookup_iff]
  show _ ∈ s.entries.filter _ ↔ _
  rw [List.mem_filter]
  exact and_iff_left (h v)

end BkkApi.Verified.KeyStore
