import BlockScript.Json.Reader

/-!
# Reading records from trees

A record is written as an object, or as an array of its fields in order with the last ones left
out. A field of an object may stand once; unknown members are passed over, unless the record is
strict. What stands in a field must have the kind of the field: no text for a number, no fraction
for a whole number, and `null` only where a field may be missing.
-/

namespace BlockScript.Json

/-! ## 1. Fields -/

/-- How often a name occurs among the members. -/
def occurrences (name : String) (members : List (String × Json)) : Nat :=
  members.countP fun m => m.1 == name

/-- The trees in the given fields, in their order; `none` where a field is missing. -/
def record? (strict : Bool) (fields : List String) : Json → Option (List (Option Json))
  | .object members =>
    if fields.any fun f => 1 < occurrences f members then none
    else if strict && members.any fun m => !fields.contains m.1 then none
    else some (fields.map fun f => members.lookup f)
  | .array items =>
    if fields.length < items.length then none
    else some (items.map some ++ List.replicate (fields.length - items.length) none)
  | _ => none

/-- A field that must be there. -/
def required {α : Type} (read : Json → Option α) (field : Option Json) : Option α :=
  field.bind read

/-- A field that takes a default when it is missing. -/
def defaulted {α : Type} (d : α) (read : Json → Option α) : Option Json → Option α
  | some j => read j
  | none => some d

/-- A field that may be missing or `null`. -/
def optional {α : Type} (read : Json → Option α) : Option Json → Option (Option α)
  | none => some none
  | some .null => some none
  | some j => (read j).map some

/-! ## 2. Kinds -/

/-- A truth value. -/
def bool? : Json → Option Bool
  | .bool b => some b
  | _ => none

/-- A text. -/
def string? : Json → Option String
  | .string s => some s
  | _ => none

/-- A whole number from zero to a limit. -/
def nat? (limit : Nat) : Json → Option Nat
  | .number (.whole n) => if n ≤ limit then some n else none
  | _ => none

/-- Any number, as a double. -/
def float? : Json → Option Float
  | .number n => some n.toFloat
  | _ => none

/-- The items of an array. -/
def items? : Json → Option (List Json)
  | .array items => some items
  | _ => none

/-- An array of things of one kind. -/
def listOf? {α : Type} (read : Json → Option α) (j : Json) : Option (List α) :=
  j.items?.bind fun items => items.mapM read

/-- An object as a table of things of one kind. -/
def tableOf? {α : Type} (read : Json → Option α) : Json → Option (Table α)
  | .object members =>
    (members.mapM fun m => (read m.2).map fun a => (m.1, a)).map Table.ofEntries
  | _ => none

end BlockScript.Json
