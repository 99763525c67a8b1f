import BlockScript.Value.Basic

/-!
# Assets

Costumes and sounds are named, and counted from one. A number beyond the last wraps around; a text
means a name if there is one, and else the number that it spells.
-/

namespace BlockScript.Asset

/-- The position of an asset by its number, which wraps around. -/
def byNumber? (count : Nat) (n : Float) : Option Nat :=
  if count = 0 || !n.isFinite then none
  else
    let position := Number.remUp (Number.round n - 1.0) (Number.ofNat count)
    (Number.trunc? position).map Int.toNat

/-- The position of the asset with a name. -/
def byName? (names : List String) (name : String) : Option Nat :=
  names.findIdx? (· == name)

/-- The position of the asset whose number a text spells. -/
def bySpelling? (count : Nat) (text : String) : Option Nat :=
  let n := Number.ofText text
  if Text.isBlank text || n.isNaN then none else byNumber? count n

/-- The position of the asset that a value means. -/
def find? (names : List String) (v : Value) : Option Nat :=
  match v with
  | .number n => byNumber? names.length n
  | v =>
    match byName? names v.toText with
    | some i => some i
    | none => bySpelling? names.length v.toText

end BlockScript.Asset
