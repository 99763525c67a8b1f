/-!
# Tables of code points

A character property is a list of runs of code points. The tables below this folder are such lists;
membership is the only question asked of them.
-/

namespace BlockScript.Text

/-- A run of code points, `(first, length)`. -/
abbrev Range := Nat × Nat

/-- Whether the code point lies in one of the runs. -/
def inRanges (table : List Range) (code : Nat) : Bool :=
  table.any fun r => r.1 ≤ code && code < r.1 + r.2

end BlockScript.Text
