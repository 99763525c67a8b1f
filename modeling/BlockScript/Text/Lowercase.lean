import BlockScript.Text.Casing

/-!
# Lower case

Texts are compared without regard to case, so each has one lower-case form:

* a letter goes to its partner in `lowerRuns`; the dotted capital I becomes two characters;
* a capital sigma at the end of a word takes its final form (`sigmaFor`), and everywhere else the
  ordinary one. A word ends where, stepping over ignorable characters, no cased one follows.
-/

namespace BlockScript.Text

/-! ## 1. One character -/

/-- Whether the run holds the code point. -/
def LowerRun.covers (r : LowerRun) (code : Nat) : Bool :=
  r.first ≤ code && (code - r.first) % r.stride == 0 && (code - r.first) / r.stride < r.count

/-- The lower-case form of a character that stands alone. -/
def lowerChar (c : Char) : List Char :=
  if c.toNat < 0x80 then [c.toLower]
  else if c.toNat = 0x130 then ['i', Char.ofNat 0x307]
  else
    match lowerRuns.find? fun r => r.covers c.toNat with
    | some r => [Char.ofNat (Int.toNat (c.toNat + r.shift))]
    | none => [c]

/-! ## 2. The capital sigma -/

/-- Whether the first character that a word does not step over has a case. -/
def reachesCased (cs : List Char) : Bool :=
  match cs.dropWhile fun c => inRanges caseIgnorableRanges c.toNat with
  | [] => false
  | c :: _ => inRanges casedRanges c.toNat

/-- The lower-case sigma between the characters `before` (nearest first) and `after`. -/
def sigmaFor (before after : List Char) : Char :=
  if reachesCased before && !reachesCased after then 'ς' else 'σ'

/-! ## 3. A text -/

/-- The lower-case form of `cs`, given the characters before it, nearest first. -/
def lowerFrom (before : List Char) : List Char → List Char
  | [] => []
  | c :: after =>
    (if c = 'Σ' then [sigmaFor before after] else lowerChar c) ++ lowerFrom (c :: before) after

/-- The lower-case form of a text. -/
def lower (s : String) : String :=
  String.ofList (lowerFrom [] s.toList)

end BlockScript.Text
