import BlockScript.Text.Lowercase
import BlockScript.Value.Basic

/-!
# Comparing values

The order of `<`, `=` and `>` converts differently from arithmetic: text that is blank is not zero
but stands outside the numbers.

* two numeric operands compare as numbers;
* a blank operand and a numeric one do not compare (`none`);
* every other pair compares as text without regard to case.
-/

namespace BlockScript.Value

/-- How a value takes part in a comparison. -/
inductive Operand
  | numeric (x : Float)
  | blank
  | text

/-- The part that a number takes: what is not a number compares as text. -/
def Operand.ofFloat (x : Float) : Operand :=
  if x.isNaN then .text else .numeric x

/-- The part that a value takes in a comparison. -/
def operand : Value → Operand
  | .number n => .ofFloat n
  | .boolean b => .numeric (ofBit b)
  | .text s => if Text.isBlank s then .blank else .ofFloat (Number.ofText s)

/-- The order of two numbers. -/
def compareFloat (x y : Float) : Ordering :=
  if x < y then .lt else if x == y then .eq else .gt

/-- The text by which a value compares. -/
def folded (v : Value) : String :=
  Text.lower v.toText

/-- The order of two texts, by code points. -/
def compareText (a b : String) : Ordering :=
  if a < b then .lt else if a = b then .eq else .gt

/-- The order of two values; `none` when they do not compare. -/
def compare (a b : Value) : Option Ordering :=
  match a.operand, b.operand with
  | .numeric x, .numeric y => some (compareFloat x y)
  | .blank, .numeric _ => none
  | .numeric _, .blank => none
  | _, _ => some (compareText a.folded b.folded)

/-- `a = b`. -/
def equals (a b : Value) : Bool := a.compare b == some .eq

/-- `a < b`. -/
def lessThan (a b : Value) : Bool := a.compare b == some .lt

/-- `a > b`. -/
def greaterThan (a b : Value) : Bool := a.compare b == some .gt

end BlockScript.Value
