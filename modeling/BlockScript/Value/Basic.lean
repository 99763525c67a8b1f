import BlockScript.Json.Basic
import BlockScript.Number.Literal

/-!
# Script values

Scripts are untyped: every place holds a number, a text or a truth value, and whoever reads it
converts. The conversions are total:

* `toNumber`: arithmetic; text that is no number, and what is not a number, counts as zero;
* `toBool`: conditions; only empty text, `0` and `false` are false;
* `toColor`: a 24-bit colour, from hexadecimal text or from the number;
* `toText`: what is shown.
-/

namespace BlockScript

/-- A script value. -/
inductive Value
  | number (n : Float)
  | text (s : String)
  | boolean (b : Bool)

namespace Value

/-- The empty text. -/
def empty : Value := .text ""

/-- A place that nothing was written to holds zero. -/
instance : Inhabited Value := ⟨.number 0.0⟩

/-- Whether two values are the same thing: same kind, and equal there, where what is not a number
    equals itself. -/
def same : Value → Value → Bool
  | .number a, .number b => Number.same a b
  | .text a, .text b => a == b
  | .boolean a, .boolean b => a == b
  | _, _ => false

/-- Whether the value is a number. -/
def isNumber : Value → Bool
  | .number _ => true
  | _ => false

/-! ## 1. Numbers -/

/-- A truth value as a number. -/
def ofBit (b : Bool) : Float := if b then 1.0 else 0.0

/-- The number that a value spells, which may be no number at all. -/
def rawNumber : Value → Float
  | .number n => n
  | .boolean b => ofBit b
  | .text s => Number.ofText s

/-- Zero in place of what is not a number. -/
def orZero (x : Float) : Float := if x.isNaN then 0.0 else x

/-- The value in arithmetic. -/
def toNumber (v : Value) : Float :=
  orZero v.rawNumber

/-! ## 2. Truth, text, colour -/

/-- The value as a condition. -/
def toBool : Value → Bool
  | .boolean b => b
  | .number n => n != 0.0 && !n.isNaN
  | .text s => !(s == "" || s == "0" || Text.eqIgnoringAsciiCase s "false")

/-- The value as it is shown. -/
def toText : Value → String
  | .number n => Number.toText n
  | .text s => s
  | .boolean b => if b then "true" else "false"

/-- A colour in hexadecimal text: six digits, or three that count double, after an optional
    number sign. -/
def hexColor? (s : String) : Option Nat :=
  let digits :=
    match s.toList with
    | '#' :: rest => rest
    | cs => cs
  if !digits.all (Number.isDigitIn 16) then none
  else if digits.length = 6 then some (Number.natOfDigits 16 digits)
  else if digits.length = 3 then
    some (Number.natOfDigits 16 (digits.flatMap fun c => [c, c]))
  else none

/-- The least integer of sixty-four bits. -/
def minInteger : Int := -(Nat.pow 2 63 : Nat)

/-- The greatest integer of sixty-four bits. -/
def maxInteger : Int := (Nat.pow 2 63 : Nat) - 1

/-- The colour of a number: the low 24 bits of its whole part. -/
def colorOfNumber (x : Float) : Nat :=
  if x.isFinite then (Number.truncWithin minInteger maxInteger x % (Nat.pow 2 24 : Nat)).toNat
  else 0

/-- The value as a 24-bit colour. -/
def toColor (v : Value) : Nat :=
  let fallback := colorOfNumber v.toNumber
  match v with
  | .text s => (hexColor? s).getD fallback
  | _ => fallback

/-! ## 3. From a project -/

/-- The value that a tree in a project stands for; a container stands for its text. -/
def ofJson : Json → Value
  | .number n => .number n.toFloat
  | .string s => .text s
  | .bool b => .boolean b
  | .null => empty
  | j => .text j.canonical.text

end Value

end BlockScript
