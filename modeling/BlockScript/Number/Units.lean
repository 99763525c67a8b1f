/-!
# Doubles as whole numbers of units

Every finite double is a whole multiple of the smallest positive one, `2^-1074`. Counting in that
unit turns exact questions about doubles into arithmetic on natural numbers:

* `view` reads a double as its sign and its number of units;
* `nearest` is the double closest to a ratio of natural numbers, a tie going to the even mantissa;
* `floor`, `ceil`, `round`, `trunc` and `rem` are exact and stated on units.
-/

namespace BlockScript.Number

/-! ## 1. Reading the bits -/

/-- What a double stands for. -/
inductive View
  /-- Not a number. -/
  | nan
  /-- An infinity. -/
  | infinite (negative : Bool)
  /-- A sign and a number of units of `2^-1074`. -/
  | finite (negative : Bool) (units : Nat)
  deriving Repr, DecidableEq

/-- The number of units in one. -/
def one : Nat := Nat.pow 2 1074

/-- The units of the finite magnitude with these bits: below the first binade the bits are the
    count themselves, above it the exponent field shifts the full mantissa. -/
def unitsOfBits (bits : Nat) : Nat :=
  let field := bits / Nat.pow 2 52
  let fraction := bits % Nat.pow 2 52
  if field = 0 then fraction else (fraction + Nat.pow 2 52) * Nat.pow 2 (field - 1)

/-- The sign and the number of units of a double. -/
def view (x : Float) : View :=
  let bits := x.toBits.toNat
  let negative : Bool := Nat.pow 2 63 ≤ bits
  let magnitude := bits % Nat.pow 2 63
  if magnitude < 2047 * Nat.pow 2 52 then .finite negative (unitsOfBits magnitude)
  else if magnitude = 2047 * Nat.pow 2 52 then .infinite negative
  else .nan

/-- Whether the sign bit is set. -/
def isNegative (x : Float) : Bool :=
  Nat.pow 2 63 ≤ x.toBits.toNat

/-! ## 2. Rounding a ratio -/

/-- The quotient rounded to the nearest whole number, a tie to the even one. -/
def divRound (num den : Nat) : Nat :=
  let q := num / den
  let r := num % den
  if den < 2 * r || (2 * r = den && q % 2 = 1) then q + 1 else q

/-- The bits of the magnitude nearest to `num / den` (with `den` positive). The quotient in units is
    cut to 53 binary digits; the carry of a rounding up moves into the exponent field by itself. -/
def bitsOfRatio (num den : Nat) : Nat :=
  let scaled := num * one
  let shift := (scaled / den).log2 - 52
  min (shift * Nat.pow 2 52 + divRound scaled (den * Nat.pow 2 shift)) (2047 * Nat.pow 2 52)

/-- The double nearest to `num / den`, infinite when the ratio is out of range. -/
def nearest (num den : Nat) : Float :=
  Float.ofBits (UInt64.ofNat (bitsOfRatio num den))

/-- The double nearest to a natural number. -/
def ofNat (n : Nat) : Float :=
  nearest n 1

/-- The double nearest to an integer. -/
def ofInt : Int → Float
  | .ofNat n => ofNat n
  | .negSucc n => -ofNat (n + 1)

/-- `x` with the given sign in place of its own, for an `x` that is not negative. -/
def signed (negative : Bool) (x : Float) : Float :=
  if negative then -x else x

/-! ## 3. Whole numbers -/

/-- Rounds to a whole number by a rule that sees the sign, the whole part and the rest (in units).
    A double that is whole already, infinite or not a number stays as it is. -/
def wholeBy (up : Bool → Nat → Nat → Bool) (x : Float) : Float :=
  match view x with
  | .finite negative units =>
    let q := units / one
    let r := units % one
    if r = 0 then x else signed negative (ofNat (if up negative q r then q + 1 else q))
  | _ => x

/-- The greatest whole number that is not above `x`. -/
def floor : Float → Float :=
  wholeBy fun negative _ _ => negative

/-- The least whole number that is not below `x`. -/
def ceil : Float → Float :=
  wholeBy fun negative _ _ => !negative

/-- The nearest whole number, a half going away from zero. -/
def round : Float → Float :=
  wholeBy fun _ _ r => one ≤ 2 * r

/-- Whether a finite double is whole. -/
def isWhole (x : Float) : Bool :=
  match view x with
  | .finite _ units => units % one = 0
  | _ => false

/-- The integer left when the fraction is dropped, for a finite double. -/
def trunc? (x : Float) : Option Int :=
  match view x with
  | .finite negative units =>
    let q : Int := units / one
    some (if negative then -q else q)
  | _ => none

/-- The greatest integer that is not above a finite double. -/
def floor? (x : Float) : Option Int :=
  match view x with
  | .finite negative units =>
    let q : Int := units / one
    some (if negative then (if units % one = 0 then -q else -q - 1) else q)
  | _ => none

/-- The integer left when the fraction is dropped, held between two bounds. An infinity goes to the
    bound on its side, and what is not a number to zero. -/
def truncWithin (low high : Int) (x : Float) : Int :=
  match view x with
  | .nan => 0
  | .infinite negative => if negative then low else high
  | .finite negative units =>
    let q : Int := units / one
    max low (min high (if negative then -q else q))

/-! ## 4. Remainders and ranges -/

/-- The remainder of the division that drops the fraction; it has the sign of `x`, and is exact. -/
def rem (x y : Float) : Float :=
  match view x, view y with
  | .finite negative a, .finite _ b =>
    if b = 0 then 0.0 / 0.0 else signed negative (nearest (a % b) one)
  | .finite _ _, .infinite _ => x
  | _, _ => 0.0 / 0.0

/-- The remainder that is never below zero. -/
def remUp (x y : Float) : Float :=
  let r := rem x y
  if r < 0 then r + y.abs else r

/-- The nearest point of the interval; what is not a number stays as it is. -/
def clamp (low high x : Float) : Float :=
  let x := if x < low then low else x
  if high < x then high else x

/-- Equality that also holds between two numbers that are not numbers. -/
def same (x y : Float) : Bool :=
  x == y || (x.isNaN && y.isNaN)

end BlockScript.Number
