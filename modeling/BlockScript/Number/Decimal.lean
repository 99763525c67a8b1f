import BlockScript.Number.Units

/-!
# Decimals

A decimal is a natural number times a power of ten.

* `Decimal.read`: the double nearest to a decimal;
* `shortest`: the fewest digits that read back as a given double;
* `Layout`: where a format puts the point, and when it turns to an exponent.
-/

namespace BlockScript.Number

/-! ## 1. Reading -/

/-- The number `digits · 10 ^ exponent`. -/
structure Decimal where
  digits : Nat
  exponent : Int
  deriving Repr, DecidableEq

/-- How many decimal digits a natural number has. -/
def digitCount (n : Nat) : Nat :=
  (Nat.toDigits 10 n).length

/-- The double nearest to the decimal. Ten lies between the third and the fourth power of two, so
    the number of binary digits alone tells most decimals beyond the `1100`th power of two, on
    either side of one. These are out of range, and the power of ten is not formed for them. -/
def Decimal.read (d : Decimal) : Float :=
  let binary : Int := d.digits.log2
  let atLeast := binary + min (3 * d.exponent) (4 * d.exponent)
  let below := binary + 1 + max (3 * d.exponent) (4 * d.exponent)
  if d.digits = 0 ∨ below < -1100 then 0.0
  else if 1100 < atLeast then 1.0 / 0.0
  else if 0 ≤ d.exponent then nearest (d.digits * Nat.pow 10 d.exponent.toNat) 1
  else nearest d.digits (Nat.pow 10 (-d.exponent).toNat)

/-! ## 2. The fewest digits -/

/-- The place of the first digit of a positive number of units: it is below `10 ^ place`, and not
    below a tenth of that. -/
def place (units : Nat) : Int :=
  if one ≤ units then digitCount (units / one)
  else -((List.range 400).findIdx fun j => one ≤ units * Nat.pow 10 (j + 1))

/-- Which of two decimals is taken when a number lies in the middle between them. -/
inductive Tie
  /-- The greater one. -/
  | up
  /-- The one whose last digit is even. -/
  | even
  deriving DecidableEq, Repr

/-- Whether a number in the middle goes to the smaller decimal, which has these digits. -/
def Tie.goesDown (tie : Tie) (digits : Nat) : Bool :=
  match tie with
  | .up => false
  | .even => digits % 2 = 0

/-- The two decimals with the given exponent around a number of units, the nearer one first. -/
def neighbours (tie : Tie) (units : Nat) (exponent : Int) : List Decimal :=
  let num := if 0 ≤ exponent then units else units * Nat.pow 10 (-exponent).toNat
  let den := if 0 ≤ exponent then one * Nat.pow 10 exponent.toNat else one
  let below : Decimal := ⟨num / den, exponent⟩
  let above : Decimal := ⟨num / den + 1, exponent⟩
  let twice := 2 * (num % den)
  if twice < den || (twice = den && tie.goesDown below.digits) then [below, above]
  else [above, below]

/-- All digits of a number of units. -/
def exact (units : Nat) : Decimal :=
  ⟨units * Nat.pow 5 1074, -1074⟩

/-- The decimal with the fewest digits that reads back as the double, the nearer one where two
    do, and of two that are as near the one that the tie takes; should seventeen digits not be
    enough, all of them. -/
def shortest (tie : Tie) (units : Nat) (x : Float) : Decimal :=
  let first := place units
  let hit := (List.range 17).findSome? fun n =>
    (neighbours tie units (first - Int.ofNat (n + 1))).find? fun d => d.read.toBits == x.toBits
  hit.getD (exact units)

/-- The digits of a decimal without the zeros at the end, and the place of the first of them. -/
def Decimal.significant (d : Decimal) : List Char × Int :=
  let digits := Nat.toDigits 10 d.digits
  ((digits.reverse.dropWhile (· == '0')).reverse, d.exponent + digits.length)

/-! ## 3. Layout -/

/-- How a format writes numbers. -/
structure Layout where
  /-- Which of two shortest decimals is taken when both are as near. -/
  tie : Tie
  /-- The first places for which the digits are written around a point. -/
  positional : Int → Bool
  /-- Whether a whole number keeps a point and a zero. -/
  pointZero : Bool
  /-- What stands before an exponent that is not negative. -/
  plus : String
  /-- The texts of what is not a number, of the infinity and of both zeros. -/
  nan : String
  infinity : String
  zero : String
  negativeZero : String

/-- The digits around a point, the first digit at `place`. -/
def positionalText (pointZero : Bool) (digits : List Char) (place : Int) : List Char :=
  if place ≤ 0 then '0' :: '.' :: (List.replicate (-place).toNat '0' ++ digits)
  else if place < digits.length then digits.take place.toNat ++ '.' :: digits.drop place.toNat
  else
    digits ++ List.replicate (place.toNat - digits.length) '0' ++
      (if pointZero then ['.', '0'] else [])

/-- The digits with the point after the first one, and an exponent. -/
def exponentText (plus : String) (digits : List Char) (place : Int) : List Char :=
  let mantissa :=
    match digits with
    | [] => []
    | [d] => [d]
    | d :: ds => d :: '.' :: ds
  let power := place - 1
  mantissa ++ 'e' ::
    (if power < 0 then '-' :: Nat.toDigits 10 (-power).toNat
     else plus.toList ++ Nat.toDigits 10 power.toNat)

/-- The text of a double under a layout. -/
def Layout.text (l : Layout) (x : Float) : String :=
  match view x with
  | .nan => l.nan
  | .infinite negative => (if negative then "-" else "") ++ l.infinity
  | .finite negative units =>
    if units = 0 then (if negative then l.negativeZero else l.zero)
    else
      let (digits, place) := (shortest l.tie units (signed negative x)).significant
      let body :=
        if l.positional place then positionalText l.pointZero digits place
        else exponentText l.plus digits place
      String.ofList (if negative then '-' :: body else body)

/-- Numbers as scripts show them: never an exponent, and one zero. -/
def plain : Layout where
  tie := .up
  positional _ := true
  pointZero := false
  plus := ""
  nan := "NaN"
  infinity := "Infinity"
  zero := "0"
  negativeZero := "0"

/-- Numbers as a double is shown where its sign matters: like `plain`, with two zeros. -/
def signedPlain : Layout :=
  { plain with negativeZero := "-0" }

/-- Numbers inside a listed operation: a point or an exponent always shows. -/
def listed : Layout where
  tie := .up
  positional place := -3 ≤ place && place ≤ 16
  pointZero := true
  plus := ""
  nan := "NaN"
  infinity := "inf"
  zero := "0.0"
  negativeZero := "-0.0"

end BlockScript.Number
