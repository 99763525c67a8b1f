import BlockScript.Number.Decimal
import BlockScript.Text.Blank

/-!
# Numbers in text

What a text is worth as a number, after trimming:

* nothing at all is zero;
* `0x`, `0b` and `0o` (either case) start a whole number below `2^64` in that base, with an
  optional plus sign before its digits;
* `Infinity`, with or without a sign, is infinite;
* a decimal literal is a sign, digits around an optional point, and an optional exponent;
* everything else is not a number.
-/

namespace BlockScript.Number

/-! ## 1. Digits -/

/-- The value of a character as a digit, in any base up to sixteen. -/
def digitValue? (c : Char) : Option Nat :=
  if '0' ≤ c ∧ c ≤ '9' then some (c.toNat - '0'.toNat)
  else if 'a' ≤ c ∧ c ≤ 'f' then some (c.toNat - 'a'.toNat + 10)
  else if 'A' ≤ c ∧ c ≤ 'F' then some (c.toNat - 'A'.toNat + 10)
  else none

/-- Whether the character is a digit of the base. -/
def isDigitIn (base : Nat) (c : Char) : Bool :=
  match digitValue? c with
  | some d => d < base
  | none => false

/-- A number with one more digit at its end. -/
def withDigit (base n : Nat) (c : Char) : Nat :=
  n * base + (digitValue? c).getD 0

/-- The number that a row of digits spells in the base, one digit after the other. -/
def foldDigits (base : Nat) (cs : List Char) : Nat :=
  cs.foldl (withDigit base) 0

/-- The same number, for a long row from its two halves. A row is halved at most so many times. -/
def halveDigits (base : Nat) : Nat → List Char → Nat
  | 0, cs => foldDigits base cs
  | times + 1, cs =>
    if cs.length ≤ 64 then foldDigits base cs
    else
      let half := cs.length / 2
      let low := cs.drop half
      halveDigits base times (cs.take half) * Nat.pow base low.length + halveDigits base times low

/-- The number that a row of digits spells in the base. -/
def natOfDigits (base : Nat) (cs : List Char) : Nat :=
  halveDigits base 32 cs

theorem foldl_withDigit (base n : Nat) (cs : List Char) :
    cs.foldl (withDigit base) n = n * Nat.pow base cs.length + foldDigits base cs := by
  induction cs generalizing n with
  | nil => simp [foldDigits]
  | cons c cs ih =>
    have first : foldDigits base (c :: cs) = cs.foldl (withDigit base) (withDigit base 0 c) := rfl
    rw [first, List.foldl_cons, ih, ih (withDigit base 0 c), List.length_cons]
    have power : Nat.pow base (cs.length + 1) = base * Nat.pow base cs.length := by
      rw [Nat.mul_comm]
      rfl
    rw [power, withDigit, withDigit, Nat.zero_mul, Nat.zero_add, Nat.add_mul, Nat.mul_assoc,
      Nat.add_assoc]

/-- Digits after digits: the first ones move up by as many places as the last ones are. -/
theorem foldDigits_append (base : Nat) (cs ds : List Char) :
    foldDigits base (cs ++ ds) =
      foldDigits base cs * Nat.pow base ds.length + foldDigits base ds := by
  rw [← foldl_withDigit, foldDigits, List.foldl_append]
  rfl

theorem halveDigits_eq (base times : Nat) (cs : List Char) :
    halveDigits base times cs = foldDigits base cs := by
  induction times generalizing cs with
  | zero => rfl
  | succ times ih =>
    unfold halveDigits
    simp only
    split
    · rfl
    · rw [ih, ih, ← foldDigits_append, List.take_append_drop]

/-- **Halving changes nothing**: a row of digits is read one digit after the other. -/
theorem natOfDigits_eq (base : Nat) (cs : List Char) : natOfDigits base cs = foldDigits base cs :=
  halveDigits_eq base 32 cs

/-- A decimal digit. -/
def isDecimalDigit (c : Char) : Bool :=
  isDigitIn 10 c

/-- A whole number without a sign, at most `limit`: an optional plus sign and one or more digits of
    the base. -/
def natural? (base limit : Nat) (cs : List Char) : Option Nat :=
  let digits :=
    match cs with
    | '+' :: rest => rest
    | _ => cs
  if digits.isEmpty || !digits.all (isDigitIn base) then none
  else
    let n := natOfDigits base digits
    if n ≤ limit then some n else none

/-- The greatest number of sixty-four bits. -/
def maxWord : Nat := Nat.pow 2 64 - 1

/-! ## 2. Decimal literals -/

/-- A sign at the front, and the rest. -/
def splitSign : List Char → Bool × List Char
  | '-' :: rest => (true, rest)
  | '+' :: rest => (false, rest)
  | cs => (false, cs)

/-- The exponent part of a literal: nothing, or a mark, an optional sign and one or more digits,
    which are worth what `worth` says. -/
def exponent? (worth : List Char → Nat) : List Char → Option Int
  | [] => some 0
  | mark :: rest =>
    if mark = 'e' ∨ mark = 'E' then
      let (negative, digits) := splitSign rest
      if digits.isEmpty || !digits.all isDecimalDigit then none
      else
        let n : Int := worth digits
        some (if negative then -n else n)
    else none

/-- An exponent that has come this far takes no more digits. -/
def exponentLimit : Nat := Nat.pow 2 16

/-- The number that the digits of an exponent spell; those after the limit is reached do not
    count. Only next to tens of thousands of other digits does this make a difference. -/
def limitedExponent (cs : List Char) : Nat :=
  cs.foldl (fun n c => if n < exponentLimit then withDigit 10 n c else n) 0

/-- An unsigned decimal literal. -/
def unsigned? (cs : List Char) : Option Decimal :=
  let whole := cs.takeWhile isDecimalDigit
  let rest := cs.dropWhile isDecimalDigit
  let (fraction, rest) :=
    match rest with
    | '.' :: after => (after.takeWhile isDecimalDigit, after.dropWhile isDecimalDigit)
    | _ => ([], rest)
  if whole.isEmpty && fraction.isEmpty then none
  else
    (exponent? limitedExponent rest).map fun e =>
      ⟨natOfDigits 10 (whole ++ fraction), e - fraction.length⟩

/-- A decimal literal with its sign. -/
def literal? (cs : List Char) : Option (Bool × Decimal) :=
  let (negative, rest) := splitSign cs
  (unsigned? rest).map fun d => (negative, d)

/-! ## 3. The value of a text -/

/-- What is not a number. -/
def nan : Float := 0.0 / 0.0

/-- The infinity. -/
def infinity : Float := 1.0 / 0.0

/-- The base that a mark after a leading zero names. -/
def baseOfMark? (c : Char) : Option Nat :=
  if c = 'x' ∨ c = 'X' then some 16
  else if c = 'b' ∨ c = 'B' then some 2
  else if c = 'o' ∨ c = 'O' then some 8
  else none

/-- A decimal literal or an infinite word. -/
def readPlain (cs : List Char) : Float :=
  if cs = "Infinity".toList ∨ cs = "+Infinity".toList then infinity
  else if cs = "-Infinity".toList then -infinity
  else
    match literal? cs with
    | some (negative, d) => signed negative d.read
    | none => nan

/-- The value of trimmed text. -/
def readTrimmed : List Char → Float
  | [] => 0.0
  | '0' :: mark :: rest =>
    match baseOfMark? mark with
    | some base =>
      match natural? base maxWord rest with
      | some n => ofNat n
      | none => nan
    | none => readPlain ('0' :: mark :: rest)
  | cs => readPlain cs

/-- The value of a text as a number. -/
def ofText (s : String) : Float :=
  readTrimmed (Text.trimChars s.toList)

/-- The text of a number, as scripts show it. -/
def toText (x : Float) : String :=
  plain.text x

end BlockScript.Number
