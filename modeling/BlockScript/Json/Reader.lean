import BlockScript.Json.Basic
import BlockScript.Number.Literal

/-!
# Reading JSON text

Strict JSON: no comments, no commas before a closing bracket, no control characters inside
strings and no leading zeros. A string with half of a surrogate pair and a number beyond the range
of doubles have the form of JSON but no value; they become `Json.broken`.

* `Token.scan` cuts a text into tokens, one character at a time;
* `Reading.step` takes one token further through the grammar, on a stack of open containers;
* `Json.read?` is the two together.
-/

namespace BlockScript.Json

open BlockScript.Number (isDecimalDigit natOfDigits splitSign maxWord)

/-! ## 1. Numbers -/

/-- Multiplies or divides by a power of ten in steps that a double can hold, rounding each time.
    Three steps are enough: by then what is left is zero. `none` when the result is out of range. -/
def scale (steps : Nat) (x : Float) (exponent : Int) : Option Float :=
  let power (k : Nat) : Float := BlockScript.Number.ofNat (Nat.pow 10 k)
  if exponent.natAbs ≤ 308 then
    if 0 ≤ exponent then
      let y := x * power exponent.toNat
      if y.isInf then none else some y
    else some (x / power exponent.natAbs)
  else if x == 0 then some x
  else if 0 ≤ exponent then none
  else
    match steps with
    | 0 => some 0.0
    | n + 1 => scale n (x / power 308) (exponent + 308)

/-- Adds digits to a number as long as it stays a word; the rest of the digits comes back. -/
def gather (significand : Nat) : List Char → Nat × List Char
  | [] => (significand, [])
  | c :: cs =>
    let next := significand * 10 + (BlockScript.Number.digitValue? c).getD 0
    if maxWord < next then (significand, c :: cs) else gather next cs

/-- The double with these digits before and after the point, times a power of ten. The digits that
    do not fit a word count as zeros before the point, and are dropped after it. -/
def double? (negative : Bool) (whole fraction : List Char) (exponent : Int) : Option Float :=
  let (significand, skipped) := gather 0 whole
  let (significand, dropped) := gather significand fraction
  let used : Int := fraction.length - dropped.length
  (scale 3 (BlockScript.Number.ofNat significand) (skipped.length - used + exponent)).map
    (BlockScript.Number.signed negative)

/-- A whole number: a word if it fits one, and a double otherwise; minus zero is a double. -/
def whole? (negative : Bool) (digits : List Char) : Option Number :=
  let n := natOfDigits 10 digits
  if !negative && n ≤ maxWord then some (.whole n)
  else if negative && 0 < n && n ≤ Nat.pow 2 63 then some (.negative n)
  else (double? negative digits [] 0).map .double

/-- A number, or the leaf without a value when it is out of range. -/
def ofNumber? : Option Number → Json
  | some n => .number n
  | none => .broken

/-- A number as JSON spells it; `none` when the characters do not spell one. -/
def number? (cs : List Char) : Option Json :=
  let (negative, cs) :=
    match cs with
    | '-' :: rest => (true, rest)
    | _ => (false, cs)
  let digits := cs.takeWhile isDecimalDigit
  let rest := cs.dropWhile isDecimalDigit
  let leadingZero := 1 < digits.length && digits.head? == some '0'
  if digits.isEmpty || leadingZero then none
  else
    match rest with
    | [] => some (ofNumber? (whole? negative digits))
    | '.' :: after =>
      let fraction := after.takeWhile isDecimalDigit
      if fraction.isEmpty then none
      else
        let rest := after.dropWhile isDecimalDigit
        (BlockScript.Number.exponent? (natOfDigits 10) rest).map fun e =>
          ofNumber? ((double? negative digits fraction e).map .double)
    | rest =>
      (BlockScript.Number.exponent? (natOfDigits 10) rest).map fun e =>
        ofNumber? ((double? negative digits [] e).map .double)

/-! ## 2. Tokens -/

/-- A token: a bracket or separator, or a scalar. -/
inductive Token
  | openArray
  | closeArray
  | openObject
  | closeObject
  | comma
  | colon
  /-- A string; `none` when it holds half of a surrogate pair. -/
  | text (s : Option String)
  | scalar (j : Json)

/-- A run of characters that is neither blank, bracket, separator nor quote. -/
def bare? (run : List Char) : Option Token :=
  if run = "null".toList then some (.scalar .null)
  else if run = "true".toList then some (.scalar (.bool true))
  else if run = "false".toList then some (.scalar (.bool false))
  else (number? run).map .scalar

/-- The token that a single character makes. -/
def punctuation? (c : Char) : Option Token :=
  if c = '[' then some .openArray
  else if c = ']' then some .closeArray
  else if c = '\x7b' then some .openObject
  else if c = '\x7d' then some .closeObject
  else if c = ',' then some .comma
  else if c = ':' then some .colon
  else none

/-- The blanks between tokens. -/
def isSpace (c : Char) : Bool :=
  c = ' ' || c = '\n' || c = '\t' || c = '\r'

/-- What a backslash and this letter stand for. -/
def escape? (c : Char) : Option Char :=
  if c = '"' then some '"'
  else if c = '\\' then some '\\'
  else if c = '/' then some '/'
  else if c = 'b' then some (Char.ofNat 8)
  else if c = 'f' then some (Char.ofNat 12)
  else if c = 'n' then some '\n'
  else if c = 'r' then some '\r'
  else if c = 't' then some '\t'
  else none

/-- The characters of a string so far, in reverse, and whether half of a surrogate pair was lost
    among them. -/
structure Seen where
  chars : List Char := []
  halved : Bool := false

/-- One more character. -/
def Seen.push (s : Seen) (c : Char) : Seen := { s with chars := c :: s.chars }

/-- Half of a pair. -/
def Seen.halve (s : Seen) : Seen := { s with halved := true }

/-- The string that ends here. -/
def Seen.token (s : Seen) : Token :=
  .text (if s.halved then none else some (String.ofList s.chars.reverse))

/-- Where the scan stands: between tokens, in a bare run, in a string, after its backslash, or in
    the four digits of a code unit. `high` is the first half of a surrogate pair, after which a
    backslash, a `u` and the second half complete the character. -/
inductive Mode
  | between
  | bare (run : List Char)
  | inside (seen : Seen)
  | escaped (seen : Seen)
  | unit (seen : Seen) (high : Option Nat) (digits : List Char)
  | pairSlash (seen : Seen) (high : Nat)
  | pairMark (seen : Seen) (high : Nat)

/-- Whether the code unit is the first half of a surrogate pair. -/
def isHighHalf (n : Nat) : Bool := 0xd800 ≤ n && n ≤ 0xdbff

/-- Whether the code unit is the second half of a surrogate pair. -/
def isLowHalf (n : Nat) : Bool := 0xdc00 ≤ n && n ≤ 0xdfff

/-- The mode after the four digits of a code unit. -/
def afterUnit (seen : Seen) (high : Option Nat) (digits : List Char) : Mode :=
  let n := natOfDigits 16 digits
  match high with
  | some h =>
    if isLowHalf n then
      .inside (seen.push (Char.ofNat (0x10000 + (h - 0xd800) * 0x400 + (n - 0xdc00))))
    else .inside seen.halve
  | none =>
    if isHighHalf n then .pairSlash seen n
    else if isLowHalf n then .inside seen.halve
    else .inside (seen.push (Char.ofNat n))

/-- One character between tokens, or at the end of a bare run. -/
def startToken (c : Char) (done : List Token) : Mode × List Token :=
  if isSpace c then (.between, done)
  else if c = '"' then (.inside {}, done)
  else
    match punctuation? c with
    | some t => (.between, t :: done)
    | none => (.bare [c], done)

/-- One character of a string. -/
def stepInside (seen : Seen) (done : List Token) (c : Char) : Option (Mode × List Token) :=
  if c = '"' then some (.between, seen.token :: done)
  else if c = '\\' then some (.escaped seen, done)
  else if c.toNat < 0x20 then none
  else some (.inside (seen.push c), done)

/-- One character after the backslash of a string. -/
def stepEscaped (seen : Seen) (done : List Token) (c : Char) : Option (Mode × List Token) :=
  if c = 'u' then some (.unit seen none [], done)
  else (escape? c).map fun e => (.inside (seen.push e), done)

/-- Takes one character into account. The tokens found so far stand in reverse. -/
def Mode.step (m : Mode) (done : List Token) (c : Char) : Option (Mode × List Token) :=
  match m with
  | .between => some (startToken c done)
  | .bare run =>
    if isSpace c || c = '"' || (punctuation? c).isSome then
      (bare? run.reverse).map fun t => startToken c (t :: done)
    else some (.bare (c :: run), done)
  | .inside seen => stepInside seen done c
  | .escaped seen => stepEscaped seen done c
  | .unit seen high digits =>
    if !BlockScript.Number.isDigitIn 16 c then none
    else if digits.length < 3 then some (.unit seen high (digits ++ [c]), done)
    else some (afterUnit seen high (digits ++ [c]), done)
  | .pairSlash seen high =>
    if c = '\\' then some (.pairMark seen high, done) else stepInside seen.halve done c
  | .pairMark seen high =>
    if c = 'u' then some (.unit seen (some high) [], done) else stepEscaped seen.halve done c

/-- Cuts a text into tokens. -/
def Token.scanFrom (m : Mode) (done : List Token) : List Char → Option (List Token)
  | [] =>
    match m with
    | .between => some done.reverse
    | .bare run => (bare? run.reverse).map fun t => (t :: done).reverse
    | _ => none
  | c :: cs =>
    match m.step done c with
    | some (m, done) => Token.scanFrom m done cs
    | none => none

/-- The tokens of a text. -/
def Token.scan (s : String) : Option (List Token) :=
  Token.scanFrom .between [] s.toList

/-! ## 3. Grammar -/

/-- The members of an object so far, in reverse; `none` once a name had no value. -/
abbrev Members := Option (List (String × Json))

/-- One more member. -/
def Members.push (before : Members) (key : Option String) (j : Json) : Members :=
  match before, key with
  | some ms, some k => some ((k, j) :: ms)
  | _, _ => none

/-- The object that ends here. -/
def Members.close : Members → Json
  | some ms => .object ms.reverse
  | none => .broken

/-- A container that is still open, with what it holds so far. -/
inductive Frame
  | items (before : List Json)
  | members (before : Members) (key : Option String)

/-- What has been read, and what may come next. -/
inductive Reading
  /-- A value must come. -/
  | value (stack : List Frame)
  /-- An array was opened. -/
  | firstItem (stack : List Frame)
  /-- An object was opened. -/
  | firstName (stack : List Frame)
  /-- The name of a further member must come. -/
  | name (before : Members) (stack : List Frame)
  /-- The colon after a name must come. -/
  | colon (before : Members) (key : Option String) (stack : List Frame)
  /-- A value is complete. -/
  | complete (value : Json) (stack : List Frame)

/-- The value of a string. -/
def ofText : Option String → Json
  | some s => .string s
  | none => .broken

/-- A token where a value must come. -/
def Reading.stepValue (stack : List Frame) : Token → Option Reading
  | .scalar j => some (.complete j stack)
  | .text s => some (.complete (ofText s) stack)
  | .openArray => some (.firstItem stack)
  | .openObject => some (.firstName stack)
  | _ => none

/-- A token after a complete value. -/
def Reading.stepComplete (j : Json) : List Frame → Token → Option Reading
  | .items before :: stack, .comma => some (.value (.items (j :: before) :: stack))
  | .items before :: stack, .closeArray => some (.complete (.array (j :: before).reverse) stack)
  | .members before key :: stack, .comma => some (.name (before.push key j) stack)
  | .members before key :: stack, .closeObject =>
    some (.complete (before.push key j).close stack)
  | _, _ => none

/-- Takes one token into account. -/
def Reading.step : Reading → Token → Option Reading
  | .value stack, t => stepValue stack t
  | .firstItem stack, .closeArray => some (.complete (.array []) stack)
  | .firstItem stack, t => stepValue (.items [] :: stack) t
  | .firstName stack, .closeObject => some (.complete (.object []) stack)
  | .firstName stack, .text s => some (.colon (some []) s stack)
  | .name before stack, .text s => some (.colon before s stack)
  | .colon before key stack, .colon => some (.value (.members before key :: stack))
  | .complete j stack, t => stepComplete j stack t
  | _, _ => none

/-- Takes all tokens into account. -/
def Reading.run (r : Reading) : List Token → Option Reading
  | [] => some r
  | t :: ts =>
    match r.step t with
    | some r => Reading.run r ts
    | none => none

/-- The tree that a text spells, if it is JSON. -/
def read? (s : String) : Option Json :=
  match (Token.scan s).bind (Reading.run (.value [])) with
  | some (.complete j []) => some j
  | _ => none

/-- How many containers may stand inside each other where a text is read in full. -/
def maxDepth : Nat := 127

/-- The value that a text spells: its tree in canonical form, if it fits. -/
def parse? (s : String) : Option Json :=
  (read? s).bind fun j => if j.fits maxDepth then some j.canonical else none

end BlockScript.Json
