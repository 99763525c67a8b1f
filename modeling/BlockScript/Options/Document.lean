import BlockScript.Number.Literal

/-!
# Settings documents

A settings document is a TOML text whose lines give values to keys. The values that any setting can
take are whole numbers, truth values and texts, so a document with a table, a dotted key, a date, a
fraction or an array in it is not a settings document.

* `Quoted`: texts in quotes, by the step that reads one piece of each of the four kinds;
* `integer?`: whole numbers, grouped by underscores, in four bases;
* `entries?`: the keys and values of a document, in order.
-/

namespace BlockScript.Settings

/-- What a key can be given. -/
inductive Setting
  | integer (n : Int)
  | boolean (b : Bool)
  | text (s : String)
  deriving DecidableEq, Repr

/-! ## 1. Lines -/

/-- Blanks inside a line. -/
def isSpace (c : Char) : Bool := c == ' ' || c == '\t'

/-- Characters that may stand anywhere in a line: everything but control characters, and the tab. -/
def isInline (c : Char) : Bool :=
  c == '\t' || (0x20 ≤ c.toNat && c.toNat != 0x7f)

/-- What follows the end of a line. -/
def newline? : List Char → Option (List Char)
  | '\n' :: rest => some rest
  | '\r' :: '\n' :: rest => some rest
  | _ => none

/-- What follows a line of which only blanks and a comment are left. -/
def endLine? (cs : List Char) : Option (List Char) :=
  let cs := cs.dropWhile isSpace
  let cs := if cs.head? = some '#' then cs.dropWhile isInline else cs
  if cs.isEmpty then some [] else newline? cs

/-! ## 2. Texts -/

/-- One piece of a text in quotes, and what follows it. -/
inductive Piece
  /-- Characters of the text. -/
  | more (chars rest : List Char)
  /-- The last characters, and the closing quotes. -/
  | close (chars rest : List Char)

/-- Reads pieces up to the closing one; each takes a character at least. -/
def pieces (step : List Char → Option Piece) : Nat → List Char → Option (List Char × List Char)
  | 0, _ => none
  | fuel + 1, cs =>
    match step cs with
    | none => none
    | some (.close chars rest) => some (chars, rest)
    | some (.more chars rest) =>
      (pieces step fuel rest).map fun (tail, rest) => (chars ++ tail, rest)

/-- A text in quotes, from behind the opening ones. -/
def quotedBy (step : List Char → Option Piece) (cs : List Char) : Option (String × List Char) :=
  (pieces step cs.length cs).map fun (chars, rest) => (String.ofList chars, rest)

/-- The character with a number in hexadecimal digits. -/
def charOfHex? (digits : List Char) : Option Char :=
  let n := Number.natOfDigits 16 digits
  if digits.all (Number.isDigitIn 16) && decide n.isValidChar then some (Char.ofNat n) else none

/-- What a letter after a backslash stands for. -/
def escape? : Char → Option Char
  | 'b' => some '\x08'
  | 't' => some '\t'
  | 'n' => some '\n'
  | 'f' => some '\x0c'
  | 'r' => some '\r'
  | '"' => some '"'
  | '\\' => some '\\'
  | _ => none

/-- The piece after a backslash. -/
def escaped? (cs : List Char) : Option Piece :=
  match cs with
  | [] => none
  | c :: rest =>
    let width := if c = 'u' then 4 else if c = 'U' then 8 else 0
    if width = 0 then (escape? c).map fun e => .more [e] rest
    else if rest.length < width then none
    else (charOfHex? (rest.take width)).map fun e => .more [e] (rest.drop width)

/-- A piece that stands for itself. -/
def plain? (c : Char) (rest : List Char) : Option Piece :=
  if isInline c then some (.more [c] rest) else none

/-- A piece of a text between double quotes. -/
def basic? : List Char → Option Piece
  | [] => none
  | '"' :: rest => some (.close [] rest)
  | '\\' :: rest => escaped? rest
  | c :: rest => plain? c rest

/-- A piece of a text between single quotes. -/
def literal? : List Char → Option Piece
  | [] => none
  | '\x27' :: rest => some (.close [] rest)
  | c :: rest => plain? c rest

/-- A piece that starts with quotes in a text of several lines, which three of them close; up to
    two more just before them belong to the text. -/
def quotes (quote : Char) (cs : List Char) : Option Piece :=
  let run := (cs.takeWhile (· == quote)).length
  if run < 3 then some (.more [quote] (cs.drop 1))
  else if 5 < run then none
  else some (.close (List.replicate (run - 3) quote) (cs.drop run))

/-- A line's end inside a text of several lines, or a piece that stands for itself. -/
def lineOrPlain? (cs : List Char) : Option Piece :=
  match newline? cs, cs with
  | some rest, _ => some (.more ['\n'] rest)
  | none, c :: rest => plain? c rest
  | none, [] => none

/-- Drops blanks and line ends, at most as many as given. -/
def skipLines : Nat → List Char → List Char
  | 0, cs => cs
  | fuel + 1, cs =>
    match newline? cs, cs with
    | some rest, _ => skipLines fuel rest
    | none, c :: rest => if isSpace c then skipLines fuel rest else cs
    | none, [] => []

/-- What a backslash at the end of a line joins: nothing of the blanks and line ends that follow. -/
def joined? (cs : List Char) : Option Piece :=
  (newline? (cs.dropWhile isSpace)).map fun rest => .more [] (skipLines rest.length rest)

/-- A piece of a text between three double quotes. -/
def basicLines? : List Char → Option Piece
  | '"' :: rest => quotes '"' ('"' :: rest)
  | '\\' :: rest =>
    match joined? rest with
    | some piece => some piece
    | none => escaped? rest
  | cs => lineOrPlain? cs

/-- A piece of a text between three single quotes. -/
def literalLines? : List Char → Option Piece
  | '\x27' :: rest => quotes '\x27' ('\x27' :: rest)
  | cs => lineOrPlain? cs

/-- What follows a line end right behind opening quotes, which does not count. -/
def afterFirstLine (cs : List Char) : List Char :=
  (newline? cs).getD cs

/-- A text in quotes of one line. -/
def line? : List Char → Option (String × List Char)
  | '"' :: rest => quotedBy basic? rest
  | '\x27' :: rest => quotedBy literal? rest
  | _ => none

/-- A text in quotes of any kind. -/
def text? : List Char → Option (String × List Char)
  | '"' :: '"' :: '"' :: rest => quotedBy basicLines? (afterFirstLine rest)
  | '\x27' :: '\x27' :: '\x27' :: rest => quotedBy literalLines? (afterFirstLine rest)
  | cs => line? cs

/-! ## 3. Numbers -/

/-- The parts between underscores. -/
def groups : List Char → List (List Char)
  | [] => [[]]
  | '_' :: rest => [] :: groups rest
  | c :: rest =>
    match groups rest with
    | g :: gs => (c :: g) :: gs
    | [] => [[c]]

/-- Digits of a base, where single underscores may stand between digits. -/
def digits? (base : Nat) (cs : List Char) : Option (List Char) :=
  let parts := groups cs
  if parts.all fun g => !g.isEmpty && g.all (Number.isDigitIn base) then some parts.flatten
  else none

/-- A natural number in a base of computers. -/
def based? (base : Nat) (cs : List Char) : Option Int :=
  (digits? base cs).map fun ds => (Number.natOfDigits base ds : Int)

/-- A decimal number, which starts with zero only if it is zero. -/
def decimal? (cs : List Char) : Option Int :=
  match digits? 10 cs with
  | some ds =>
    if ds.head? = some '0' && 1 < ds.length then none else some (Number.natOfDigits 10 ds)
  | none => none

/-- A whole number of 64 bits with its sign. -/
def integer? (cs : List Char) : Option Int :=
  let n? : Option Int :=
    match cs with
    | '0' :: 'x' :: rest => based? 16 rest
    | '0' :: 'o' :: rest => based? 8 rest
    | '0' :: 'b' :: rest => based? 2 rest
    | '+' :: rest => decimal? rest
    | '-' :: rest => (decimal? rest).map fun n => -n
    | cs => decimal? cs
  n?.filter fun n => decide (-(Nat.pow 2 63 : Nat) ≤ n ∧ n < (Nat.pow 2 63 : Nat))

/-! ## 4. Documents -/

/-- A word without quotes, as a value. -/
def bare? (word : List Char) : Option Setting :=
  match String.ofList word with
  | "true" => some (.boolean true)
  | "false" => some (.boolean false)
  | _ => (integer? word).map .integer

/-- A value, and what follows it. -/
def value? (cs : List Char) : Option (Setting × List Char) :=
  if cs.head? = some '"' || cs.head? = some '\x27' then
    (text? cs).map fun (s, rest) => (.text s, rest)
  else
    let ends (c : Char) : Bool := isSpace c || c == '#' || c == '\n' || c == '\r'
    (bare? (cs.takeWhile fun c => !ends c)).map fun v => (v, cs.dropWhile fun c => !ends c)

/-- Characters of a key without quotes. -/
def isKeyChar (c : Char) : Bool :=
  c.isAlphanum || c == '_' || c == '-'

/-- A key, and what follows it. -/
def key? (cs : List Char) : Option (String × List Char) :=
  if cs.head? = some '"' || cs.head? = some '\x27' then line? cs
  else
    let word := cs.takeWhile isKeyChar
    if word.isEmpty then none else some (String.ofList word, cs.dropWhile isKeyChar)

/-- A line that gives a value to a key, and what follows it. -/
def entry? (cs : List Char) : Option ((String × Setting) × List Char) := do
  let (key, rest) ← key? cs
  match rest.dropWhile isSpace with
  | '=' :: rest =>
    let (value, rest) ← value? (rest.dropWhile isSpace)
    return ((key, value), ← endLine? rest)
  | _ => none

/-- The entries of a document; each line takes a character at least. -/
def lines? : Nat → List Char → Option (List (String × Setting))
  | 0, cs => if cs.isEmpty then some [] else none
  | fuel + 1, cs =>
    let cs := cs.dropWhile isSpace
    if cs.isEmpty then some []
    else
      match endLine? cs with
      | some rest => lines? fuel rest
      | none => do
        let (entry, rest) ← entry? cs
        return entry :: (← lines? fuel rest)

/-- The mark that may stand before a document. -/
def byteOrderMark : Char := Char.ofNat 0xfeff

/-- The keys and values of a document, in order. -/
def entries? (text : String) : Option (List (String × Setting)) :=
  let cs := text.toList
  let cs := if cs.head? = some byteOrderMark then cs.drop 1 else cs
  lines? (cs.length + 1) cs

end BlockScript.Settings
