import BlockScript.Number.Decimal
import BlockScript.Table
import BlockScript.Text.Quoted

/-!
# JSON trees

A tree keeps the members of an object in the order of the text, repeated names included, because
reading a record refuses a repeated name where a table takes the last one. Text of the form of JSON
that has no value (a number out of range, half of a surrogate pair) is a leaf of its own: it may
stand where nobody reads it.

* `Json.fits`: whether a tree can be read in full, down to a given depth;
* `Json.canonical`: the tree as a value, each object sorted by name and its last members kept;
* `Json.text`: the compact text of a tree;
* `Json.shape`: a tree as error messages show it.
-/

namespace BlockScript

/-- A number in a tree: whole numbers that fit a word stay whole, all others are doubles. -/
inductive Json.Number
  /-- A whole number of at most sixty-four bits. -/
  | whole (n : Nat)
  /-- A whole number below zero; the magnitude is at most `2 ^ 63`. -/
  | negative (magnitude : Nat)
  /-- Any other number. -/
  | double (x : Float)

/-- A JSON tree. -/
inductive Json
  | null
  | bool (b : Bool)
  | number (n : Json.Number)
  | string (s : String)
  | array (items : List Json)
  | object (members : List (String × Json))
  /-- Text of the right form that stands for nothing. -/
  | broken
  deriving Inhabited

namespace Json

/-! ## 1. Numbers -/

/-- A number as a double. -/
def Number.toFloat : Number → Float
  | .whole n => BlockScript.Number.ofNat n
  | .negative m => -BlockScript.Number.ofNat m
  | .double x => x

/-- A double in a tree shows a point or an exponent, and the exponent its sign; a tie goes to the
    even digit. -/
def doubleLayout : BlockScript.Number.Layout where
  tie := .even
  positional place := -4 ≤ place && place ≤ 16
  pointZero := true
  plus := "+"
  nan := "null"
  infinity := "null"
  zero := "0.0"
  negativeZero := "-0.0"

/-- The text of a number. -/
def Number.text : Number → String
  | .whole n => toString n
  | .negative m => "-" ++ toString m
  | .double x => doubleLayout.text x

/-! ## 2. Objects -/

/-- The first member with the name. -/
def member? (name : String) : Json → Option Json
  | .object members => (members.find? fun m => m.1 == name).map (·.2)
  | _ => none

mutual

/-- The tree with the members of every object sorted by name, the last of equal names kept. -/
def canonical : Json → Json
  | .array items => .array (canonicalItems items)
  | .object members => .object (canonicalMembers members [])
  | j => j

/-- `canonical` of each item. -/
def canonicalItems : List Json → List Json
  | [] => []
  | j :: rest => j.canonical :: canonicalItems rest

/-- Puts the canonical members into a sorted list, one after the other. -/
def canonicalMembers : List (String × Json) → List (String × Json) → List (String × Json)
  | [], sorted => sorted
  | (k, j) :: rest, sorted => canonicalMembers rest (Table.putEntry k j.canonical sorted)

end

mutual

/-- Whether the tree can be read in full: no leaf without a value, and at most `room` containers
    inside each other. -/
def fits (room : Nat) : Json → Bool
  | .array items => 0 < room && fitItems (room - 1) items
  | .object members => 0 < room && fitMembers (room - 1) members
  | .broken => false
  | _ => true

/-- Whether each item fits. -/
def fitItems (room : Nat) : List Json → Bool
  | [] => true
  | j :: rest => j.fits room && fitItems room rest

/-- Whether each member fits. -/
def fitMembers (room : Nat) : List (String × Json) → Bool
  | [] => true
  | (_, j) :: rest => j.fits room && fitMembers room rest

end

/-! ## 3. Text -/

/-- What a string in a tree's text writes for one character. -/
def escapeChar (c : Char) : List Char :=
  if c = '"' then ['\\', '"']
  else if c = '\\' then ['\\', '\\']
  else if c = '\n' then ['\\', 'n']
  else if c = '\r' then ['\\', 'r']
  else if c = '\t' then ['\\', 't']
  else if c.toNat = 8 then ['\\', 'b']
  else if c.toNat = 12 then ['\\', 'f']
  else if c.toNat < 0x20 then
    ['\\', 'u', '0', '0'] ++ (if c.toNat < 16 then ['0'] else []) ++ Text.hexDigits c.toNat
  else [c]

/-- A string in a tree's text. -/
def stringText (s : String) : String :=
  String.ofList ('"' :: (s.toList.flatMap escapeChar ++ ['"']))

mutual

/-- The compact text of a tree. -/
def text : Json → String
  | .null => "null"
  | .bool b => if b then "true" else "false"
  | .number n => n.text
  | .string s => stringText s
  | .array items => "[" ++ String.intercalate "," (textItems items) ++ "]"
  | .object members => "\x7b" ++ String.intercalate "," (textMembers members) ++ "\x7d"
  | .broken => ""

/-- The texts of the items. -/
def textItems : List Json → List String
  | [] => []
  | j :: rest => j.text :: textItems rest

/-- The texts of the members. -/
def textMembers : List (String × Json) → List String
  | [] => []
  | (k, j) :: rest => (stringText k ++ ":" ++ j.text) :: textMembers rest

end

mutual

/-- A tree as error messages show it: each part under the name of its kind. -/
def shape : Json → String
  | .null => "Null"
  | .bool b => "Bool(" ++ (if b then "true" else "false") ++ ")"
  | .number n => "Number(" ++ n.text ++ ")"
  | .string s => "String(" ++ Text.quoted s ++ ")"
  | .array items => "Array [" ++ String.intercalate ", " (shapeItems items) ++ "]"
  | .object members => "Object \x7b" ++ String.intercalate ", " (shapeMembers members) ++ "\x7d"
  | .broken => ""

/-- The shapes of the items. -/
def shapeItems : List Json → List String
  | [] => []
  | j :: rest => j.shape :: shapeItems rest

/-- The shapes of the members, each after its quoted name. -/
def shapeMembers : List (String × Json) → List String
  | [] => []
  | (k, j) :: rest => (Text.quoted k ++ ": " ++ j.shape) :: shapeMembers rest

end

/-- The shape of what may be missing. -/
def shapeOption : Option Json → String
  | none => "None"
  | some j => "Some(" ++ j.shape ++ ")"

end Json

end BlockScript
