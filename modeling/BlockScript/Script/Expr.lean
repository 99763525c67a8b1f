import BlockScript.Script.Menu
import BlockScript.Script.Slot

/-!
# Expressions

What a script computes without passing control: constants, storage, registers, operators, sensors
and questions to the host.
-/

namespace BlockScript

/-- A place in a script where it can be resumed, and the index of the continuation cut there. -/
abbrev Label := Nat

/-- A label as listings show it. -/
def Label.show (l : Label) : String := "L" ++ toString l

/-- The position of a procedure in its target's table. -/
abbrev ProcId := Nat

/-- A procedure's position as listings show it. -/
def ProcId.show (p : ProcId) : String := "P" ++ toString p

/-- Who owns a variable or a list. -/
inductive Owner
  /-- The running sprite or clone. -/
  | target
  /-- The stage, on behalf of everyone. -/
  | stage
  deriving DecidableEq, Repr

/-- A variable or list: its owner and its declared name. -/
structure Storage where
  owner : Owner
  name : String
  deriving DecidableEq, Repr

/-- Storage of the running sprite. -/
def Storage.ofTarget (name : String) : Storage := ⟨.target, name⟩

/-- Storage of the stage. -/
def Storage.ofStage (name : String) : Storage := ⟨.stage, name⟩

/-- Scratch numbers of a script that waits. -/
inductive Register
  /-- Rounds left of a counted loop. -/
  | count
  /-- When a timed wait began. -/
  | start
  /-- How long a timed wait lasts. -/
  | duration
  /-- Set until a timed wait has yielded once. -/
  | first
  /-- Where a glide began. -/
  | fromX
  | fromY
  /-- Where a glide ends. -/
  | toX
  | toY
  deriving DecidableEq, Repr

/-- All registers, in order. -/
def Register.all : List Register :=
  [.count, .start, .duration, .first, .fromX, .fromY, .toX, .toY]

/-- Operators on two numbers. -/
inductive Arithmetic
  | add
  | subtract
  | multiply
  | divide
  | mod
  deriving DecidableEq, Repr

/-- Operators on two values that compare. -/
inductive Relation
  | less
  | greater
  | equal
  deriving DecidableEq, Repr

/-- Facts that a script can ask about its surroundings. -/
inductive Sensor
  | timer
  | answer
  | username
  | mouseX
  | mouseY
  | mouseDown
  | loudness
  | daysSince2000
  | current (unit : CurrentUnit)
  | x
  | y
  | direction
  | size
  | volume
  | costumeNumber
  | costumeName
  | backdropNumber
  | backdropName
  deriving DecidableEq, Repr

/-- Expressions. -/
inductive Expr
  /-- A constant. -/
  | const (v : Value)
  /-- A variable. -/
  | variable (s : Storage)
  /-- The item of a list at an index. -/
  | listItem (list : Storage) (index : Expr)
  /-- The position of an item in a list, zero if it is not there. -/
  | listIndexOf (list : Storage) (item : Expr)
  /-- The length of a list. -/
  | listLength (list : Storage)
  /-- Whether a list holds an item. -/
  | listContains (list : Storage) (item : Expr)
  /-- The items of a list as one text. -/
  | listContents (list : Storage)
  /-- An argument of the running procedure, by position. -/
  | argument (position : Nat)
  /-- A register. -/
  | register (r : Register)
  /-- The clock. -/
  | now
  /-- Whether threads of the remembered group are still at work. -/
  | groupRunning
  /-- Whether the remembered request is still pending. -/
  | ticketPending
  /-- Arithmetic. -/
  | binary (op : Arithmetic) (lhs rhs : Expr)
  /-- A comparison. -/
  | compare (op : Relation) (lhs rhs : Expr)
  /-- Conjunction; the right side is asked only if the left side holds. -/
  | and (lhs rhs : Expr)
  /-- Disjunction; the right side is asked only if the left side fails. -/
  | or (lhs rhs : Expr)
  /-- Negation. -/
  | not (e : Expr)
  /-- A function of one number. -/
  | math (op : MathFn) (arg : Expr)
  /-- The nearest whole number. -/
  | round (e : Expr)
  /-- Two texts in a row. -/
  | join (lhs rhs : Expr)
  /-- A letter of a text, counted from one. -/
  | letterOf (index text : Expr)
  /-- The number of characters of a text. -/
  | length (e : Expr)
  /-- Whether a text holds another, whatever the case. -/
  | contains (text needle : Expr)
  /-- A number drawn between two bounds. -/
  | random (low high : Expr)
  /-- A fact about the surroundings. -/
  | sense (s : Sensor)
  /-- Whether a key is held. -/
  | keyPressed (key : Expr)
  /-- Whether the sprite touches something. -/
  | touching (object : Expr)
  /-- A property of a named target. -/
  | attribute (property : String) (object : Expr)
  /-- A conversion to the kind of a slot. -/
  | cast (slot : Slot) (e : Expr)

namespace Expr

instance : Inhabited Expr := ⟨.now⟩

/-- A number as a constant. -/
def number (n : Float) : Expr := .const (.number n)

/-- A text as a constant. -/
def text (s : String) : Expr := .const (.text s)

/-- The value of a constant. -/
def const? : Expr → Option Value
  | .const v => some v
  | _ => none

end Expr

end BlockScript
