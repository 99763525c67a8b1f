import BlockScript.Machine.Turn
import BlockScript.Script.Operator
import BlockScript.Text.Search

/-!
# Evaluating expressions

An expression has a value in a turn. To evaluate it may roll the dice, ask the clock, the calendar
and the host, and note the conversions of arguments; it changes no target.

* `Act.eval`: the value of an expression;
* `Act.sense`: what a script can know about its surroundings;
* `Act.propertyOf`: a property of a named target.
-/

namespace BlockScript.Act

variable {H : Type} [Host H]

/-! ## 1. Arguments -/

/-- The conversion of an argument of the innermost call, to a number or to a truth value, and the
    calls that know it. -/
def knownIn? : Slot → Expr → List Call → Option (Value × List Call)
  | .number, .argument i, c :: rest =>
    some (.number (c.numberArg i).1, (c.numberArg i).2 :: rest)
  | .boolean, .argument i, c :: rest =>
    some (.boolean (c.boolArg i).1, (c.boolArg i).2 :: rest)
  | _, _, _ => none

/-- The conversion of an argument, which is done once: to a number or to a truth value, inside a
    procedure. -/
def knownCast (slot : Slot) (e : Expr) : Act H (Option Value) := do
  match knownIn? slot e (← thread).calls with
  | some (v, calls) =>
    modifyThread fun t => { t with calls }
    return some v
  | none => return none

/-! ## 2. The surroundings -/

/-- A number about the sprite, zero for the stage. -/
def spriteNumber (f : Sprite → Float) : Act H Value := do
  return .number (((← current).sprite?.map f).getD 0.0)

/-- The number of the costume that a target shows. -/
def costumeNumber (t : Target) : Value := .number (Number.ofNat (t.costume + 1))

/-- What a script can know about its surroundings. -/
def sense : Sensor → Act H Value
  | .timer => do return .number (← ask Machine.timer)
  | .answer => do return .text (← machine).answer
  | .username => do return .text (← machine).options.username
  | .mouseX => do return .number (Host.mouse (← machine).host).x
  | .mouseY => do return .number (Host.mouse (← machine).host).y
  | .mouseDown => do return .boolean (Host.mouseDown (← machine).host)
  | .loudness => do return .number (Host.loudness (← machine).host)
  | .daysSince2000 => do return .number (← ask Machine.moment).daysSince2000
  | .current unit => do return .number (Number.ofInt ((← ask Machine.moment).part unit))
  | .x => spriteNumber (·.x)
  | .y => spriteNumber (·.y)
  | .direction => spriteNumber (·.direction)
  | .size => spriteNumber fun s => Number.round s.size
  | .volume => do return .number (← current).volume
  | .costumeNumber => do return costumeNumber (← current)
  | .costumeName => do return .text (← current).costumeName
  | .backdropNumber => do return ((← machine).stage?.map costumeNumber).getD (.number 0.0)
  | .backdropName => do return .text (((← machine).stage?.map Target.costumeName).getD "")

/-- A property of a target; what is not a property is the name of a variable. -/
def property (t : Target) (name : String) : Value :=
  match t.body, name with
  | .stage _, "backdrop #" => costumeNumber t
  | .stage _, "backdrop name" => .text t.costumeName
  | .sprite s, "x position" => .number s.x
  | .sprite s, "y position" => .number s.y
  | .sprite s, "direction" => .number s.direction
  | .sprite s, "size" => .number (Number.round s.size)
  | .sprite _, "costume #" => costumeNumber t
  | .sprite _, "costume name" => .text t.costumeName
  | _, "volume" => .number t.volume
  | _, name => t.valueOf name

/-- A coordinate of a place. -/
def coordinate (p : Point) (name : String) : Value :=
  .number (if name = "y position" then p.y else p.x)

/-- A property of something named: the mouse, a place by chance, the stage, or a target. -/
def propertyOf (name object : String) : Act H Value := do
  if object = "_mouse_" then return coordinate (Host.mouse (← machine).host) name
  if object = "_random_" then return coordinate (← randomPlace) name
  let m ← machine
  let target? := if object = "_stage_" then m.stage? else m.find? object
  match target? with
  | none => return .number 0.0
  | some t => return property t name

/-! ## 3. Expressions -/

/-- A number by chance between two bounds; a whole one if both bounds are whole. -/
def randomBetween (a b : Value) : Act H Float := do
  let x := a.toNumber
  let y := b.toNumber
  let low := if x ≤ y then x else y
  let high := if x ≤ y then y else x
  if low == high then return low
  let unit ← roll Dice.unit
  if a.isWholeBound && b.isWholeBound then
    return low + Number.floor (unit * (high + 1.0 - low))
  return low + unit * (high - low)

/-- A letter of a text, counted from one. -/
def letter (index : Float) (text : String) : String :=
  if 1.0 ≤ index then
    match (Number.trunc? index).bind fun i => text.toList[(i - 1).toNat]? with
    | some c => String.singleton c
    | none => ""
  else ""

/-- The items of a list. -/
def items (list : Storage) : Act H (List Value) := do
  return (← owner list).items list.name

/-- The value of an expression. -/
def eval : Expr → Act H Value
  | .const v => return v
  | .variable s => do return (← owner s).valueOf s.name
  | .listItem list index => do
    let index ← eval index
    let i ← itemIndex (← items list).length index
    return Items.get (← items list) i
  | .listIndexOf list item => do
    let item ← eval item
    match (← items list).findIdx? fun v => v.equals item with
    | some i => return .number (Number.ofNat (i + 1))
    | none => return .number 0.0
  | .listLength list => do return .number (Number.ofNat (← items list).length)
  | .listContains list item => do
    let item ← eval item
    return .boolean ((← items list).any fun v => v.equals item)
  | .listContents list => do return .text (Items.contents (← items list))
  | .argument i => do
    match (← thread).calls with
    | [] => return .empty
    | c :: _ => return c.arg i
  | .register r => do return .number ((← thread).registers.get r)
  | .now => do return .number (← ask Machine.now)
  | .groupRunning => do
    match (← thread).registers.group with
    | some g => return .boolean ((← machine).isGroupRunning g)
    | none => return .boolean false
  | .ticketPending => do
    match (← thread).registers.ticket with
    | some k => return .boolean (← askHost fun h => Host.poll h k)
    | none => return .boolean false
  | .binary op lhs rhs => do
    let a ← eval lhs
    let b ← eval rhs
    return .number (op.apply a.toNumber b.toNumber)
  | .compare op lhs rhs => do
    let a ← eval lhs
    let b ← eval rhs
    return .boolean (op.holds a b)
  | .and lhs rhs => do
    if (← eval lhs).toBool then return .boolean (← eval rhs).toBool
    return .boolean false
  | .or lhs rhs => do
    if (← eval lhs).toBool then return .boolean true
    return .boolean (← eval rhs).toBool
  | .not e => do return .boolean !(← eval e).toBool
  | .math op arg => do return .number (op.apply (← eval arg).toNumber)
  | .round e => do return .number (Number.roundHalfUp (← eval e).toNumber)
  | .join lhs rhs => do
    let a ← eval lhs
    let b ← eval rhs
    return .text (a.toText ++ b.toText)
  | .letterOf index text => do
    let i ← eval index
    let t ← eval text
    return .text (letter i.toNumber t.toText)
  | .length e => do return .number (Number.ofNat (← eval e).toText.length)
  | .contains text needle => do
    let t ← eval text
    let n ← eval needle
    return .boolean (Text.containsIgnoringCase t.toText n.toText)
  | .random low high => do
    let a ← eval low
    let b ← eval high
    return .number (← randomBetween a b)
  | .sense s => sense s
  | .keyPressed key => do
    let k ← eval key
    return .boolean (Host.keyPressed (← machine).host k.toText)
  | .touching object => do
    let o ← eval object
    let target ← current
    match target.sprite? with
    | none => return .boolean false
    | some s =>
      let view : SpriteView := { name := target.name, place := s.place, size := s.size }
      return .boolean (Host.touching (← machine).host view o.toText)
  | .attribute name object => do
    let o ← eval object
    propertyOf name o.toText
  | .cast slot e => do
    match ← knownCast slot e with
    | some v => return v
    | none => return slot.coerce (← eval e)

/-- The value of an expression as a number. -/
def evalNumber (e : Expr) : Act H Float := do return (← eval e).toNumber

/-- The value of an expression as a text. -/
def evalText (e : Expr) : Act H String := do return (← eval e).toText

/-- The value of an expression as a truth value. -/
def evalBool (e : Expr) : Act H Bool := do return (← eval e).toBool

end BlockScript.Act
