import BlockScript.Value.Basic

/-!
# Slots

Each input of a block has a kind, to which whatever fills it is converted; an input that nothing
fills takes the kind's default.
-/

namespace BlockScript

/-- The kind of an input. -/
inductive Slot
  /-- Text. -/
  | text
  /-- A number, never one that is not a number. -/
  | number
  /-- A truth value. -/
  | boolean
  /-- Whatever comes. -/
  | any
  /-- The contents of a list, as text. -/
  | list
  /-- A 24-bit colour. -/
  | color
  deriving DecidableEq, Repr

namespace Slot

/-- The word by which listings name the kind. -/
def name : Slot → String
  | .text => "String"
  | .number => "Number"
  | .boolean => "Boolean"
  | .any => "Any"
  | .list => "List"
  | .color => "Color"

/-- What an input holds when nothing fills it. -/
def default : Slot → Value
  | .number | .color => .number 0.0
  | .boolean => .boolean false
  | .text | .any | .list => Value.empty

/-- Converts a value to the kind. -/
def coerce : Slot → Value → Value
  | .number, v => .number v.toNumber
  | .boolean, v => .boolean v.toBool
  | .color, v => .number (Number.ofNat v.toColor)
  | .text, v | .list, v => .text v.toText
  | .any, v => v

end Slot

end BlockScript
