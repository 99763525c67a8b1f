import BlockScript.Text.Blank

/-!
# Menus

A menu is a finite choice that projects spell as text. Reading an entry ignores the case of the
letters a to z and blanks around it; the spelling in the table is the canonical one.
-/

namespace BlockScript

/-- A finite choice with a spelling for each entry. -/
class Menu (α : Type) where
  /-- Every entry, in order. -/
  all : List α
  /-- The canonical spelling. -/
  text : α → String
  /-- The word by which listings name the entry. -/
  name : α → String

namespace Menu

variable {α : Type} [Menu α]

/-- The entry that a text spells. -/
def parse? (s : String) : Option α :=
  (all (α := α)).find? fun entry => Text.eqIgnoringAsciiCase (Text.trim s) (text entry)

end Menu

/-- Functions of one number. -/
inductive MathFn
  | abs
  | floor
  | ceiling
  | sqrt
  | sin
  | cos
  | tan
  | asin
  | acos
  | atan
  | ln
  | log
  | exp
  | pow10
  deriving DecidableEq, Repr

instance : Menu MathFn where
  all := [.abs, .floor, .ceiling, .sqrt, .sin, .cos, .tan, .asin, .acos, .atan, .ln, .log, .exp,
    .pow10]
  text
    | .abs => "abs"
    | .floor => "floor"
    | .ceiling => "ceiling"
    | .sqrt => "sqrt"
    | .sin => "sin"
    | .cos => "cos"
    | .tan => "tan"
    | .asin => "asin"
    | .acos => "acos"
    | .atan => "atan"
    | .ln => "ln"
    | .log => "log"
    | .exp => "e ^"
    | .pow10 => "10 ^"
  name
    | .abs => "Abs"
    | .floor => "Floor"
    | .ceiling => "Ceiling"
    | .sqrt => "Sqrt"
    | .sin => "Sin"
    | .cos => "Cos"
    | .tan => "Tan"
    | .asin => "Asin"
    | .acos => "Acos"
    | .atan => "Atan"
    | .ln => "Ln"
    | .log => "Log"
    | .exp => "Exp"
    | .pow10 => "Pow10"

/-- Parts of the date and time of day. -/
inductive CurrentUnit
  | year
  | month
  | date
  | dayOfWeek
  | hour
  | minute
  | second
  deriving DecidableEq, Repr

instance : Menu CurrentUnit where
  all := [.year, .month, .date, .dayOfWeek, .hour, .minute, .second]
  text
    | .year => "YEAR"
    | .month => "MONTH"
    | .date => "DATE"
    | .dayOfWeek => "DAYOFWEEK"
    | .hour => "HOUR"
    | .minute => "MINUTE"
    | .second => "SECOND"
  name
    | .year => "Year"
    | .month => "Month"
    | .date => "Date"
    | .dayOfWeek => "DayOfWeek"
    | .hour => "Hour"
    | .minute => "Minute"
    | .second => "Second"

/-- Graphic effects. -/
inductive Effect
  | color
  | fisheye
  | whirl
  | pixelate
  | mosaic
  | brightness
  | ghost
  deriving DecidableEq, Repr

instance : Menu Effect where
  all := [.color, .fisheye, .whirl, .pixelate, .mosaic, .brightness, .ghost]
  text
    | .color => "color"
    | .fisheye => "fisheye"
    | .whirl => "whirl"
    | .pixelate => "pixelate"
    | .mosaic => "mosaic"
    | .brightness => "brightness"
    | .ghost => "ghost"
  name
    | .color => "Color"
    | .fisheye => "Fisheye"
    | .whirl => "Whirl"
    | .pixelate => "Pixelate"
    | .mosaic => "Mosaic"
    | .brightness => "Brightness"
    | .ghost => "Ghost"

/-- How a sprite's direction shows. -/
inductive RotationStyle
  | allAround
  | leftRight
  | dontRotate
  deriving DecidableEq, Repr

instance : Menu RotationStyle where
  all := [.allAround, .leftRight, .dontRotate]
  text
    | .allAround => "all around"
    | .leftRight => "left-right"
    | .dontRotate => "don't rotate"
  name
    | .allAround => "AllAround"
    | .leftRight => "LeftRight"
    | .dontRotate => "DontRotate"

/-- What a stop block stops. -/
inductive StopOption
  | all
  | thisScript
  | otherScripts
  | otherScriptsInStage
  deriving DecidableEq, Repr

instance : Menu StopOption where
  all := [.all, .thisScript, .otherScripts, .otherScriptsInStage]
  text
    | .all => "all"
    | .thisScript => "this script"
    | .otherScripts => "other scripts in sprite"
    | .otherScriptsInStage => "other scripts in stage"
  name
    | .all => "All"
    | .thisScript => "ThisScript"
    | .otherScripts => "OtherScripts"
    | .otherScriptsInStage => "OtherScriptsInStage"

end BlockScript
