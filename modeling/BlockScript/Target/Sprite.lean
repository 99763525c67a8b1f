import BlockScript.Error
import BlockScript.Number.Degrees
import BlockScript.Script.Menu

/-!
# Sprites

What a sprite has and the stage has not: a place, a direction, a size, a pen. The stage is 480 wide
and 360 high around its middle; a sprite stays within twice that.
-/

namespace BlockScript

/-- Half the width of the stage. -/
def stageHalfWidth : Float := 240.0

/-- Half the height of the stage. -/
def stageHalfHeight : Float := 180.0

/-- A place on the stage. -/
structure Point where
  x : Float
  y : Float

/-- Whether two places are the same. -/
def Point.same (p q : Point) : Bool := p.x == q.x && p.y == q.y

/-- A sprite's pen. -/
structure Pen where
  /-- Whether moving draws. -/
  down : Bool := false
  /-- A 24-bit colour. -/
  color : Nat := 0x0000ff
  size : Float := 1.0

/-- The size that a pen can have, nearest to a number. -/
def Pen.clampSize (size : Float) : Float := Number.clamp 1.0 1200.0 size

/-- What a sprite has and the stage has not. -/
structure Sprite where
  x : Float
  y : Float
  /-- Degrees clockwise from up. -/
  direction : Float
  /-- In percent. -/
  size : Float
  visible : Bool
  rotationStyle : RotationStyle
  pen : Pen := {}
  /-- The sprite that a clone was made from. -/
  cloneOf : Option TargetId := none

namespace Sprite

/-- Where the sprite is. -/
def place (s : Sprite) : Point := ⟨s.x, s.y⟩

/-- Moves to the place nearest to a point within twice the stage. -/
def moveTo (s : Sprite) (p : Point) : Sprite :=
  { s with
    x := Number.clamp (-(stageHalfWidth * 2.0)) (stageHalfWidth * 2.0) p.x
    y := Number.clamp (-(stageHalfHeight * 2.0)) (stageHalfHeight * 2.0) p.y }

/-- Points in a direction, if it is a number. -/
def setDirection (s : Sprite) (degrees : Float) : Sprite :=
  if degrees.isFinite then { s with direction := Number.wrapDegrees degrees } else s

/-- Takes the size nearest to a number. -/
def setSize (s : Sprite) (size : Float) : Sprite :=
  { s with size := Number.clamp 5.0 535.0 size }

/-- One with the sign of a number. -/
def signOf (x : Float) : Float := if Number.isNegative x then -1.0 else 1.0

/-- Whether a coordinate has reached an edge, which lies so far from the middle. -/
def atEdge (edge x : Float) : Bool := edge ≤ x.abs

/-- The part of a direction along one axis, turned back at an edge. -/
def turnedBack (edge x part : Float) : Float :=
  if atEdge edge x then -part.abs * signOf x else part

/-- A coordinate pulled back to the edge that it has reached. -/
def pulledBack (edge x : Float) : Float :=
  if atEdge edge x then edge * signOf x else x

/-- Bounces off the edges that the sprite has reached. -/
def bounce (s : Sprite) : Sprite :=
  let radians := Number.toRadians (90.0 - s.direction)
  let dx := turnedBack stageHalfWidth s.x radians.cos
  let dy := turnedBack stageHalfHeight s.y radians.sin
  let pulled :=
    { s with x := pulledBack stageHalfWidth s.x, y := pulledBack stageHalfHeight s.y }
  if atEdge stageHalfWidth s.x || atEdge stageHalfHeight s.y then
    pulled.setDirection (90.0 - Number.toDegrees (Float.atan2 dy dx))
  else s

end Sprite

end BlockScript
