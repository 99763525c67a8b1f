import BlockScript.Number.Units

/-!
# Degrees

Directions are degrees clockwise from up, kept above -180 and not above 180.
-/

namespace BlockScript.Number

/-- The ratio of a circle to its diameter. -/
def pi : Float := 3.141592653589793

/-- Degrees as radians. -/
def toRadians (degrees : Float) : Float := degrees * (pi / 180.0)

/-- Radians as degrees. -/
def toDegrees (radians : Float) : Float := radians * (180.0 / pi)

/-- The same direction, above -180 and not above 180. -/
def wrapDegrees (degrees : Float) : Float :=
  let wrapped := remUp (degrees + 180.0) 360.0 - 180.0
  if wrapped == -180.0 then 180.0 else wrapped

end BlockScript.Number
