import BlockScript.Number.Degrees
import BlockScript.Script.Expr
import BlockScript.Value.Compare

/-!
# Operators

What the operators of expressions compute, once their operands are values.
-/

namespace BlockScript

/-- Arithmetic on doubles; the remainder has the sign of the divisor. -/
def Arithmetic.apply (op : Arithmetic) (a b : Float) : Float :=
  match op with
  | .add => a + b
  | .subtract => a - b
  | .multiply => a * b
  | .divide => a / b
  | .mod =>
    let r := Number.rem a b
    if r != 0.0 && (decide (r < 0.0) != decide (b < 0.0)) then r + b else r

/-- Whether two values stand in the relation. -/
def Relation.holds (op : Relation) (a b : Value) : Bool :=
  match op with
  | .less => a.lessThan b
  | .greater => a.greaterThan b
  | .equal => a.equals b

/-- The nearest whole number, a half going up. -/
def Number.roundHalfUp (x : Float) : Float := Number.floor (x + 0.5)

/-- Ten decimals of a number. -/
def Number.tidy (x : Float) : Float := Number.round (x * 1e10) / 1e10

/-- The tangent of degrees, infinite where the circle has none. -/
def Number.tangent (degrees : Float) : Float :=
  let turn := Number.remUp degrees 360.0
  if turn == 90.0 then Number.infinity
  else if turn == 270.0 then -Number.infinity
  else tidy (Float.tan (toRadians degrees))

/-- The functions of one number; angles are in degrees. -/
def MathFn.apply (op : MathFn) (x : Float) : Float :=
  match op with
  | .abs => x.abs
  | .floor => Number.floor x
  | .ceiling => Number.ceil x
  | .sqrt => x.sqrt
  | .sin => Number.tidy (Float.sin (Number.toRadians x))
  | .cos => Number.tidy (Float.cos (Number.toRadians x))
  | .tan => Number.tangent x
  | .asin => Number.toDegrees (Float.asin x)
  | .acos => Number.toDegrees (Float.acos x)
  | .atan => Number.toDegrees (Float.atan x)
  | .ln => Float.log x
  | .log => Float.log10 x
  | .exp => Float.exp x
  | .pow10 => Float.pow 10.0 x

end BlockScript
