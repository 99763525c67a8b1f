/-!
# Clocks

A clock tells seconds since it started. A fixed clock moves by one step at the end of each frame,
and tells the same time until then. A wall clock tells its readings one after the other, each as it
is asked for.
-/

namespace BlockScript

/-- What tells the time. -/
inductive Clock
  /-- Moves by `step` at the end of each frame. -/
  | fixed (now step : Float)
  /-- Tells the readings in order, of which some are taken. -/
  | wall (readings : Nat → Float) (taken : Nat)

namespace Clock

/-- The time, and the clock after telling it. -/
def read : Clock → Float × Clock
  | .fixed now step => (now, .fixed now step)
  | .wall readings taken => (readings taken, .wall readings (taken + 1))

/-- The clock after a frame. -/
def advance : Clock → Clock
  | .fixed now step => .fixed (now + step) step
  | c => c

end Clock

end BlockScript
