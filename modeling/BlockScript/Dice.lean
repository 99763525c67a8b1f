import BlockScript.Number.Units

/-!
# Dice

Chance is a sequence of 64-bit words, taken one after the other. Where the words come from is left
to whoever starts a run.
-/

namespace BlockScript

/-- A sequence of words, of which some are taken. -/
structure Dice where
  words : Nat → UInt64
  taken : Nat := 0

namespace Dice

/-- The next word. -/
def next (d : Dice) : UInt64 × Dice :=
  (d.words d.taken, { d with taken := d.taken + 1 })

/-- A number below a bound that is not zero. -/
def below (d : Dice) (bound : Nat) : Nat × Dice :=
  (d.next.1.toNat % bound, d.next.2)

/-- A number from zero up to but not including one. -/
def unit (d : Dice) : Float × Dice :=
  (Number.nearest (d.next.1.toNat / Nat.pow 2 11) (Nat.pow 2 53), d.next.2)

/-- What is drawn is below the bound. -/
theorem below_lt (d : Dice) {bound : Nat} (h : 0 < bound) : (d.below bound).1 < bound :=
  Nat.mod_lt _ h

end Dice

end BlockScript
